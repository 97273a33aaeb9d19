import SqlComposer.Clause
import SqlComposer.Proofs.Output.Spacing

/-!
# Marks in written text

* `Holds` : a text stands inside another; `Shows` : the mark of an issue does;
* `holds_intercalate`, `holds_tuple`, `holds_conditions`, `holds_closeItems` : written parts stand inside their clause;
* `holds_rowsClause` : so do columns and rows, if all columns have as many rows as the first;
* `Output.holds_push`, `Output.holds_push_of_piece`, `Output.holds_finish` : joining pieces and taking the white space
  around them away loses no part that neither starts nor ends with white space;
* `Output.shows_push`, `Output.shows_finish` : a mark is such a part.
-/

namespace SqlComposer

/-- The part stands inside the text. -/
def Holds (text part : String) : Prop :=
  part.toList <:+: text.toList

/-- The text shows an issue. -/
def Shows (text : String) (i : Issue) : Prop :=
  Holds text i.mark

theorem Holds.refl (text : String) : Holds text text :=
  List.infix_refl _

theorem Holds.trans {a b c : String} (h : Holds a b) (h' : Holds b c) : Holds a c :=
  List.IsInfix.trans h' h

theorem Shows.of_holds {text part : String} {i : Issue} (h : Shows part i) (hp : Holds text part) : Shows text i :=
  hp.trans h

theorem shows_mark (i : Issue) : Shows i.mark i :=
  .refl _

/-! ## Clauses -/

theorem holds_append_left {text part : String} (h : Holds text part) (before : String) : Holds (before ++ text) part := by
  have hsuffix : text.toList <:+ (before ++ text).toList := by
    rw [String.toList_append]
    exact List.suffix_append _ _
  exact List.IsInfix.trans h hsuffix.isInfix

theorem holds_append_right {text part : String} (h : Holds text part) (after : String) : Holds (text ++ after) part := by
  have hprefix : text.toList <+: (text ++ after).toList := by
    rw [String.toList_append]
    exact List.prefix_append _ _
  exact List.IsInfix.trans h hprefix.isInfix

theorem infix_intercalate {sep p : List Char} {ps : List (List Char)} (h : p ∈ ps) : p <:+: sep.intercalate ps := by
  induction ps with
  | nil => cases h
  | cons q ps ih =>
    cases ps with
    | nil =>
      obtain rfl := List.mem_singleton.1 h
      simp [List.intercalate]
    | cons r ps =>
      rw [List.intercalate_cons_cons]
      rcases List.mem_cons.1 h with rfl | h
      · rw [List.append_assoc]
        exact (List.prefix_append _ _).isInfix
      · exact (ih h).trans (List.suffix_append _ _).isInfix

theorem holds_intercalate {texts : List String} {text : String} (h : text ∈ texts) (sep : String) :
    Holds (sep.intercalate texts) text := by
  rw [Holds, String.toList_intercalate]
  exact infix_intercalate (List.mem_map_of_mem h)

variable {texts : List String} {text : String}

theorem holds_commaList (h : text ∈ texts) : Holds (commaList texts) text :=
  holds_intercalate h ", "

theorem holds_concat (h : text ∈ texts) : Holds (concat texts) text := by
  obtain ⟨before, after, rfl⟩ := List.append_of_mem h
  refine ⟨before.flatMap String.toList, after.flatMap String.toList, ?_⟩
  simp [concat]

theorem holds_tuple (h : text ∈ texts) : Holds (tuple texts) text :=
  holds_append_right (holds_append_left (holds_commaList h) "(") ")"

theorem holds_tupleFor (m : Modifier) (h : text ∈ texts) : Holds (tupleFor m texts) text := by
  have hne : texts.isEmpty = false := by
    cases texts with
    | nil => cases h
    | cons t ts => rfl
  simp only [tupleFor, hne, Bool.false_and, Bool.false_eq_true, if_false]
  exact holds_tuple h

theorem holds_conditions (word : String) (h : text ∈ texts) : Holds (conditions word texts) text := by
  have hne : texts.isEmpty = false := by
    cases texts with
    | nil => cases h
    | cons t ts => rfl
  simp only [conditions, hne, Bool.false_eq_true, if_false]
  exact holds_append_right (holds_append_left (holds_intercalate h _) "(") ")"

theorem holds_closeItems (m : Option Modifier) (h : text ∈ texts) : Holds (closeItems m texts) text := by
  unfold closeItems
  split
  · exact holds_conditions _ h
  · exact holds_conditions _ h
  · exact holds_tupleFor _ h
  · exact holds_tupleFor _ h
  · exact holds_commaList h

/-! ## Entries -/

/-- The text shows an issue in a column or in its value. -/
def ShowsInCell (cell : String × String) (i : Issue) : Prop :=
  Shows cell.1 i ∨ Shows cell.2 i

theorem shows_assignment {cell : String × String} {i : Issue} (h : ShowsInCell cell i) : Shows (assignment cell) i := by
  rcases h with h | h
  · exact holds_append_right (holds_append_right h " = ") cell.2
  · exact holds_append_left h (cell.1 ++ " = ")

theorem shows_comparison {cell : String × String} {i : Issue} (h : ShowsInCell cell i) (entry : String × Value) :
    Shows (comparison entry cell) i := by
  rcases h with h | h
  · exact holds_append_right (holds_append_right h _) cell.2
  · exact holds_append_left h _

theorem shows_valuesClause {cells : List (String × String)} {cell : String × String} {i : Issue}
    (hc : cell ∈ cells) (h : ShowsInCell cell i) : Shows (valuesClause cells) i := by
  rcases h with h | h
  · have hcolumn := holds_tuple (List.mem_map_of_mem (f := Prod.fst) hc)
    exact h.of_holds (holds_append_right (holds_append_right hcolumn " VALUES ") _)
  · have hvalue := holds_tuple (List.mem_map_of_mem (f := Prod.snd) hc)
    exact h.of_holds (holds_append_left hvalue _)

/-- Columns with as many rows as the clause has stand in it with all their values. -/
theorem holds_rowsClause {height : Nat} {columns : List (String × List String)} {c : String × List String}
    (hc : c ∈ columns) (hheight : c.2.length = height) {part : String} (h : part = c.1 ∨ part ∈ c.2) :
    Holds (rowsClause height columns) part := by
  rcases h with rfl | h
  · have hcolumn := holds_tuple (List.mem_map_of_mem (f := Prod.fst) hc)
    exact holds_append_right (holds_append_right hcolumn " VALUES ") _
  · obtain ⟨n, hn, hpart⟩ := List.getElem_of_mem h
    have hget : c.2[n]? = some part := by rw [List.getElem?_eq_getElem hn, hpart]
    have hcell : part ∈ columns.filterMap fun c => c.2[n]? := List.mem_filterMap.2 ⟨c, hc, hget⟩
    have hn' : n ∈ List.range height := List.mem_range.2 (hheight ▸ hn)
    have hrow : tuple (columns.filterMap fun c => c.2[n]?) ∈
        (List.range height).map fun i => tuple (columns.filterMap fun c => c.2[i]?) := List.mem_map.2 ⟨n, hn', rfl⟩
    exact holds_append_left ((holds_commaList hrow).trans (holds_tuple hcell)) _

/-! ## Joined pieces -/

namespace Output

variable {o : Output} {piece part : String}

/-- The text so far is never changed. -/
theorem holds_push (piece : String) (o : Output) (h : Holds o.text part) : Holds (o.push piece).text part := by
  obtain ⟨blank, -, hpush⟩ := o.exists_push_append piece
  rw [Holds, hpush]
  exact List.IsInfix.trans h (List.prefix_append _ _).isInfix

/-- A trimmed part of a piece stands in the text with the piece. -/
theorem holds_push_of_piece (h : Holds piece part) (hp : Text.IsTrimmed part.toList) (o : Output) :
    Holds (o.push piece).text part := by
  obtain ⟨blank, -, hpush⟩ := o.exists_push_append piece
  rw [Holds, hpush, ← List.append_assoc]
  exact (hp.infix_dropBlank h).trans (List.suffix_append _ _).isInfix

theorem holds_finish (h : Holds o.text part) (hp : Text.IsTrimmed part.toList) : Holds o.finish part := by
  rw [Holds, finish, String.toList_ofList]
  exact hp.infix_strip h

theorem isTrimmed_mark (i : Issue) : Text.IsTrimmed i.mark.toList where
  head c hc := by
    have hstar : i.mark.toList.head? = some '*' := by simp [Issue.mark]
    cases hstar.symm.trans hc
    decide
  last c hc := by
    have hmark : i.mark.toList = ("**".toList ++ i.message.toList ++ ['*']) ++ ['*'] := by simp [Issue.mark]
    rw [hmark, List.getLast?_concat] at hc
    cases hc
    decide

theorem shows_push {i : Issue} (h : Shows piece i) (o : Output) : Shows (o.push piece).text i :=
  holds_push_of_piece h (isTrimmed_mark i) o

theorem shows_finish {i : Issue} (h : Shows o.text i) : Shows o.finish i :=
  holds_finish h (isTrimmed_mark i)

end Output

/-- A statement stands inside the statement with its row bounds. -/
theorem infix_bounded (k : Dialect.Kind) (b : RowBounds) (sql : List Char) : sql <:+: k.bounded b sql := by
  cases k with
  | sqlserver =>
    simp only [Dialect.Kind.bounded]
    split
    · exact (List.suffix_append _ _).isInfix.trans (List.prefix_append _ _).isInfix
    · rw [List.append_assoc]
      exact (List.prefix_append _ _).isInfix
  | _ =>
    simp only [Dialect.Kind.bounded, List.append_assoc]
    exact (List.prefix_append _ _).isInfix

end SqlComposer
