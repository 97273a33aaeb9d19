import SqlComposer.Proofs.Pass.Placeholder
import SqlComposer.Proofs.Render.Parts

/-!
# Rows of a statement

Behind the first text of a statement that inserts rows, the first mapping is written with its columns and each further
one as a tuple. A comma joins a tuple to the row before only if no token stands between them.

* `Output.push_apart` : a piece behind a space; `Output.opening` : the text of two tokens; `Output.finish_append` : a
  text that is only added to;
* `Pass.behindFront`, `run_front` : a pass over the first text; `Pass.atRow`, `run_firstRow` : over the first row;
* `LastRow.separator`, `run_row`, `run_rows` : a pass over further rows, from the state behind a row;
* `run_lastRow`, `outcome_firstRow`, `run_lastModifier` : the end of the statement.
-/

namespace SqlComposer

/-! ## Tuples -/

theorem head?_tuple (texts : List String) : (tuple texts).toList.head? = some '(' := by
  simp [tuple]

theorem getLast?_tuple (texts : List String) : (tuple texts).toList.getLast? = some ')' := by
  rw [tuple, String.toList_append, List.getLast?_append]
  rfl

theorem head?_valuesClause (cells : List (String × String)) : (valuesClause cells).toList.head? = some '(' := by
  simp [valuesClause, tuple]

theorem getLast?_valuesClause (cells : List (String × String)) : (valuesClause cells).toList.getLast? = some ')' := by
  rw [valuesClause, String.toList_append, List.getLast?_append, getLast?_tuple, Option.some_or]

theorem tupleFor_list (texts : List String) : tupleFor .list texts = tuple texts := by
  simp [tupleFor]

/-- Parts behind the first have a comma and a space in front. -/
theorem commaList_cons (text : String) (texts : List String) :
    commaList (text :: texts) = text ++ concat (texts.map (", " ++ ·)) := by
  induction texts generalizing text with
  | nil => simp [commaList, concat]
  | cons other texts ih =>
    rw [commaList, String.intercalate_cons_cons, ← commaList, ih, List.map_cons, concat_cons, String.append_assoc,
      String.append_assoc]

/-! ## Joined pieces -/

namespace Output

/-- A piece that neither starts with white space nor joins the text stands behind a space. -/
theorem push_apart {o : Output} {piece : String} {c d : Char} (hc : o.text.toList.getLast? = some c)
    (hc' : (Text.isBlank c || opens c) = false) (hd : piece.toList.head? = some d)
    (hd' : (Text.isBlank d || closes d) = false) : o.endToken.push piece = ⟨o.text ++ " " ++ piece, false⟩ := by
  rw [Bool.or_eq_false_iff] at hc' hd'
  have hshown := Text.dropBlank_eq_of_head? hd hd'.1
  have hne : Text.dropBlank piece.toList ≠ [] := by
    rw [hshown]
    intro hnil
    rw [hnil] at hd
    cases hd
  have hjoins : joins o.text.toList (Text.dropBlank piece.toList) = false :=
    joins_eq_false hc hc'.1 (by rw [hc]; exact hc'.2) (by rw [hshown, hd]; exact hd'.2)
  rw [@push_of_not_joins o.endToken piece rfl hne hjoins, hshown, String.ofList_toList]
  rfl

theorem push_comma (o : Output) : o.endToken.push "," = ⟨o.text ++ ",", false⟩ := by
  have hjoins (text : List Char) : joins text [','] = true := by
    rw [joins, Bool.or_eq_true]
    exact .inr rfl
  have hshown : Text.dropBlank [','] = [','] := by decide
  simp [push, endToken, hshown, hjoins]

/-- A piece that does not start with white space stands at the end of the text. -/
theorem exists_push_eq (o : Output) {piece : String} {c : Char} (h : piece.toList.head? = some c)
    (hc : Text.isBlank c = false) : ∃ before, o.push piece = ⟨before ++ piece, false⟩ := by
  have hshown := Text.dropBlank_eq_of_head? h hc
  have hne : piece.toList ≠ [] := by
    intro hnil
    rw [hnil] at h
    cases h
  unfold push
  split
  · rw [hshown]
    simp only [List.isEmpty_iff, hne, if_false, String.ofList_toList]
    split
    · exact ⟨o.text, rfl⟩
    · exact ⟨o.text ++ " ", rfl⟩
  · exact ⟨o.text, rfl⟩

/-- What is added to a text that ends in no white space is added to the statement. -/
theorem finish_append {a b : String} {c d : Char} (ha : a.toList.getLast? = some c) (hc : Text.isBlank c = false)
    (hb : b.toList.getLast? = some d) (hd : Text.isBlank d = false) (e : Bool) :
    finish ⟨a ++ b, e⟩ = finish ⟨a, e⟩ ++ b := by
  have hne : Text.dropBlank a.toList ≠ [] := by
    intro hnil
    have hblank := Text.dropBlank_eq_nil_iff.1 hnil c (List.mem_of_getLast? ha)
    rw [hc] at hblank
    cases hblank
  have hshown : (Text.dropBlank a.toList).getLast? = some c := by
    obtain ⟨blank, -, hblank⟩ := Text.exists_blank_append_dropBlank a.toList
    rw [hblank, List.getLast?_append, List.getLast?_eq_some_getLast hne, Option.some_or] at ha
    rw [List.getLast?_eq_some_getLast hne, ha]
  have hwhole : (Text.dropBlank a.toList ++ b.toList).getLast? = some d := by
    rw [List.getLast?_append, hb, Option.some_or]
  rw [finish, finish, Text.strip, Text.strip, String.toList_append, Text.dropBlank_append hne,
    Text.dropBlankEnd_eq_of_getLast? hshown hc, Text.dropBlankEnd_eq_of_getLast? hwhole hd, String.ofList_append,
    String.ofList_toList]

/-- The text of a statement of two tokens. -/
def opening (text piece : String) : String :=
  ((empty.endToken.push text).endToken.push piece).text

variable {text piece : String} {c : Char}

theorem push_opening (text : String) (h : piece.toList.head? = some c) (hc : Text.isBlank c = false) :
    (empty.endToken.push text).endToken.push piece = ⟨opening text piece, false⟩ := by
  obtain ⟨before, hpush⟩ := exists_push_eq (empty.endToken.push text).endToken h hc
  rw [opening, hpush]

theorem opening_append (h : piece.toList.head? = some c) (hc : Text.isBlank c = false) (more : String) :
    opening text (piece ++ more) = opening text piece ++ more := by
  rw [opening, ← push_push, push_opening text h hc]
  rfl

theorem getLast?_opening (h : piece.toList.head? = some c) (hc : Text.isBlank c = false) {d : Char}
    (hd : piece.toList.getLast? = some d) : (opening text piece).toList.getLast? = some d := by
  obtain ⟨before, hpush⟩ := exists_push_eq (empty.endToken.push text).endToken h hc
  rw [opening, hpush, String.toList_append, List.getLast?_append, hd, Option.some_or]

end Output

/-! ## The first row -/

variable {ctx : Context} {s : Pass} {q : List Token} {first text : String} {entries : List (String × Value)}

/-- The state behind the first text of a stream, which is written as `text`. -/
def Pass.behindFront (first text : String) (q : List Token) : Pass :=
  ((Pass.start (.sql first :: q)).enter [] q).write text

/-- The state at the mapping of a row, with `o` as the output so far. -/
def Pass.atRow (o : Output) (q : List Token) (s : Pass) : Pass :=
  { s with lexemes := [], queue := q, out := o, lastRow := .adjacent }

theorem inserting_behindFront (first text : String) (q : List Token) :
    (Pass.behindFront first text q).inserting = isInsertCommand first := by
  simp only [Pass.behindFront, Pass.write, Pass.enter, Pass.start, firstText?, Option.any_some]

/-- A first text without markers and placeholders takes nothing from the stream. -/
theorem run_front (hfirst : ∀ l ∈ scan (.fragment ctx.placeholders) first, l.IsPassive) (q : List Token) :
    run ctx (.start (.sql first :: q)) = (scan (.fragment ctx.placeholders) first).mapM ctx.lexeme >>= fun texts =>
      run ctx (.behindFront first (concat texts) q) := by
  rw [run_silent (Pass.next_sql _ rfl rfl)]
  exact run_passive hfirst (List.append_nil _).symm rfl

theorem run_firstRow (hi : isInsertCommand first = true) (text : String) (q : List Token) :
    run ctx (.behindFront first text (.value (.map entries) :: q)) = renderCells ctx .expand entries >>= fun cells =>
      run ctx ((Pass.behindFront first text q).atRow ⟨Output.opening text (valuesClause cells), false⟩ q) := by
  have hinserting := (inserting_behindFront first text (.value (.map entries) :: q)).trans hi
  have hn := Pass.next_firstRow (s := .behindFront first text (.value (.map entries) :: q)) ctx.placeholders rfl rfl rfl
    hinserting rfl
  have hwritten (cells : List (String × String)) :=
    Output.push_opening text (head?_valuesClause cells) (by decide)
  rw [run_value hn, render, map_eq_pure_bind, bind_assoc]
  refine bind_congr fun cells => ?_
  rw [pure_bind, ← hwritten]
  rfl

/-! ## Further rows -/

/-- What stands between a row and a further row. -/
def LastRow.separator (r : LastRow) : String :=
  if r = .adjacent then ", " else " "

/-- The output in front of a further row. -/
def LastRow.separated (r : LastRow) (o : Output) : Output :=
  if r = .adjacent then (o.push ",").endToken else o

theorem Pass.mapping_row (hi : s.inserting = true) (hr : s.lastRow ≠ .none) :
    s.mapping entries =
      .value (.map entries) (some .list) { s with lastRow := .adjacent, out := s.lastRow.separated s.out } := by
  cases h : s.lastRow with
  | none => exact absurd h hr
  | adjacent =>
    rw [mapping, hi, h]
    rfl
  | apart =>
    rw [mapping, hi, h]
    rfl

theorem Pass.next_row (placeholders : Bool) (hl : s.lexemes = []) (hq : s.queue = .value (.map entries) :: q)
    (hm : s.isMasked = false) (hi : s.inserting = true) (hr : s.lastRow ≠ .none) :
    s.next placeholders =
      .value (.map entries) (some .list) (s.atRow (s.lastRow.separated s.out.endToken) q) := by
  have hn : ¬s.isMasked = true := by rw [hm]; decide
  rw [next, hl, hq]
  exact (if_neg hn).trans (mapping_row (s := { s with lexemes := [], queue := q }.endToken) hi hr)

/-- A tuple stands behind a row and what separates it from the row. -/
theorem push_tuple {o : Output} (hc : o.text.toList.getLast? = some ')') (r : LastRow) (texts : List String) :
    (r.separated o.endToken).push (tuple texts) = ⟨o.text ++ r.separator ++ tuple texts, false⟩ := by
  by_cases hr : r = .adjacent
  · subst hr
    have hcomma : (o.text ++ ",").toList.getLast? = some ',' := by simp
    have hpush := Output.push_apart (o := ⟨o.text ++ ",", false⟩) hcomma (by decide) (head?_tuple texts) (by decide)
    have hspace : LastRow.adjacent.separator = "," ++ " " := rfl
    rw [LastRow.separated, if_pos rfl, Output.push_comma, hpush, hspace, ← String.append_assoc]
  · rw [LastRow.separated, LastRow.separator, if_neg hr, if_neg hr]
    exact Output.push_apart hc (by decide) (head?_tuple texts) (by decide)

/-- Behind a row a further row is written as a tuple. -/
theorem run_row (hl : s.lexemes = []) (hq : s.queue = .value (.map entries) :: q) (hm : s.isMasked = false)
    (hi : s.inserting = true) (hr : s.lastRow ≠ .none) (hc : s.out.text.toList.getLast? = some ')') :
    run ctx s = renderValues ctx entries >>= fun texts =>
      run ctx (s.atRow ⟨s.out.text ++ s.lastRow.separator ++ tuple texts, false⟩ q) := by
  rw [run_value (s.next_row _ hl hq hm hi hr), render, map_eq_pure_bind, bind_assoc]
  refine bind_congr fun texts => ?_
  rw [pure_bind, tupleFor_list, ← push_tuple hc]
  rfl

/-- Adjacent rows behind a row. -/
theorem run_rows (hm : s.isMasked = false) (hi : s.inserting = true) (hc : text.toList.getLast? = some ')')
    (rows : List (List (String × Value))) :
    run ctx (s.atRow ⟨text, false⟩ (rows.map fun entries => .value (.map entries))) =
      rows.mapM (renderValues ctx) >>= fun rows =>
        run ctx (s.atRow ⟨text ++ concat (rows.map fun texts => ", " ++ tuple texts), false⟩ []) := by
  induction rows generalizing text with
  | nil =>
    have hempty : text ++ concat [] = text := String.append_empty
    rw [List.mapM_nil, pure_bind, List.map_nil, List.map_nil, hempty]
  | cons entries rows ih =>
    let u := s.atRow ⟨text, false⟩ ((entries :: rows).map fun entries => .value (.map entries))
    have hr : u.lastRow ≠ .none := by
      show LastRow.adjacent ≠ .none
      decide
    have hrow := @run_row ctx u (rows.map fun entries => .value (.map entries)) entries rfl rfl hm hi hr hc
    rw [List.mapM_cons, hrow, bind_assoc]
    refine bind_congr fun texts => ?_
    have hrest : (text ++ ", " ++ tuple texts).toList.getLast? = some ')' := by
      rw [String.toList_append, List.getLast?_append, getLast?_tuple, Option.some_or]
    have htext (rows : List (List String)) :
        text ++ ", " ++ tuple texts ++ concat (rows.map fun texts => ", " ++ tuple texts) =
          text ++ concat ((texts :: rows).map fun texts => ", " ++ tuple texts) := by
      rw [List.map_cons, concat_cons, String.append_assoc, String.append_assoc, String.append_assoc]
    refine (ih hrest).trans ?_
    rw [bind_assoc]
    refine bind_congr fun rows => ?_
    rw [pure_bind, htext]

/-! ## The end of the statement -/

theorem run_atRow_nil (hm : s.isMasked = false) (hb : s.bounds = .unbounded) (o : Output) :
    run ctx (s.atRow o []) = .done o.finish [] s.branches.masked :=
  run_end ⟨rfl, rfl, hm, hb⟩

/-- A further row as the last token is added to the statement. -/
theorem run_lastRow (hl : s.lexemes = []) (hq : s.queue = [.value (.map entries)]) (hm : s.isMasked = false)
    (hb : s.bounds = .unbounded) (hi : s.inserting = true) (hr : s.lastRow ≠ .none)
    (hc : s.out.text.toList.getLast? = some ')') {values : List String} {issues : List Issue} {masked : Nat}
    (hvalues : renderValues ctx entries = .done values issues masked) :
    run ctx s = .done (s.out.finish ++ s.lastRow.separator ++ tuple values) issues (masked + s.branches.masked) := by
  have hpiece : (s.lastRow.separator ++ tuple values).toList.getLast? = some ')' := by
    rw [String.toList_append, List.getLast?_append, getLast?_tuple, Option.some_or]
  rw [run_row hl hq hm hi hr hc, hvalues, Render.done_bind, run_atRow_nil hm hb, Render.after_done, List.append_nil,
    String.append_assoc, Output.finish_append hc (by decide) hpiece (by decide), String.append_assoc]
  rfl

section Front

variable {texts : List String} {issues found : List Issue} {masked more : Nat} {cells : List (String × String)}

/-- A pass over the first text and the first row, whatever stands behind them. -/
theorem run_frontRow (hi : isInsertCommand first = true)
    (hfirst : ∀ l ∈ scan (.fragment ctx.placeholders) first, l.IsPassive)
    (hfront : (scan (.fragment ctx.placeholders) first).mapM ctx.lexeme = .done texts issues masked)
    (hcells : renderCells ctx .expand entries = .done cells found more) (q : List Token) :
    run ctx (.start (.sql first :: .value (.map entries) :: q)) =
      (run ctx ((Pass.behindFront first (concat texts) q).atRow
        ⟨Output.opening (concat texts) (valuesClause cells), false⟩ q)).after (issues ++ found) (masked + more) := by
  rw [run_front hfirst, hfront, Render.done_bind, run_firstRow hi, hcells, Render.done_bind, Render.after_after]

/-- The statement of a first text and its first row. -/
theorem outcome_firstRow (hi : isInsertCommand first = true)
    (hfirst : ∀ l ∈ scan (.fragment ctx.placeholders) first, l.IsPassive)
    (hfront : (scan (.fragment ctx.placeholders) first).mapM ctx.lexeme = .done texts issues masked)
    (hcells : renderCells ctx .expand entries = .done cells found more) :
    ctx.outcome [.sql first, .value (.map entries)] =
      .ok (Output.finish ⟨Output.opening (concat texts) (valuesClause cells), false⟩, issues ++ found) := by
  rw [outcome_eq_content, run_frontRow hi hfirst hfront hcells, run_atRow_nil rfl rfl, Render.after_done,
    List.append_nil]
  rfl

end Front

/-- A value with a modifier behind the first text, as the last token. -/
theorem run_lastModifier {code : String} {m : Modifier} (hcode : Marker.ofCode? code = some (.modifier m))
    (hne : m ≠ .expand) (first text : String) (t : Token) :
    run ctx (.behindFront first text [.modifier code, t]) = render ctx (some m) t.toValue >>= fun piece =>
      .done (Output.finish ⟨Output.opening text piece, false⟩) [] 0 := by
  have takes : TakesToken code [] := by rw [TakesToken, hcode]; exact hne
  have hn := (Pass.behindFront first text [.modifier code, t]).next_modifier ctx.placeholders rfl rfl takes
  have hshown : ¬(Pass.behindFront first text [.modifier code, t]).isMasked = true := Bool.false_ne_true
  rw [if_neg hshown, Pass.serve, hcode] at hn
  rw [run_value hn]
  exact bind_congr fun piece => run_end ⟨rfl, rfl, rfl, rfl⟩

end SqlComposer
