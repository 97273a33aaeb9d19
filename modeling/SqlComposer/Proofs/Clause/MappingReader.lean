import Mathlib
import SqlComposer.Compose
import SqlComposer.Proofs.Clause.WholeScalars
import SqlComposer.Proofs.Dialect.ClauseReader
import SqlComposer.Proofs.Render.Parts

/-!
# Mappings read back

* `Kind.readMapping?` : the columns and values that a reader of the dialect finds in the clause of a mapping;
* `Context.entryColumn`, `Context.entryValue` : what an entry is written as on its own;
* `WrittenCell`, `exists_renderCells`, `exists_renderValues` : entries that are written without issues;
* `mapping_read_back` : the reader finds the columns and values of the entries, whatever their texts are.
-/

namespace SqlComposer

open Dialect

/-! ## The reader -/

/-- The operators between a column and a value in a condition. -/
def comparisonWords : List (List Char) :=
  ["=".toList, "IS".toList, "IN".toList, "LIKE".toList]

/-- The columns and values in the clause of a mapping. The lists have no columns. -/
def Dialect.Kind.readMapping? (k : Kind) (m : Modifier) (cs : List Char) :
    Option (List (List Char) × List (List Char)) :=
  match m with
  | .assign => ((k.listed cs).bind fun ps => ps.mapM (k.cell? ["=".toList])).map List.unzip
  | .values =>
    match k.fields ' ' .start cs with
    | some [columns, word, values] =>
      if word = "VALUES".toList then
        match k.tuple? columns, k.tuple? values with
        | some columns, some values => some (columns, values)
        | _, _ => none
      else none
    | _ => none
  | .list | .inList => (k.tuple? cs).map fun values => ([], values)
  | .allOf | .anyOf =>
    ((k.conditions? m.conditionWord.toList cs).bind fun ps => ps.mapM (k.cell? comparisonWords)).map List.unzip
  | _ => none

/-! ## Entries -/

/-- The entries as entries of a mapping. -/
def scalarEntries (entries : List (String × Scalar)) : List (String × Value) :=
  entries.map fun e => (e.1, .scalar e.2)

/-- The key has no suffix under which text is written as SQL, and the value is data. -/
def IsPlainEntry (e : String × Scalar) : Prop :=
  (∀ code ∈ (splitKey e.1).2, code ∉ ["sql", "p", "ex"]) ∧ e.2.isData = true

instance (e : String × Scalar) : Decidable (IsPlainEntry e) :=
  inferInstanceAs (Decidable (_ ∧ _))

/-- What the column of an entry is written as on its own. -/
def Context.entryColumn (ctx : Context) (e : String × Scalar) : Render String :=
  ctx.identifier (splitKey e.1).1

/-- What the value of an entry is written as on its own. -/
def Context.entryValue (ctx : Context) (e : String × Scalar) : Render String :=
  match entryModifier .expand e.1 (.scalar e.2) with
  | .error i => .note i
  | .ok m => render ctx m (.scalar e.2)

variable {k : Kind} {ctx : Context}

theorem isPlain_of_ofCode? {code : String} {m : Modifier} (h : Modifier.ofCode? code = some m)
    (hc : code ∉ ["sql", "p", "ex"]) : m.IsPlain := by
  have hm : Marker.ofCode? code = some (.modifier m) := by
    unfold Modifier.ofCode? at h
    split at h
    · next hm => rw [hm, Option.some.inj h]
    · cases h
  clear h
  unfold Marker.ofCode? at hm
  constructor <;> rintro rfl <;> split at hm <;> simp_all

/-- The value of a plain entry is written as data. -/
theorem IsPlainEntry.entryModifier {e : String × Scalar} (he : IsPlainEntry e) {m : Option Modifier}
    (h : entryModifier .expand e.1 (.scalar e.2) = .ok m) : ∀ m', m = some m' → m'.IsPlain := by
  rintro m' rfl
  unfold SqlComposer.entryModifier at h
  split at h
  · cases h
  · next code hs =>
    split at h
    · next hm =>
      obtain rfl := Option.some.inj (Except.ok.inj h)
      exact isPlain_of_ofCode? hm (he.1 code hs)
    · cases h

theorem yields_entryValue (hd : ctx.dialect = k.dialect) {e : String × Scalar} (he : IsPlainEntry e) :
    Yields k [','] (ctx.entryValue e) := by
  unfold Context.entryValue
  split
  · exact yields_note _
  · next m hm =>
    rw [render]
    cases m with
    | none => exact yields_plainScalar hd he.2
    | some m => exact yields_scalarAs hd (he.entryModifier hm m rfl) e.2

/-- An entry that is written without issues as the column and the value of a cell. -/
structure WrittenCell (k : Kind) (ctx : Context) (e : String × Scalar) (cell : String × String) : Prop where
  column : ctx.entryColumn e = .done cell.1 [] 0
  value : ctx.entryValue e = .done cell.2 [] 0
  wholeColumn : k.Whole [',', ' '] cell.1.toList
  wholeValue : k.Whole [','] cell.2.toList

/-- The column and the value of an entry. -/
def Context.scalarCell (ctx : Context) (e : String × Scalar) : Render (String × String) := do
  let column ← ctx.entryColumn e
  let text ← ctx.entryValue e
  pure (column, text)

/-- How a list would be written does not matter for a scalar. -/
theorem renderCells_scalarEntries (ctx : Context) (listAs : Modifier) (entries : List (String × Scalar)) :
    renderCells ctx listAs (scalarEntries entries) = entries.mapM ctx.scalarCell := by
  rw [renderCells_eq_mapM, scalarEntries, List.mapM_map]
  rfl

theorem renderValues_scalarEntries (ctx : Context) (entries : List (String × Scalar)) :
    renderValues ctx (scalarEntries entries) = entries.mapM ctx.entryValue := by
  rw [renderValues_eq_mapM, scalarEntries, List.mapM_map]
  rfl

theorem exists_scalarCell (hd : ctx.dialect = k.dialect) {e : String × Scalar} (he : IsPlainEntry e) :
    ∃ cell issues, ctx.scalarCell e = .done cell issues 0 ∧ (issues = [] → WrittenCell k ctx e cell) := by
  obtain ⟨column, found, hc, hwc⟩ := yields_identifier hd (splitKey e.1).1
  obtain ⟨value, later, hv, hwv⟩ := yields_entryValue hd he
  refine ⟨(column, value), found ++ later, ?_, fun hi => ?_⟩
  · rw [Context.scalarCell, Context.entryColumn, hc, hv]
    simp [Render.pure_eq]
  · obtain ⟨rfl, rfl⟩ := List.append_eq_nil_iff.1 hi
    exact ⟨hc, hv, hwc rfl, hwv rfl⟩

theorem exists_renderCells (hd : ctx.dialect = k.dialect) (listAs : Modifier) {entries : List (String × Scalar)}
    (he : ∀ e ∈ entries, IsPlainEntry e) :
    ∃ cells issues, renderCells ctx listAs (scalarEntries entries) = .done cells issues 0 ∧
      (issues = [] → List.Forall₂ (WrittenCell k ctx) entries cells) := by
  rw [renderCells_scalarEntries]
  exact exists_mapM fun e h => exists_scalarCell hd (he e h)

theorem exists_renderValues (hd : ctx.dialect = k.dialect) {entries : List (String × Scalar)}
    (he : ∀ e ∈ entries, IsPlainEntry e) :
    ∃ texts issues, renderValues ctx (scalarEntries entries) = .done texts issues 0 ∧
      (issues = [] → List.Forall₂ (fun e t => ctx.entryValue e = .done t [] 0 ∧ k.Whole [','] t.toList) entries
        texts) := by
  rw [renderValues_scalarEntries]
  exact exists_mapM fun e h => (yields_entryValue hd (he e h)).exists_done

/-! ## Clauses -/

theorem toList_commaList (texts : List String) : (commaList texts).toList = commaJoined (texts.map String.toList) := by
  rw [commaList, String.toList_intercalate]
  rfl

theorem toList_tuple (texts : List String) :
    (tuple texts).toList = wrapped (commaJoined (texts.map String.toList)) := by
  simp [tuple, toList_commaList, wrapped]

section Tuples

variable {columns values : List String}

theorem toList_tuples (columns values : List String) : (tuple columns ++ " VALUES " ++ tuple values).toList =
    wrapped (commaJoined (columns.map String.toList)) ++
      ' ' :: ("VALUES".toList ++ ' ' :: wrapped (commaJoined (values.map String.toList))) := by
  rw [String.toList_append, String.toList_append, toList_tuple, toList_tuple]
  simp

/-- Columns and values in parentheses are read as they were put together. -/
theorem readMapping?_tuples (hne : columns ≠ []) (hc : ∀ p ∈ columns.map String.toList, k.Whole [','] p)
    (hne' : values ≠ []) (hv : ∀ p ∈ values.map String.toList, k.Whole [','] p) :
    k.readMapping? .values (tuple columns ++ " VALUES " ++ tuple values).toList =
      some (columns.map String.toList, values.map String.toList) := by
  have hs : [' '].any isMark = false := by decide
  have htc : k.Whole [' '] (wrapped (commaJoined (columns.map String.toList))) :=
    whole_wrapped hs (whole_commaJoined hc)
  have htv : k.Whole [' '] (wrapped (commaJoined (values.map String.toList))) :=
    whole_wrapped hs (whole_commaJoined hv)
  have hword : k.Whole [' '] "VALUES".toList := whole_of_isInert (by decide)
  rw [toList_tuples]
  unfold Kind.readMapping?
  simp only
  rw [htc.fields_append (by simp), hword.fields_append (by simp), htv.fields_eq (by simp)]
  simp only [Option.map_some, if_true]
  rw [k.tuple?_eq (by simpa using hne) hc, k.tuple?_eq (by simpa using hne') hv]

theorem whole_tuples (hc : ∀ p ∈ columns.map String.toList, k.Whole [','] p)
    (hv : ∀ p ∈ values.map String.toList, k.Whole [','] p) :
    k.Whole [] (tuple columns ++ " VALUES " ++ tuple values).toList := by
  have hspace : isInert [] ' ' = true := rfl
  have hword : k.Whole [] "VALUES".toList := whole_of_isInert (by decide)
  rw [toList_tuples]
  exact (whole_wrapped rfl (whole_commaJoined hc)).glue hspace
    (hword.glue hspace (whole_wrapped rfl (whole_commaJoined hv)))

end Tuples

theorem toList_conditions (word : String) {texts : List String} (hne : texts ≠ []) :
    (conditions word texts).toList = wordJoined word.toList (texts.map String.toList) := by
  obtain ⟨t, ts, rfl⟩ := List.exists_cons_of_ne_nil hne
  rw [List.map_cons, wordJoined_cons, conditions, if_neg (by simp)]
  simp [wrapped]

/-- The operator of an entry that is written without issues is one of the comparison words. -/
theorem exists_operator {e : String × Scalar} (he : IsPlainEntry e) {text : String}
    (hv : ctx.entryValue e = .done text [] 0) :
    ∃ word ∈ comparisonWords,
      (operator (entryModifier .inList e.1 (.scalar e.2)) text).toList = ' ' :: (word ++ [' ']) := by
  have hm : entryModifier .inList e.1 (.scalar e.2) = entryModifier .expand e.1 (.scalar e.2) := rfl
  rw [hm]
  unfold Context.entryValue at hv
  cases hx : entryModifier .expand e.1 (.scalar e.2) with
  | error i =>
    rw [hx] at hv
    cases hv
  | ok m =>
    have hp := he.entryModifier hx
    unfold operator
    split
    · next h => cases h
    · next h =>
      obtain rfl := Except.ok.inj h
      exact absurd rfl (hp _ rfl).2
    · exact ⟨"IN".toList, by decide, rfl⟩
    · exact ⟨"IN".toList, by decide, rfl⟩
    · exact ⟨"LIKE".toList, by decide, rfl⟩
    · split
      · exact ⟨"IS".toList, by decide, rfl⟩
      · exact ⟨"=".toList, by decide, rfl⟩

/-- What holds of everything that is related to something. -/
theorem forall_mem_right {α β : Type} {R : α → β → Prop} {P : β → Prop} {as : List α} {bs : List β}
    (h : List.Forall₂ R as bs) (hp : ∀ a b, R a b → P b) : ∀ b ∈ bs, P b := by
  induction h with
  | nil => simp
  | cons hab _ ih => exact List.forall_mem_cons.2 ⟨hp _ _ hab, ih⟩

/-- A text that is read as the cell, with no comma of its own. -/
structure ReadCell (k : Kind) (operators : List (List Char)) (cell : String × String) (text : String) : Prop where
  read : k.cell? operators text.toList = some (cell.1.toList, cell.2.toList)
  whole : k.Whole [','] text.toList

theorem isInert_comparisonWords : ∀ word ∈ comparisonWords, word.all (isInert [',', ' ']) = true := by decide

theorem WrittenCell.readCell {e : String × Scalar} {cell : String × String} (h : WrittenCell k ctx e cell)
    {operators : List (List Char)} {word : List Char} (hw : word ∈ comparisonWords) (ho : word ∈ operators)
    {text : String} (ht : text.toList = cell.1.toList ++ ' ' :: (word ++ ' ' :: cell.2.toList)) :
    ReadCell k operators cell text := by
  have hi := isInert_comparisonWords word hw
  constructor
  · rw [ht]
    exact Kind.cell?_eq h.wholeColumn ho hi h.wholeValue
  · rw [ht]
    exact whole_cell (List.Subset.refl _) h.wholeColumn hi h.wholeValue

theorem forall₂_assignment {entries : List (String × Scalar)} {cells : List (String × String)}
    (h : List.Forall₂ (WrittenCell k ctx) entries cells) :
    List.Forall₂ (ReadCell k ["=".toList]) cells (cells.map assignment) := by
  induction h with
  | nil => exact .nil
  | cons hc _ ih =>
    have hw : "=".toList ∈ comparisonWords := by decide
    refine .cons (hc.readCell hw (by simp) ?_) ih
    simp [assignment]

theorem forall₂_comparison {entries : List (String × Scalar)} {cells : List (String × String)}
    (he : ∀ e ∈ entries, IsPlainEntry e) (h : List.Forall₂ (WrittenCell k ctx) entries cells) :
    List.Forall₂ (ReadCell k comparisonWords) cells (List.zipWith comparison (scalarEntries entries) cells) := by
  induction h with
  | nil => exact .nil
  | @cons e cell es cells hc _ ih =>
    obtain ⟨word, hw, ho⟩ := exists_operator (he e (by simp)) hc.value
    refine .cons (hc.readCell hw hw ?_) (ih fun e' h' => he e' (List.mem_cons_of_mem e h'))
    simp [comparison, ho]

theorem mapM_cell? {operators : List (List Char)} {cells : List (String × String)} {texts : List String}
    (h : List.Forall₂ (ReadCell k operators) cells texts) :
    (texts.map String.toList).mapM (k.cell? operators) =
      some (cells.map fun cell => (cell.1.toList, cell.2.toList)) := by
  induction h with
  | nil => rfl
  | cons hc _ ih => simp [hc.read, ih]

theorem whole_of_forall₂ {operators : List (List Char)} {cells : List (String × String)} {texts : List String}
    (h : List.Forall₂ (ReadCell k operators) cells texts) :
    ∀ p ∈ texts.map String.toList, k.Whole [','] p :=
  List.forall_mem_map.2 (forall_mem_right h fun _ _ hc => hc.whole)

/-! ## Mappings -/

/-- The reader finds the columns and the values of the entries in the text, each as it is written on its own, and
ends outside all quotes and parentheses. -/
def ReadsBack (k : Kind) (ctx : Context) (m : Modifier) (entries : List (String × Scalar)) (text : String) : Prop :=
  ∃ columns values : List String,
    k.readMapping? m text.toList = some (columns.map String.toList, values.map String.toList) ∧
    (if m = .list ∨ m = .inList then columns = []
      else List.Forall₂ (fun e c => ctx.entryColumn e = .done c [] 0) entries columns) ∧
    List.Forall₂ (fun e v => ctx.entryValue e = .done v [] 0) entries values ∧
    k.Whole [] text.toList

section Clauses

variable {entries : List (String × Scalar)} {cells : List (String × String)}

theorem forall₂_columns (h : List.Forall₂ (WrittenCell k ctx) entries cells) :
    List.Forall₂ (fun e c => ctx.entryColumn e = .done c [] 0) entries (cells.map Prod.fst) :=
  List.forall₂_map_right_iff.2 (h.imp fun _ _ hc => hc.column)

theorem forall₂_values (h : List.Forall₂ (WrittenCell k ctx) entries cells) :
    List.Forall₂ (fun e v => ctx.entryValue e = .done v [] 0) entries (cells.map Prod.snd) :=
  List.forall₂_map_right_iff.2 (h.imp fun _ _ hc => hc.value)

theorem whole_columns (h : List.Forall₂ (WrittenCell k ctx) entries cells) :
    ∀ p ∈ (cells.map Prod.fst).map String.toList, k.Whole [','] p :=
  List.forall_mem_map.2 (List.forall_mem_map.2 (forall_mem_right h fun _ _ hc => hc.wholeColumn.mono (by simp)))

theorem whole_values (h : List.Forall₂ (WrittenCell k ctx) entries cells) :
    ∀ p ∈ (cells.map Prod.snd).map String.toList, k.Whole [','] p :=
  List.forall_mem_map.2 (List.forall_mem_map.2 (forall_mem_right h fun _ _ hc => hc.wholeValue))

theorem readsBack_assign (hne : cells ≠ []) (h : List.Forall₂ (WrittenCell k ctx) entries cells) :
    ReadsBack k ctx .assign entries (commaList (cells.map assignment)) := by
  have hr := forall₂_assignment h
  have hw := whole_of_forall₂ hr
  refine ⟨cells.map Prod.fst, cells.map Prod.snd, ?_, forall₂_columns h, forall₂_values h, ?_⟩
  · rw [toList_commaList]
    unfold Kind.readMapping?
    simp only
    rw [k.listed_eq (by simpa using hne) hw, Option.bind_some, mapM_cell? hr]
    simp [List.unzip_eq_map]
  · rw [toList_commaList]
    exact whole_commaJoined hw

theorem readsBack_values (hne : cells ≠ []) (h : List.Forall₂ (WrittenCell k ctx) entries cells) :
    ReadsBack k ctx .values entries (valuesClause cells) := by
  have hc := whole_columns h
  have hv := whole_values h
  have hread := readMapping?_tuples (by simpa using hne) hc (by simpa using hne) hv
  exact ⟨cells.map Prod.fst, cells.map Prod.snd, hread, forall₂_columns h, forall₂_values h, whole_tuples hc hv⟩

theorem readsBack_list {m : Modifier} (hm : m = .list ∨ m = .inList) {texts : List String} (hne : texts ≠ [])
    (h : List.Forall₂ (fun e t => ctx.entryValue e = .done t [] 0 ∧ k.Whole [','] t.toList) entries texts) :
    ReadsBack k ctx m entries (tupleFor m texts) := by
  have hw : ∀ p ∈ texts.map String.toList, k.Whole [','] p :=
    List.forall_mem_map.2 (forall_mem_right h fun _ _ hc => hc.2)
  have ht : (tupleFor m texts).toList = wrapped (commaJoined (texts.map String.toList)) := by
    rw [tupleFor, if_neg (by simp [hne]), toList_tuple]
  refine ⟨[], texts, ?_, if_pos hm ▸ rfl, h.imp fun _ _ hc => hc.1, ?_⟩
  · rw [ht]
    have hr := k.tuple?_eq (by simpa using hne) hw
    rcases hm with rfl | rfl <;> simp [Kind.readMapping?, hr]
  · rw [ht]
    exact whole_wrapped (by simp) (whole_commaJoined hw)

theorem readsBack_conditions {m : Modifier} (hm : m = .allOf ∨ m = .anyOf) {texts : List String} (hne : texts ≠ [])
    (h : List.Forall₂ (WrittenCell k ctx) entries cells)
    (hr : List.Forall₂ (ReadCell k comparisonWords) cells texts) :
    ReadsBack k ctx m entries (conditions m.conditionWord texts) := by
  have hw : ∀ p ∈ texts.map String.toList, k.Whole [] p :=
    fun p hp => (whole_of_forall₂ hr p hp).mono (by simp)
  have hword : m.conditionWord.toList.all (isInert [' ']) = true := by
    rcases hm with rfl | rfl <;> decide
  have hword' : m.conditionWord.toList.all (isInert []) = true := by
    rcases hm with rfl | rfl <;> decide
  have hread := k.conditions?_eq hword (by simpa using hne) hw
  have hcells := mapM_cell? hr
  refine ⟨cells.map Prod.fst, cells.map Prod.snd, ?_, ?_, forall₂_values h, ?_⟩
  · rw [toList_conditions _ hne]
    rcases hm with rfl | rfl <;> simp [Kind.readMapping?, hread, hcells, List.unzip_eq_map]
  · rcases hm with rfl | rfl <;> exact forall₂_columns h
  · rw [toList_conditions _ hne]
    exact whole_wordJoined hword' hw

end Clauses

/-- In a known dialect the clause of a mapping of plain entries is written, and without issues it is read back:
no key and no text can add, drop or reorder a column, a value or a condition. -/
theorem mapping_read_back (k : Kind) (ctx : Context) (hd : ctx.dialect = k.dialect) (m : Modifier)
    (hm : m ∈ [Modifier.assign, .values, .list, .inList, .allOf, .anyOf]) (entries : List (String × Scalar))
    (hne : entries ≠ []) (he : ∀ e ∈ entries, IsPlainEntry e) :
    ∃ text issues, render ctx (some m) (.map (scalarEntries entries)) = .done text issues 0 ∧
      (issues = [] → ReadsBack k ctx m entries text) := by
  have nonempty {β : Type} {R : String × Scalar → β → Prop} {ts : List β} (h : List.Forall₂ R entries ts) :
      ts ≠ [] := by
    rintro rfl
    cases h
    exact hne rfl
  -- conditions are assembled from the entries too, since the operator depends on the key
  have comparisons (m : Modifier) (hm : m = .allOf ∨ m = .anyOf) {cells : List (String × String)}
      (h : List.Forall₂ (WrittenCell k ctx) entries cells) : ReadsBack k ctx m entries
        (conditions m.conditionWord ((scalarEntries entries).zipWith comparison cells)) := by
    have hr := forall₂_comparison he h
    refine readsBack_conditions hm ?_ h hr
    intro hnil
    rw [hnil] at hr
    cases hr
    exact nonempty h rfl
  simp only [List.mem_cons, List.not_mem_nil, or_false] at hm
  rcases hm with rfl | rfl | rfl | rfl | rfl | rfl
  · obtain ⟨cells, issues, hr, hc⟩ := exists_renderCells hd .expand he
    refine ⟨commaList (cells.map assignment), issues, ?_, fun hi => readsBack_assign (nonempty (hc hi)) (hc hi)⟩
    rw [render, hr]
    simp [Render.pure_eq]
  · obtain ⟨cells, issues, hr, hc⟩ := exists_renderCells hd .expand he
    refine ⟨valuesClause cells, issues, ?_, fun hi => readsBack_values (nonempty (hc hi)) (hc hi)⟩
    rw [render, hr, Render.map_done]
  · obtain ⟨texts, issues, hr, ht⟩ := exists_renderValues hd he
    refine ⟨tupleFor .list texts, issues, ?_, fun hi => readsBack_list (.inl rfl) (nonempty (ht hi)) (ht hi)⟩
    rw [render, hr, Render.map_done]
  · obtain ⟨texts, issues, hr, ht⟩ := exists_renderValues hd he
    refine ⟨tupleFor .inList texts, issues, ?_, fun hi => readsBack_list (.inr rfl) (nonempty (ht hi)) (ht hi)⟩
    rw [render, hr, Render.map_done]
  · obtain ⟨cells, issues, hr, hc⟩ := exists_renderCells hd .inList he
    refine ⟨_, issues, ?_, fun hi => comparisons .allOf (.inl rfl) (hc hi)⟩
    rw [render, hr]
    simp [Render.pure_eq, Modifier.conditionWord]
  · obtain ⟨cells, issues, hr, hc⟩ := exists_renderCells hd .inList he
    refine ⟨_, issues, ?_, fun hi => comparisons .anyOf (.inr rfl) (hc hi)⟩
    rw [render, hr]
    simp [Render.pure_eq, Modifier.conditionWord]

/-- Quotes, separators and parentheses in keys and texts, and a suffix. -/
def hostileEntries : List (String × Scalar) :=
  [("a`, b", .text "x', ') OR (1=1"), ("n%i", .text " 12e3"), ("t.(c", .null)]

theorem mapping_read_back_hostile :
    (∀ e ∈ hostileEntries, IsPlainEntry e) ∧
      ReadsBack .mysql (.leapDay .mysql) .allOf hostileEntries
        "(`a``, b` = 'x\\', \\') OR (1=1') AND (`n` = 12e3) AND (`t`.`(c` IS NULL)" := by
  have he : ∀ e ∈ hostileEntries, IsPlainEntry e := by decide
  refine ⟨he, ?_⟩
  obtain ⟨text, issues, hr, hread⟩ :=
    mapping_read_back .mysql (.leapDay .mysql) rfl .allOf (by decide) hostileEntries (by decide) he
  have ht : render (.leapDay .mysql) (some .allOf) (.map (scalarEntries hostileEntries)) =
      .done "(`a``, b` = 'x\\', \\') OR (1=1') AND (`n` = 12e3) AND (`t`.`(c` IS NULL)" [] 0 := by
    cbv
  rw [ht] at hr
  cases hr
  exact hread rfl

end SqlComposer
