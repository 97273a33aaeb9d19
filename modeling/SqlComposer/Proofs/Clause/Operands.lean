import SqlComposer.Proofs.Clause.MappingReader
import SqlComposer.Proofs.Pass.Rows
import SqlComposer.Proofs.Render.Faults
import SqlComposer.Proofs.Render.Parts

/-!
# Operands of entries

A list under a suffix of plain data is written element by element, without parentheses. A reader of the clause finds
one operand for each element.

* `Value.operands` : the values that are written one by one; `HasOperands` : the entries that this is about;
* `Context.entryOperands`, `entryCell_eq_operands` : a written entry is its operands with commas between them;
* `ReadsOperands` : what a reader finds in the clause of a mapping;
* `mapping_operands` : it finds as many operands as there are scalars, so more than columns if there is a list.
-/

namespace SqlComposer

open Dialect

/-! ## Entries -/

/-- The modifiers of plain data, patterns apart. -/
def scalarModifiers : List Modifier :=
  [.text, .textOrNull, .binary, .bool, .int, .unsigned, .intOrNull, .float, .date, .dateTime]

/-- The elements of a list, or the value itself. -/
def Value.operands : Value → List Value
  | .list items => items
  | v => [v]

/-- A scalar, or a list of two or more, under a suffix of plain data. -/
structure HasOperands (e : String × Value) : Prop where
  suffix : ∃ code ∈ (splitKey e.1).2, ∃ m ∈ scalarModifiers, Modifier.ofCode? code = some m
  scalars : ∀ v ∈ e.2.operands, ∃ a, v = .scalar a
  several : e.2.isList = true → 2 ≤ e.2.operands.length

namespace HasOperands

variable {e : String × Value}

theorem ne_nil (h : HasOperands e) : e.2.operands ≠ [] := by
  intro hnil
  cases hv : e.2 with
  | list items =>
    have hs := h.several (by rw [hv]; rfl)
    rw [hnil] at hs
    exact absurd hs (by decide)
  | _ =>
    rw [hv] at hnil
    cases hnil

/-- An entry has one operand only if its value is no list. -/
theorem length_eq_one_iff (h : HasOperands e) : e.2.operands.length = 1 ↔ e.2.isList = false := by
  cases hl : e.2.isList with
  | true =>
    have hs := h.several hl
    simp only [Bool.true_eq_false, iff_false]
    omega
  | false =>
    simp only [iff_true]
    cases hv : e.2 with
    | list items =>
      rw [hv] at hl
      cases hl
    | _ => rfl

/-- The suffix alone says how the value is written. -/
theorem exists_entryModifier (h : HasOperands e) :
    ∃ m ∈ scalarModifiers, ∀ listAs v, entryModifier listAs e.1 v = .ok (some m) := by
  obtain ⟨code, hcode, m, hm, hknown⟩ := h.suffix
  refine ⟨m, hm, fun listAs v => ?_⟩
  rw [entryModifier, Option.mem_def.1 hcode]
  simp only [hknown]

end HasOperands

theorem isPlain_of_mem_scalarModifiers {m : Modifier} (hm : m ∈ scalarModifiers) : m.IsPlain := by
  constructor <;> rintro rfl <;> exact absurd hm (by decide)

/-! ## Operands -/

/-- The column of an entry and the texts of its operands, each written on its own. -/
def Context.entryOperands (ctx : Context) (e : String × Value) : Render (String × List String) := do
  let column ← ctx.identifier (splitKey e.1).1
  let texts ← e.2.operands.mapM fun v => ctx.entryText .expand (e.1, v)
  pure (column, texts)

/-- The operands with commas between them as the value of the column. -/
def joinedOperands (w : String × List String) : String × String :=
  (w.1, commaList w.2)

variable {k : Kind} {ctx : Context}

theorem render_list_scalar {m : Modifier} (hm : m ∈ scalarModifiers) (ctx : Context) (items : List Value) :
    render ctx (some m) (.list items) = commaList <$> items.mapM (render ctx (some m)) := by
  have hitem : ∀ m ∈ scalarModifiers, ∀ v, itemModifier (some m) v = some m := by
    simp [scalarModifiers, itemModifier]
  have hclose : ∀ m ∈ scalarModifiers, closeItems (some m) = commaList := by
    simp only [scalarModifiers, List.forall_mem_cons]
    exact ⟨rfl, rfl, rfl, rfl, rfl, rfl, rfl, rfl, rfl, rfl, by simp⟩
  have hitems : render ctx (some m) (.list items) = closeItems (some m) <$> renderItems ctx (some m) items := by
    rw [render]
    all_goals
    · rintro heq
      obtain rfl := Option.some.inj heq
      exact absurd hm (by decide)
  rw [hitems, hclose m hm, renderItems_eq_mapM]
  simp only [hitem m hm]

/-- The value of an entry is its operands with commas between them. -/
theorem entryText_eq_operands {e : String × Value} (h : HasOperands e) (ctx : Context) (listAs : Modifier) :
    ctx.entryText listAs e = commaList <$> e.2.operands.mapM fun v => ctx.entryText .expand (e.1, v) := by
  obtain ⟨m, hm, hmod⟩ := h.exists_entryModifier
  obtain ⟨key, v⟩ := e
  have hentry (listAs : Modifier) (v : Value) : ctx.entryText listAs (key, v) = render ctx (some m) v := by
    rw [Context.entryText, hmod]
  simp only [hentry]
  cases v with
  | list items => exact render_list_scalar hm ctx items
  | _ => simp [Value.operands, commaList]

theorem entryCell_eq_operands {e : String × Value} (h : HasOperands e) (ctx : Context) (listAs : Modifier) :
    ctx.entryCell listAs e = joinedOperands <$> ctx.entryOperands e := by
  rw [Context.entryCell, Context.entryOperands, entryText_eq_operands h]
  simp [joinedOperands]

theorem renderCells_eq_operands {entries : List (String × Value)} (h : ∀ e ∈ entries, HasOperands e) (ctx : Context)
    (listAs : Modifier) :
    renderCells ctx listAs entries = List.map joinedOperands <$> entries.mapM ctx.entryOperands := by
  rw [renderCells_eq_mapM]
  induction entries with
  | nil => rfl
  | cons e es ih =>
    have hrest := ih fun e' he => h e' (List.mem_cons_of_mem e he)
    rw [List.mapM_cons, List.mapM_cons, hrest, entryCell_eq_operands (h e List.mem_cons_self)]
    simp

/-- The column and the operands of an entry, each as it is written on its own. -/
structure WrittenOperands (ctx : Context) (e : String × Value) (w : String × List String) : Prop where
  column : ctx.identifier (splitKey e.1).1 = .done w.1 [] 0
  operands : List.Forall₂ (fun v t => ctx.entryText .expand (e.1, v) = .done t [] 0) e.2.operands w.2

/-- A column that hides commas and spaces, with operands that hide commas. -/
structure WholeOperands (k : Kind) (w : String × List String) : Prop where
  column : k.Whole [',', ' '] w.1.toList
  operands : ∀ t ∈ w.2, k.Whole [','] t.toList
  ne_nil : w.2 ≠ []

/-- A scalar under a suffix of plain data is written, and without issues it is whole. -/
theorem yields_operand (hd : ctx.dialect = k.dialect) {e : String × Value} (h : HasOperands e) {v : Value}
    (hv : v ∈ e.2.operands) : Yields k [','] (ctx.entryText .expand (e.1, v)) := by
  obtain ⟨m, hm, hmod⟩ := h.exists_entryModifier
  obtain ⟨a, rfl⟩ := h.scalars v hv
  rw [Context.entryText, hmod]
  simp only [render]
  exact yields_scalarAs hd (isPlain_of_mem_scalarModifiers hm) a

theorem exists_entryOperands (hd : ctx.dialect = k.dialect) {e : String × Value} (h : HasOperands e) :
    ∃ w issues, ctx.entryOperands e = .done w issues 0 ∧
      (issues = [] → WrittenOperands ctx e w ∧ WholeOperands k w) := by
  obtain ⟨column, found, hc, hwc⟩ := yields_identifier hd (splitKey e.1).1
  obtain ⟨texts, later, ht, hf⟩ := exists_mapM fun v hv => (yields_operand hd h hv).exists_done
  refine ⟨(column, texts), found ++ later, ?_, fun hnil => ?_⟩
  · rw [Context.entryOperands, hc, Render.done_bind, ht, Render.done_bind]
    simp [Render.pure_eq]
  · obtain ⟨rfl, rfl⟩ := List.append_eq_nil_iff.1 hnil
    have hall := hf rfl
    refine ⟨⟨hc, hall.imp fun _ _ ht => ht.1⟩, hwc rfl, forall_mem_right hall fun _ _ ht => ht.2, ?_⟩
    rintro rfl
    exact h.ne_nil (List.forall₂_nil_right_iff.1 hall)

/-! ## Clauses -/

/-- Lists with commas, put together with commas, are one list. -/
theorem commaList_flatMap {α : Type} {f : α → List String} {as : List α} (h : ∀ a ∈ as, f a ≠ []) :
    commaList (as.map fun a => commaList (f a)) = commaList (as.flatMap f) := by
  have hne : ∀ ps ∈ as.map fun a => (f a).map String.toList, ps ≠ [] := by
    simpa using h
  apply String.toList_injective
  rw [toList_commaList, toList_commaList, List.map_flatMap, List.flatMap_def, ← commaJoined_flatten hne, List.map_map,
    List.map_map]
  congr 1
  exact List.map_congr_left fun a _ => toList_commaList (f a)

/-- An assignment is a list with as many parts as operands, the first one behind the column. -/
def assignedOperands (w : String × List String) : List String :=
  match w.2 with
  | [] => [w.1 ++ " = "]
  | t :: ts => (w.1 ++ " = " ++ t) :: ts

theorem assignment_joinedOperands (w : String × List String) :
    assignment (joinedOperands w) = commaList (assignedOperands w) := by
  obtain ⟨column, texts⟩ := w
  cases texts with
  | nil => simp [assignment, joinedOperands, assignedOperands, commaList]
  | cons t ts => simp only [assignment, joinedOperands, assignedOperands, commaList_cons, String.append_assoc]

/-- The operator in front of the operands of a condition. -/
def operandsOperator (texts : List String) : String :=
  if texts = ["NULL"] then "IS" else "="

/-- The reader finds the column, the operator and one operand for each text in a condition. -/
def ReadsCondition (k : Kind) (w : String × List String) (part : List Char) : Prop :=
  ∃ value, k.cell? [(operandsOperator w.2).toList] part = some (w.1.toList, value) ∧
    k.listed value = some (w.2.map String.toList)

/-- In the clause of a mapping the reader finds the columns, and the operands of each entry one by one. There are as
many operands as columns exactly if no value is a list. -/
def ReadsOperands (k : Kind) (ctx : Context) (m : Modifier) (entries : List (String × Value)) (text : String) : Prop :=
  ∃ ws : List (String × List String), List.Forall₂ (WrittenOperands ctx) entries ws ∧
    ((ws.flatMap Prod.snd).length = ws.length ↔ ∀ e ∈ entries, e.2.isList = false) ∧
    match m with
    | .values => k.readMapping? .values text.toList =
        some ((ws.map Prod.fst).map String.toList, (ws.flatMap Prod.snd).map String.toList)
    | .assign => k.listed text.toList = some ((ws.flatMap assignedOperands).map String.toList)
    | m => ∃ parts, k.conditions? m.conditionWord.toList text.toList = some parts ∧
        List.Forall₂ (ReadsCondition k) ws parts

section Clauses

variable {entries : List (String × Value)} {ws : List (String × List String)}

theorem WrittenOperands.length_eq {e : String × Value} {w : String × List String} (h : WrittenOperands ctx e w) :
    w.2.length = e.2.operands.length :=
  h.operands.length_eq.symm

/-- Each entry has an operand, and one with a list has more. -/
theorem length_flatMap_operands (he : ∀ e ∈ entries, HasOperands e)
    (h : List.Forall₂ (WrittenOperands ctx) entries ws) :
    ws.length ≤ (ws.flatMap Prod.snd).length ∧
      ((ws.flatMap Prod.snd).length = ws.length ↔ ∀ e ∈ entries, e.2.isList = false) := by
  -- the inequality is carried along: without it the sums could agree although the entries do not
  induction h with
  | nil => simp
  | @cons e w es ws hw _ ih =>
    obtain ⟨hle, hiff⟩ := ih fun e' h' => he e' (List.mem_cons_of_mem e h')
    have hone := (he e List.mem_cons_self).length_eq_one_iff
    have hpos := List.length_pos_iff.2 (he e List.mem_cons_self).ne_nil
    rw [← hw.length_eq] at hone hpos
    rw [List.flatMap_cons, List.length_append, List.length_cons, List.forall_mem_cons, ← hone, ← hiff]
    omega

theorem whole_columnTexts (h : ∀ w ∈ ws, WholeOperands k w) :
    ∀ p ∈ (ws.map Prod.fst).map String.toList, k.Whole [','] p :=
  List.forall_mem_map.2 (List.forall_mem_map.2 fun w hw => (h w hw).column.mono (by simp))

theorem whole_operandTexts {w : String × List String} (h : WholeOperands k w) :
    ∀ p ∈ w.2.map String.toList, k.Whole [','] p :=
  List.forall_mem_map.2 h.operands

theorem readMapping?_operands (hne : ws ≠ []) (h : ∀ w ∈ ws, WholeOperands k w) :
    k.readMapping? .values (valuesClause (ws.map joinedOperands)).toList =
      some ((ws.map Prod.fst).map String.toList, (ws.flatMap Prod.snd).map String.toList) := by
  have hclause : valuesClause (ws.map joinedOperands) =
      tuple (ws.map Prod.fst) ++ " VALUES " ++ tuple (ws.flatMap Prod.snd) := by
    have hflat := commaList_flatMap fun w hw => (h w hw).ne_nil
    rw [valuesClause, tuple, tuple, tuple, tuple, List.map_map, List.map_map, ← hflat]
    rfl
  have hoperands : ∀ p ∈ (ws.flatMap Prod.snd).map String.toList, k.Whole [','] p := by
    refine List.forall_mem_map.2 fun t ht => ?_
    obtain ⟨w, hw, ht⟩ := List.mem_flatMap.1 ht
    exact (h w hw).operands t ht
  have hne' : ws.flatMap Prod.snd ≠ [] := by
    obtain ⟨w, ws, rfl⟩ := List.exists_cons_of_ne_nil hne
    simp [(h w List.mem_cons_self).ne_nil]
  rw [hclause]
  exact readMapping?_tuples (by simpa using hne) (whole_columnTexts h) hne' hoperands

theorem whole_assignedOperands {w : String × List String} (h : WholeOperands k w) :
    ∀ t ∈ assignedOperands w, k.Whole [','] t.toList := by
  obtain ⟨column, texts⟩ := w
  cases texts with
  | nil => exact absurd rfl h.ne_nil
  | cons t ts =>
    have hfirst : (column ++ " = " ++ t).toList = column.toList ++ ' ' :: ("=".toList ++ ' ' :: t.toList) := by simp
    refine List.forall_mem_cons.2 ⟨?_, fun t' ht => h.operands t' (List.mem_cons_of_mem t ht)⟩
    rw [hfirst]
    exact whole_cell (List.Subset.refl _) h.column (by decide) (h.operands t List.mem_cons_self)

theorem assignedOperands_ne_nil (w : String × List String) : assignedOperands w ≠ [] := by
  unfold assignedOperands
  split <;> exact List.cons_ne_nil _ _

theorem listed_assignedOperands (hne : ws ≠ []) (h : ∀ w ∈ ws, WholeOperands k w) :
    k.listed (commaList ((ws.map joinedOperands).map assignment)).toList =
      some ((ws.flatMap assignedOperands).map String.toList) := by
  have hclause : commaList ((ws.map joinedOperands).map assignment) = commaList (ws.flatMap assignedOperands) := by
    rw [← commaList_flatMap fun w _ => assignedOperands_ne_nil w, List.map_map]
    congr 1
    exact List.map_congr_left fun w _ => assignment_joinedOperands w
  have hne' : ws.flatMap assignedOperands ≠ [] := by
    obtain ⟨w, ws, rfl⟩ := List.exists_cons_of_ne_nil hne
    simp [assignedOperands_ne_nil w]
  rw [hclause, toList_commaList]
  refine k.listed_eq (by simpa using hne') (List.forall_mem_map.2 fun t ht => ?_)
  obtain ⟨w, hw, ht⟩ := List.mem_flatMap.1 ht
  exact whole_assignedOperands (h w hw) t ht

/-! ## Conditions -/

/-- Several operands are not written as `NULL`, since a comma stands between them. -/
theorem commaList_eq_null_iff {texts : List String} (hne : texts ≠ []) :
    commaList texts = "NULL" ↔ texts = ["NULL"] := by
  match texts with
  | [] => exact absurd rfl hne
  | [t] => simp [commaList]
  | t :: u :: ts =>
    have hcomma : ',' ∈ (commaList (t :: u :: ts)).toList := by
      rw [toList_commaList, List.map_cons, List.map_cons, commaJoined_cons_cons]
      simp
    refine iff_of_false (fun h => ?_) (by simp)
    rw [h] at hcomma
    exact absurd hcomma (by decide)

theorem operator_scalar {m : Modifier} (hm : m ∈ scalarModifiers) (text : String) :
    operator (.ok (some m)) text = if text = "NULL" then " IS " else " = " := by
  revert m
  simp only [scalarModifiers, List.forall_mem_cons]
  exact ⟨rfl, rfl, rfl, rfl, rfl, rfl, rfl, rfl, rfl, rfl, by simp⟩

/-- The condition on an entry is its column, the operator, and its operands with commas between them. -/
theorem toList_comparison {e : String × Value} {w : String × List String} (he : HasOperands e)
    (hw : WholeOperands k w) :
    (comparison e (joinedOperands w)).toList =
      w.1.toList ++ ' ' :: ((operandsOperator w.2).toList ++ ' ' :: commaJoined (w.2.map String.toList)) := by
  obtain ⟨m, hm, hmod⟩ := he.exists_entryModifier
  have hoperator : operator (.ok (some m)) (commaList w.2) = " " ++ operandsOperator w.2 ++ " " := by
    rw [operator_scalar hm, operandsOperator]
    simp only [commaList_eq_null_iff hw.ne_nil]
    split <;> rfl
  rw [comparison, hmod, joinedOperands, hoperator, ← toList_commaList]
  simp

theorem isInert_operandsOperator (texts : List String) :
    (operandsOperator texts).toList.all (isInert [',', ' ']) = true := by
  unfold operandsOperator
  split <;> decide

theorem readsCondition {e : String × Value} {w : String × List String} (he : HasOperands e)
    (hw : WholeOperands k w) : ReadsCondition k w (comparison e (joinedOperands w)).toList ∧
      k.Whole [] (comparison e (joinedOperands w)).toList := by
  have hoperands := whole_commaJoined (whole_operandTexts hw)
  have hi := isInert_operandsOperator w.2
  rw [toList_comparison he hw]
  constructor
  · refine ⟨_, Kind.cell?_eq hw.column (List.mem_singleton_self _) hi hoperands, ?_⟩
    exact k.listed_eq (by simpa using hw.ne_nil) (whole_operandTexts hw)
  · exact whole_cell (List.nil_subset _) hw.column hi hoperands

theorem forall₂_readsCondition (he : ∀ e ∈ entries, HasOperands e)
    (h : List.Forall₂ (fun _ w => WholeOperands k w) entries ws) :
    List.Forall₂ (fun w t => ReadsCondition k w t.toList ∧ k.Whole [] t.toList) ws
      (entries.zipWith comparison (ws.map joinedOperands)) := by
  induction h with
  | nil => exact .nil
  | @cons e w es ws hw _ ih =>
    exact .cons (readsCondition (he e List.mem_cons_self) hw) (ih fun e' h' => he e' (List.mem_cons_of_mem e h'))

theorem conditions?_operands (hne : entries ≠ []) (he : ∀ e ∈ entries, HasOperands e)
    (h : List.Forall₂ (fun _ w => WholeOperands k w) entries ws) {m : Modifier} (hm : m = .allOf ∨ m = .anyOf) :
    ∃ parts, k.conditions? m.conditionWord.toList
        (conditions m.conditionWord (entries.zipWith comparison (ws.map joinedOperands))).toList = some parts ∧
      List.Forall₂ (ReadsCondition k) ws parts := by
  have hreads := forall₂_readsCondition he h
  have hwhole : ∀ p ∈ (entries.zipWith comparison (ws.map joinedOperands)).map String.toList, k.Whole [] p :=
    List.forall_mem_map.2 (forall_mem_right hreads fun _ _ ht => ht.2)
  have hword : m.conditionWord.toList.all (isInert [' ']) = true := by
    rcases hm with rfl | rfl <;> decide
  have hne' : entries.zipWith comparison (ws.map joinedOperands) ≠ [] := by
    rintro hnil
    rw [hnil] at hreads
    obtain rfl := List.forall₂_nil_right_iff.1 hreads
    exact hne (List.forall₂_nil_right_iff.1 h)
  refine ⟨_, ?_, List.forall₂_map_right_iff.2 (hreads.imp fun _ _ ht => ht.1)⟩
  rw [toList_conditions _ hne']
  exact k.conditions?_eq hword (by simpa using hne') hwhole

end Clauses

/-! ## Mappings -/

/-- In a known dialect the clause of a mapping with scalars and lists of scalars under suffixes of plain data is
written, and without issues each scalar is an operand of its own. A mapping behind the first text of a statement that
inserts rows is the same clause. -/
theorem mapping_operands {k : Kind} {ctx : Context} (hd : ctx.dialect = k.dialect) {m : Modifier}
    (hm : m ∈ [Modifier.values, .assign, .allOf, .anyOf]) {entries : List (String × Value)} (hne : entries ≠ [])
    (he : ∀ e ∈ entries, HasOperands e) :
    ∃ text issues, render ctx (some m) (.map entries) = .done text issues 0 ∧
      (issues = [] → ReadsOperands k ctx m entries text) ∧
      (m = .values → ∀ first, isInsertCommand first = true →
        (∀ l ∈ scan (.fragment ctx.placeholders) first, l.IsPassive) →
        ∃ front found, ctx.outcome [.sql first, .value (.map entries)] =
          .ok (Output.finish ⟨Output.opening front text, false⟩, found ++ issues)) := by
  obtain ⟨ws, issues, hws, hread⟩ := exists_mapM fun e h => exists_entryOperands hd (he e h)
  have hcells (listAs : Modifier) : renderCells ctx listAs entries = .done (ws.map joinedOperands) issues 0 := by
    rw [renderCells_eq_operands he, hws, Render.map_done]
  have written (hi : issues = []) : List.Forall₂ (WrittenOperands ctx) entries ws := (hread hi).imp fun _ _ h => h.1
  have whole (hi : issues = []) : List.Forall₂ (fun _ w => WholeOperands k w) entries ws :=
    (hread hi).imp fun _ _ h => h.2
  have wholes (hi : issues = []) : ∀ w ∈ ws, WholeOperands k w := forall_mem_right (whole hi) fun _ _ h => h
  have nonempty (hi : issues = []) : ws ≠ [] := by
    rintro rfl
    exact hne (List.forall₂_nil_right_iff.1 (whole hi))
  have count (hi : issues = []) := (length_flatMap_operands he (written hi)).2
  have conditions (hi : issues = []) {m : Modifier} (hm : m = .allOf ∨ m = .anyOf) :=
    conditions?_operands hne he (whole hi) hm
  simp only [List.mem_cons, List.not_mem_nil, or_false] at hm
  rcases hm with rfl | rfl | rfl | rfl
  · refine ⟨valuesClause (ws.map joinedOperands), issues, ?_, fun hi => ?_, fun _ first hinsert hfirst => ?_⟩
    · rw [render, hcells, Render.map_done]
    · exact ⟨ws, written hi, count hi, readMapping?_operands (nonempty hi) (wholes hi)⟩
    · have hwrites : ctx.dialect.WritesAll := by
        rw [hd]
        exact k.writesAll
      obtain ⟨texts, found, masked, hfront, -⟩ :=
        Render.Notes.mapM fun l (_ : l ∈ scan (.fragment ctx.placeholders) first) => Context.notes_lexeme hwrites l
      exact ⟨_, _, outcome_firstRow hinsert hfirst hfront (hcells .expand)⟩
  · refine ⟨commaList ((ws.map joinedOperands).map assignment), issues, ?_, fun hi => ?_, by simp⟩
    · rw [render, hcells, Render.done_bind]
      simp [Render.pure_eq]
    · exact ⟨ws, written hi, count hi, listed_assignedOperands (nonempty hi) (wholes hi)⟩
  · refine ⟨_, issues, ?_, fun hi => ⟨ws, written hi, count hi, conditions hi (.inl rfl)⟩, by simp⟩
    rw [render, hcells, Render.done_bind]
    simp [Render.pure_eq, Modifier.conditionWord]
  · refine ⟨_, issues, ?_, fun hi => ⟨ws, written hi, count hi, conditions hi (.inr rfl)⟩, by simp⟩
    rw [render, hcells, Render.done_bind]
    simp [Render.pure_eq, Modifier.conditionWord]

/-- Lists and scalars under suffixes, with a comma in a text. -/
def sampleOperands : List (String × Value) :=
  [("a%i", .list [.scalar (.int 1), .scalar (.text "2")]), ("b%s", .scalar (.text "x, y")),
    ("c%b", .list [.scalar .null, .scalar (.bool true), .scalar (.int 0)])]

theorem mapping_operands_sample :
    let ctx : Context := .leapDay .sqlserver
    let text := "[a] = 1, 2, [b] = N'x, y', [c] = NULL, 1, 0"
    Modifier.assign ∈ [Modifier.values, .assign, .allOf, .anyOf] ∧ sampleOperands ≠ [] ∧
      (∀ e ∈ sampleOperands, HasOperands e) ∧ ReadsOperands .sqlserver ctx .assign sampleOperands text := by
  intro ctx text
  have hm : Modifier.assign ∈ [Modifier.values, .assign, .allOf, .anyOf] := by decide
  have hne : sampleOperands ≠ [] := by decide
  have he : ∀ e ∈ sampleOperands, HasOperands e := by
    simp only [sampleOperands, List.forall_mem_cons]
    refine ⟨⟨⟨"i", rfl, .int, by decide, rfl⟩, ?_, ?_⟩, ⟨⟨"s", rfl, .text, by decide, rfl⟩, ?_, ?_⟩,
      ⟨⟨"b", rfl, .bool, by decide, rfl⟩, ?_, ?_⟩, by simp⟩ <;> simp [Value.operands, Value.isList]
  refine ⟨hm, hne, he, ?_⟩
  have hd : ctx.dialect = Kind.sqlserver.dialect := rfl
  obtain ⟨given, issues, hr, hread, -⟩ := mapping_operands hd hm hne he
  have ht : render ctx (some .assign) (.map sampleOperands) = .done text [] 0 := by cbv
  rw [ht] at hr
  cases hr
  exact hread rfl

/-- Two elements under a suffix are two values in one column, and what a condition compares with has no parentheses. -/
theorem operands_bare :
    let ctx : Context := .leapDay .generic
    let entry : String × Value := ("a%i", .list [.scalar (.int 1), .scalar (.int 2)])
    let written (m : Modifier) := render ctx (some m) (.map [entry])
    HasOperands entry ∧
      written .values = .done "(\"a\") VALUES (1, 2)" [] 0 ∧
      Kind.generic.readMapping? .values "(\"a\") VALUES (1, 2)".toList =
        some (["\"a\"".toList], ["1".toList, "2".toList]) ∧
      written .assign = .done "\"a\" = 1, 2" [] 0 ∧
      Kind.generic.listed "\"a\" = 1, 2".toList = some ["\"a\" = 1".toList, "2".toList] ∧
      written .allOf = .done "(\"a\" = 1, 2)" [] 0 ∧ written .anyOf = .done "(\"a\" = 1, 2)" [] 0 ∧
      Kind.generic.conditions? "AND".toList "(\"a\" = 1, 2)".toList = some ["\"a\" = 1, 2".toList] ∧
      Kind.generic.cell? ["IN".toList] "\"a\" = 1, 2".toList = none := by
  intro ctx entry written
  have he : HasOperands ("a%i", .list [.scalar (.int 1), .scalar (.int 2)]) := by
    refine ⟨⟨"i", rfl, .int, by decide, rfl⟩, ?_, ?_⟩ <;> simp [Value.operands]
  refine ⟨he, ?_, by decide +kernel, ?_, by decide +kernel, ?_, ?_, by decide +kernel, by decide +kernel⟩
  all_goals
  · dsimp only [written, entry, ctx]
    cbv

end SqlComposer
