import SqlComposer.Proofs.Clause.Operands
import SqlComposer.Proofs.Dialect.IdentifierReader

/-!
# Comparisons with null

The operator of a condition is chosen by the text of its value. No other value is written like null.

* `Scalar.isSqlNull` : the scalars that stand for null under a modifier;
* `NeverNull` : results that are no `NULL`; `text_eq_null_iff` : a scalar is written as `NULL` exactly if it stands for null;
* `ComparesSafely` : a condition with `IS` and `NULL`, or with `=` and another value;
* `conditions_null_safe` : so are the conditions of a mapping of scalars, and so they are read back.
-/

namespace SqlComposer

open Dialect

/-! ## Null -/

/-- The modifiers whose values are compared by `=` or `IS`. -/
def comparedModifiers : List Modifier :=
  scalarModifiers ++ [.identifier, .rawIdentifier]

theorem like_not_mem (anchor : Anchor) : .like anchor ∉ comparedModifiers := by
  cases anchor <;> decide

/-- The scalar stands for null under the modifier: null itself, and empty or blank text where the modifier says so. -/
def Scalar.isSqlNull (m : Option Modifier) : Scalar → Bool
  | .null => true
  | .text s =>
    match m with
    | some .textOrNull => s.isEmpty
    | some .intOrNull => s.toList.all Text.isBlank
    | _ => false
  | _ => false

/-- Without issues the result is some other text than `NULL`. -/
def NeverNull (r : Render String) : Prop :=
  ∀ text n, r = .done text [] n → text ≠ "NULL"

/-! ## Texts that are not null -/

section Texts

theorem neverNull_note (i : Issue) : NeverNull (.note i) := by
  intro text n h
  cases h

/-- A text with a character that is no letter of `NULL`. -/
theorem neverNull_of_mem {text : String} (c : Char) (h : c ∈ text.toList) (hc : c ∉ "NULL".toList) :
    NeverNull (.done text [] 0) := by
  rintro _ n ⟨⟩ rfl
  exact hc h

theorem neverNull_ofList {cs : List Char} (c : Char) (h : c ∈ cs) (hc : c ∉ "NULL".toList) :
    NeverNull (.done (String.ofList cs) [] 0) :=
  neverNull_of_mem c (by rwa [String.toList_ofList]) hc

theorem neverNull_figures {cs : List Char} (h : Figures cs) : NeverNull (.done (String.ofList cs) [] 0) := by
  rintro _ n ⟨⟩ hnull
  have hn : 'N' ∈ (String.ofList cs).toList := by
    rw [hnull]
    decide
  rw [String.toList_ofList] at hn
  exact absurd (h 'N' hn) (by decide)

theorem neverNull_numberOr {given : String} {text : Option (List Char)} (h : ∀ cs, text = some cs → Figures cs) :
    NeverNull (.orNote (numberOr given text)) := by
  cases text with
  | none => exact neverNull_note _
  | some cs => exact neverNull_figures (h cs rfl)

theorem neverNull_intText (n : Int) : NeverNull (pure (intText n)) :=
  neverNull_figures (Decimal.figures_intText n)

theorem neverNull_bitText (b : Bool) : NeverNull (pure (bitText b)) := by
  cases b with
  | false => exact neverNull_of_mem '0' (by decide) (by decide)
  | true => exact neverNull_of_mem '1' (by decide) (by decide)

theorem neverNull_floatText (x : Binary64) : NeverNull (.orNote (floatText x)) :=
  neverNull_numberOr fun _ h => Decimal.figures_plainText? h

end Texts

section Dialects

variable {k : Kind} {ctx : Context}

theorem quote_mem_text (k : Kind) (s : List Char) : '\'' ∈ k.text s := by
  cases k with
  | sqlserver => exact List.mem_cons_of_mem _ List.mem_cons_self
  | _ => exact List.mem_cons_self

theorem quote_mem_date (k : Kind) (d : Date) : '\'' ∈ k.date d := by
  cases k with
  | generic => exact List.mem_append_right _ (List.mem_singleton_self _)
  | sqlserver => exact List.mem_append_left _ (List.mem_append_left _ (by decide))
  | _ => exact List.mem_cons_self

theorem quote_mem_dateTime (k : Kind) (t : DateTime) : '\'' ∈ k.dateTime t := by
  cases k with
  | generic => exact List.mem_append_right _ (List.mem_singleton_self _)
  | sqlserver => exact List.mem_append_left _ (List.mem_append_left _ (by decide))
  | _ => exact List.mem_cons_self

theorem neverNull_text (hd : ctx.dialect = k.dialect) (s : String) : NeverNull (.ofDialect (ctx.dialect.text s)) := by
  rw [hd]
  exact neverNull_ofList '\'' (quote_mem_text k _) (by decide)

theorem neverNull_date (hd : ctx.dialect = k.dialect) (d : Date) : NeverNull (.ofDialect (ctx.dialect.date d)) := by
  rw [hd]
  exact neverNull_ofList '\'' (quote_mem_date k d) (by decide)

theorem neverNull_dateTime (hd : ctx.dialect = k.dialect) (t : DateTime) :
    NeverNull (.ofDialect (ctx.dialect.dateTime t)) := by
  rw [hd]
  exact neverNull_ofList '\'' (quote_mem_dateTime k t) (by decide)

theorem neverNull_bool (hd : ctx.dialect = k.dialect) (b : Bool) : NeverNull (pure (ctx.dialect.bool b)) := by
  rw [hd]
  rintro _ n ⟨⟩
  cases k <;> cases b <;> decide

/-- All binary literals but those of one dialect are quoted. -/
theorem neverNull_binary (hd : ctx.dialect = k.dialect) (bytes : List UInt8) :
    NeverNull (.ofDialect (ctx.dialect.binary bytes)) := by
  have hquoted {word behind cs : List Char} (h : '\'' ∈ word) : '\'' ∈ word ++ cs ++ behind :=
    List.mem_append_left _ (List.mem_append_left _ h)
  rw [hd]
  cases k with
  | sqlserver => exact neverNull_ofList 'x' (List.mem_append_left _ (by decide)) (by decide)
  | _ => exact neverNull_ofList '\'' (hquoted (by decide)) (by decide)

/-- An identifier starts with a quote or a star. -/
theorem exists_head?_writtenName (k : Kind) {ps : List NamePart} (hne : ps ≠ []) :
    ∃ c, (k.writtenName ps).head? = some c ∧ c ∉ "NULL".toList := by
  have hpart (p : NamePart) : ∃ c cs, k.writtenPart p = c :: cs ∧ c ∉ "NULL".toList := by
    cases p with
    | star => exact ⟨'*', [], rfl, by decide⟩
    | quoted name => exact ⟨_, _, rfl, by cases k <;> decide⟩
  obtain ⟨p, ps, rfl⟩ := List.exists_cons_of_ne_nil hne
  obtain ⟨c, cs, hp, hc⟩ := hpart p
  refine ⟨c, ?_, hc⟩
  cases ps with
  | nil => rw [writtenName_singleton, hp, List.head?_cons]
  | cons q qs => rw [writtenName_cons_cons, hp, List.cons_append, List.head?_cons]

theorem neverNull_identifier (hd : ctx.dialect = k.dialect) (name : String) : NeverNull (ctx.identifier name) := by
  cases hs : ctx.substitutions.substitute name with
  | error i =>
    rw [Context.identifier, hs]
    exact neverNull_note i
  | ok text =>
    rw [identifier_eq hd hs]
    have hparts : (Text.parts '.' text.toList).map NamePart.ofText ≠ [] := by simpa using Text.parts_ne_nil _ _
    obtain ⟨c, hhead, hc⟩ := exists_head?_writtenName k hparts
    exact neverNull_ofList c (List.mem_of_mem_head? hhead) hc

theorem neverNull_rawIdentifier (hd : ctx.dialect = k.dialect) (name : String) :
    NeverNull (.ofDialect (ctx.dialect.identifier name)) := by
  rw [hd]
  refine neverNull_ofList k.quotes.1 List.mem_cons_self ?_
  cases k <;> decide

/-! ## Scalars -/

theorem neverNull_plainScalar (hd : ctx.dialect = k.dialect) {a : Scalar} (ha : a.isData = true) (hn : a ≠ .null) :
    NeverNull (ctx.plainScalar a) := by
  cases a with
  | null => exact absurd rfl hn
  | bool b => exact neverNull_bool hd b
  | int n => exact neverNull_intText n
  | float x => exact neverNull_floatText x
  | text s => exact neverNull_text hd s
  | binary bytes => exact neverNull_binary hd bytes
  | date d => exact neverNull_date hd d
  | dateTime t => exact neverNull_dateTime hd t
  | literal sql => cases ha

theorem neverNull_textScalar (hd : ctx.dialect = k.dialect) (m : Modifier) (a : Scalar) :
    NeverNull (ctx.textScalar m a) := by
  unfold Context.textScalar
  split
  · exact neverNull_text hd _
  · exact neverNull_text hd _
  · unfold Context.textOrNote
    split
    · exact neverNull_note _
    · exact neverNull_text hd _
  · exact neverNull_text hd _
  · exact neverNull_note _

theorem neverNull_intScalar (m : Modifier) (a : Scalar) : NeverNull (Context.intScalar m a) := by
  unfold Context.intScalar
  split
  · exact neverNull_intText _
  · exact neverNull_bitText _
  · refine neverNull_numberOr fun cs h => ?_
    split at h
    · obtain rfl := Option.some.inj h
      exact Decimal.figures_wholeText _
    · cases h
  · exact neverNull_numberOr fun _ h => Decimal.figures_of_integerText? h
  · exact neverNull_note _

theorem neverNull_floatScalar (m : Modifier) (a : Scalar) : NeverNull (Context.floatScalar m a) := by
  unfold Context.floatScalar
  split
  · exact neverNull_floatText _
  · exact neverNull_intText _
  · exact neverNull_bitText _
  · exact neverNull_numberOr fun _ h => Decimal.figures_of_numericText? h
  · exact neverNull_note _

theorem neverNull_dateScalar (hd : ctx.dialect = k.dialect) (a : Scalar) : NeverNull (ctx.dateScalar a) := by
  unfold Context.dateScalar
  split
  · exact neverNull_note _
  · exact neverNull_date hd _

theorem neverNull_dateTimeScalar (hd : ctx.dialect = k.dialect) (a : Scalar) : NeverNull (ctx.dateTimeScalar a) := by
  unfold Context.dateTimeScalar
  split
  · exact neverNull_note _
  · exact neverNull_dateTime hd _

/-- What does not stand for null is not written as `NULL`. -/
theorem neverNull_givenScalar (hd : ctx.dialect = k.dialect) {m : Modifier} (hm : m ∈ comparedModifiers) {a : Scalar}
    (hn : a.isSqlNull (some m) = false) : NeverNull (ctx.givenScalar m a) := by
  cases m with
  | text => exact neverNull_textScalar hd _ a
  | textOrNull =>
    have hne : a ≠ .text "" := by
      rintro rfl
      cases hn
    unfold Context.givenScalar
    simp only [if_neg hne]
    exact neverNull_textScalar hd _ a
  | binary =>
    cases a with
    | binary bytes => exact neverNull_binary hd _
    | text s => exact neverNull_binary hd _
    | _ => exact neverNull_note _
  | bool =>
    cases a with
    | bool b => exact neverNull_bool hd _
    | int n => exact neverNull_bool hd _
    | float x => exact neverNull_bool hd _
    | text s => exact neverNull_bool hd _
    | _ => exact neverNull_note _
  | int => exact neverNull_intScalar _ a
  | unsigned => exact neverNull_intScalar _ a
  | intOrNull =>
    have hint := neverNull_intScalar .intOrNull a
    cases a with
    | text s =>
      have hblank : ¬s.toList.all Text.isBlank = true := Bool.eq_false_iff.1 hn
      unfold Context.givenScalar
      simp only [if_neg hblank]
      exact hint
    | _ => exact hint
  | float => exact neverNull_floatScalar _ a
  | date => exact neverNull_dateScalar hd a
  | dateTime => exact neverNull_dateTimeScalar hd a
  | identifier =>
    cases a with
    | text name => exact neverNull_identifier hd name
    | _ => exact neverNull_note _
  | rawIdentifier =>
    cases a with
    | text name => exact neverNull_rawIdentifier hd name
    | _ => exact neverNull_note _
  | like anchor => exact absurd hm (like_not_mem anchor)
  | _ => exact absurd hm (by decide)

/-- What stands for null is written as `NULL`, or it is an issue under the modifier. -/
theorem scalarAs_of_isSqlNull {m : Modifier} (hm : m ∈ comparedModifiers) {a : Scalar}
    (hn : a.isSqlNull (some m) = true) : ctx.scalarAs m a = pure "NULL" ∨ ∃ i, ctx.scalarAs m a = .note i := by
  unfold Context.scalarAs
  split
  · exact .inl rfl
  · next hgiven =>
    cases a with
    | null =>
      -- of the modifiers of a comparison, those of names take no null
      have hnames : m = .identifier ∨ m = .rawIdentifier := by
        revert hm hgiven
        cases m <;> simp [comparedModifiers, scalarModifiers, Modifier.takesNull]
      rcases hnames with rfl | rfl <;> exact .inr ⟨_, rfl⟩
    | text s =>
      cases m with
      | textOrNull =>
        obtain rfl : s = "" := by simpa [Scalar.isSqlNull] using hn
        exact .inl rfl
      | intOrNull =>
        have hblank : s.toList.all Text.isBlank = true := hn
        refine .inl ?_
        unfold Context.givenScalar
        simp only [if_pos hblank]
      | _ => cases hn
    | _ => cases hn

/-- A scalar is written as `NULL` exactly if it stands for null. -/
theorem text_eq_null_iff (hd : ctx.dialect = k.dialect) {m : Option Modifier} (hm : ∀ m' ∈ m, m' ∈ comparedModifiers)
    {a : Scalar} (ha : a.isData = true) {text : String} {n : Nat} (h : ctx.scalar m a = .done text [] n) :
    text = "NULL" ↔ a.isSqlNull m = true := by
  cases hn : a.isSqlNull m with
  | true =>
    refine iff_of_true ?_ rfl
    cases m with
    | none =>
      obtain rfl : a = .null := by cases a <;> first | rfl | cases hn
      cases h
      rfl
    | some m =>
      have hwritten : ctx.scalarAs m a = pure "NULL" ∨ ∃ i, ctx.scalarAs m a = .note i :=
        scalarAs_of_isSqlNull (hm m rfl) hn
      rcases hwritten with hnull | ⟨i, hnote⟩
      · cases hnull.symm.trans h
        rfl
      · cases hnote.symm.trans h
  | false =>
    refine iff_of_false ?_ Bool.false_ne_true
    have hne : a ≠ .null := by
      rintro rfl
      cases hn
    cases m with
    | none => exact neverNull_plainScalar hd ha hne text n h
    | some m =>
      have hgiven : ctx.scalarAs m a = ctx.givenScalar m a := if_neg fun hnull => hne hnull.1
      exact neverNull_givenScalar hd (hm m rfl) hn text n (hgiven.symm.trans h)

end Dialects

/-! ## Conditions -/

/-- Data whose key has no suffix, or one under which values are compared by `=` or `IS`. -/
structure IsCompared (e : String × Scalar) : Prop where
  suffix : ∀ code ∈ (splitKey e.1).2, ∃ m ∈ comparedModifiers, Modifier.ofCode? code = some m
  data : e.2.isData = true

/-- The value of the entry stands for null, by the suffix of the key. -/
def isNullEntry (e : String × Scalar) : Bool :=
  e.2.isSqlNull ((splitKey e.1).2.bind Modifier.ofCode?)

/-- The operator that compares with the value of the entry. -/
def comparisonWord (e : String × Scalar) : String :=
  if isNullEntry e then "IS" else "="

/-- The condition is the column of the entry, the operator and its value, and it is read as these. Column and value are as
they are written on their own, and the value is `NULL` exactly if it stands for null. -/
def ComparesSafely (k : Kind) (ctx : Context) (e : String × Scalar) (text : String) : Prop :=
  ∃ column value, ctx.entryColumn e = .done column [] 0 ∧ ctx.entryValue e = .done value [] 0 ∧
    (value = "NULL" ↔ isNullEntry e = true) ∧ text = column ++ " " ++ comparisonWord e ++ " " ++ value ∧
    k.cell? [(comparisonWord e).toList] text.toList = some (column.toList, value.toList)

section Conditions

variable {k : Kind} {ctx : Context} {e : String × Scalar}

namespace IsCompared

theorem isPlainEntry (h : IsCompared e) : IsPlainEntry e := by
  refine ⟨fun code hcode hmem => ?_, h.data⟩
  obtain ⟨m, hm, hknown⟩ := h.suffix code hcode
  simp only [List.mem_cons, List.not_mem_nil, or_false] at hmem
  rcases hmem with rfl | rfl | rfl <;> cases hknown <;> exact absurd hm (by decide)

theorem entryModifier_eq (h : IsCompared e) (listAs : Modifier) :
    entryModifier listAs e.1 (.scalar e.2) = .ok ((splitKey e.1).2.bind Modifier.ofCode?) := by
  unfold entryModifier
  cases hs : (splitKey e.1).2 with
  | none => rfl
  | some code =>
    obtain ⟨m, -, hknown⟩ := h.suffix code hs
    simp only [hknown, Option.bind_some]

theorem mem_comparedModifiers (h : IsCompared e) : ∀ m ∈ (splitKey e.1).2.bind Modifier.ofCode?, m ∈ comparedModifiers := by
  intro m hm
  obtain ⟨code, hcode, hcm⟩ := Option.bind_eq_some_iff.1 hm
  obtain ⟨m', hm', hknown⟩ := h.suffix code hcode
  obtain rfl := Option.some.inj (hcm.symm.trans hknown)
  exact hm'

theorem value_eq_null_iff (hd : ctx.dialect = k.dialect) (h : IsCompared e) {value : String}
    (hv : ctx.entryValue e = .done value [] 0) : value = "NULL" ↔ isNullEntry e = true := by
  rw [Context.entryValue, h.entryModifier_eq] at hv
  simp only [render] at hv
  exact text_eq_null_iff hd h.mem_comparedModifiers h.data hv

end IsCompared

theorem operator_compared {m : Option Modifier} (hm : ∀ m' ∈ m, m' ∈ comparedModifiers) (text : String) :
    operator (.ok m) text = if text = "NULL" then " IS " else " = " := by
  cases m with
  | none => rfl
  | some m =>
    have hmem := hm m rfl
    cases m with
    | like anchor => exact absurd hmem (like_not_mem anchor)
    | _ => first | rfl | exact absurd hmem (by decide)

theorem comparison_eq (hd : ctx.dialect = k.dialect) (he : IsCompared e) {cell : String × String}
    (h : WrittenCell k ctx e cell) :
    comparison (e.1, .scalar e.2) cell = cell.1 ++ " " ++ comparisonWord e ++ " " ++ cell.2 := by
  have hnull := he.value_eq_null_iff hd h.value
  have hoperator : operator (.ok ((splitKey e.1).2.bind Modifier.ofCode?)) cell.2 = " " ++ comparisonWord e ++ " " := by
    rw [operator_compared he.mem_comparedModifiers, comparisonWord]
    simp only [hnull]
    split <;> rfl
  rw [comparison, he.entryModifier_eq, hoperator]
  simp only [String.append_assoc]

theorem comparesSafely (hd : ctx.dialect = k.dialect) (he : IsCompared e) {cell : String × String}
    (h : WrittenCell k ctx e cell) : ComparesSafely k ctx e (comparison (e.1, .scalar e.2) cell) := by
  have htext := comparison_eq hd he h
  have hword : (comparisonWord e).toList ∈ comparisonWords := by
    unfold comparisonWord
    split <;> decide
  have hlaid : (comparison (e.1, .scalar e.2) cell).toList =
      cell.1.toList ++ ' ' :: ((comparisonWord e).toList ++ ' ' :: cell.2.toList) := by
    rw [htext]
    simp
  have hread := h.readCell hword (List.mem_singleton_self _) hlaid
  exact ⟨cell.1, cell.2, h.column, h.value, he.value_eq_null_iff hd h.value, htext, hread.read⟩

theorem forall₂_comparesSafely (hd : ctx.dialect = k.dialect) {entries : List (String × Scalar)}
    {cells : List (String × String)} (he : ∀ e ∈ entries, IsCompared e)
    (h : List.Forall₂ (WrittenCell k ctx) entries cells) :
    List.Forall₂ (ComparesSafely k ctx) entries ((scalarEntries entries).zipWith comparison cells) := by
  induction h with
  | nil => exact .nil
  | @cons e cell es cells hc _ ih =>
    exact .cons (comparesSafely hd (he e List.mem_cons_self) hc) (ih fun e' h' => he e' (List.mem_cons_of_mem e h'))

end Conditions

/-- In a known dialect the conditions of a mapping of data are written, and without issues each compares a column by `IS` and
`NULL` if the value stands for null, and by `=` with another value if not. The conditions are read as they were put together,
so that no text takes the place of an operator. -/
theorem conditions_null_safe {k : Kind} {ctx : Context} (hd : ctx.dialect = k.dialect) {m : Modifier}
    (hm : m ∈ [Modifier.allOf, .anyOf]) {entries : List (String × Scalar)} (he : ∀ e ∈ entries, IsCompared e) :
    ∃ text issues, render ctx (some m) (.map (scalarEntries entries)) = .done text issues 0 ∧
      (issues = [] → ∃ texts : List String, List.Forall₂ (ComparesSafely k ctx) entries texts ∧
        text = conditions m.conditionWord texts ∧
        (entries ≠ [] → k.conditions? m.conditionWord.toList text.toList = some (texts.map String.toList))) := by
  have hplain : ∀ e ∈ entries, IsPlainEntry e := fun e h => (he e h).isPlainEntry
  obtain ⟨cells, issues, hcells, hwritten⟩ := exists_renderCells hd .inList hplain
  refine ⟨conditions m.conditionWord ((scalarEntries entries).zipWith comparison cells), issues, ?_, fun hi => ?_⟩
  · simp only [List.mem_cons, List.not_mem_nil, or_false] at hm
    rcases hm with rfl | rfl <;>
    · rw [render, hcells, Render.done_bind]
      simp [Render.pure_eq, Modifier.conditionWord]
  · have hsafe := forall₂_comparesSafely hd he (hwritten hi)
    have hread := forall₂_comparison hplain (hwritten hi)
    refine ⟨_, hsafe, rfl, fun hne => ?_⟩
    have hne' : (scalarEntries entries).zipWith comparison cells ≠ [] := by
      rintro hnil
      rw [hnil] at hsafe
      exact hne (List.forall₂_nil_right_iff.1 hsafe)
    have hword : m.conditionWord.toList.all (isInert [' ']) = true := by
      revert m
      decide
    rw [toList_conditions _ hne']
    exact k.conditions?_eq hword (by simpa using hne') fun p hp => (whole_of_forall₂ hread p hp).mono (by simp)

/-- Null, texts that look like it, and texts that stand for it. -/
def sampleComparisons : List (String × Scalar) :=
  [("a", .null), ("b", .text "NULL"), ("c%n", .text "NULL"), ("d%sn", .text ""), ("e%iN", .text " "), ("f%s", .text "")]

theorem conditions_null_safe_sample :
    let ctx : Context := .leapDay .postgres
    let texts := ["\"a\" IS NULL", "\"b\" = 'NULL'", "\"c\" = \"NULL\"", "\"d\" IS NULL", "\"e\" IS NULL", "\"f\" = ''"]
    Modifier.allOf ∈ [Modifier.allOf, .anyOf] ∧ (∀ e ∈ sampleComparisons, IsCompared e) ∧
      render ctx (some .allOf) (.map (scalarEntries sampleComparisons)) = .done (conditions "AND" texts) [] 0 ∧
      ∃ texts' : List String, List.Forall₂ (ComparesSafely .postgres ctx) sampleComparisons texts' ∧
        conditions "AND" texts = conditions "AND" texts' := by
  intro ctx texts
  have hm : Modifier.allOf ∈ [Modifier.allOf, .anyOf] := by decide
  have he : ∀ e ∈ sampleComparisons, IsCompared e := by
    simp only [sampleComparisons, List.forall_mem_cons]
    refine ⟨⟨by simp +decide, rfl⟩, ⟨by simp +decide, rfl⟩, ⟨by simp +decide, rfl⟩, ⟨by simp +decide, rfl⟩,
      ⟨by simp +decide, rfl⟩, ⟨by simp +decide, rfl⟩, by simp⟩
  have hwritten : render ctx (some .allOf) (.map (scalarEntries sampleComparisons)) = .done (conditions "AND" texts) [] 0 := by
    cbv
  obtain ⟨text, issues, hr, hsafe⟩ := @conditions_null_safe .postgres ctx rfl .allOf hm _ he
  rw [hwritten] at hr
  cases hr
  obtain ⟨texts', hforall, htext, -⟩ := hsafe rfl
  exact ⟨hm, he, hwritten, texts', hforall, htext⟩

end SqlComposer
