import Mathlib.Data.List.Forall2
import SqlComposer.Proofs.Dialect.WholeLiterals
import SqlComposer.ScalarText

/-!
# Scalars are written whole

In a known dialect no scalar makes the dialect fail, and a scalar that is written without an issue is whole:
a reader comes over it without meeting a comma outside quotes and parentheses.

* `Yields` : a result that is whole unless there are issues;
* `yields_identifier` : identifiers, which hide spaces too;
* `yields_plainScalar`, `yields_scalarAs` : scalars, by themselves and under a modifier.
-/

namespace SqlComposer

open Dialect

/-- There is a result, and it is whole unless there are issues. -/
def Yields (k : Kind) (seps : List Char) (r : Render String) : Prop :=
  ∃ text issues, r = .done text issues 0 ∧ (issues = [] → k.Whole seps text.toList)

/-- Data, and not SQL text that is written as it is. -/
def Scalar.isData : Scalar → Bool
  | literal _ => false
  | _ => true

/-- SQL text is not scanned under the modifier. -/
def Modifier.IsPlain (m : Modifier) : Prop :=
  m ≠ .sql ∧ m ≠ .expand

section Results

variable {k : Kind} {seps : List Char}

theorem yields_done {text : String} (h : k.Whole seps text.toList) : Yields k seps (.done text [] 0) :=
  ⟨text, [], rfl, fun _ => h⟩

theorem yields_ofList {cs : List Char} (h : k.Whole seps cs) : Yields k seps (.done (String.ofList cs) [] 0) :=
  yields_done (by rwa [String.toList_ofList])

theorem yields_note (i : Issue) : Yields k seps (.note i) :=
  ⟨i.mark, [i], rfl, fun h => absurd h (List.cons_ne_nil i [])⟩

theorem Yields.mono {seps' : List Char} {r : Render String} (h : Yields k seps r) (hs : seps' ⊆ seps) :
    Yields k seps' r := by
  obtain ⟨text, issues, hr, hw⟩ := h
  exact ⟨text, issues, hr, fun hi => (hw hi).mono hs⟩

theorem Yields.exists_done {r : Render String} (h : Yields k seps r) :
    ∃ text issues, r = .done text issues 0 ∧ (issues = [] → r = .done text [] 0 ∧ k.Whole seps text.toList) := by
  obtain ⟨text, issues, hr, hw⟩ := h
  refine ⟨text, issues, hr, ?_⟩
  rintro rfl
  exact ⟨hr, hw rfl⟩

/-- Where each part has a result, and it is as it should be unless there are issues, so have all of them. -/
theorem exists_mapM {α β : Type} {f : α → Render β} {P : α → β → Prop} {xs : List α}
    (h : ∀ x ∈ xs, ∃ y issues, f x = .done y issues 0 ∧ (issues = [] → P x y)) :
    ∃ ys issues, xs.mapM f = .done ys issues 0 ∧ (issues = [] → List.Forall₂ P xs ys) := by
  induction xs with
  | nil => exact ⟨[], [], rfl, fun _ => .nil⟩
  | cons x xs ih =>
    obtain ⟨y, found, hy, hp⟩ := h x List.mem_cons_self
    obtain ⟨ys, later, hys, hps⟩ := ih fun x hx => h x (List.mem_cons_of_mem _ hx)
    refine ⟨y :: ys, found ++ later, ?_, fun hnil => ?_⟩
    · rw [List.mapM_cons, hy, Render.done_bind, hys, Render.done_bind]
      simp [Render.pure_eq]
    · obtain ⟨rfl, rfl⟩ := List.append_eq_nil_iff.1 hnil
      exact .cons (hp rfl) (hps rfl)

end Results

variable {k : Kind} {ctx : Context}

/-! ## Identifiers -/

theorem whole_intercalate {seps : List Char} {c : Char} (hc : isInert seps c = true) {ps : List (List Char)}
    (h : ∀ p ∈ ps, k.Whole seps p) : k.Whole seps ([c].intercalate ps) := by
  induction ps with
  | nil => exact whole_nil
  | cons p ps ih =>
    cases ps with
    | nil => simpa using h p (by simp)
    | cons q qs =>
      have hq := ih fun r hr => h r (List.mem_cons_of_mem p hr)
      rw [List.intercalate_cons_cons, List.append_assoc, List.singleton_append]
      exact (h p (by simp)).glue hc hq

theorem exists_identifierPart (hd : ctx.dialect = k.dialect) (part : List Char) :
    ∃ text, ctx.identifierPart part = .done text [] 0 ∧ k.Whole [',', ' '] text.toList := by
  unfold Context.identifierPart
  rw [hd]
  split
  · exact ⟨"*", rfl, whole_of_isInert (by decide)⟩
  · refine ⟨_, rfl, ?_⟩
    rw [String.toList_ofList]
    exact k.whole_identifier _

theorem exists_mapM_identifierPart (hd : ctx.dialect = k.dialect) (parts : List (List Char)) :
    ∃ texts, parts.mapM ctx.identifierPart = .done texts [] 0 ∧ ∀ t ∈ texts, k.Whole [',', ' '] t.toList := by
  induction parts with
  | nil => exact ⟨[], rfl, by simp⟩
  | cons part parts ih =>
    obtain ⟨text, ht, hw⟩ := exists_identifierPart hd part
    obtain ⟨texts, hts, hws⟩ := ih
    refine ⟨text :: texts, ?_, by simpa using ⟨hw, hws⟩⟩
    rw [List.mapM_cons, ht, Render.done_bind, hts, Render.done_bind]
    rfl

theorem yields_identifier (hd : ctx.dialect = k.dialect) (name : String) :
    Yields k [',', ' '] (ctx.identifier name) := by
  unfold Context.identifier
  split
  · exact yields_note _
  · next name _ =>
    obtain ⟨texts, ht, hw⟩ := exists_mapM_identifierPart hd (Text.parts '.' name.toList)
    rw [ht]
    refine yields_done ?_
    rw [String.toList_intercalate]
    refine whole_intercalate (c := '.') (by decide) ?_
    simpa using hw

/-! ## Scalars -/

theorem yields_null : Yields k [','] (pure "NULL") :=
  yields_done (whole_of_isInert (by decide))

theorem yields_intText (n : Int) : Yields k [','] (pure (intText n)) :=
  yields_ofList (whole_figures (Decimal.figures_intText n))

theorem yields_bitText (b : Bool) : Yields k [','] (pure (bitText b)) := by
  refine yields_done (whole_of_isInert ?_)
  cases b <;> decide

theorem yields_numberOr {given : String} {text : Option (List Char)} (h : ∀ cs, text = some cs → Figures cs) :
    Yields k [','] (.orNote (numberOr given text)) := by
  cases text with
  | none => exact yields_note _
  | some cs => exact yields_ofList (whole_figures (h cs rfl))

theorem yields_floatText (x : Binary64) : Yields k [','] (.orNote (floatText x)) :=
  yields_numberOr fun _ h => Decimal.figures_plainText? h

theorem yields_wholeText (x : Binary64) : Yields k [','] (.orNote (wholeText x)) := by
  refine yields_numberOr fun cs h => ?_
  split at h
  · obtain rfl := Option.some.inj h
    exact Decimal.figures_wholeText x
  · cases h

theorem yields_text (hd : ctx.dialect = k.dialect) (s : String) :
    Yields k [','] (.ofDialect (ctx.dialect.text s)) := by
  rw [hd]
  exact yields_ofList (k.whole_text _)

theorem yields_binary (hd : ctx.dialect = k.dialect) (bytes : List UInt8) :
    Yields k [','] (.ofDialect (ctx.dialect.binary bytes)) := by
  rw [hd]
  exact yields_ofList (k.whole_binary _)

theorem yields_bool (hd : ctx.dialect = k.dialect) (b : Bool) : Yields k [','] (pure (ctx.dialect.bool b)) := by
  rw [hd]
  exact yields_ofList (k.whole_bool _)

theorem yields_date (hd : ctx.dialect = k.dialect) (d : Date) :
    Yields k [','] (.ofDialect (ctx.dialect.date d)) := by
  rw [hd]
  exact yields_ofList (k.whole_date _)

theorem yields_dateTime (hd : ctx.dialect = k.dialect) (t : DateTime) :
    Yields k [','] (.ofDialect (ctx.dialect.dateTime t)) := by
  rw [hd]
  exact yields_ofList (k.whole_dateTime _)

theorem yields_like (hd : ctx.dialect = k.dialect) (anchor : Anchor) (s : String) :
    Yields k [','] (.ofDialect (ctx.dialect.like anchor s)) := by
  rw [hd]
  exact yields_ofList (k.whole_like _ _)

/-- A scalar by its own kind. -/
theorem yields_plainScalar (hd : ctx.dialect = k.dialect) {s : Scalar} (hs : s.isData = true) :
    Yields k [','] (ctx.plainScalar s) := by
  cases s with
  | null => exact yields_null
  | bool b => exact yields_bool hd b
  | int n => exact yields_intText n
  | float x => exact yields_floatText x
  | text s => exact yields_text hd s
  | binary bytes => exact yields_binary hd bytes
  | date d => exact yields_date hd d
  | dateTime t => exact yields_dateTime hd t
  | literal sql => cases hs

/-! ## Scalars under a modifier -/

theorem yields_textScalar (hd : ctx.dialect = k.dialect) (m : Modifier) (s : Scalar) :
    Yields k [','] (ctx.textScalar m s) := by
  unfold Context.textScalar
  split
  · exact yields_text hd _
  · exact yields_text hd _
  · unfold Context.textOrNote
    split
    · exact yields_note _
    · exact yields_text hd _
  · exact yields_text hd _
  · exact yields_note _

theorem yields_intScalar (m : Modifier) (s : Scalar) : Yields k [','] (Context.intScalar m s) := by
  unfold Context.intScalar
  split
  · exact yields_intText _
  · exact yields_bitText _
  · exact yields_wholeText _
  · exact yields_numberOr fun _ h => Decimal.figures_of_integerText? h
  · exact yields_note _

theorem yields_floatScalar (m : Modifier) (s : Scalar) : Yields k [','] (Context.floatScalar m s) := by
  unfold Context.floatScalar
  split
  · exact yields_floatText _
  · exact yields_intText _
  · exact yields_bitText _
  · exact yields_numberOr fun _ h => Decimal.figures_of_numericText? h
  · exact yields_note _

theorem yields_dateScalar (hd : ctx.dialect = k.dialect) (s : Scalar) : Yields k [','] (ctx.dateScalar s) := by
  unfold Context.dateScalar
  split
  · exact yields_note _
  · exact yields_date hd _

theorem yields_dateTimeScalar (hd : ctx.dialect = k.dialect) (s : Scalar) :
    Yields k [','] (ctx.dateTimeScalar s) := by
  unfold Context.dateTimeScalar
  split
  · exact yields_note _
  · exact yields_dateTime hd _

theorem yields_givenScalar (hd : ctx.dialect = k.dialect) {m : Modifier} (hm : m.IsPlain) (s : Scalar) :
    Yields k [','] (ctx.givenScalar m s) := by
  have hname (name : String) : Yields k [','] (ctx.identifier name) := (yields_identifier hd name).mono (by simp)
  have hint (m : Modifier) : Yields k [','] (Context.intScalar m s) := yields_intScalar m s
  cases m with
  | text => exact yields_textScalar hd _ s
  | textOrNull =>
    unfold Context.givenScalar
    simp only
    split
    · exact yields_null
    · exact yields_textScalar hd _ s
  | binary =>
    unfold Context.givenScalar
    simp only
    split
    · exact yields_binary hd _
    · exact yields_binary hd _
    · exact yields_note _
  | bool =>
    unfold Context.givenScalar
    simp only
    split
    · exact yields_bool hd _
    · exact yields_bool hd _
    · exact yields_bool hd _
    · exact yields_bool hd _
    · exact yields_note _
  | int => exact hint .int
  | unsigned => exact hint .unsigned
  | intOrNull =>
    unfold Context.givenScalar
    simp only
    split
    · split
      · exact yields_null
      · exact hint .intOrNull
    · exact hint .intOrNull
  | float => exact yields_floatScalar _ s
  | date => exact yields_dateScalar hd s
  | dateTime => exact yields_dateTimeScalar hd s
  | identifier =>
    unfold Context.givenScalar
    simp only
    split
    · exact hname _
    · exact yields_note _
  | orderBy =>
    unfold Context.givenScalar
    simp only
    split
    · exact hname _
    · exact yields_note _
  | rawIdentifier =>
    unfold Context.givenScalar
    simp only
    split
    · rw [hd]
      exact (yields_ofList (k.whole_identifier _)).mono (by simp)
    · exact yields_note _
  | sql => exact absurd rfl hm.1
  | expand => exact absurd rfl hm.2
  | like anchor =>
    unfold Context.givenScalar
    simp only
    split
    · exact yields_like hd _ _
    · exact yields_like hd _ _
    · exact yields_note _
  | assign => exact yields_note _
  | list => exact yields_note _
  | inList => exact yields_note _
  | values => exact yields_note _
  | rows => exact yields_note _
  | allOf => exact yields_note _
  | anyOf => exact yields_note _

/-- A scalar under a modifier. -/
theorem yields_scalarAs (hd : ctx.dialect = k.dialect) {m : Modifier} (hm : m.IsPlain) (s : Scalar) :
    Yields k [','] (ctx.scalarAs m s) := by
  unfold Context.scalarAs
  split
  · exact yields_null
  · exact yields_givenScalar hd hm s

end SqlComposer
