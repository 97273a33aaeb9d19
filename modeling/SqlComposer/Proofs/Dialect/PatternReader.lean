import Mathlib.Data.List.Infix
import Mathlib.Tactic.SplitIfs
import SqlComposer.Proofs.Dialect.LiteralReader

/-!
# Patterns match what they were written for

A database reads the operand of `LIKE` in two layers: the text literal, and then the pattern that it holds.

* `CharSet`, `PatternPart`, `matchesParts` : patterns and what they match;
* `readParts?` : the pattern that a text stands for, with an escape character and classes if the dialect has them;
* `Kind.readPattern?` : the pattern of a whole operand, whose escape character a clause behind the literal may name;
* `Spells` : parts that stand for one text; `matchesParts_append_iff` : they match it and nothing else;
* `exists_readParts?_escapeWildcards`, `exists_readParts?_classifyWildcards` : both ways of escaping spell the text;
* `like_matches_iff` : the operand written for a text matches it as it stands at the anchor.
-/

namespace SqlComposer

/-- Where the texts that a pattern is to match hold a text. -/
def Anchor.Holds (a : Anchor) (s t : List Char) : Prop :=
  match a with
  | start => s <+: t
  | finish => s <:+ t
  | anywhere => s <:+: t

namespace Dialect

/-! ## Patterns -/

/-- The characters that a part of a pattern stands for one of. -/
inductive CharSet
  | any
  | exactly (c : Char)
  /-- The characters of a class, which is given by ranges, or all others. -/
  | ofClass (negated : Bool) (ranges : List (Char × Char))
  deriving DecidableEq

/-- A part of a pattern. -/
inductive PatternPart
  /-- Any run of characters, also an empty one. -/
  | run
  /-- One character. -/
  | one (p : CharSet)
  deriving DecidableEq

/-- Whether a character is one of the set. -/
def CharSet.takes (p : CharSet) (c : Char) : Bool :=
  match p with
  | any => true
  | exactly d => c == d
  | ofClass negated ranges => ranges.any (fun r => decide (r.1 ≤ c) && decide (c ≤ r.2)) != negated

/-- Whether a pattern matches a whole text. -/
def matchesParts : List PatternPart → List Char → Bool
  | [], t => t.isEmpty
  | .run :: ps, t => t.tails.any (matchesParts ps)
  | .one _ :: _, [] => false
  | .one p :: ps, c :: t => p.takes c && matchesParts ps t

/-! ## Readers -/

/-- The ranges of a class up to the bracket that closes it, and the text behind that bracket. A dash between
two characters makes a range of them. -/
def readRanges? : List Char → Option (List (Char × Char) × List Char)
  | [] => none
  | c :: s =>
    if c = ']' then some ([], s)
    else
      match s with
      | '-' :: d :: t =>
        if d = ']' then some ([(c, c), ('-', '-')], t)
        else (readRanges? t).map fun r => ((c, d) :: r.1, r.2)
      | s => (readRanges? s).map fun r => ((c, c) :: r.1, r.2)

/-- A class behind its opening bracket. A circumflex in front negates it. -/
def readClass? : List Char → Option (CharSet × List Char)
  | '^' :: s => (readRanges? s).map fun r => (.ofClass true r.1, r.2)
  | s => (readRanges? s).map fun r => (.ofClass false r.1, r.2)

theorem length_lt_of_readRanges? {s rest : List Char} {ranges : List (Char × Char)}
    (h : readRanges? s = some (ranges, rest)) : rest.length < s.length := by
  fun_induction readRanges? s generalizing ranges with
  | case1 => cases h
  | case2 s => cases h; simp
  | case3 c _ t => cases h; simp; omega
  | case4 c _ d t _ ih =>
    obtain ⟨⟨_, _⟩, hr, he⟩ := Option.map_eq_some_iff.1 h
    cases he
    have := ih hr
    simp only [List.length_cons] at this ⊢
    omega
  | case5 c s _ _ ih =>
    obtain ⟨⟨_, _⟩, hr, he⟩ := Option.map_eq_some_iff.1 h
    cases he
    exact Nat.lt_succ_of_lt (ih hr)

theorem length_lt_of_readClass? {s rest : List Char} {p : CharSet} (h : readClass? s = some (p, rest)) :
    rest.length < s.length := by
  unfold readClass? at h
  split at h
  all_goals
    obtain ⟨⟨_, _⟩, hr, he⟩ := Option.map_eq_some_iff.1 h
    cases he
    have := length_lt_of_readRanges? hr
    simp only [List.length_cons]
    omega

/-- The pattern that a text stands for. The character behind an escape character stands for itself, and there
has to be one; a bracket opens a class in the dialects that have classes, and has to be closed. -/
def readParts? (classes : Bool) (escape : Option Char) : List Char → Option (List PatternPart)
  | [] => some []
  | c :: s =>
    if escape = some c then
      match s with
      | [] => none
      | d :: t => (readParts? classes escape t).map (.one (.exactly d) :: ·)
    else if c = '%' then (readParts? classes escape s).map (.run :: ·)
    else if c = '_' then (readParts? classes escape s).map (.one .any :: ·)
    else if classes && c = '[' then
      match _h : readClass? s with
      | none => none
      | some (p, rest) => (readParts? classes escape rest).map (.one p :: ·)
    else (readParts? classes escape s).map (.one (.exactly c) :: ·)
  termination_by s => s.length
  decreasing_by
    all_goals simp only [List.length_cons]
    any_goals omega
    have := length_lt_of_readClass? _h
    omega

/-- Whether patterns have classes. -/
def Kind.hasClasses : Kind → Bool
  | sqlserver => true
  | _ => false

/-- The escape character of patterns, by what stands behind the literal: nothing, or a clause that names it. -/
def Kind.readEscape? (k : Kind) (rest : List Char) : Option (Option Char) :=
  if rest.isEmpty then
    match k with
    | postgres | mysql => some (some '\\')
    | generic | sqlite | sqlserver => some none
  else
    match " ESCAPE ".toList.isPrefixOf? rest with
    | none => none
    | some literal =>
      match k.readText? literal with
      | some ([c], []) => some (some c)
      | _ => none

/-- The pattern of an operand of `LIKE`: a text literal, which a clause for the escape character may follow. -/
def Kind.readPattern? (k : Kind) (operand : List Char) : Option (List PatternPart) :=
  match k.readText? operand with
  | none => none
  | some (pattern, rest) => (k.readEscape? rest).bind fun escape => readParts? k.hasClasses escape pattern

/-! ## What patterns match -/

/-- A pattern with a run on each side that is not anchored. -/
def wrapParts (a : Anchor) (ps : List PatternPart) : List PatternPart :=
  match a with
  | .start => ps ++ [.run]
  | .finish => .run :: ps
  | .anywhere => .run :: (ps ++ [.run])

/-- Each part stands for one character of the text, and for no other. -/
def Spells (ps : List PatternPart) (s : List Char) : Prop :=
  List.Forall₂ (fun part c => ∃ p, part = .one p ∧ ∀ d, p.takes d = true ↔ d = c) ps s

variable {ps qs : List PatternPart} {s t : List Char}

theorem matchesParts_run_iff : matchesParts (.run :: ps) t = true ↔ ∃ a b, a ++ b = t ∧ matchesParts ps b = true := by
  simp only [matchesParts, List.any_eq_true, List.mem_tails]
  constructor
  · rintro ⟨b, ⟨a, hab⟩, hb⟩
    exact ⟨a, b, hab, hb⟩
  · rintro ⟨a, b, hab, hb⟩
    exact ⟨b, ⟨a, hab⟩, hb⟩

theorem matchesParts_run (t : List Char) : matchesParts [.run] t = true :=
  matchesParts_run_iff.2 ⟨t, [], List.append_nil t, rfl⟩

theorem matchesParts_append_iff (h : Spells ps s) :
    matchesParts (ps ++ qs) t = true ↔ ∃ r, s ++ r = t ∧ matchesParts qs r = true := by
  induction h generalizing t with
  | nil => simp
  | @cons part c ps s hp _ ih =>
    obtain ⟨p, rfl, hp⟩ := hp
    cases t with
    | nil => simp [matchesParts]
    | cons d t =>
      simp only [List.cons_append, matchesParts, Bool.and_eq_true, hp, ih, List.cons.injEq]
      constructor
      · rintro ⟨rfl, r, hr, hq⟩
        exact ⟨r, ⟨rfl, hr⟩, hq⟩
      · rintro ⟨r, ⟨rfl, hr⟩, hq⟩
        exact ⟨rfl, r, hr, hq⟩

/-- Parts that spell a text match it at the anchor. -/
theorem matchesParts_wrapParts_iff (h : Spells ps s) (a : Anchor) :
    matchesParts (wrapParts a ps) t = true ↔ a.Holds s t := by
  have hend (t : List Char) : matchesParts ps t = true ↔ s = t := by
    have := @matchesParts_append_iff ps [] s t h
    simpa [matchesParts] using this
  cases a with
  | start => simp [wrapParts, matchesParts_append_iff h, matchesParts_run, Anchor.Holds, List.IsPrefix]
  | finish => simp [wrapParts, matchesParts_run_iff, hend, Anchor.Holds, List.IsSuffix]
  | anywhere =>
    simp only [wrapParts, matchesParts_run_iff, matchesParts_append_iff h, matchesParts_run, and_true, Anchor.Holds,
      List.IsInfix]
    constructor
    · rintro ⟨a, _, hab, r, rfl⟩
      exact ⟨a, r, by rw [List.append_assoc, hab]⟩
    · rintro ⟨a, r, hr⟩
      exact ⟨a, s ++ r, by rw [← List.append_assoc, hr], r, rfl⟩

/-! ## What escaped texts stand for -/

theorem takes_exactly_iff (c d : Char) : (CharSet.exactly c).takes d = true ↔ d = c := by
  simp [CharSet.takes]

/-- A class of one character. -/
theorem takes_singleton_iff (c d : Char) : (CharSet.ofClass false [(c, c)]).takes d = true ↔ d = c := by
  simp only [CharSet.takes, List.any_cons, List.any_nil, Bool.or_false, Bool.bne_false, Bool.and_eq_true,
    decide_eq_true_eq]
  exact ⟨fun h => Char.le_antisymm h.2 h.1, fun h => h ▸ ⟨Char.le_refl d, Char.le_refl d⟩⟩

theorem readParts?_run {classes : Bool} {escape : Option Char} (h : escape ≠ some '%') (s : List Char) :
    readParts? classes escape ('%' :: s) = (readParts? classes escape s).map (.run :: ·) := by
  rw [readParts?.eq_def]
  simp [h]

theorem readParts?_class {escape : Option Char} {p : CharSet} {rest : List Char} (he : escape ≠ some '[')
    (h : readClass? s = some (p, rest)) :
    readParts? true escape ('[' :: s) = (readParts? true escape rest).map (.one p :: ·) := by
  have hp : '[' ≠ '%' := by decide
  have hu : '[' ≠ '_' := by decide
  rw [readParts?.eq_def]
  simp only [he, hp, hu, if_false, Bool.true_and, decide_true, if_true]
  split
  · next hn => cases h.symm.trans hn
  · next hn => cases h.symm.trans hn; rfl

theorem readRanges?_close (s : List Char) : readRanges? (']' :: s) = some ([], s) := by
  rw [readRanges?.eq_def]
  rfl

theorem readClass?_singleton {c : Char} (h : c ≠ '^') (h' : c ≠ ']') (s : List Char) :
    readClass? (c :: ']' :: s) = some (.ofClass false [(c, c)], s) := by
  simp [readClass?, readRanges?, readRanges?_close, h, h']

/-- Escape characters make a text a pattern of its characters. -/
theorem exists_readParts?_escapeWildcards (s : List Char) :
    ∃ ps, Spells ps s ∧ ∀ r, readParts? false (some '\\') (escapeWildcards '\\' s ++ r) =
      (readParts? false (some '\\') r).map (ps ++ ·) := by
  induction s with
  | nil => exact ⟨[], .nil, fun r => by simp [escapeWildcards]⟩
  | cons c s ih =>
    obtain ⟨ps, hs, hr⟩ := ih
    refine ⟨.one (.exactly c) :: ps, .cons ⟨_, rfl, takes_exactly_iff c⟩ hs, fun r => ?_⟩
    unfold escapeWildcards
    split_ifs with hc
    · rw [List.cons_append, List.cons_append, readParts?.eq_def]
      simp [hr, Function.comp_def]
    · rw [not_or, not_or] at hc
      rw [List.cons_append, readParts?.eq_def]
      simp [hc.1, hc.2.1, Ne.symm hc.2.2, hr, Function.comp_def]

/-- Classes of one character each make a text a pattern of its characters. -/
theorem exists_readParts?_classifyWildcards (s : List Char) :
    ∃ ps, Spells ps s ∧ ∀ r, readParts? true none (classifyWildcards s ++ r) =
      (readParts? true none r).map (ps ++ ·) := by
  induction s with
  | nil => exact ⟨[], .nil, fun r => by simp [classifyWildcards]⟩
  | cons c s ih =>
    obtain ⟨ps, hs, hr⟩ := ih
    by_cases hc : c = '%' ∨ c = '_' ∨ c = '['
    · have hclass : c ≠ '^' ∧ c ≠ ']' := by rcases hc with rfl | rfl | rfl <;> decide
      refine ⟨.one (.ofClass false [(c, c)]) :: ps, .cons ⟨_, rfl, takes_singleton_iff c⟩ hs, fun r => ?_⟩
      rw [classifyWildcards, if_pos hc, List.cons_append, List.cons_append, List.cons_append,
        readParts?_class (by simp) (readClass?_singleton hclass.1 hclass.2 _), hr, Option.map_map]
      rfl
    · refine ⟨.one (.exactly c) :: ps, .cons ⟨_, rfl, takes_exactly_iff c⟩ hs, fun r => ?_⟩
      rw [classifyWildcards, if_neg hc, List.cons_append, readParts?.eq_def]
      rw [not_or, not_or] at hc
      simp [hc, hr, Function.comp_def]

/-! ## Operands -/

/-- A text that is spelled, with a run on each side that is not anchored, reads as its parts and runs. -/
theorem readParts?_wrap {classes : Bool} {escape : Option Char} {body : List Char} (he : escape ≠ some '%')
    (h : ∀ r, readParts? classes escape (body ++ r) = (readParts? classes escape r).map (ps ++ ·)) (a : Anchor) :
    readParts? classes escape (a.wrap body) = some (wrapParts a ps) := by
  have hnil : readParts? classes escape [] = some [] := by rw [readParts?]
  have hbody : readParts? classes escape body = some ps := by simpa [hnil] using h []
  cases a with
  | start => simp [Anchor.wrap, wrapParts, h, readParts?_run he, hnil]
  | finish => simp [Anchor.wrap, wrapParts, readParts?_run he, hbody]
  | anywhere => simp [Anchor.wrap, wrapParts, h, readParts?_run he, hnil]

theorem Kind.readPattern?_text (k : Kind) {escape : Option Char} {rest : List Char} (hq : rest.head? ≠ some '\'')
    (he : k.readEscape? rest = some escape) (pattern : List Char) :
    k.readPattern? (k.text pattern ++ rest) = readParts? k.hasClasses escape pattern := by
  rw [Kind.readPattern?, k.readText?_text hq]
  simp only [he, Option.bind_some]

/-- The operand of a dialect is read as a pattern of the text with runs around it. -/
theorem Kind.exists_readPattern?_like (k : Kind) (a : Anchor) (s : List Char) :
    ∃ ps, Spells ps s ∧ k.readPattern? (k.like a s) = some (wrapParts a ps) := by
  obtain ⟨ps, hs, hr⟩ := exists_readParts?_escapeWildcards s
  have hw := readParts?_wrap (by decide) hr a
  have bare (k : Kind) (he : k.readEscape? [] = some (some '\\')) (hc : k.hasClasses = false) :
      k.readPattern? (k.text (a.wrap (escapeWildcards '\\' s))) = some (wrapParts a ps) := by
    rw [← List.append_nil (k.text _), k.readPattern?_text (by simp) he, hc, hw]
  have declared (k : Kind) (he : k.readEscape? " ESCAPE '\\'".toList = some (some '\\')) (hc : k.hasClasses = false) :
      k.readPattern? (k.text (a.wrap (escapeWildcards '\\' s)) ++ " ESCAPE '\\'".toList) = some (wrapParts a ps) := by
    rw [k.readPattern?_text (by decide) he, hc, hw]
  cases k with
  | generic => exact ⟨ps, hs, declared _ (by decide +kernel) rfl⟩
  | sqlite => exact ⟨ps, hs, declared _ (by decide +kernel) rfl⟩
  | postgres => exact ⟨ps, hs, bare _ rfl rfl⟩
  | mysql => exact ⟨ps, hs, bare _ rfl rfl⟩
  | sqlserver =>
    obtain ⟨qs, hs, hr⟩ := exists_readParts?_classifyWildcards s
    have he : sqlserver.readEscape? [] = some none := rfl
    refine ⟨qs, hs, ?_⟩
    show sqlserver.readPattern? (sqlserver.text (a.wrap (classifyWildcards s))) = _
    rw [← List.append_nil (sqlserver.text _), sqlserver.readPattern?_text (by simp) he]
    exact readParts?_wrap (by simp) hr a

/-- In every known dialect the operand that is written for a text is read as a pattern, and the pattern matches
the texts that start with it, end with it or contain it, by the anchor, and no others. -/
theorem like_matches_iff (k : Kind) (a : Anchor) (s : String) :
    ∃ operand pattern, k.dialect.like a s = .ok operand ∧ k.readPattern? operand.toList = some pattern ∧
      ∀ t : String, matchesParts pattern t.toList = true ↔ a.Holds s.toList t.toList := by
  obtain ⟨ps, hs, hp⟩ := k.exists_readPattern?_like a s.toList
  refine ⟨String.ofList (k.like a s.toList), wrapParts a ps, rfl, ?_, fun t => matchesParts_wrapParts_iff hs a⟩
  rw [String.toList_ofList, hp]

example : (Kind.sqlserver.readPattern? "N'%a[_][[]b]'".toList).map (matchesParts · "xa_[b]".toList) = some true := by
  decide +kernel

end Dialect

end SqlComposer
