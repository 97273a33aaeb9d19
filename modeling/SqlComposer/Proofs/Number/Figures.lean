import Mathlib.Tactic.SplitIfs
import SqlComposer.Calendar.Iso

/-!
# The characters of numbers, dates and times

* `Figures` : nothing but digits, signs, points, colons, spaces and the `e` of an exponent;
* `Decimal.figures_natText` and its like : numbers are written in figures;
* `Decimal.figures_of_integerText?`, `Decimal.figures_of_numericText?` : also where they are taken from a text;
* `figures_dateIso`, `figures_dateTimeIso` : so are dates and times.
-/

namespace SqlComposer

/-- The characters that numbers, dates and times are written with. -/
def isFigure (c : Char) : Bool :=
  c.isDigit || ['+', '-', '.', ':', ' ', 'e', 'E'].contains c

/-- Nothing but figures. -/
def Figures (cs : List Char) : Prop :=
  ∀ c ∈ cs, isFigure c = true

@[simp] theorem figures_nil : Figures [] := by simp [Figures]

@[simp] theorem figures_cons {c : Char} {cs : List Char} :
    Figures (c :: cs) ↔ isFigure c = true ∧ Figures cs := by
  simp [Figures]

@[simp] theorem figures_append {cs ds : List Char} : Figures (cs ++ ds) ↔ Figures cs ∧ Figures ds := by
  simp [Figures, or_imp, forall_and]

theorem figures_of_isDigit {cs : List Char} (h : ∀ c ∈ cs, c.isDigit = true) : Figures cs := by
  intro c hc
  rw [isFigure, h c hc, Bool.true_or]

namespace Decimal

/-! ## Numbers -/

theorem figures_natText (n : Nat) : Figures (natText n) :=
  figures_of_isDigit fun _ hc => Nat.isDigit_of_mem_toDigits (by decide) (by decide) hc

theorem figures_intText (n : Int) : Figures (intText n) := by
  cases n with
  | ofNat n => exact figures_natText n
  | negSucc n => exact figures_cons.2 ⟨by decide, figures_natText _⟩

theorem figures_padded (width n : Nat) : Figures (padded width n) := by
  refine figures_append.2 ⟨figures_of_isDigit fun c hc => ?_, figures_natText n⟩
  rw [List.eq_of_mem_replicate hc]
  decide

theorem mem_of_mem_dropZeros {cs : List Char} {c : Char} (h : c ∈ dropZeros cs) : c ∈ cs :=
  List.mem_reverse.1 ((List.dropWhile_sublist (· == '0')).mem (List.mem_reverse.1 h))

theorem figures_dropZeros {cs : List Char} (h : Figures cs) : Figures (dropZeros cs) :=
  fun c hc => h c (mem_of_mem_dropZeros hc)

theorem figures_plainText? {x : Binary64} {cs : List Char} (h : plainText? x = some cs) : Figures cs := by
  unfold plainText? at h
  split at h
  · have hm (whole n : Nat) : Figures (natText whole ++
        if (dropZeros (padded 10 n)).isEmpty then [] else '.' :: dropZeros (padded 10 n)) := by
      refine figures_append.2 ⟨figures_natText whole, ?_⟩
      split
      · exact figures_nil
      · exact figures_cons.2 ⟨by decide, figures_dropZeros (figures_padded 10 n)⟩
    obtain rfl := Option.some.inj h
    split
    · exact figures_cons.2 ⟨by decide, hm _ _⟩
    · exact hm _ _
  · cases h

theorem figures_wholeText (x : Binary64) : Figures (wholeText x) := by
  unfold wholeText
  split
  · exact figures_cons.2 ⟨by decide, figures_natText _⟩
  · exact figures_natText _

/-! ## Numbers taken from a text -/

theorem isDigits_iff {cs : List Char} : isDigits cs = true ↔ cs ≠ [] ∧ ∀ c ∈ cs, c.isDigit = true := by
  rw [isDigits, Bool.and_eq_true, List.all_eq_true, Bool.not_eq_true', List.isEmpty_eq_false_iff]

theorem figures_of_isDigits {cs : List Char} (h : isDigits cs = true) : Figures cs :=
  figures_of_isDigit (isDigits_iff.1 h).2

theorem figures_of_dropPlus {cs : List Char} (h : Figures (dropPlus cs)) : Figures cs := by
  unfold dropPlus at h
  split at h
  · exact figures_cons.2 ⟨by decide, h⟩
  · exact h

/-- What ends a mantissa is the mark of an exponent. -/
theorem mark_of_dropWhile {cs exponent : List Char} {mark : Char}
    (h : (cs.dropWhile fun c => c != 'e' && c != 'E') = mark :: exponent) : mark = 'e' ∨ mark = 'E' := by
  have hn := List.head_dropWhile_not (fun c => c != 'e' && c != 'E') (l := cs) (by simp [h])
  simpa only [h, List.head_cons, Bool.and_eq_false_iff, bne_eq_false_iff_eq] using hn

/-- The first character that is not kept is the `e` of an exponent. -/
theorem figures_of_isScaled {cs : List Char} (h : isScaled cs = true) : Figures cs := by
  rw [← List.takeWhile_append_dropWhile (p := fun c => c != 'e' && c != 'E') (l := cs), figures_append]
  unfold isScaled at h
  split at h
  · next hd => exact ⟨figures_of_isDigits h, by rw [hd]; exact figures_nil⟩
  · next d exponent hd =>
    rw [Bool.and_eq_true] at h
    rw [hd, figures_cons]
    refine ⟨figures_of_isDigits h.1, ?_, figures_of_isDigits h.2⟩
    rcases mark_of_dropWhile hd with rfl | rfl <;> decide

theorem figures_splitSign (cs : List Char) : Figures (splitSign cs).1 := by
  unfold splitSign
  split
  · exact figures_cons.2 ⟨by decide, figures_nil⟩
  · exact figures_nil

theorem figures_of_integerText? {text cs : List Char} (h : integerText? text = some cs) : Figures cs := by
  have hs := figures_splitSign (Text.strip text)
  unfold integerText? at h
  simp only at h
  split at h
  · obtain ⟨n, -, rfl⟩ := Option.map_eq_some_iff.1 h
    exact figures_append.2 ⟨hs, figures_natText n⟩
  · obtain ⟨n, -, rfl⟩ := Option.map_eq_some_iff.1 h
    exact figures_append.2 ⟨hs, figures_natText n⟩
  · split at h
    · next hd =>
      obtain rfl := Option.some.inj h
      exact figures_append.2 ⟨hs, figures_of_isScaled hd⟩
    · cases h

theorem figures_of_readExponent? {cs : List Char} {e : Int} (h : readExponent? cs = some e) : Figures cs := by
  unfold readExponent? at h
  split at h
  · exact figures_nil
  · split at h
    · next d ds hd =>
      have he : isFigure d = true := by
        rw [Bool.or_eq_true, decide_eq_true_eq, decide_eq_true_eq] at hd
        rcases hd with rfl | rfl <;> decide
      refine figures_cons.2 ⟨he, ?_⟩
      split at h
      · split at h
        · next hd => exact figures_cons.2 ⟨by decide, figures_of_isDigits hd⟩
        · cases h
      · split at h
        · next hd => exact figures_of_dropPlus (figures_of_isDigits hd)
        · cases h
    · cases h

theorem figures_takeWhile_isDigit (cs : List Char) : Figures (cs.takeWhile Char.isDigit) :=
  figures_of_isDigit (List.all_eq_true.1 List.all_takeWhile)

theorem figures_of_splitPlaces {cs : List Char} (h : Figures (splitPlaces cs).2) : Figures cs := by
  unfold splitPlaces at h
  split at h
  · next ds =>
    rw [← List.takeWhile_append_dropWhile (p := Char.isDigit) (l := ds)]
    exact figures_cons.2 ⟨by decide, figures_append.2 ⟨figures_takeWhile_isDigit ds, h⟩⟩
  · exact h

theorem figures_of_readDecimal? {cs : List Char} {d : Numeral} (h : readDecimal? cs = some d) : Figures cs := by
  have unsigned {ds : List Char} {e : Int}
      (h : readExponent? (splitPlaces (ds.dropWhile Char.isDigit)).2 = some e) : Figures ds := by
    rw [← List.takeWhile_append_dropWhile (p := Char.isDigit) (l := ds)]
    exact figures_append.2 ⟨figures_takeWhile_isDigit ds, figures_of_splitPlaces (figures_of_readExponent? h)⟩
  unfold readDecimal? at h
  simp only at h
  split at h
  · split at h
    · cases h
    · obtain ⟨e, he, -⟩ := Option.map_eq_some_iff.1 h
      exact figures_cons.2 ⟨by decide, unsigned he⟩
  · split at h
    · cases h
    · obtain ⟨e, he, -⟩ := Option.map_eq_some_iff.1 h
      exact figures_of_dropPlus (unsigned he)

theorem figures_of_numericText? {text cs : List Char} (h : numericText? text = some cs) : Figures cs := by
  unfold numericText? at h
  simp only at h
  split at h
  · next hs =>
    obtain rfl := Option.some.inj h
    obtain ⟨d, hd, -⟩ := (Option.any_eq_true _ _).1 hs
    exact figures_of_readDecimal? hd
  · cases h

end Decimal

/-! ## Dates and times -/

open Decimal (figures_padded)

theorem figures_yearText (year : Int) : Figures (yearText year) := by
  unfold yearText
  split
  · split
    · exact figures_padded 4 _
    · exact figures_cons.2 ⟨by decide, figures_padded 4 _⟩
  · exact figures_cons.2 ⟨by decide, figures_padded 4 _⟩

theorem figures_dateIso (d : Date) : Figures d.iso := by
  simp only [Date.iso, figures_append, figures_cons, figures_yearText, figures_padded]
  decide

theorem figures_timeIso (t : Time) : Figures t.iso := by
  have hf : Figures t.fractionText := by
    unfold Time.fractionText
    simp only
    split_ifs
    · exact figures_nil
    all_goals exact figures_cons.2 ⟨by decide, figures_padded _ _⟩
  simp only [Time.iso, figures_append, figures_cons, figures_padded, hf]
  decide

theorem figures_dateTimeIso (t : DateTime) : Figures t.iso := by
  simp only [DateTime.iso, figures_append, figures_cons, figures_dateIso, figures_timeIso]
  decide

end SqlComposer
