import Mathlib.Tactic.MkIffOfInductiveProp
import Mathlib.Tactic.Ring
import SqlComposer.Number.Decimal

/-!
# Whole numbers in double precision

* `IsRounded` : a whole number nearest to a fraction, a tie going to the even one; `roundHalfEven_eq_iff` : it is what
  rounding gives;
* `wholeBits` : the bits of the number nearest to a whole number (`nearest_whole`);
* `eq_of_nearest_eq` : below `2 ^ 53` no two whole numbers have the same nearest number;
* `nearest_eq_iff_readsBack` : from `2 ^ 53` on a whole number reads back exactly if it lies between the midpoints to the
  neighbours.
-/

namespace SqlComposer.Binary64

/-! ## Whole numbers near a fraction -/

/-- `q` is a whole number nearest to `n / d`, and even if another one is as near. -/
@[mk_iff] structure IsRounded (n d q : ℕ) : Prop where
  below : 2 * n ≤ 2 * (q * d) + d
  above : 2 * (q * d) ≤ 2 * n + d
  tie : 2 * n = 2 * (q * d) + d ∨ 2 * (q * d) = 2 * n + d → q % 2 = 0

variable {n m d q r : ℕ}

/-- Rounding keeps the order. -/
theorem IsRounded.mono (hd : 0 < d) (hq : IsRounded n d q) (hr : IsRounded m d r) (hnm : n ≤ m) : q ≤ r := by
  by_contra hlt
  obtain ⟨k, rfl⟩ : ∃ k, q = r + 1 + k := ⟨q - (r + 1), by omega⟩
  have habove := hq.above
  have hbelow := hr.below
  have hmul : (r + 1 + k) * d = r * d + d + k * d := by ring
  rw [hmul] at habove
  -- both are as near as the other, so both are even
  have hk : k = 0 := by
    have hzero : k * d = 0 := by omega
    exact (Nat.mul_eq_zero.1 hzero).resolve_right hd.ne'
  have heven := hq.tie (.inr (by omega))
  have heven' := hr.tie (.inl (by omega))
  omega

theorem isRounded_mul (hd : 0 < d) (q : ℕ) : IsRounded (q * d) d q := by
  constructor <;> omega

theorem isRounded_roundHalfEven (n : ℕ) (hd : 0 < d) : IsRounded n d (roundHalfEven n d) := by
  have hn := Nat.div_add_mod' n d
  have hlt := Nat.mod_lt n hd
  have hnext : (n / d + 1) * d = n / d * d + d := Nat.succ_mul _ _
  unfold roundHalfEven
  simp only
  split
  · constructor <;> omega
  split
  · constructor <;> omega
  split
  · constructor <;> omega
  · constructor <;> omega

theorem roundHalfEven_eq_iff (hd : 0 < d) : roundHalfEven n d = q ↔ IsRounded n d q := by
  have h := isRounded_roundHalfEven n hd
  constructor
  · rintro rfl
    exact h
  · intro hq
    exact Nat.le_antisymm (h.mono hd hq le_rfl) (hq.mono hd h le_rfl)

theorem roundHalfEven_one (n : ℕ) : roundHalfEven n 1 = n :=
  (roundHalfEven_eq_iff Nat.one_pos).2 (by constructor <;> omega)

/-! ## Bits -/

/-- The bits without the sign. -/
def magnitudeBits (x : Binary64) : ℕ :=
  x.exponentField * 2 ^ 52 + x.fractionField

theorem fractionField_lt (x : Binary64) : x.fractionField < 2 ^ 52 :=
  Nat.mod_lt _ (by decide)

theorem magnitudeBits_lt {x : Binary64} (hx : x.isFinite = true) : x.magnitudeBits < infinityBits := by
  have hE : x.exponentField < 2 ^ 11 := Nat.mod_lt _ (by decide)
  have hF := x.fractionField_lt
  have hne : x.exponentField ≠ 2047 := bne_iff_ne.1 hx
  have hinf : infinityBits = 2047 * 2 ^ 52 := rfl
  rw [magnitudeBits, hinf]
  omega

/-- A number is its sign and its other bits. -/
theorem ofMagnitude_eq_iff {s : Bool} {m : ℕ} (hm : m < 2 ^ 63) {x : Binary64} :
    ofMagnitude s m = x ↔ s = x.isNegative ∧ m = x.magnitudeBits := by
  obtain ⟨bits⟩ := x
  have hbits := bits.toNat_lt
  have h63 : Nat.pow 2 63 = 9223372036854775808 := rfl
  have h52 : Nat.pow 2 52 = 4503599627370496 := rfl
  have h11 : Nat.pow 2 11 = 2048 := rfl
  rw [ofMagnitude, Binary64.mk.injEq, ← UInt64.toNat_inj, UInt64.toNat_ofNat', Nat.mod_eq_of_lt]
  · simp only [isNegative, magnitudeBits, exponentField, fractionField, h63, h52, h11]
    cases s
    · simp only [Bool.false_eq_true, if_false, false_eq_decide_iff]
      omega
    · simp only [if_true, true_eq_decide_iff]
      omega
  · rw [h63]
    split <;> omega

theorem ofMagnitude_injective {s : Bool} {m m' : ℕ} (hm : m < 2 ^ 63) (hm' : m' < 2 ^ 63)
    (h : ofMagnitude s m = ofMagnitude s m') : m = m' := by
  have hself : ofMagnitude s m' = ofMagnitude s m' := rfl
  exact ((ofMagnitude_eq_iff hm).1 h).2.trans ((ofMagnitude_eq_iff hm').1 hself).2.symm

/-! ## Whole numbers -/

/-- The leading digit of a whole number is put at the place `52`. -/
theorem scaled_mem (hn : n ≠ 0) :
    2 ^ 52 * 2 ^ (n.log2 - 52) ≤ n * 2 ^ (52 - n.log2) ∧ n * 2 ^ (52 - n.log2) < 2 ^ 53 * 2 ^ (n.log2 - 52) := by
  have hlow := Nat.log2_self_le hn
  have hhigh := Nat.lt_log2_self (n := n)
  obtain hk | hk := Nat.le_total n.log2 52
  · have hpos : 0 < 2 ^ (52 - n.log2) := Nat.two_pow_pos _
    constructor
    · calc 2 ^ 52 * 2 ^ (n.log2 - 52) = 2 ^ n.log2 * 2 ^ (52 - n.log2) := by
            rw [← Nat.pow_add, ← Nat.pow_add]; congr 1; omega
        _ ≤ n * 2 ^ (52 - n.log2) := Nat.mul_le_mul_right _ hlow
    · calc n * 2 ^ (52 - n.log2) < 2 ^ (n.log2 + 1) * 2 ^ (52 - n.log2) := Nat.mul_lt_mul_of_pos_right hhigh hpos
        _ = 2 ^ 53 * 2 ^ (n.log2 - 52) := by rw [← Nat.pow_add, ← Nat.pow_add]; congr 1; omega
  · rw [Nat.sub_eq_zero_of_le hk, Nat.pow_zero, Nat.mul_one, ← Nat.pow_add, ← Nat.pow_add]
    constructor
    · rwa [Nat.add_sub_cancel' hk]
    · rwa [show 53 + (n.log2 - 52) = n.log2 + 1 by omega]

theorem lastPlace_one (hn : n ≠ 0) : lastPlace n 1 = n.log2 - 52 := by
  obtain ⟨hlow, -⟩ := scaled_mem hn
  have hone : Nat.log2 1 = 0 := rfl
  unfold lastPlace
  extract_lets guess low
  have hguess : low = false := by
    show (if _ then _ else _) = false
    split
    · have hk : guess.natAbs = 52 - n.log2 := by omega
      have h52 : n.log2 - 52 = 0 := by omega
      rw [h52] at hlow
      rw [hk, decide_eq_false_iff_not]
      exact Nat.not_lt.2 hlow
    · have hk : 52 + guess.toNat = 52 + (n.log2 - 52) := by omega
      have h52 : 52 - n.log2 = 0 := by omega
      rw [h52, ← Nat.pow_add, Nat.pow_zero, Nat.mul_one] at hlow
      rw [hk, Nat.one_mul, decide_eq_false_iff_not]
      exact Nat.not_lt.2 hlow
  simp only [hguess, Bool.false_eq_true, if_false]
  omega

/-- The bits without sign of the number nearest to a whole number, if the exponents had no end. -/
def wholeBits (n : ℕ) : ℕ :=
  if n = 0 then 0
  else (n.log2 + 1022) * 2 ^ 52 + roundHalfEven (n * 2 ^ (52 - n.log2)) (2 ^ (n.log2 - 52))

theorem nearest_whole (s : Bool) (n : ℕ) : nearest s n 1 = ofMagnitude s (min infinityBits (wholeBits n)) := by
  unfold nearest wholeBits
  split
  · rw [Nat.min_zero, zero]
  · next hn =>
    have hplace := lastPlace_one hn
    extract_lets e q
    have hbits : (e + 1074).toNat = n.log2 + 1022 := by omega
    have hround : q = roundHalfEven (n * 2 ^ (52 - n.log2)) (2 ^ (n.log2 - 52)) := by
      show (if _ then _ else _) = _
      split
      · have hk : e.natAbs = 52 - n.log2 := by omega
        have h52 : n.log2 - 52 = 0 := by omega
        rw [hk, h52]
        rfl
      · have hk : e.toNat = n.log2 - 52 := by omega
        have h52 : 52 - n.log2 = 0 := by omega
        rw [hk, h52, Nat.one_mul, Nat.pow_zero, Nat.mul_one]
        rfl
    rw [hbits, hround]
    rfl

theorem nearest_eq_iff {x : Binary64} (hx : x.isFinite = true) (n : ℕ) :
    nearest x.isNegative n 1 = x ↔ wholeBits n = x.magnitudeBits := by
  have hinf : infinityBits = 2047 * 2 ^ 52 := rfl
  have hlt := magnitudeBits_lt hx
  rw [nearest_whole, ofMagnitude_eq_iff (by omega), eq_self_iff_true, true_and]
  omega

/-- The bits of a whole number: its binade, and the significand `q`, which may be the first of the next binade. -/
theorem exists_significand (hn : n ≠ 0) :
    ∃ q, wholeBits n = (n.log2 + 1022) * 2 ^ 52 + q ∧ 2 ^ 52 ≤ q ∧ q ≤ 2 ^ 53 ∧
      IsRounded (n * 2 ^ (52 - n.log2)) (2 ^ (n.log2 - 52)) q := by
  obtain ⟨hlow, hhigh⟩ := scaled_mem hn
  have hd : 0 < 2 ^ (n.log2 - 52) := Nat.two_pow_pos _
  have hround := isRounded_roundHalfEven (n * 2 ^ (52 - n.log2)) hd
  exact ⟨_, if_neg hn, (isRounded_mul hd _).mono hd hround hlow, hround.mono hd (isRounded_mul hd _) hhigh.le, hround⟩

/-- A whole number in the binade of `2 ^ (52 + k)`. -/
theorem wholeBits_binade (k : ℕ) (hlow : 2 ^ 52 * 2 ^ k ≤ n) (hhigh : n < 2 ^ 53 * 2 ^ k) (hq : IsRounded n (2 ^ k) q) :
    wholeBits n = (k + 1074) * 2 ^ 52 + q := by
  have hpos : 0 < 2 ^ k := Nat.two_pow_pos k
  have hn : n ≠ 0 := by omega
  have hpow : 2 ^ (52 + k) = 2 ^ 52 * 2 ^ k := Nat.pow_add 2 52 k
  have hlog : n.log2 = 52 + k := by
    rw [Nat.log2_eq_iff hn, Nat.pow_succ, hpow]
    omega
  rw [wholeBits, if_neg hn, hlog, Nat.sub_eq_zero_of_le (by omega), Nat.pow_zero, Nat.mul_one, Nat.add_sub_cancel_left,
    (roundHalfEven_eq_iff hpos).2 hq]
  omega

/-- Below `2 ^ 53` nothing is rounded. -/
theorem wholeBits_of_lt (hn : n ≠ 0) (hlt : n < 2 ^ 53) :
    n.log2 ≤ 52 ∧ wholeBits n = (n.log2 + 1022) * 2 ^ 52 + n * 2 ^ (52 - n.log2) ∧
      2 ^ 52 ≤ n * 2 ^ (52 - n.log2) ∧ n * 2 ^ (52 - n.log2) < 2 ^ 53 := by
  have hlog : n.log2 ≤ 52 := Nat.lt_succ_iff.1 ((Nat.log2_lt hn).2 hlt)
  have hscaled := scaled_mem hn
  rw [Nat.sub_eq_zero_of_le hlog, Nat.pow_zero, Nat.mul_one, Nat.mul_one] at hscaled
  rw [wholeBits, if_neg hn, Nat.sub_eq_zero_of_le hlog, Nat.pow_zero, roundHalfEven_one]
  exact ⟨hlog, rfl, hscaled⟩

/-- A whole number below `2 ^ 53` is read back by itself alone. -/
theorem eq_of_nearest_eq {s : Bool} {w : ℕ} (hw : w < 2 ^ 53) (h : nearest s n 1 = nearest s w 1) : n = w := by
  have hinf : infinityBits = 2047 * 2 ^ 52 := rfl
  rw [nearest_whole, nearest_whole] at h
  have hbits := ofMagnitude_injective (by omega) (by omega) h
  have hzero : wholeBits 0 = 0 := if_pos rfl
  rcases Nat.eq_zero_or_pos n with rfl | hn
  · rcases Nat.eq_zero_or_pos w with rfl | hw0
    · rfl
    · obtain ⟨hlog, hwhole, -⟩ := wholeBits_of_lt hw0.ne' hw
      omega
  · obtain ⟨q, hq, hlow, hhigh, -⟩ := exists_significand hn.ne'
    rcases Nat.eq_zero_or_pos w with rfl | hw0
    · omega
    · obtain ⟨hlog, hwhole, hwlow, hwhigh⟩ := wholeBits_of_lt hw0.ne' hw
      have hnlog : n.log2 < 53 := by omega
      obtain ⟨-, hnwhole, hnlow, hnhigh⟩ := wholeBits_of_lt hn.ne' ((Nat.log2_lt hn.ne').1 hnlog)
      have hlogs : n.log2 = w.log2 := by omega
      have hmul : n * 2 ^ (52 - n.log2) = w * 2 ^ (52 - w.log2) := by omega
      rw [hlogs] at hmul
      exact Nat.eq_of_mul_eq_mul_right (Nat.two_pow_pos _) hmul

/-! ## Reading back -/

/-- The distance from a number of `2 ^ 53` or more to the next one. -/
def spacing (x : Binary64) : ℕ :=
  2 ^ (x.exponentField - 1075)

section Large

variable {x : Binary64}

theorem significand_of_large (hlarge : 1076 ≤ x.exponentField) : x.significand = 2 ^ 52 + x.fractionField :=
  if_neg (by omega)

theorem numerator_of_large (hlarge : 1076 ≤ x.exponentField) : x.numerator = x.significand * x.spacing := by
  rw [numerator, scaleField, Nat.max_eq_left (by omega)]
  rfl

theorem denominator_of_large (hlarge : 1076 ≤ x.exponentField) : x.denominator = 1 := by
  rw [denominator, scaleField, Nat.max_eq_left (by omega), Nat.sub_eq_zero_of_le (by omega)]

/-- The significand of `x` is the multiple of the spacing nearest to `n`; below a power of two, where the spacing is halved,
`n` is nearer still. -/
@[mk_iff] structure BetweenMidpoints (x : Binary64) (n : ℕ) : Prop where
  rounded : IsRounded n x.spacing x.significand
  edge : x.fractionField = 0 → 4 * x.numerator ≤ 4 * n + x.spacing

theorem readsBack_iff (hlarge : 1076 ≤ x.exponentField) (n : ℕ) :
    Decimal.readsBack x n = true ↔ x.BetweenMidpoints n := by
  have hgap : Nat.pow 2 (x.scaleField - 1075) = x.spacing := by
    rw [scaleField, Nat.max_eq_left (by omega)]
    rfl
  have hsignificand := significand_of_large hlarge
  have hpos : 0 < x.spacing := Nat.two_pow_pos _
  have hmul : x.spacing ≤ x.significand * x.spacing := Nat.le_mul_of_pos_left _ (by omega)
  rw [betweenMidpoints_iff, isRounded_iff, Decimal.readsBack, hgap, numerator_of_large hlarge]
  by_cases hF : x.fractionField = 0
  · rw [if_pos hF]
    split
    · rw [Bool.and_eq_true, decide_eq_true_eq, decide_eq_true_eq]
      omega
    · omega
  · rw [if_neg hF]
    split
    · rw [Bool.and_eq_true, decide_eq_true_eq, decide_eq_true_eq]
      omega
    · rw [Bool.and_eq_true, decide_eq_true_eq, decide_eq_true_eq]
      omega

/-- What is rounded to a number lies between its midpoints, -/
theorem betweenMidpoints_of_wholeBits (hlarge : 1076 ≤ x.exponentField) (h : wholeBits n = x.magnitudeBits) :
    x.BetweenMidpoints n := by
  have hF := x.fractionField_lt
  have hsignificand := significand_of_large hlarge
  rw [magnitudeBits] at h
  rw [betweenMidpoints_iff, numerator_of_large hlarge]
  have hn : n ≠ 0 := by
    rintro rfl
    have hzero : wholeBits 0 = 0 := if_pos rfl
    omega
  obtain ⟨q, hbits, hlow, hhigh, hq⟩ := exists_significand hn
  have hlog : 52 ≤ n.log2 := by omega
  obtain ⟨hnlow, hnhigh⟩ := scaled_mem hn
  rw [Nat.sub_eq_zero_of_le hlog, Nat.pow_zero, Nat.mul_one] at hq hnlow hnhigh
  rcases Nat.lt_or_ge q (2 ^ 53) with hlt | hge
  · have hspacing : 2 ^ (n.log2 - 52) = x.spacing := congrArg (2 ^ ·) (by omega)
    have hqs : q = x.significand := by omega
    rw [hspacing, hqs] at hq
    rw [hspacing] at hnlow
    refine ⟨hq, fun hzero => ?_⟩
    rw [hsignificand, hzero]
    omega
  · -- rounded up to the first number of the next binade
    have hspacing : 2 * 2 ^ (n.log2 - 52) = x.spacing := by
      rw [← Nat.pow_succ']
      exact congrArg (2 ^ ·) (by omega)
    have hs : x.significand = 2 ^ 52 := by omega
    have habove := hq.above
    obtain rfl : q = 2 ^ 53 := by omega
    rw [hs, ← hspacing]
    exact ⟨⟨by omega, by omega, by omega⟩, by omega⟩

/-- and what lies between them is rounded to it. -/
theorem wholeBits_of_betweenMidpoints (hlarge : 1076 ≤ x.exponentField) (h : x.BetweenMidpoints n) :
    wholeBits n = x.magnitudeBits := by
  have hF := x.fractionField_lt
  have hsignificand := significand_of_large hlarge
  have hbelow := h.rounded.below
  have habove := h.rounded.above
  have hpos : 0 < x.spacing := Nat.two_pow_pos _
  have hmul : x.significand * x.spacing = 2 ^ 52 * x.spacing + x.fractionField * x.spacing := by
    rw [hsignificand, Nat.add_mul]
  have hlast : (x.fractionField + 1) * x.spacing ≤ 2 ^ 52 * x.spacing := Nat.mul_le_mul_right _ hF
  rw [Nat.succ_mul] at hlast
  rw [magnitudeBits]
  rcases Nat.lt_or_ge n (2 ^ 52 * x.spacing) with hlt | hge
  · -- below the power of two that `x` must be, in the binade in front of it
    have hzero : x.fractionField = 0 := by
      by_contra hne
      have hle : x.spacing ≤ x.fractionField * x.spacing := Nat.le_mul_of_pos_left _ (by omega)
      omega
    have hspacing : x.spacing = 2 * 2 ^ (x.exponentField - 1076) := by
      rw [← Nat.pow_succ']
      exact congrArg (2 ^ ·) (by omega)
    have hedge := h.edge hzero
    rw [numerator_of_large hlarge, hmul, hzero, hspacing] at hedge
    rw [hspacing] at hlt
    have hnext : IsRounded n (2 ^ (x.exponentField - 1076)) (2 ^ 53) := ⟨by omega, by omega, by omega⟩
    rw [wholeBits_binade (x.exponentField - 1076) (by omega) (by omega) hnext]
    omega
  · have hhigh : n < 2 ^ 53 * x.spacing := by omega
    rw [wholeBits_binade (x.exponentField - 1075) hge hhigh h.rounded]
    omega

theorem nearest_eq_iff_readsBack (hx : x.isFinite = true) (hlarge : 1076 ≤ x.exponentField) (n : ℕ) :
    nearest x.isNegative n 1 = x ↔ Decimal.readsBack x n = true := by
  rw [nearest_eq_iff hx, readsBack_iff hlarge]
  exact ⟨betweenMidpoints_of_wholeBits hlarge, wholeBits_of_betweenMidpoints hlarge⟩

end Large

end SqlComposer.Binary64
