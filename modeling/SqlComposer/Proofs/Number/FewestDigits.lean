import Mathlib.Data.Nat.Dist
import Mathlib.Data.Rat.Floor
import SqlComposer.Proofs.Number.LineComment
import SqlComposer.Proofs.Number.Rounding
import SqlComposer.Proofs.Number.Unquoted

/-!
# The whole part of a number

* `Decimal.IsShortest` : of the multiples of powers of ten between the midpoints, one of the highest power, nearest to the
  number; `Decimal.exists_isShortest` : this is what the search finds;
* `FewestDigits` : the same said of what is read, which one number satisfies (`Decimal.fewestDigits_shownWhole`,
  `Decimal.fewestDigits_unique`); `FewestDigits.eq_iff` : when a number is written exactly;
* `Binary64.value`, `Binary64.integerPart` : the exact value of a number, and its integer part;
* `Decimal.plainText?_of_whole` : a number without places is written as an integer;
* `integerPart_written` : what is written for the integer part, under the modifiers of whole numbers and without them.
-/

namespace SqlComposer

namespace Decimal

variable {x : Binary64} {n j k : ℕ}

/-! ## Between the midpoints -/

/-- What lies between two numbers that read back reads back. -/
theorem readsBack_between {a b c : ℕ} (ha : readsBack x a = true) (hc : readsBack x c = true) (hab : a ≤ b)
    (hbc : b ≤ c) : readsBack x b = true := by
  unfold readsBack at *
  simp only at *
  split at ha
  · next heven =>
    rw [if_pos heven] at hc ⊢
    rw [Bool.and_eq_true, decide_eq_true_eq, decide_eq_true_eq] at *
    omega
  · next hodd =>
    rw [if_neg hodd] at hc ⊢
    rw [Bool.and_eq_true, decide_eq_true_eq, decide_eq_true_eq] at *
    omega

theorem readsBack_numerator (hlarge : 1076 ≤ x.exponentField) : readsBack x x.numerator = true := by
  rw [Binary64.readsBack_iff hlarge]
  refine ⟨?_, fun _ => Nat.le_add_right _ _⟩
  rw [Binary64.numerator_of_large hlarge]
  exact Binary64.isRounded_mul (Nat.two_pow_pos _) _

/-! ## Multiples of powers of ten -/

/-- The multiples of a unit on both sides of a number. -/
structure Around (v unit below above : ℕ) : Prop where
  dvd_below : unit ∣ below
  dvd_above : unit ∣ above
  le : below ≤ v
  lt : v < above
  outside : ∀ m, unit ∣ m → m ≤ below ∨ above ≤ m

theorem around (v : ℕ) {unit : ℕ} (hpos : 0 < unit) : Around v unit (v / unit * unit) (v / unit * unit + unit) where
  dvd_below := Nat.dvd_mul_left _ _
  dvd_above := Nat.dvd_add (Nat.dvd_mul_left _ _) (Nat.dvd_refl unit)
  le := Nat.div_mul_le_self v unit
  lt := Nat.lt_div_mul_add hpos
  outside := by
    rintro _ ⟨t, rfl⟩
    rw [Nat.mul_comm unit t, ← Nat.succ_mul]
    rcases Nat.lt_or_ge (v / unit) t with ht | ht
    · exact .inr (Nat.mul_le_mul_right _ ht)
    · exact .inl (Nat.mul_le_mul_right _ ht)

/-- A multiple that reads back is not between the numbers around `x`, and the one on its side reads back. -/
theorem Around.reads {unit below above m : ℕ} (h : Around x.numerator unit below above)
    (hself : readsBack x x.numerator = true) (hm : unit ∣ m) (hread : readsBack x m = true) :
    m ≤ below ∧ readsBack x below = true ∨ above ≤ m ∧ readsBack x above = true := by
  rcases h.outside m hm with hle | hge
  · exact .inl ⟨hle, readsBack_between hread hself hle h.le⟩
  · exact .inr ⟨hge, readsBack_between hself hread h.lt.le hge⟩

/-- Of the multiples of powers of ten up to the power `k` that read back, `n` is a multiple of the highest, `10 ^ j`, and
nearest to the number. -/
structure IsShortest (x : Binary64) (k j n : ℕ) : Prop where
  le : j ≤ k
  dvd : 10 ^ j ∣ n
  reads : readsBack x n = true
  highest : ∀ i, j < i → i ≤ k → ∀ m, 10 ^ i ∣ m → readsBack x m ≠ true
  nearest : ∀ m, 10 ^ j ∣ m → readsBack x m = true → Nat.dist n x.numerator ≤ Nat.dist m x.numerator

/-- A multiple of the highest power that is tried. -/
theorem isShortest_top (hdvd : 10 ^ k ∣ n) (hread : readsBack x n = true)
    (hnearest : ∀ m, 10 ^ k ∣ m → readsBack x m = true → Nat.dist n x.numerator ≤ Nat.dist m x.numerator) :
    IsShortest x k k n :=
  ⟨le_rfl, hdvd, hread, fun _ hki hik => absurd hki (Nat.not_lt.2 hik), hnearest⟩

section Neighbours

variable {below above : ℕ}

/-- The neighbour below is taken if it reads back and is nearer than one above that does, -/
theorem Around.isShortest_below (h : Around x.numerator (10 ^ k) below above) (hself : readsBack x x.numerator = true)
    (hb : readsBack x below = true) (hcloser : readsBack x above = true → x.numerator - below < above - x.numerator) :
    IsShortest x k k below := by
  refine isShortest_top h.dvd_below hb fun m hm hread => ?_
  have hle := h.le
  have hlt := h.lt
  unfold Nat.dist
  rcases h.reads hself hm hread with ⟨hmb, -⟩ | ⟨hma, ha⟩
  · omega
  · have hcloser := hcloser ha
    omega

/-- else the one above if it reads back, -/
theorem Around.isShortest_above (h : Around x.numerator (10 ^ k) below above) (hself : readsBack x x.numerator = true)
    (ha : readsBack x above = true) (hcloser : readsBack x below = true → above - x.numerator ≤ x.numerator - below) :
    IsShortest x k k above := by
  refine isShortest_top h.dvd_above ha fun m hm hread => ?_
  have hle := h.le
  have hlt := h.lt
  unfold Nat.dist
  rcases h.reads hself hm hread with ⟨hmb, hb⟩ | ⟨hma, -⟩
  · have hcloser := hcloser hb
    omega
  · omega

/-- and if neither does, no multiple of this power does. -/
theorem Around.isShortest_succ (h : Around x.numerator (10 ^ (k + 1)) below above) (hself : readsBack x x.numerator = true)
    (hb : readsBack x below ≠ true) (ha : readsBack x above ≠ true) (hn : IsShortest x k j n) :
    IsShortest x (k + 1) j n := by
  refine ⟨hn.le.trans (Nat.le_succ k), hn.dvd, hn.reads, fun i hji hik m hm hread => ?_, hn.nearest⟩
  rcases Nat.lt_or_ge k i with hki | hki
  · obtain rfl : i = k + 1 := by omega
    rcases h.reads hself hm hread with ⟨-, hread⟩ | ⟨-, hread⟩
    · exact hb hread
    · exact ha hread
  · exact hn.highest i hji hki m hm hread

end Neighbours

theorem exists_isShortest (hself : readsBack x x.numerator = true) (k : ℕ) : ∃ j, IsShortest x k j (shortest x k) := by
  induction k with
  | zero =>
    refine ⟨0, isShortest_top (Nat.one_dvd _) hself fun m _ _ => ?_⟩
    rw [shortest, Nat.dist_self]
    exact Nat.zero_le _
  | succ k ih =>
    have haround := around x.numerator (Nat.pow_pos (by decide) : 0 < 10 ^ (k + 1))
    have hunit : Nat.pow 10 (k + 1) = 10 ^ (k + 1) := rfl
    rw [shortest, hunit]
    split
    · next hchosen =>
      rw [Bool.and_eq_true, Bool.or_eq_true, Bool.not_eq_true', decide_eq_true_eq] at hchosen
      obtain ⟨hb, hcloser⟩ := hchosen
      exact ⟨k + 1, haround.isShortest_below hself hb fun ha => hcloser.resolve_left (by rw [ha]; decide)⟩
    · next hnot =>
      rw [Bool.and_eq_true, Bool.or_eq_true, Bool.not_eq_true', decide_eq_true_eq, not_and, not_or, Nat.not_lt] at hnot
      split
      · next ha => exact ⟨k + 1, haround.isShortest_above hself ha fun hb => (hnot hb).2⟩
      · next ha =>
        obtain ⟨j, hj⟩ := ih
        exact ⟨j, haround.isShortest_succ hself (fun hb => (hnot hb).1 (Bool.eq_false_iff.2 ha)) ha hj⟩

/-- What reads back is less than a spacing away, and the spacing is small beside the number. -/
theorem near_of_readsBack (hlarge : 1076 ≤ x.exponentField) (h : readsBack x n = true) :
    n < x.numerator + x.spacing ∧ x.numerator < n + x.spacing ∧ 2 ^ 52 * x.spacing ≤ x.numerator := by
  have hround := ((Binary64.readsBack_iff hlarge n).1 h).rounded
  have hbelow := hround.below
  have habove := hround.above
  have hpos : 0 < x.spacing := Nat.two_pow_pos _
  have hmul : 2 ^ 52 * x.spacing ≤ x.significand * x.spacing := by
    rw [Binary64.significand_of_large hlarge]
    exact Nat.mul_le_mul_right _ (Nat.le_add_right _ _)
  rw [Binary64.numerator_of_large hlarge]
  exact ⟨by omega, by omega, hmul⟩

/-- A power of ten that divides two numbers on both sides, equally far away, divides the number between them. -/
theorem pow_dvd_of_tie {i m : ℕ} (hlarge : 1076 ≤ x.exponentField) (hn : readsBack x n = true) (hm : readsBack x m = true)
    (hne : n ≠ m) (hsum : n + m = 2 * x.numerator) (hni : 10 ^ i ∣ n) (hmi : 10 ^ i ∣ m) : 10 ^ i ∣ x.numerator := by
  -- the power is at most the distance, so its part of two divides the spacing
  have hdist : 10 ^ i ∣ Nat.dist n m := Nat.dvd_add (Nat.dvd_sub hni hmi) (Nat.dvd_sub hmi hni)
  have hgap : 10 ^ i ≤ Nat.dist n m := Nat.le_of_dvd (Nat.dist_pos_of_ne hne) hdist
  have htwo : 2 ^ i < 2 ^ (x.exponentField - 1075 + 1) := by
    obtain ⟨hnv, hvn, -⟩ := near_of_readsBack hlarge hn
    obtain ⟨hmv, hvm, -⟩ := near_of_readsBack hlarge hm
    unfold Nat.dist at hgap
    calc 2 ^ i ≤ 10 ^ i := Nat.pow_le_pow_left (by decide) i
      _ < x.spacing * 2 := by omega
      _ = 2 ^ (x.exponentField - 1075 + 1) := (Nat.pow_succ 2 _).symm
  have hspacing : 2 ^ i ∣ x.spacing := Nat.pow_dvd_pow 2 (Nat.lt_succ_iff.1 ((Nat.pow_lt_pow_iff_right (by decide)).1 htwo))
  have hdouble : 10 ^ i ∣ 2 * x.numerator := hsum ▸ Nat.dvd_add hni hmi
  have hten : 10 ^ i = 2 ^ i * 5 ^ i := Nat.mul_pow 2 5 i
  rw [hten] at hdouble ⊢
  have hfive : 5 ^ i ∣ x.numerator :=
    (Nat.Coprime.pow_left i (by decide)).dvd_of_dvd_mul_left ((Nat.dvd_mul_left _ _).trans hdouble)
  refine Nat.Coprime.mul_dvd_of_dvd_of_dvd (Nat.Coprime.pow i i (by decide)) ?_ hfive
  rw [Binary64.numerator_of_large hlarge]
  exact hspacing.mul_left _

/-- If the power of ten right above the number reads back, it is the nearest multiple of the power below. -/
theorem IsShortest.eq_pow {shown : ℕ} (hlarge : 1076 ≤ x.exponentField) (h : IsShortest x k k shown)
    (hv : x.numerator < 10 ^ (k + 1)) (hread : readsBack x (10 ^ (k + 1)) = true) : shown = 10 ^ (k + 1) := by
  obtain ⟨hnear, -, hspacing⟩ := near_of_readsBack hlarge hread
  have hdist := h.nearest _ (Nat.pow_dvd_pow 10 (Nat.le_succ k)) hread
  have hpow : 10 ^ (k + 1) = 10 ^ k * 10 := Nat.pow_succ 10 k
  obtain ⟨s, rfl⟩ := h.dvd
  unfold Nat.dist at hdist
  have hlow : 10 ^ k * 9 < 10 ^ k * s := by omega
  have hhigh : 10 ^ k * s < 10 ^ k * 11 := by omega
  have hs := Nat.lt_of_mul_lt_mul_left hlow
  have hs' := Nat.lt_of_mul_lt_mul_left hhigh
  rw [hpow]
  congr 1
  omega

/-- If only powers of ten above the number are not tried, no multiple of a higher power reads back. -/
theorem IsShortest.dvd_of_dvd {shown m i : ℕ} (hlarge : 1076 ≤ x.exponentField) (h : IsShortest x k j shown)
    (hv : x.numerator < 10 ^ (k + 1)) (hm : readsBack x m = true) (hi : 10 ^ i ∣ m) : 10 ^ i ∣ shown := by
  rcases Nat.lt_or_ge j i with hji | hij
  · have hki : k + 1 ≤ i := Nat.lt_of_not_le fun hik => h.highest i hji hik m hi hm
    obtain ⟨hmv, hvm, hspacing⟩ := near_of_readsBack hlarge hm
    have hmi : 10 ^ i ≤ m := Nat.le_of_dvd (by omega) hi
    have hread : readsBack x (10 ^ (k + 1)) = true :=
      readsBack_between (readsBack_numerator hlarge) hm hv.le ((Nat.pow_le_pow_right (by decide) hki).trans hmi)
    obtain rfl : j = k := by
      have hle := h.le
      by_contra hne
      exact h.highest k (by omega) le_rfl _ (Nat.pow_dvd_pow 10 (Nat.le_succ k)) hread
    have hik : i < j + 2 := by
      by_contra hge
      have hpow : 10 ^ (j + 2) ≤ 10 ^ i := Nat.pow_le_pow_right (by decide) (Nat.le_of_not_lt hge)
      rw [Nat.pow_succ] at hpow
      omega
    rw [h.eq_pow hlarge hv hread]
    exact Nat.pow_dvd_pow 10 (by omega)
  · exact (Nat.pow_dvd_pow 10 hij).trans h.dvd

end Decimal

/-! ## The fewest digits -/

/-- Whole numbers that double precision does not tell apart. -/
def ReadsAs (negative : Bool) (n m : ℕ) : Prop :=
  Binary64.nearest negative n 1 = Binary64.nearest negative m 1

/-- Of the whole numbers that are read as `w`, none ends in more zeros than `n`, and none that ends in as many is nearer to
`w`. -/
structure FewestDigits (negative : Bool) (w n : ℕ) : Prop where
  reads : ReadsAs negative n w
  zeros : ∀ m, ReadsAs negative m w → ∀ k, 10 ^ k ∣ m → 10 ^ k ∣ n
  nearest : ∀ m, ReadsAs negative m w → (∀ k, 10 ^ k ∣ n → 10 ^ k ∣ m) → Nat.dist n w ≤ Nat.dist m w

/-- A number is written exactly where no other that ends in more zeros is read as it. -/
theorem FewestDigits.eq_iff {negative : Bool} {w n : ℕ} (h : FewestDigits negative w n) :
    n = w ↔ ∀ m, ReadsAs negative m w → ∀ k, 10 ^ k ∣ m → 10 ^ k ∣ w := by
  constructor
  · rintro rfl
    exact h.zeros
  · intro hzeros
    have hle := h.nearest w rfl (hzeros n h.reads)
    rw [Nat.dist_self] at hle
    exact Nat.eq_of_dist_eq_zero (Nat.le_zero.1 hle)

namespace Decimal

variable {x : Binary64}

/-- The whole number that is written for the whole part of a number. -/
def shownWhole (x : Binary64) : ℕ :=
  if x.wholePart < 2 ^ 53 then x.wholePart else shortest x ((natText x.wholePart).length - 1)

theorem wholeText_eq (x : Binary64) :
    wholeText x = (if x.isNegative then ['-'] else []) ++ natText (shownWhole x) := by
  rw [wholeText]
  cases x.isNegative <;> rfl

/-- From `2 ^ 53` on there are no places. -/
theorem exponentField_of_le (h : 2 ^ 53 ≤ x.wholePart) : 1076 ≤ x.exponentField := by
  by_contra hlt
  have hF := x.fractionField_lt
  have hone : Nat.pow 2 (x.scaleField - 1075) = 1 := by
    rw [Binary64.scaleField, Nat.sub_eq_zero_of_le (by omega)]
  have hnum : x.numerator < 2 ^ 53 := by
    rw [Binary64.numerator, hone, Nat.mul_one, Binary64.significand]
    have hpow : Nat.pow 2 52 = 2 ^ 52 := rfl
    split <;> omega
  exact absurd (h.trans (Nat.div_le_self _ _)) (Nat.not_le.2 hnum)

theorem wholePart_of_large (hlarge : 1076 ≤ x.exponentField) : x.wholePart = x.numerator := by
  rw [Binary64.wholePart, Binary64.denominator_of_large hlarge, Nat.div_one]

theorem readsAs_iff (hx : x.isFinite = true) (hlarge : 1076 ≤ x.exponentField) (m : ℕ) :
    ReadsAs x.isNegative m x.wholePart ↔ readsBack x m = true := by
  have hself := (Binary64.nearest_eq_iff_readsBack hx hlarge _).2 (readsBack_numerator hlarge)
  rw [ReadsAs, wholePart_of_large hlarge, hself, Binary64.nearest_eq_iff_readsBack hx hlarge]

theorem fewestDigits_shownWhole (hx : x.isFinite = true) : FewestDigits x.isNegative x.wholePart (shownWhole x) := by
  rw [shownWhole]
  split
  · next hlt =>
    have hself {m : ℕ} (hm : ReadsAs x.isNegative m x.wholePart) : m = x.wholePart := Binary64.eq_of_nearest_eq hlt hm
    refine ⟨rfl, fun m hm k hk => ?_, fun m hm _ => ?_⟩
    · rwa [← hself hm]
    · rw [hself hm]
  · next hge =>
    have hlarge := exponentField_of_le (Nat.le_of_not_lt hge)
    have hwhole := wholePart_of_large hlarge
    have hread := readsAs_iff hx hlarge
    obtain ⟨j, hj⟩ := exists_isShortest (readsBack_numerator hlarge) ((natText x.wholePart).length - 1)
    have hdigits : x.numerator < 10 ^ ((natText x.wholePart).length - 1 + 1) := by
      have hlen : 0 < (natText x.wholePart).length := Nat.length_toDigits_pos
      rw [Nat.sub_add_cancel hlen, ← hwhole]
      exact (Nat.length_toDigits_le_iff (by decide) hlen).1 le_rfl
    refine ⟨(hread _).2 hj.reads, fun m hm k hk => ?_, fun m hm hzeros => ?_⟩
    · exact hj.dvd_of_dvd hlarge hdigits ((hread m).1 hm) hk
    · have hle := hj.nearest m (hzeros j hj.dvd) ((hread m).1 hm)
      rwa [← hwhole] at hle

/-- There is no second such number: two at the same distance would leave the number itself as the nearest. -/
theorem fewestDigits_unique {n m : ℕ} (hx : x.isFinite = true) (hn : FewestDigits x.isNegative x.wholePart n)
    (hm : FewestDigits x.isNegative x.wholePart m) : n = m := by
  rcases Nat.lt_or_ge x.wholePart (2 ^ 53) with hlt | hge
  · exact (Binary64.eq_of_nearest_eq hlt hn.reads).trans (Binary64.eq_of_nearest_eq hlt hm.reads).symm
  · have hlarge := exponentField_of_le hge
    have hread := readsAs_iff hx hlarge
    have hdist := Nat.le_antisymm (hn.nearest m hm.reads (hm.zeros n hn.reads)) (hm.nearest n hn.reads (hn.zeros m hm.reads))
    by_contra hne
    have hsum : n + m = 2 * x.numerator := by
      rw [wholePart_of_large hlarge] at hdist
      unfold Nat.dist at hdist
      omega
    have hzeros (k : ℕ) (hk : 10 ^ k ∣ n) : 10 ^ k ∣ x.wholePart := by
      rw [wholePart_of_large hlarge]
      exact pow_dvd_of_tie hlarge ((hread n).1 hn.reads) ((hread m).1 hm.reads) hne hsum hk (hm.zeros n hn.reads k hk)
    have hself := hn.nearest x.wholePart rfl hzeros
    rw [hdist, Nat.dist_self] at hself
    have hmw := Nat.eq_of_dist_eq_zero (Nat.le_zero.1 hself)
    rw [wholePart_of_large hlarge] at hmw
    omega

end Decimal

/-! ## The whole part -/

namespace Binary64

/-- The exact value of a finite number. -/
def value (x : Binary64) : ℚ :=
  (if x.isNegative then -1 else 1) * (x.significand * 2 ^ ((x.scaleField : ℤ) - 1075))

theorem value_eq (x : Binary64) : x.value = (if x.isNegative then -1 else 1) * ((x.numerator : ℚ) / x.denominator) := by
  have hmagnitude : (x.significand : ℚ) * 2 ^ ((x.scaleField : ℤ) - 1075) = (x.numerator : ℚ) / x.denominator := by
    rw [numerator, denominator, Nat.pow_eq, Nat.pow_eq, Nat.cast_mul, Nat.cast_pow, Nat.cast_pow, Nat.cast_ofNat]
    obtain hle | hle := Nat.le_total x.scaleField 1075
    · obtain ⟨k, hk⟩ := Nat.exists_eq_add_of_le hle
      rw [Nat.sub_eq_zero_of_le hle, show 1075 - x.scaleField = k by omega,
        show (x.scaleField : ℤ) - 1075 = -(k : ℤ) by omega, zpow_neg, zpow_natCast, pow_zero, mul_one, div_eq_mul_inv]
    · obtain ⟨k, hk⟩ := Nat.exists_eq_add_of_le hle
      rw [Nat.sub_eq_zero_of_le hle, show x.scaleField - 1075 = k by omega,
        show (x.scaleField : ℤ) - 1075 = (k : ℤ) by omega, zpow_natCast, pow_zero, div_one]
  rw [value, hmagnitude]

end Binary64

/-- A rational number rounded toward zero. -/
def towardZero (q : ℚ) : ℤ :=
  if 0 ≤ q then ⌊q⌋ else ⌈q⌉

theorem towardZero_neg (q : ℚ) : towardZero (-q) = -towardZero q := by
  unfold towardZero
  rcases lt_trichotomy q 0 with hq | rfl | hq
  · rw [if_pos (by linarith), if_neg (by linarith), Int.floor_neg]
  · rw [neg_zero, if_pos le_rfl, Int.floor_zero, neg_zero]
  · rw [if_neg (by linarith), if_pos hq.le, Int.ceil_neg]

/-- The integer part of a finite number. -/
def Binary64.integerPart (x : Binary64) : ℤ :=
  towardZero x.value

theorem integerPart_eq (x : Binary64) : x.integerPart = if x.isNegative then -(x.wholePart : ℤ) else x.wholePart := by
  have hfloor : towardZero ((x.numerator : ℚ) / x.denominator) = x.wholePart := by
    rw [towardZero, if_pos (by positivity), Rat.floor_natCast_div_natCast]
    rfl
  rw [Binary64.integerPart, Binary64.value_eq]
  cases x.isNegative
  · rw [if_neg (by decide), if_neg (by decide), one_mul, hfloor]
  · rw [if_pos rfl, if_pos rfl, neg_one_mul, towardZero_neg, hfloor]

namespace Decimal

theorem natText_injective {n m : ℕ} (h : natText n = natText m) : n = m := by
  rw [← decimalValue_natText n, h, decimalValue_natText]

theorem intText_neg {n : ℕ} (hn : n ≠ 0) : intText (-(n : ℤ)) = '-' :: natText n := by
  obtain ⟨m, rfl⟩ := Nat.exists_eq_succ_of_ne_zero hn
  rfl

/-- The decimal digits of an integer; a zero may have a sign. -/
def IsExpansion (t : ℤ) (cs : List Char) : Prop :=
  cs = intText t ∨ t = 0 ∧ cs = ['-', '0']

theorem natText_ne_hyphen_cons (n : ℕ) (cs : List Char) : natText n ≠ '-' :: cs := by
  intro h
  exact hyphen_not_mem_natText n (h ▸ List.mem_cons_self)

theorem isExpansion_natCast_iff {n w : ℕ} : IsExpansion w (natText n) ↔ n = w := by
  constructor
  · rintro (h | ⟨-, h⟩)
    · exact natText_injective h
    · exact absurd h (natText_ne_hyphen_cons n _)
  · rintro rfl
    exact .inl rfl

theorem isExpansion_neg_iff {n w : ℕ} : IsExpansion (-(w : ℤ)) ('-' :: natText n) ↔ n = w := by
  rcases Nat.eq_zero_or_pos w with rfl | hw
  · constructor
    · rintro (h | ⟨-, h⟩)
      · exact absurd h.symm (natText_ne_hyphen_cons 0 _)
      · exact natText_injective (List.cons.inj h).2
    · rintro rfl
      exact .inr ⟨rfl, rfl⟩
  · rw [IsExpansion, intText_neg hw.ne']
    constructor
    · rintro (h | ⟨hzero, -⟩)
      · exact natText_injective (List.cons.inj h).2
      · omega
    · rintro rfl
      exact .inl rfl

/-- The digits behind the sign are those of the number. -/
theorem isExpansion_iff (negative : Bool) (n w : ℕ) :
    IsExpansion (if negative then -(w : ℤ) else w) ((if negative then ['-'] else []) ++ natText n) ↔ n = w := by
  cases negative
  · exact isExpansion_natCast_iff
  · exact isExpansion_neg_iff

theorem unitText_mul (n : ℕ) : unitText (n * Nat.pow 10 10) = natText n := by
  have hplaces : places (n * Nat.pow 10 10) = [] := by
    rw [places, Nat.mul_mod_left]
    decide
  rw [unitText, hplaces, Nat.mul_div_cancel _ (by decide)]
  exact List.append_nil _

theorem numerator_of_whole {x : Binary64} (hwhole : x.value = x.integerPart) :
    x.numerator = x.wholePart * x.denominator := by
  have hden : (x.denominator : ℚ) ≠ 0 := Nat.cast_ne_zero.2 x.denominator_pos.ne'
  have hquotient : (x.numerator : ℚ) / x.denominator = x.wholePart := by
    rw [integerPart_eq, Binary64.value_eq] at hwhole
    cases hsign : x.isNegative with
    | false =>
      rw [hsign, if_neg Bool.false_ne_true, if_neg Bool.false_ne_true, one_mul, Int.cast_natCast] at hwhole
      exact hwhole
    | true =>
      rw [hsign, if_pos rfl, if_pos rfl, neg_one_mul, Int.cast_neg, Int.cast_natCast] at hwhole
      exact neg_injective hwhole
  rw [div_eq_iff hden] at hquotient
  exact_mod_cast hquotient

/-- A number without places is written as an integer. -/
theorem plainText?_of_whole {x : Binary64} (hx : x.isFinite = true) (hwhole : x.value = x.integerPart) :
    plainText? x = some (intText x.integerPart) := by
  have hunits : Binary64.roundHalfEven (x.numerator * Nat.pow 10 10) x.denominator = x.wholePart * Nat.pow 10 10 := by
    rw [numerator_of_whole hwhole, Nat.mul_right_comm]
    exact (Binary64.roundHalfEven_eq_iff x.denominator_pos).2 (Binary64.isRounded_mul x.denominator_pos _)
  have htext : plainText? x = some (if x.isNegative && x.wholePart * Nat.pow 10 10 != 0 then '-' :: natText x.wholePart
      else natText x.wholePart) := by
    rw [plainText?, if_pos hx, hunits, ← unitText_mul x.wholePart]
    rfl
  rw [htext, integerPart_eq]
  cases x.isNegative with
  | false => rfl
  | true =>
    rcases Nat.eq_zero_or_pos x.wholePart with hzero | hpos
    · rw [hzero]
      rfl
    · have hne : x.wholePart * Nat.pow 10 10 ≠ 0 := Nat.mul_ne_zero hpos.ne' (by decide)
      rw [if_pos rfl, intText_neg hpos.ne', if_pos (by simpa using hne)]

end Decimal

/-- What is written for the whole part of a number is read as the whole part, with the fewest digits. It is the whole part
itself exactly where no whole number that ends in more zeros is read as it. Numbers without places are otherwise written
exactly. -/
theorem integerPart_written {x : Binary64} (hx : x.isFinite = true) :
    ∃ text n,
      (∀ ctx, ∀ m ∈ [Modifier.int, .unsigned, .intOrNull], render ctx (some m) (.scalar (.float x)) = .done text [] 0) ∧
      text.toList = (if x.isNegative then ['-'] else []) ++ Decimal.natText n ∧
      (∀ m, FewestDigits x.isNegative x.integerPart.natAbs m ↔ m = n) ∧
      (Decimal.IsExpansion x.integerPart text.toList ↔
        ∀ m, ReadsAs x.isNegative m x.integerPart.natAbs → ∀ k, 10 ^ k ∣ m → 10 ^ k ∣ x.integerPart.natAbs) ∧
      (x.integerPart.natAbs < 2 ^ 53 → Decimal.IsExpansion x.integerPart text.toList) ∧
      (x.value = x.integerPart →
        ∀ ctx, ∀ m ∈ [none, some Modifier.float],
          render ctx m (.scalar (.float x)) = .done (intText x.integerPart) [] 0) := by
  have hpart : x.integerPart.natAbs = x.wholePart := by
    rw [integerPart_eq]
    split <;> omega
  have hfewest := Decimal.fewestDigits_shownWhole hx
  have hexpansion : Decimal.IsExpansion x.integerPart (Decimal.wholeText x) ↔ Decimal.shownWhole x = x.wholePart := by
    rw [integerPart_eq, Decimal.wholeText_eq, Decimal.isExpansion_iff]
  rw [hpart]
  refine ⟨String.ofList (Decimal.wholeText x), Decimal.shownWhole x, fun ctx m hm => ?_, ?_, fun m => ?_, ?_, fun hlt => ?_,
    fun hwhole ctx m hm => ?_⟩
  · have htext : wholeText x = .ok (String.ofList (Decimal.wholeText x)) := by
      rw [wholeText, if_pos hx]
      rfl
    simp only [List.mem_cons, List.not_mem_nil, or_false] at hm
    rw [render]
    rcases hm with rfl | rfl | rfl <;> exact congrArg Render.orNote htext
  · rw [String.toList_ofList, Decimal.wholeText_eq]
  · constructor
    · exact fun hm => Decimal.fewestDigits_unique hx hm hfewest
    · rintro rfl
      exact hfewest
  · rw [String.toList_ofList, hexpansion, hfewest.eq_iff]
  · rw [String.toList_ofList, hexpansion, Decimal.shownWhole, if_pos hlt]
  · have htext : floatText x = .ok (intText x.integerPart) := by
      rw [floatText, Decimal.plainText?_of_whole hx hwhole]
      rfl
    simp only [List.mem_cons, List.not_mem_nil, or_false] at hm
    rw [render]
    rcases hm with rfl | rfl <;> exact congrArg Render.orNote htext

/-- The number nearest to `-10 ^ 23` is another one, and is written as `-10 ^ 23`. -/
theorem integerPart_written_power :
    let x : Binary64 := .ofDecimal true 1 23
    x.isFinite = true ∧ ∃ text n,
      (∀ ctx, ∀ m ∈ [Modifier.int, .unsigned, .intOrNull], render ctx (some m) (.scalar (.float x)) = .done text [] 0) ∧
      text.toList = (if x.isNegative then ['-'] else []) ++ Decimal.natText n ∧
      (∀ m, FewestDigits x.isNegative x.integerPart.natAbs m ↔ m = n) ∧
      (Decimal.IsExpansion x.integerPart text.toList ↔
        ∀ m, ReadsAs x.isNegative m x.integerPart.natAbs → ∀ k, 10 ^ k ∣ m → 10 ^ k ∣ x.integerPart.natAbs) ∧
      (x.integerPart.natAbs < 2 ^ 53 → Decimal.IsExpansion x.integerPart text.toList) ∧
      (x.value = x.integerPart →
        ∀ ctx, ∀ m ∈ [none, some Modifier.float],
          render ctx m (.scalar (.float x)) = .done (intText x.integerPart) [] 0) := by
  intro x
  have hx : x.isFinite = true := by decide +kernel
  exact ⟨hx, integerPart_written hx⟩

/-- `2 ^ 63` is written with zeros at its end as an integer, and exactly without modifier. -/
theorem integerPart_not_expanded :
    let ctx : Context := .leapDay .generic
    let x : Binary64 := .ofDecimal false 9223372036854775808 0
    x.isFinite = true ∧ x.value = 9223372036854775808 ∧ x.integerPart = 9223372036854775808 ∧
      render ctx (some .int) (.scalar (.float x)) = .done "9223372036854776000" [] 0 ∧
      ¬Decimal.IsExpansion x.integerPart "9223372036854776000".toList ∧
      render ctx (some .float) (.scalar (.float x)) = .done "9223372036854775808" [] 0 ∧
      render ctx none (.scalar (.float x)) = .done "9223372036854775808" [] 0 := by
  intro ctx x
  have hx : x.isFinite = true := by decide +kernel
  have hsign : x.isNegative = false := by decide +kernel
  have hnumerator : x.numerator = 9223372036854775808 := by decide +kernel
  have hdenominator : x.denominator = 1 := by decide +kernel
  have hvalue : x.value = 9223372036854775808 := by
    rw [Binary64.value_eq, hsign, hnumerator, hdenominator]
    norm_num
  have hpart : x.integerPart = 9223372036854775808 := by
    rw [integerPart_eq, Binary64.wholePart, hsign, hnumerator, hdenominator]
    rfl
  have hwhole : wholeText x = .ok "9223372036854776000" := by decide +kernel
  have hplain : floatText x = .ok "9223372036854775808" := by decide +kernel
  refine ⟨hx, hvalue, hpart, ?_, ?_, ?_, ?_⟩
  · rw [render]
    exact congrArg Render.orNote hwhole
  · rw [hpart]
    rintro (h | ⟨h, -⟩)
    · revert h
      decide +kernel
    · revert h
      decide
  · rw [render]
    exact congrArg Render.orNote hplain
  · rw [render]
    exact congrArg Render.orNote hplain

end SqlComposer
