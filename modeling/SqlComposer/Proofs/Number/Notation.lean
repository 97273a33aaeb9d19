import Mathlib.Computability.RegularExpressions
import Mathlib.Data.List.TakeWhile
import Mathlib.Data.Nat.Digits.Defs
import Mathlib.Tactic.IntervalCases
import SqlComposer.Proofs.Number.Figures

/-!
# The notation of numbers

* `Pattern.number`, `Pattern.decimalInteger`, `Pattern.hexInteger` : the notation of numbers as regular expressions;
* `Decimal.denoted` : the integer that a text denotes;
* `Decimal.integerText?_eq_some_iff` : the texts taken for integers, and what is written for them;
* `Decimal.integerText_accepts_iff` : they are decimal integers and short hexadecimal ones, and what is written denotes the
  same integer.
-/

namespace SqlComposer

/-! ## Patterns -/

namespace Pattern

open RegularExpression

/-- One of some characters. -/
def oneOf (chars : List Char) : RegularExpression Char :=
  (chars.map char).sum

/-- What matches, or nothing. -/
def maybe (p : RegularExpression Char) : RegularExpression Char :=
  1 + p

/-- What matches, at least once. -/
def repeated (p : RegularExpression Char) : RegularExpression Char :=
  p * p.star

def digit : RegularExpression Char :=
  oneOf "0123456789".toList

def hexDigit : RegularExpression Char :=
  oneOf "0123456789abcdefABCDEF".toList

def sign : RegularExpression Char :=
  oneOf ['+', '-']

/-- `e` or `E`. -/
def exponentMark : RegularExpression Char :=
  oneOf ['e', 'E']

/-- `0x` or `0X`. -/
def hexMark : RegularExpression Char :=
  char '0' * oneOf ['x', 'X']

/-- Digits with a point among or behind them, or in front of them. -/
def mantissa : RegularExpression Char :=
  repeated digit * maybe (char '.' * digit.star) + char '.' * repeated digit

/-- `[+-]?([0-9]+(\.[0-9]*)?|\.[0-9]+)([eE][+-]?[0-9]+)?`. -/
def number : RegularExpression Char :=
  maybe sign * mantissa * maybe (exponentMark * maybe sign * repeated digit)

/-- Digits, with an exponent without sign or without one. -/
def scaled : RegularExpression Char :=
  repeated digit * maybe (exponentMark * repeated digit)

def decimalInteger : RegularExpression Char :=
  maybe sign * scaled

def hexInteger : RegularExpression Char :=
  maybe sign * (hexMark * repeated hexDigit)

/-- A hexadecimal integer with a plus sign between the mark and the digits. -/
def hexPlusInteger : RegularExpression Char :=
  maybe sign * (hexMark * (char '+' * repeated hexDigit))

variable {p q : RegularExpression Char} {cs : List Char}

theorem mem_char {c : Char} : cs ∈ (char c).matches' ↔ cs = [c] :=
  Iff.rfl

theorem mem_oneOf {chars : List Char} : cs ∈ (oneOf chars).matches' ↔ ∃ c ∈ chars, cs = [c] := by
  induction chars with
  | nil => simp [oneOf, matches'_zero, Language.notMem_zero]
  | cons d chars ih =>
    rw [oneOf] at ih ⊢
    rw [List.map_cons, List.sum_cons, matches'_add, Language.mem_add, ih, mem_char]
    simp

theorem mem_star_oneOf {chars : List Char} : cs ∈ (oneOf chars).star.matches' ↔ ∀ c ∈ cs, c ∈ chars := by
  rw [matches'_star, Language.mem_kstar]
  constructor
  · rintro ⟨words, rfl, hwords⟩ c hc
    obtain ⟨word, hword, hmem⟩ := List.mem_flatten.1 hc
    obtain ⟨d, hd, rfl⟩ := mem_oneOf.1 (hwords word hword)
    rwa [List.mem_singleton.1 hmem]
  · intro h
    refine ⟨cs.map fun c => [c], by rw [← List.flatMap_def, List.flatMap_singleton'], fun word hword => ?_⟩
    obtain ⟨c, hc, rfl⟩ := List.mem_map.1 hword
    exact mem_oneOf.2 ⟨c, h c hc, rfl⟩

theorem mem_mul_iff : cs ∈ (p * q).matches' ↔ ∃ a ∈ p.matches', ∃ b ∈ q.matches', a ++ b = cs := by
  rw [matches'_mul, Language.mem_mul]

theorem mem_repeated_oneOf {chars : List Char} :
    cs ∈ (repeated (oneOf chars)).matches' ↔ cs ≠ [] ∧ ∀ c ∈ cs, c ∈ chars := by
  rw [repeated, mem_mul_iff]
  constructor
  · rintro ⟨first, hfirst, others, hothers, rfl⟩
    obtain ⟨c, hc, rfl⟩ := mem_oneOf.1 hfirst
    exact ⟨List.cons_ne_nil _ _, List.forall_mem_cons.2 ⟨hc, mem_star_oneOf.1 hothers⟩⟩
  · rintro ⟨hne, h⟩
    obtain ⟨c, cs, rfl⟩ := List.exists_cons_of_ne_nil hne
    obtain ⟨hc, hcs⟩ := List.forall_mem_cons.1 h
    exact ⟨[c], mem_oneOf.2 ⟨c, hc, rfl⟩, cs, mem_star_oneOf.2 hcs, rfl⟩

theorem mem_maybe : cs ∈ (maybe p).matches' ↔ cs = [] ∨ cs ∈ p.matches' := by
  rw [maybe, matches'_add, Language.mem_add, matches'_epsilon, Language.mem_one]

theorem mem_append {a b : List Char} (ha : a ∈ p.matches') (hb : b ∈ q.matches') : a ++ b ∈ (p * q).matches' :=
  mem_mul_iff.2 ⟨a, ha, b, hb, rfl⟩

theorem nil_mem_maybe : [] ∈ (maybe p).matches' :=
  mem_maybe.2 (.inl rfl)

theorem mem_maybe_of_mem (h : cs ∈ p.matches') : cs ∈ (maybe p).matches' :=
  mem_maybe.2 (.inr h)

theorem mem_digits_iff {c : Char} : c ∈ "0123456789".toList ↔ c.isDigit = true := by
  constructor
  · have hall : "0123456789".toList.all Char.isDigit = true := by decide
    exact List.all_eq_true.1 hall c
  · intro h
    have hrange : 48 ≤ c.toNat ∧ c.toNat ≤ 57 := by simpa [Char.isDigit, UInt32.le_iff_toNat_le] using h
    rw [← Char.ofNat_toNat c]
    generalize c.toNat = n at hrange
    obtain ⟨hlow, hhigh⟩ := hrange
    interval_cases n <;> decide

theorem mem_repeated_digit : cs ∈ (repeated digit).matches' ↔ Decimal.isDigits cs = true := by
  rw [digit, mem_repeated_oneOf, Decimal.isDigits_iff]
  exact and_congr_right fun _ => forall₂_congr fun _ _ => mem_digits_iff

theorem mem_hexDigits_iff {c : Char} : c ∈ "0123456789abcdefABCDEF".toList ↔ (Text.Hex.digitValue? c).isSome = true := by
  constructor
  · have hall : "0123456789abcdefABCDEF".toList.all (fun c => (Text.Hex.digitValue? c).isSome) = true := by decide
    exact List.all_eq_true.1 hall c
  · intro h
    have hrange : 48 ≤ c.toNat ∧ c.toNat ≤ 57 ∨ 97 ≤ c.toNat ∧ c.toNat ≤ 102 ∨ 65 ≤ c.toNat ∧ c.toNat ≤ 70 := by
      unfold Text.Hex.digitValue? at h
      simp only [Char.le_def, UInt32.le_iff_toNat_le, Bool.and_eq_true, decide_eq_true_eq] at h
      split at h
      · next hc => exact .inl hc
      split at h
      · next hc => exact .inr (.inl hc)
      split at h
      · next hc => exact .inr (.inr hc)
      · cases h
    rw [← Char.ofNat_toNat c]
    generalize c.toNat = n at hrange
    obtain ⟨hlow, hhigh⟩ | ⟨hlow, hhigh⟩ | ⟨hlow, hhigh⟩ := hrange <;> interval_cases n <;> decide

theorem mem_exponentMark : cs ∈ exponentMark.matches' ↔ cs = ['e'] ∨ cs = ['E'] := by
  simp [exponentMark, mem_oneOf]

theorem singleton_mem_exponentMark {c : Char} : [c] ∈ exponentMark.matches' ↔ c = 'e' ∨ c = 'E' := by
  simp [mem_exponentMark]

theorem mem_exponentMark_mul_iff :
    cs ∈ (exponentMark * p).matches' ↔ ∃ mark r, (mark = 'e' ∨ mark = 'E') ∧ r ∈ p.matches' ∧ cs = mark :: r := by
  rw [mem_mul_iff]
  constructor
  · rintro ⟨mark, hmark, r, hr, rfl⟩
    rcases mem_exponentMark.1 hmark with rfl | rfl
    · exact ⟨'e', r, .inl rfl, hr, rfl⟩
    · exact ⟨'E', r, .inr rfl, hr, rfl⟩
  · rintro ⟨mark, r, hmark, hr, rfl⟩
    exact ⟨[mark], singleton_mem_exponentMark.2 hmark, r, hr, rfl⟩

theorem mem_sign : cs ∈ sign.matches' ↔ cs = ['+'] ∨ cs = ['-'] := by
  simp [sign, mem_oneOf]

theorem plus_mem_sign : ['+'] ∈ (maybe sign).matches' :=
  mem_maybe_of_mem (mem_sign.2 (.inl rfl))

theorem hyphen_mem_sign : ['-'] ∈ (maybe sign).matches' :=
  mem_maybe_of_mem (mem_sign.2 (.inr rfl))

theorem mem_hexMark : cs ∈ hexMark.matches' ↔ cs = ['0', 'x'] ∨ cs = ['0', 'X'] := by
  rw [hexMark, mem_mul_iff]
  constructor
  · rintro ⟨zero, hzero, x, hx, rfl⟩
    obtain rfl := mem_char.1 hzero
    obtain ⟨c, hc, rfl⟩ := mem_oneOf.1 hx
    simp only [List.mem_cons, List.not_mem_nil, or_false] at hc
    rcases hc with rfl | rfl
    · exact .inl rfl
    · exact .inr rfl
  · rintro (rfl | rfl)
    · exact ⟨['0'], mem_char.2 rfl, ['x'], mem_oneOf.2 ⟨'x', by simp, rfl⟩, rfl⟩
    · exact ⟨['0'], mem_char.2 rfl, ['X'], mem_oneOf.2 ⟨'X', by simp, rfl⟩, rfl⟩

end Pattern

/-! ## What a text denotes -/

namespace Decimal

/-- The number that decimal digits spell. -/
def decimalValue (cs : List Char) : ℕ :=
  Nat.ofDigits 10 (cs.reverse.map fun c => c.toNat - 48)

/-- The number that hexadecimal digits spell. -/
def hexValue (cs : List Char) : ℕ :=
  Nat.ofDigits 16 (cs.reverse.map fun c => (Text.Hex.digitValue? c).getD 0)

/-- The number that a text without sign denotes. -/
def magnitude : List Char → ℕ
  | '0' :: 'x' :: cs => hexValue (dropPlus cs)
  | '0' :: 'X' :: cs => hexValue (dropPlus cs)
  | cs =>
    decimalValue (cs.takeWhile fun c => c != 'e' && c != 'E') *
      10 ^ decimalValue ((cs.dropWhile fun c => c != 'e' && c != 'E').drop 1)

/-- The integer that a text denotes. -/
def denoted : List Char → ℤ
  | '-' :: cs => -(magnitude cs : ℤ)
  | '+' :: cs => magnitude cs
  | cs => magnitude cs

variable {cs text : List Char}

/-- Digits that are taken from the left are those of a number from the right. -/
theorem foldl_eq_ofDigits (base : ℕ) (value : Char → ℕ) (cs : List Char) :
    cs.foldl (fun n c => base * n + value c) 0 = Nat.ofDigits base (cs.reverse.map value) := by
  induction cs using List.reverseRecOn with
  | nil => rfl
  | append_singleton cs c ih =>
    rw [List.foldl_append, ih, List.reverse_append, List.reverse_singleton, List.singleton_append, List.map_cons,
      Nat.ofDigits_cons, List.foldl_cons, List.foldl_nil]
    omega

theorem decimalValue_natText (n : ℕ) : decimalValue (natText n) = n := by
  rw [decimalValue, ← foldl_eq_ofDigits]
  exact Nat.ofDigitChars_ten_toDigits

theorem natOf?_append (cs : List Char) (c : Char) :
    Text.Hex.natOf? (cs ++ [c]) =
      (Text.Hex.natOf? cs).bind fun n => (Text.Hex.digitValue? c).map fun d => 16 * n + d := by
  simp [Text.Hex.natOf?]

/-- Hexadecimal digits alone are read, as the number that they spell. -/
theorem natOf?_eq_some_iff {n : ℕ} :
    Text.Hex.natOf? cs = some n ↔ (∀ c ∈ cs, (Text.Hex.digitValue? c).isSome = true) ∧ n = hexValue cs := by
  induction cs using List.reverseRecOn generalizing n with
  | nil => simpa [Text.Hex.natOf?, hexValue] using eq_comm
  | append_singleton cs c ih =>
    have hvalue : hexValue (cs ++ [c]) = (Text.Hex.digitValue? c).getD 0 + 16 * hexValue cs := by
      rw [hexValue, List.reverse_append, List.reverse_singleton, List.singleton_append, List.map_cons,
        Nat.ofDigits_cons]
      rfl
    rw [natOf?_append, hvalue]
    constructor
    · intro h
      obtain ⟨m, hm, hd⟩ := Option.bind_eq_some_iff.1 h
      obtain ⟨d, hc, rfl⟩ := Option.map_eq_some_iff.1 hd
      obtain ⟨hall, rfl⟩ := ih.1 hm
      refine ⟨List.forall_mem_append.2 ⟨hall, ?_⟩, ?_⟩
      · simp [hc]
      · simp [hc, Nat.add_comm]
    · rintro ⟨hall, rfl⟩
      obtain ⟨hcs, hc⟩ := List.forall_mem_append.1 hall
      obtain ⟨d, hd⟩ := Option.isSome_iff_exists.1 (hc c List.mem_cons_self)
      rw [ih.2 ⟨hcs, rfl⟩, hd]
      simp [Nat.add_comm]

/-! ## Signs -/

/-- The first character is a digit. -/
def StartsWithDigit (cs : List Char) : Prop :=
  ∃ c r, cs = c :: r ∧ c.isDigit = true

theorem startsWithDigit_of_isDigits (h : isDigits cs = true) (rest : List Char) : StartsWithDigit (cs ++ rest) := by
  obtain ⟨hne, hall⟩ := isDigits_iff.1 h
  obtain ⟨c, r, rfl⟩ := List.exists_cons_of_ne_nil hne
  exact ⟨c, r ++ rest, rfl, hall c List.mem_cons_self⟩

theorem isDigits_natText (n : ℕ) : isDigits (natText n) = true :=
  isDigits_iff.2 ⟨Nat.toDigits_ne_nil, fun _ hc => Nat.isDigit_of_mem_toDigits (by decide) (by decide) hc⟩

/-- A sign is taken off a text, or there is none. -/
theorem splitSign_cases (text : List Char) :
    text = '-' :: (splitSign text).2 ∧ (splitSign text).1 = ['-'] ∨
      text = '+' :: (splitSign text).2 ∧ (splitSign text).1 = [] ∨
      text = (splitSign text).2 ∧ (splitSign text).1 = [] := by
  unfold splitSign
  split
  · exact .inl ⟨rfl, rfl⟩
  · unfold dropPlus
    split
    · exact .inr (.inl ⟨rfl, rfl⟩)
    · exact .inr (.inr ⟨rfl, rfl⟩)

theorem splitSign_eq_self (h : StartsWithDigit cs) : splitSign cs = ([], cs) := by
  obtain ⟨c, r, rfl, hc⟩ := h
  have hminus : c ≠ '-' := by rintro rfl; cases hc
  have hplus : c ≠ '+' := by rintro rfl; cases hc
  unfold splitSign
  split
  · next heq => exact absurd (List.cons.inj heq).1 hminus
  · unfold dropPlus
    split
    · next heq => exact absurd (List.cons.inj heq).1 hplus
    · rfl

/-- What an optional sign stands in front of is left when the sign is taken off. -/
theorem mem_maybe_sign_mul_iff {p : RegularExpression Char} (hp : ∀ cs ∈ p.matches', StartsWithDigit cs) :
    text ∈ (Pattern.maybe Pattern.sign * p).matches' ↔ (splitSign text).2 ∈ p.matches' := by
  rw [Pattern.mem_mul_iff]
  constructor
  · rintro ⟨sign, hsign, body, hbody, rfl⟩
    rcases Pattern.mem_maybe.1 hsign with rfl | hsign
    · rwa [List.nil_append, splitSign_eq_self (hp body hbody)]
    · rcases Pattern.mem_sign.1 hsign with rfl | rfl
      · exact hbody
      · exact hbody
  · intro h
    rcases splitSign_cases text with ⟨ht, -⟩ | ⟨ht, -⟩ | ⟨ht, -⟩
    · exact ⟨['-'], Pattern.hyphen_mem_sign, _, h, ht.symm⟩
    · exact ⟨['+'], Pattern.plus_mem_sign, _, h, ht.symm⟩
    · exact ⟨[], Pattern.nil_mem_maybe, _, h, ht.symm⟩

/-- The sign that is kept, and the number behind it. -/
theorem denoted_splitSign (text : List Char) :
    denoted text = if (splitSign text).1 = [] then (magnitude (splitSign text).2 : ℤ)
      else -(magnitude (splitSign text).2 : ℤ) := by
  unfold denoted splitSign
  split
  · rfl
  · rfl
  · next hminus hplus =>
    split
    · next heq => exact absurd rfl (hminus _)
    · unfold dropPlus
      split
      · exact absurd rfl (hplus _)
      · rfl

/-- The sign that is kept, in front of digits that spell the number, denotes the same integer. -/
theorem denoted_sign_append {digits : List Char} (hd : StartsWithDigit digits)
    (hm : magnitude digits = magnitude (splitSign text).2) :
    denoted ((splitSign text).1 ++ digits) = denoted text := by
  rw [denoted_splitSign text, ← hm]
  rcases splitSign_cases text with ⟨-, hsign⟩ | ⟨-, hsign⟩ | ⟨-, hsign⟩
  · rw [hsign]
    rfl
  all_goals
    rw [hsign, List.nil_append, denoted_splitSign digits, splitSign_eq_self hd]

theorem natAbs_denoted (text : List Char) : (denoted text).natAbs = magnitude (splitSign text).2 := by
  rw [denoted_splitSign]
  split
  · exact Int.natAbs_natCast _
  · rw [Int.natAbs_neg, Int.natAbs_natCast]

/-! ## Digits with an exponent -/

/-- No digit is an exponent mark. -/
theorem ne_mark_of_isDigits (h : isDigits cs = true) : ∀ c ∈ cs, (c != 'e' && c != 'E') = true := by
  intro c hc
  have hdigit := (isDigits_iff.1 h).2 c hc
  rw [Bool.and_eq_true, bne_iff_ne, bne_iff_ne]
  constructor
  · rintro rfl
    cases hdigit
  · rintro rfl
    cases hdigit

theorem isScaled_of_isDigits (h : isDigits cs = true) : isScaled cs = true := by
  have hnone := ne_mark_of_isDigits h
  rw [isScaled, List.takeWhile_eq_self_iff.2 hnone, List.dropWhile_eq_nil_iff.2 hnone]
  exact h

/-- The mantissa ends at the exponent mark. -/
theorem isScaled_append {digits power : List Char} {mark : Char} (hd : isDigits digits = true)
    (hm : mark = 'e' ∨ mark = 'E') (hp : isDigits power = true) : isScaled (digits ++ mark :: power) = true := by
  have hnone := ne_mark_of_isDigits hd
  have hmark : (mark != 'e' && mark != 'E') = false := by rcases hm with rfl | rfl <;> decide
  rw [isScaled, List.takeWhile_append_of_pos hnone, List.dropWhile_append_of_pos hnone,
    List.takeWhile_cons_of_neg (by rw [hmark]; decide), List.dropWhile_cons_of_neg (by rw [hmark]; decide),
    List.append_nil, hd]
  exact hp

theorem mem_scaled_of_isScaled (h : isScaled cs = true) : cs ∈ Pattern.scaled.matches' := by
  have hsplit := List.takeWhile_append_dropWhile (p := fun c => c != 'e' && c != 'E') (l := cs)
  unfold isScaled at h
  split at h
  · next hd =>
    refine Pattern.mem_mul_iff.2 ⟨_, Pattern.mem_repeated_digit.2 h, _, ?_, hsplit⟩
    rw [hd]
    exact Pattern.nil_mem_maybe
  · next mark power hd =>
    rw [Bool.and_eq_true] at h
    refine Pattern.mem_mul_iff.2 ⟨_, Pattern.mem_repeated_digit.2 h.1, _, ?_, hsplit⟩
    rw [hd]
    exact Pattern.mem_maybe_of_mem (Pattern.mem_exponentMark_mul_iff.2
      ⟨mark, power, mark_of_dropWhile hd, Pattern.mem_repeated_digit.2 h.2, rfl⟩)

theorem isScaled_iff : isScaled cs = true ↔ cs ∈ Pattern.scaled.matches' := by
  refine ⟨mem_scaled_of_isScaled, fun h => ?_⟩
  obtain ⟨digits, hdigits, rest, hrest, rfl⟩ := Pattern.mem_mul_iff.1 h
  rw [Pattern.mem_repeated_digit] at hdigits
  rcases Pattern.mem_maybe.1 hrest with rfl | hrest
  · rw [List.append_nil]
    exact isScaled_of_isDigits hdigits
  · obtain ⟨mark, power, hmark, hpower, rfl⟩ := Pattern.mem_exponentMark_mul_iff.1 hrest
    exact isScaled_append hdigits hmark (Pattern.mem_repeated_digit.1 hpower)

/-- What a scaled number starts with. -/
theorem startsWithDigit_of_scaled (h : cs ∈ Pattern.scaled.matches') : StartsWithDigit cs := by
  obtain ⟨digits, hdigits, rest, -, rfl⟩ := Pattern.mem_mul_iff.1 h
  exact startsWithDigit_of_isDigits (Pattern.mem_repeated_digit.1 hdigits) rest

/-- No scaled number has a hexadecimal mark. -/
theorem not_scaled_of_mark {x : Char} (hx : x = 'x' ∨ x = 'X') (cs : List Char) :
    '0' :: x :: cs ∉ Pattern.scaled.matches' := by
  rw [← isScaled_iff]
  rcases hx with rfl | rfl
  all_goals
    unfold isScaled
    split <;> simp [isDigits]

theorem magnitude_natText (n : ℕ) : magnitude (natText n) = n := by
  have hdigits := isDigits_natText n
  have hnone := ne_mark_of_isDigits hdigits
  unfold magnitude
  split
  · next heq => rw [heq] at hdigits; exact absurd hdigits (by simp [isDigits, Char.isDigit])
  · next heq => rw [heq] at hdigits; exact absurd hdigits (by simp [isDigits, Char.isDigit])
  · rw [List.takeWhile_eq_self_iff.2 hnone, List.dropWhile_eq_nil_iff.2 hnone, decimalValue_natText]
    simp [decimalValue]

/-! ## Hexadecimal digits -/

/-- Hexadecimal digits behind an optional plus sign are read if they spell a number below the limit. -/
theorem below?_eq_some_iff {limit n : ℕ} :
    Text.Hex.below? limit cs = some n ↔
      dropPlus cs ∈ (Pattern.repeated Pattern.hexDigit).matches' ∧ n = hexValue (dropPlus cs) ∧ n < limit := by
  have hbelow : Text.Hex.below? limit cs =
      if (dropPlus cs).isEmpty then none else (Text.Hex.natOf? (dropPlus cs)).filter (· < limit) := rfl
  rw [hbelow, Pattern.hexDigit, Pattern.mem_repeated_oneOf]
  split
  · next h => simp [List.isEmpty_iff.1 h]
  · next h =>
    have hall : (∀ c ∈ dropPlus cs, c ∈ "0123456789abcdefABCDEF".toList) ↔
        ∀ c ∈ dropPlus cs, (Text.Hex.digitValue? c).isSome = true :=
      forall₂_congr fun _ _ => Pattern.mem_hexDigits_iff
    rw [Option.filter_eq_some_iff, natOf?_eq_some_iff, hall, decide_eq_true_eq, and_assoc, and_assoc,
      ne_eq, ← List.isEmpty_iff, and_iff_right h]

theorem mem_hexMark_mul_iff {p : RegularExpression Char} :
    cs ∈ (Pattern.hexMark * p).matches' ↔
      ∃ x hex, (x = 'x' ∨ x = 'X') ∧ cs = '0' :: x :: hex ∧ hex ∈ p.matches' := by
  rw [Pattern.mem_mul_iff]
  constructor
  · rintro ⟨mark, hmark, hex, hhex, rfl⟩
    rcases Pattern.mem_hexMark.1 hmark with rfl | rfl
    · exact ⟨'x', hex, .inl rfl, rfl, hhex⟩
    · exact ⟨'X', hex, .inr rfl, rfl, hhex⟩
  · rintro ⟨x, hex, hx, rfl, hhex⟩
    refine ⟨['0', x], Pattern.mem_hexMark.2 ?_, hex, hhex, rfl⟩
    rcases hx with rfl | rfl
    · exact .inl rfl
    · exact .inr rfl

/-- The plus sign that may stand between the mark and the digits. -/
theorem dropPlus_mem_iff :
    dropPlus cs ∈ (Pattern.repeated Pattern.hexDigit).matches' ↔
      cs ∈ (Pattern.repeated Pattern.hexDigit).matches' ∨
        cs ∈ (RegularExpression.char '+' * Pattern.repeated Pattern.hexDigit).matches' := by
  rw [Pattern.mem_mul_iff]
  constructor
  · intro h
    unfold dropPlus at h
    split at h
    · exact .inr ⟨['+'], rfl, _, h, rfl⟩
    · exact .inl h
  · rintro (h | ⟨plus, hplus, digits, hdigits, rfl⟩)
    · unfold dropPlus
      split
      · rw [Pattern.hexDigit, Pattern.mem_repeated_oneOf] at h
        exact absurd (h.2 '+' List.mem_cons_self) (by decide)
      · exact h
    · obtain rfl := Pattern.mem_char.1 hplus
      exact hdigits

/-! ## Integer text -/

/-- The texts taken for integers, and what is written for them. -/
theorem integerText?_eq_some_iff {t : List Char} :
    integerText? text = some t ↔
      (splitSign (Text.strip text)).2 ∈ Pattern.scaled.matches' ∧
          t = (splitSign (Text.strip text)).1 ++ (splitSign (Text.strip text)).2 ∨
        ∃ x hex, (x = 'x' ∨ x = 'X') ∧ (splitSign (Text.strip text)).2 = '0' :: x :: hex ∧
          dropPlus hex ∈ (Pattern.repeated Pattern.hexDigit).matches' ∧ hexValue (dropPlus hex) < 2 ^ 128 ∧
            t = (splitSign (Text.strip text)).1 ++ natText (hexValue (dropPlus hex)) := by
  constructor
  · intro h
    unfold integerText? at h
    simp only at h
    split at h
    · next hex hbody =>
      obtain ⟨n, hn, rfl⟩ := Option.map_eq_some_iff.1 h
      obtain ⟨hdigits, rfl, hlt⟩ := below?_eq_some_iff.1 hn
      exact .inr ⟨'x', hex, .inl rfl, hbody, hdigits, hlt, rfl⟩
    · next hex hbody =>
      obtain ⟨n, hn, rfl⟩ := Option.map_eq_some_iff.1 h
      obtain ⟨hdigits, rfl, hlt⟩ := below?_eq_some_iff.1 hn
      exact .inr ⟨'X', hex, .inr rfl, hbody, hdigits, hlt, rfl⟩
    · split at h
      · next hscaled => exact .inl ⟨isScaled_iff.1 hscaled, (Option.some.inj h).symm⟩
      · cases h
  · rintro (⟨hscaled, rfl⟩ | ⟨x, hex, hx, hbody, hdigits, hlt, rfl⟩)
    · unfold integerText?
      simp only
      split
      · next hbody => exact absurd (hbody ▸ hscaled) (not_scaled_of_mark (.inl rfl) _)
      · next hbody => exact absurd (hbody ▸ hscaled) (not_scaled_of_mark (.inr rfl) _)
      · rw [isScaled_iff.2 hscaled, if_pos rfl]
    · have hread := below?_eq_some_iff.2 ⟨hdigits, rfl, hlt⟩
      unfold integerText?
      rcases hx with rfl | rfl
      all_goals
        simp only [hbody]
        exact congrArg (Option.map _) hread

theorem magnitude_mark {x : Char} (hx : x = 'x' ∨ x = 'X') (hex : List Char) :
    magnitude ('0' :: x :: hex) = hexValue (dropPlus hex) := by
  rcases hx with rfl | rfl <;> rfl

/-- Hexadecimal text, with a plus sign in front of its digits or without one. -/
theorem mem_hexInteger_or_iff :
    text ∈ Pattern.hexInteger.matches' ∨ text ∈ Pattern.hexPlusInteger.matches' ↔
      ∃ x hex, (x = 'x' ∨ x = 'X') ∧ (splitSign text).2 = '0' :: x :: hex ∧
        dropPlus hex ∈ (Pattern.repeated Pattern.hexDigit).matches' := by
  have hdigit {p : RegularExpression Char} : ∀ cs ∈ (Pattern.hexMark * p).matches', StartsWithDigit cs := by
    intro cs h
    obtain ⟨x, hex, -, rfl, -⟩ := mem_hexMark_mul_iff.1 h
    exact ⟨'0', x :: hex, rfl, rfl⟩
  rw [Pattern.hexInteger, Pattern.hexPlusInteger, mem_maybe_sign_mul_iff hdigit, mem_maybe_sign_mul_iff hdigit,
    mem_hexMark_mul_iff, mem_hexMark_mul_iff]
  constructor
  · rintro (⟨x, hex, hx, hbody, h⟩ | ⟨x, hex, hx, hbody, h⟩)
    · exact ⟨x, hex, hx, hbody, dropPlus_mem_iff.2 (.inl h)⟩
    · exact ⟨x, hex, hx, hbody, dropPlus_mem_iff.2 (.inr h)⟩
  · rintro ⟨x, hex, hx, hbody, h⟩
    rcases dropPlus_mem_iff.1 h with h | h
    · exact .inl ⟨x, hex, hx, hbody, h⟩
    · exact .inr ⟨x, hex, hx, hbody, h⟩

theorem mem_decimalInteger_iff :
    text ∈ Pattern.decimalInteger.matches' ↔ (splitSign text).2 ∈ Pattern.scaled.matches' :=
  mem_maybe_sign_mul_iff fun _ => startsWithDigit_of_scaled

/-- The kept sign in front of digits makes a decimal integer. -/
theorem sign_append_mem (text : List Char) {digits : List Char} (h : digits ∈ Pattern.scaled.matches') :
    (splitSign text).1 ++ digits ∈ Pattern.decimalInteger.matches' := by
  refine Pattern.mem_append ?_ h
  rcases splitSign_cases text with ⟨-, hsign⟩ | ⟨-, hsign⟩ | ⟨-, hsign⟩
  · rw [hsign]
    exact Pattern.hyphen_mem_sign
  all_goals
    rw [hsign]
    exact Pattern.nil_mem_maybe

theorem natText_mem_scaled (n : ℕ) : natText n ∈ Pattern.scaled.matches' := by
  rw [← List.append_nil (natText n)]
  exact Pattern.mem_append (Pattern.mem_repeated_digit.2 (isDigits_natText n)) Pattern.nil_mem_maybe

/-- What is written for integer text is a decimal integer, -/
theorem mem_of_integerText? {t : List Char} (h : integerText? text = some t) :
    t ∈ Pattern.decimalInteger.matches' := by
  rcases integerText?_eq_some_iff.1 h with ⟨hscaled, rfl⟩ | ⟨x, hex, -, -, -, -, rfl⟩
  · exact sign_append_mem _ hscaled
  · exact sign_append_mem _ (natText_mem_scaled _)

/-- and denotes the same integer. -/
theorem denoted_integerText? {t : List Char} (h : integerText? text = some t) :
    denoted t = denoted (Text.strip text) := by
  rcases integerText?_eq_some_iff.1 h with ⟨hscaled, rfl⟩ | ⟨x, hex, hx, hbody, -, -, rfl⟩
  · exact denoted_sign_append (startsWithDigit_of_scaled hscaled) rfl
  · refine denoted_sign_append (startsWithDigit_of_scaled (natText_mem_scaled _)) ?_
    rw [hbody, magnitude_mark hx, magnitude_natText]

/-- Integer text is accepted if it is a decimal integer, or a hexadecimal one below `2 ^ 128` in which a plus sign may stand
behind the mark; the text that is written is a decimal integer and denotes the same integer. -/
theorem integerText_accepts_iff (text : List Char) :
    ((∃ t, integerText? text = some t) ↔
        Text.strip text ∈ Pattern.decimalInteger.matches' ∨
          (Text.strip text ∈ Pattern.hexInteger.matches' ∨ Text.strip text ∈ Pattern.hexPlusInteger.matches') ∧
            (denoted (Text.strip text)).natAbs < 2 ^ 128) ∧
      ∀ t, integerText? text = some t →
        t ∈ Pattern.decimalInteger.matches' ∧ denoted t = denoted (Text.strip text) := by
  refine ⟨?_, fun t h => ⟨mem_of_integerText? h, denoted_integerText? h⟩⟩
  rw [mem_decimalInteger_iff, mem_hexInteger_or_iff, natAbs_denoted]
  constructor
  · rintro ⟨t, h⟩
    rcases integerText?_eq_some_iff.1 h with ⟨hscaled, -⟩ | ⟨x, hex, hx, hbody, hdigits, hlt, -⟩
    · exact .inl hscaled
    · refine .inr ⟨⟨x, hex, hx, hbody, hdigits⟩, ?_⟩
      rwa [hbody, magnitude_mark hx]
  · rintro (hscaled | ⟨⟨x, hex, hx, hbody, hdigits⟩, hlt⟩)
    · exact ⟨_, integerText?_eq_some_iff.2 (.inl ⟨hscaled, rfl⟩)⟩
    · rw [hbody, magnitude_mark hx] at hlt
      exact ⟨_, integerText?_eq_some_iff.2 (.inr ⟨x, hex, hx, hbody, hdigits, hlt, rfl⟩)⟩

/-- A plus sign behind the mark, which is no hexadecimal integer, is read over. -/
theorem plus_read_over :
    integerText? "0x+FF".toList = some "255".toList ∧
      "0x+FF".toList ∉ Pattern.decimalInteger.matches' ∧ "0x+FF".toList ∉ Pattern.hexInteger.matches' := by
  refine ⟨by decide +kernel, ?_, ?_⟩
  · decide +kernel
  · decide +kernel

end Decimal

end SqlComposer
