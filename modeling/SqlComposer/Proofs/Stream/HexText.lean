import SqlComposer.Proofs.Text.Hex
import SqlComposer.Stream

/-!
# Hexadecimal text read as bytes

* `InPairs` : two characters for every byte; `IsDigitPair`, `IsPlusPair` : the pairs that are read;
* `toBytes?_eq_some_iff` : the reader of pairs takes these and no others;
* `hexText_accepts_iff` : the texts that are read as bytes. Those without a plus sign are the hexadecimal texts.
-/

namespace SqlComposer

namespace Text.Hex

/-- Two characters for every byte, in order. -/
inductive InPairs (R : Char → Char → UInt8 → Prop) : List Char → List UInt8 → Prop
  | nil : InPairs R [] []
  | cons {a c : Char} {b : UInt8} {cs : List Char} {bytes : List UInt8} (pair : R a c b) (h : InPairs R cs bytes) :
      InPairs R (a :: c :: cs) (b :: bytes)

/-- Two digits that spell the byte, the high one in front. -/
def IsDigitPair (a c : Char) (b : UInt8) : Prop :=
  ∃ m n, digitValue? a = some m ∧ digitValue? c = some n ∧ b.toNat = 16 * m + n

/-- A plus sign in front of the digit that spells the byte. -/
def IsPlusPair (a c : Char) (b : UInt8) : Prop :=
  a = '+' ∧ digitValue? c = some b.toNat

/-- A pair of characters that is read as the byte. -/
def IsReadPair (a c : Char) (b : UInt8) : Prop :=
  IsDigitPair a c b ∨ IsPlusPair a c b

/-! ## Pairs -/

theorem natOf?_pair (a c : Char) :
    natOf? [a, c] = (digitValue? a).bind fun m => (digitValue? c).map fun n => 16 * m + n := by
  cases ha : digitValue? a <;> simp [natOf?, ha]

theorem below?_lt {limit n : Nat} {cs : List Char} (h : below? limit cs = some n) : n < limit := by
  have hdigits (digits : List Char)
      (h : (if digits.isEmpty then none else (natOf? digits).filter (· < limit)) = some n) : n < limit := by
    split at h
    · cases h
    · simpa using (Option.filter_eq_some_iff.1 h).2
  exact hdigits _ h

/-- What is read of a pair is a byte. -/
theorem below?_eq_some_iff {a c : Char} {b : UInt8} : below? 256 [a, c] = some b.toNat ↔ IsReadPair a c b := by
  have hb : b.toNat < 256 := b.toNat_lt_size
  by_cases hplus : a = '+'
  · subst hplus
    have hdigit : natOf? [c] = digitValue? c := by simp [natOf?]
    have hread : below? 256 ['+', c] = (digitValue? c).filter (· < 256) := by simp [below?, hdigit]
    rw [hread, Option.filter_eq_some_iff]
    constructor
    · rintro ⟨hc, -⟩
      exact .inr ⟨rfl, hc⟩
    · rintro (⟨m, n, ha, -, -⟩ | ⟨-, hc⟩)
      · rw [digitValue?_plus] at ha
        cases ha
      · exact ⟨hc, by simpa using hb⟩
  · constructor
    · intro h
      have hread : below? 256 [a, c] = (natOf? [a, c]).filter (· < 256) := by
        unfold below?
        split
        · next heq => exact absurd (List.cons.inj heq).1 hplus
        · rfl
      rw [hread, Option.filter_eq_some_iff, natOf?_pair] at h
      obtain ⟨m, hm, h⟩ := Option.bind_eq_some_iff.1 h.1
      obtain ⟨n, hn, h⟩ := Option.map_eq_some_iff.1 h
      exact .inl ⟨m, n, hm, hn, h.symm⟩
    · rintro (⟨m, n, ha, hc, h⟩ | ⟨ha, -⟩)
      · rw [h] at hb ⊢
        exact below?_pair ha hc hb
      · exact absurd ha hplus

theorem IsReadPair.utf8Size {a c : Char} {b : UInt8} (h : IsReadPair a c b) : a.utf8Size = 1 ∧ c.utf8Size = 1 := by
  rcases h with ⟨m, n, ha, hc, -⟩ | ⟨rfl, hc⟩
  · exact ⟨utf8Size_of_digitValue? ha, utf8Size_of_digitValue? hc⟩
  · exact ⟨rfl, utf8Size_of_digitValue? hc⟩

theorem IsReadPair.isDigitPair_iff {a c : Char} {b : UInt8} (h : IsReadPair a c b) :
    IsDigitPair a c b ↔ a ≠ '+' ∧ c ≠ '+' := by
  have hne {d : Char} {n : Nat} (hd : digitValue? d = some n) : d ≠ '+' := by
    rintro rfl
    rw [digitValue?_plus] at hd
    cases hd
  constructor
  · rintro ⟨m, n, ha, hc, -⟩
    exact ⟨hne ha, hne hc⟩
  · rintro ⟨ha, -⟩
    exact h.resolve_right fun hplus => ha hplus.1

/-! ## Texts -/

variable {cs : List Char} {bytes : List UInt8}

/-- The reader goes by pairs, and takes every pair that it can read. -/
theorem toBytes?_eq_some_iff : toBytes? cs = some bytes ↔ InPairs IsReadPair cs bytes := by
  constructor
  · intro h
    fun_induction toBytes? cs generalizing bytes with
    | case1 =>
      cases h
      exact .nil
    | case2 => cases h
    | case3 a c cs ih =>
      obtain ⟨n, hn, h⟩ := Option.bind_eq_some_iff.1 h
      obtain ⟨rest, hrest, h⟩ := Option.bind_eq_some_iff.1 h
      cases h
      have hbyte : (UInt8.ofNat n).toNat = n := UInt8.toNat_ofNat_of_lt' (below?_lt hn)
      rw [← hbyte] at hn
      exact .cons (below?_eq_some_iff.1 hn) (ih hrest)
  · intro h
    induction h with
    | nil => rfl
    | cons pair _ ih => simp [toBytes?, below?_eq_some_iff.2 pair, ih]

namespace InPairs

theorem length_eq {R : Char → Char → UInt8 → Prop} (h : InPairs R cs bytes) : cs.length = 2 * bytes.length := by
  induction h with
  | nil => rfl
  | cons _ _ ih =>
    simp only [List.length_cons]
    omega

/-- What is read is written in characters of one byte each. -/
theorem utf8ByteSize_eq (h : InPairs IsReadPair cs bytes) : (String.ofList cs).utf8ByteSize = 2 * bytes.length := by
  induction h with
  | nil => rfl
  | cons pair _ ih =>
    obtain ⟨ha, hc⟩ := pair.utf8Size
    rw [utf8ByteSize_cons, utf8ByteSize_cons, ih, ha, hc, List.length_cons]
    omega

theorem digit_or_plus (h : InPairs IsReadPair cs bytes) : ∀ c ∈ cs, c = '+' ∨ (digitValue? c).isSome = true := by
  induction h with
  | nil => simp
  | cons pair _ ih =>
    rw [List.forall_mem_cons, List.forall_mem_cons]
    rcases pair with ⟨m, n, ha, hc, -⟩ | ⟨rfl, hc⟩
    · exact ⟨.inr (by rw [ha]; rfl), .inr (by rw [hc]; rfl), ih⟩
    · exact ⟨.inl rfl, .inr (by rw [hc]; rfl), ih⟩

/-- Without a plus sign all pairs are pairs of digits. -/
theorem isDigitPair_iff : InPairs IsReadPair cs bytes ∧ '+' ∉ cs ↔ InPairs IsDigitPair cs bytes := by
  constructor
  · rintro ⟨h, hplus⟩
    induction h with
    | nil => exact .nil
    | cons pair _ ih =>
      simp only [List.mem_cons, not_or] at hplus
      obtain ⟨ha, hc, hplus⟩ := hplus
      exact .cons (pair.isDigitPair_iff.2 ⟨Ne.symm ha, Ne.symm hc⟩) (ih hplus)
  · intro h
    induction h with
    | nil => exact ⟨.nil, by simp⟩
    | cons pair _ ih =>
      obtain ⟨hrest, hplus⟩ := ih
      have hread : IsReadPair _ _ _ := .inl pair
      obtain ⟨ha, hc⟩ := hread.isDigitPair_iff.1 pair
      refine ⟨.cons hread hrest, ?_⟩
      simp only [List.mem_cons, not_or]
      exact ⟨Ne.symm ha, Ne.symm hc, hplus⟩

end InPairs

end Text.Hex

namespace Stream

open Text.Hex

theorem bytes?_eq_ok_iff {s : String} {bytes : List UInt8} :
    bytes? s = .ok bytes ↔ InPairs IsReadPair s.toList bytes := by
  rw [← toBytes?_eq_some_iff]
  unfold bytes?
  constructor
  · intro h
    split at h
    · cases h
    · split at h
      · next hread =>
        cases h
        exact hread
      · cases h
  · intro h
    have hsize := (toBytes?_eq_some_iff.1 h).utf8ByteSize_eq
    rw [String.ofList_toList] at hsize
    rw [if_neg (by omega), h]

/-- A text that is not read names what is wrong: its length in bytes, or else the text. -/
theorem bytes?_eq_error {s : String} (h : ∀ bytes, ¬InPairs IsReadPair s.toList bytes) :
    bytes? s = .error (if s.utf8ByteSize % 2 = 1 then .oddHex s else .invalidHex s) := by
  have hnone : toBytes? s.toList = none := by
    rw [Option.eq_none_iff_forall_ne_some]
    exact fun bytes hbytes => h bytes (toBytes?_eq_some_iff.1 hbytes)
  unfold bytes?
  split
  · rfl
  · rw [hnone]

/-- A text is read as bytes exactly if it has two characters for each byte that spell it: two hexadecimal digits, or a plus
sign and a digit. So the texts without a plus sign are read exactly if they are hexadecimal digits alone, and what is
printed of bytes is read back. Text of an odd length, or with any other character, is refused. -/
theorem hexText_accepts_iff (s : String) (bytes : List UInt8) :
    (bytes? s = .ok bytes ↔ InPairs IsReadPair s.toList bytes) ∧
      (bytes? s = .ok bytes ∧ '+' ∉ s.toList ↔ InPairs IsDigitPair s.toList bytes) ∧
      (∀ digit, Digits digit → bytes? (String.ofList (ofBytes digit bytes)) = .ok bytes) ∧
      (s.length % 2 = 1 ∨ (∃ c ∈ s.toList, c ≠ '+' ∧ digitValue? c = none) →
        bytes? s = .error (if s.utf8ByteSize % 2 = 1 then .oddHex s else .invalidHex s)) := by
  refine ⟨bytes?_eq_ok_iff, ?_, fun digit hd => ?_, fun hbad => ?_⟩
  · rw [bytes?_eq_ok_iff]
    exact InPairs.isDigitPair_iff
  · rw [bytes?_eq_ok_iff, String.toList_ofList]
    exact toBytes?_eq_some_iff.1 (toBytes?_ofBytes hd bytes)
  · refine bytes?_eq_error fun read h => ?_
    rcases hbad with hodd | ⟨c, hc, hplus, hnone⟩
    · have hlength := h.length_eq
      rw [String.length_toList] at hlength
      omega
    · have hdigit := (h.digit_or_plus c hc).resolve_left hplus
      rw [hnone] at hdigit
      cases hdigit

/-- A plus sign and a digit are read as a byte, and no two digits spell it there. -/
theorem hexText_reads_plus : bytes? "+f" = .ok [15] ∧ ∀ bytes, ¬InPairs IsDigitPair "+f".toList bytes := by
  have hpair : IsReadPair '+' 'f' 15 := .inr ⟨rfl, by decide⟩
  refine ⟨bytes?_eq_ok_iff.2 (.cons hpair .nil), fun bytes h => ?_⟩
  exact (InPairs.isDigitPair_iff.2 h).2 (by decide)

end Stream

end SqlComposer
