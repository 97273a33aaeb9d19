import SqlComposer.Text.Hex

/-!
# Printed hexadecimal digits read back

* `Digits digit` : a printer of digits whose values are read back (`digits_lowerDigit`, `digits_upperDigit`);
* `toBytes?_ofBytes` : two printed digits for every byte spell the bytes;
* `isSome_digitValue?_of_mem_ofBytes` : and nothing but digits is printed;
* `utf8ByteSize_ofBytes` : two bytes of text for every byte.
-/

namespace SqlComposer.Text.Hex

/-- A printer of digits: every value below sixteen has a digit of that value. -/
def Digits (digit : Nat → Char) : Prop :=
  ∀ n < 16, digitValue? (digit n) = some n

theorem digits_lowerDigit : Digits lowerDigit := by unfold Digits; decide

theorem digits_upperDigit : Digits upperDigit := by unfold Digits; decide

theorem digitValue?_plus : digitValue? '+' = none := by decide

/-- A pair of digits is read as the number that it spells: neither of them is a plus sign. -/
theorem below?_pair {a b : Char} {m n : Nat} (ha : digitValue? a = some m) (hb : digitValue? b = some n)
    (h : 16 * m + n < 256) : below? 256 [a, b] = some (16 * m + n) := by
  have hp : a ≠ '+' := by
    rintro rfl
    rw [digitValue?_plus] at ha
    cases ha
  unfold below?
  split
  · next h => exact absurd (List.cons.inj h).1 hp
  · simp [natOf?, ha, hb, h]

/-- Two printed digits for every byte spell the bytes. -/
theorem toBytes?_ofBytes {digit : Nat → Char} (hd : Digits digit) (bytes : List UInt8) :
    toBytes? (ofBytes digit bytes) = some bytes := by
  induction bytes with
  | nil => rfl
  | cons b bytes ih =>
    have hb : b.toNat < 256 := b.toNat_lt_size
    have hpair := below?_pair (hd (b.toNat / 16) (by omega)) (hd (b.toNat % 16) (by omega)) (by omega)
    rw [Nat.div_add_mod] at hpair
    simp [ofBytes, toBytes?, hpair, ih]

theorem isSome_digitValue?_of_mem_ofBytes {digit : Nat → Char} (hd : Digits digit) {bytes : List UInt8}
    {c : Char} (h : c ∈ ofBytes digit bytes) : (digitValue? c).isSome = true := by
  induction bytes with
  | nil => simp [ofBytes] at h
  | cons b bytes ih =>
    have hb : b.toNat < 256 := b.toNat_lt_size
    simp only [ofBytes, List.mem_cons] at h
    rcases h with rfl | rfl | h
    · rw [hd _ (by omega)]; rfl
    · rw [hd _ (by omega)]; rfl
    · exact ih h

theorem utf8Size_of_digitValue? {c : Char} {n : Nat} (h : digitValue? c = some n) : c.utf8Size = 1 := by
  have hascii : c ≤ '\x7f' := by
    unfold digitValue? at h
    simp only [Bool.and_eq_true, decide_eq_true_eq] at h
    split at h
    · next hc => exact Char.le_trans hc.2 (by decide)
    · split at h
      · next hc => exact Char.le_trans hc.2 (by decide)
      · split at h
        · next hc => exact Char.le_trans hc.2 (by decide)
        · cases h
  exact if_pos (Char.le_def.1 hascii)

theorem utf8ByteSize_cons (c : Char) (cs : List Char) :
    (String.ofList (c :: cs)).utf8ByteSize = c.utf8Size + (String.ofList cs).utf8ByteSize := by
  have hsplit : String.ofList (c :: cs) = String.singleton c ++ String.ofList cs := by
    rw [String.singleton_eq_ofList, ← String.ofList_append]
    rfl
  rw [hsplit, String.utf8ByteSize_append, String.utf8ByteSize_singleton]

/-- Every byte is written in two bytes. -/
theorem utf8ByteSize_ofBytes {digit : Nat → Char} (hd : Digits digit) (bytes : List UInt8) :
    (String.ofList (ofBytes digit bytes)).utf8ByteSize = 2 * bytes.length := by
  induction bytes with
  | nil => rfl
  | cons b bytes ih =>
    have hb : b.toNat < 256 := b.toNat_lt_size
    rw [ofBytes, utf8ByteSize_cons, utf8ByteSize_cons, ih, utf8Size_of_digitValue? (hd _ (by omega)),
      utf8Size_of_digitValue? (hd _ (by omega)), List.length_cons]
    omega

end SqlComposer.Text.Hex
