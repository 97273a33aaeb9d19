/-!
# White space

* `isBlank` : the characters with the Unicode property `White_Space`;
* `dropBlank`, `dropBlankEnd`, `strip` : a text without the white space at its ends;
* `dropBlank_append`, `dropBlank_eq_nil_iff` : what stands behind a text, and the texts of nothing but white space.
-/

namespace SqlComposer.Text

/-- The characters with the Unicode property `White_Space`. -/
def isBlank (c : Char) : Bool :=
  (9 ≤ c.toNat && c.toNat ≤ 13) || c.toNat == 0x20 || c.toNat == 0x85 || c.toNat == 0xA0 ||
  c.toNat == 0x1680 || (0x2000 ≤ c.toNat && c.toNat ≤ 0x200A) || c.toNat == 0x2028 ||
  c.toNat == 0x2029 || c.toNat == 0x202F || c.toNat == 0x205F || c.toNat == 0x3000

/-- The text from its first character that is not blank. -/
def dropBlank (s : List Char) : List Char :=
  s.dropWhile isBlank

/-- The text up to its last character that is not blank. -/
def dropBlankEnd (s : List Char) : List Char :=
  (dropBlank s.reverse).reverse

/-- The text without the white space at both ends. -/
def strip (s : List Char) : List Char :=
  dropBlankEnd (dropBlank s)

/-! ## Laws -/

@[simp] theorem dropBlank_nil : dropBlank [] = [] := rfl

theorem dropBlank_cons (c : Char) (s : List Char) :
    dropBlank (c :: s) = if isBlank c then dropBlank s else c :: s := by
  simp [dropBlank, List.dropWhile_cons]

/-- A text that is not blank keeps what follows it. -/
theorem dropBlank_append {s : List Char} (h : dropBlank s ≠ []) (t : List Char) :
    dropBlank (s ++ t) = dropBlank s ++ t := by
  induction s with
  | nil => simp at h
  | cons c s ih =>
    rw [List.cons_append, dropBlank_cons, dropBlank_cons]
    rw [dropBlank_cons] at h
    split <;> simp_all

theorem dropBlank_append_blank {s : List Char} (h : dropBlank s = []) (t : List Char) :
    dropBlank (s ++ t) = dropBlank t := by
  induction s with
  | nil => rfl
  | cons c s ih =>
    rw [List.cons_append, dropBlank_cons]
    rw [dropBlank_cons] at h
    split <;> simp_all

theorem dropBlank_eq_nil_iff {s : List Char} : dropBlank s = [] ↔ ∀ c ∈ s, isBlank c = true := by
  induction s with
  | nil => simp
  | cons c s ih => rw [dropBlank_cons]; split <;> simp_all

theorem dropBlank_eq_self {s : List Char} (h : ∀ c, s.head? = some c → isBlank c = false) :
    dropBlank s = s := by
  cases s with
  | nil => rfl
  | cons c s => simp [dropBlank_cons, h c rfl]

end SqlComposer.Text
