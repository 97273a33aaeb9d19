/-!
# Parts of a text

* `parts sep s` : the parts of `s` between its separators;
* `joined sep ps` : the parts with a separator between them (`joined_parts`, `parts_joined`);
* `parts_append` : a text up to its first separator is the first part.
-/

namespace SqlComposer.Text

/-- The parts between the separators: one more than there are separators. -/
def parts (sep : Char) : List Char → List (List Char)
  | [] => [[]]
  | c :: s =>
    if c = sep then [] :: parts sep s
    else
      match parts sep s with
      | [] => [[c]]
      | p :: ps => (c :: p) :: ps

/-- The parts with a separator between neighbours. -/
def joined (sep : Char) (ps : List (List Char)) : List Char :=
  [sep].intercalate ps

/-! ## Laws -/

theorem parts_ne_nil (sep : Char) (s : List Char) : parts sep s ≠ [] := by
  cases s with
  | nil => simp [parts]
  | cons c s =>
    unfold parts
    split
    · simp
    · split <;> simp

theorem joined_parts (sep : Char) (s : List Char) : joined sep (parts sep s) = s := by
  induction s with
  | nil => simp [parts, joined, List.intercalate]
  | cons c s ih =>
    unfold parts
    split
    · next h =>
      subst h
      have hp := parts_ne_nil c s
      revert ih hp
      cases parts c s <;> simp [joined, List.intercalate]
    · split
      · next h => exact absurd h (parts_ne_nil sep s)
      · next p ps h =>
        rw [h] at ih
        cases ps <;> simp_all [joined, List.intercalate]

theorem parts_of_not_mem {sep : Char} {s : List Char} (h : sep ∉ s) : parts sep s = [s] := by
  induction s with
  | nil => rfl
  | cons c s ih =>
    rw [List.mem_cons, not_or] at h
    simp [parts, Ne.symm h.1, ih h.2]

theorem parts_append {sep : Char} {p : List Char} (h : sep ∉ p) (s : List Char) :
    parts sep (p ++ sep :: s) = p :: parts sep s := by
  induction p with
  | nil => simp [parts]
  | cons c p ih =>
    rw [List.mem_cons, not_or] at h
    simp [parts, Ne.symm h.1, ih h.2]

theorem parts_joined {sep : Char} {ps : List (List Char)} (hne : ps ≠ []) (h : ∀ p ∈ ps, sep ∉ p) :
    parts sep (joined sep ps) = ps := by
  induction ps with
  | nil => exact absurd rfl hne
  | cons p ps ih =>
    have hp := h p List.mem_cons_self
    cases ps with
    | nil => simpa [joined] using parts_of_not_mem hp
    | cons q qs =>
      have hq := ih (by simp) fun r hr => h r (List.mem_cons_of_mem _ hr)
      rw [joined] at hq ⊢
      rw [List.intercalate_cons_cons, List.append_assoc, List.singleton_append, parts_append hp, hq]

end SqlComposer.Text
