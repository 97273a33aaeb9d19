/-!
# Quoted text

A quote inside a quoted text is written twice.

* `doubled q s` : `s` with every `q` twice; `enclosed a b s` : `s` between `a` and `b`, every `b` twice;
* `readQuoted q` : the content up to the closing `q`, and what stands after it;
* `readQuoted_doubled` : reading gives back what was doubled, whatever follows;
* `eq_doubled_of_readQuoted` : and reading accepts nothing else.
-/

namespace SqlComposer.Text

/-- The text with every `q` written twice. -/
def doubled (q : Char) : List Char → List Char
  | [] => []
  | c :: s => if c = q then q :: q :: doubled q s else c :: doubled q s

/-- The text between two quotes, the closing one doubled inside. -/
def enclosed (opening closing : Char) (s : List Char) : List Char :=
  opening :: (doubled closing s ++ [closing])

/-- The content up to the first `q` that is not doubled, and the text after that quote. -/
def readQuoted (q : Char) : List Char → Option (List Char × List Char)
  | [] => none
  | c :: s =>
    if c = q then
      match s with
      | [] => some ([], [])
      | d :: t => if d = q then (readQuoted q t).map fun r => (q :: r.1, r.2) else some ([], d :: t)
    else
      (readQuoted q s).map fun r => (c :: r.1, r.2)

/-! ## Laws -/

theorem doubled_append (q : Char) (s t : List Char) : doubled q (s ++ t) = doubled q s ++ doubled q t := by
  induction s with
  | nil => rfl
  | cons c s ih => by_cases hc : c = q <;> simp [doubled, hc, ih]

theorem doubled_of_not_mem {q : Char} {s : List Char} (h : q ∉ s) : doubled q s = s := by
  induction s with
  | nil => rfl
  | cons c s ih =>
    rw [List.mem_cons, not_or] at h
    rw [doubled, if_neg (Ne.symm h.1), ih h.2]

theorem readQuoted_doubled {q : Char} {s r : List Char} (h : r.head? ≠ some q) :
    readQuoted q (doubled q s ++ q :: r) = some (s, r) := by
  induction s with
  | nil => cases r <;> simp_all [doubled, readQuoted]
  | cons c s ih =>
    by_cases hc : c = q
    · simp [doubled, readQuoted, hc, ih]
    · rw [doubled, if_neg hc, List.cons_append, readQuoted.eq_def]
      simp [hc, ih]

theorem eq_doubled_of_readQuoted {q : Char} {t s r : List Char} (h : readQuoted q t = some (s, r)) :
    t = doubled q s ++ q :: r ∧ r.head? ≠ some q := by
  fun_induction readQuoted q t generalizing s with
  | case1 => simp at h
  | case2 => simp_all [doubled]
  | case3 t ih =>
    obtain ⟨⟨s', r'⟩, hs, he⟩ := Option.map_eq_some_iff.1 h
    simp only [Prod.mk.injEq] at he
    obtain ⟨rfl, rfl⟩ := he
    have := ih hs
    simp [doubled, ← this.1, this.2]
  | case4 d t hd =>
    simp only [Option.some.injEq, Prod.mk.injEq] at h
    obtain ⟨rfl, rfl⟩ := h
    simpa [doubled] using hd
  | case5 c t hc ih =>
    obtain ⟨⟨s', r'⟩, hs, he⟩ := Option.map_eq_some_iff.1 h
    simp only [Prod.mk.injEq] at he
    obtain ⟨rfl, rfl⟩ := he
    have := ih hs
    simp [doubled, hc, ← this.1, this.2]

/-- Reading stops after at least the closing quote. -/
theorem length_lt_of_readQuoted {q : Char} {t s r : List Char} (h : readQuoted q t = some (s, r)) :
    r.length < t.length := by
  rw [(eq_doubled_of_readQuoted h).1]
  simp only [List.length_append, List.length_cons]
  omega

end SqlComposer.Text
