import SqlComposer.Render

/-!
# What becomes of the issues of a result

* `Render.Keeps` : every issue found before or on the way is shown by the result, or it is one of those that are given
  up;
* `Keeps.bind`, `Keeps.map`, `Keeps.frame`, `Keeps.mapM` : its laws;
* `Render.length_of_mapM` : one result for each part.
-/

namespace SqlComposer.Render

variable {α β : Type}

/-! ## One after the other -/

theorem exists_of_after {r : Render α} {found issues : List Issue} {a : α} {m n : Nat}
    (h : r.after found m = .done a issues n) :
    ∃ later k, r = .done a later k ∧ issues = found ++ later ∧ n = m + k := by
  cases r with
  | failed e => cases h
  | done b later k =>
    cases h
    exact ⟨later, k, rfl, rfl, rfl⟩

theorem exists_of_bind {r : Render α} {f : α → Render β} {b : β} {issues : List Issue} {n : Nat}
    (h : r >>= f = .done b issues n) : ∃ a found later m k, r = .done a found m ∧ f a = .done b later k ∧
      issues = found ++ later ∧ n = m + k := by
  cases r with
  | failed e => cases h
  | done a found m =>
    obtain ⟨later, k, hf, hissues, hn⟩ := exists_of_after h
    exact ⟨a, found, later, m, k, rfl, hf, hissues, hn⟩

theorem length_of_mapM {f : α → Render β} {xs : List α} {ys : List β} {issues : List Issue} {n : Nat}
    (h : xs.mapM f = .done ys issues n) : ys.length = xs.length := by
  induction xs generalizing ys issues n with
  | nil =>
    cases h
    rfl
  | cons x xs ih =>
    rw [List.mapM_cons] at h
    obtain ⟨y, _, _, _, _, -, h, -, -⟩ := exists_of_bind h
    obtain ⟨zs, _, _, _, _, hzs, h, -, -⟩ := exists_of_bind h
    cases h
    rw [List.length_cons, List.length_cons, ih hzs]

/-! ## Issues -/

/-- No issue. -/
def nothing : Issue → Prop :=
  fun _ => False

/-- Every issue of `before`, and every issue found on the way, is shown by the result or belongs to `lost`. -/
def Keeps (lost before : Issue → Prop) (shown : α → Issue → Prop) (r : Render α) : Prop :=
  ∀ a issues n, r = .done a issues n → ∀ i, before i ∨ i ∈ issues → shown a i ∨ lost i

variable {lost before : Issue → Prop} {shown : α → Issue → Prop} {shown' : β → Issue → Prop} {r : Render α}

namespace Keeps

theorem bind {f : α → Render β} (h : r.Keeps lost before shown)
    (hf : ∀ a issues n, r = .done a issues n → (f a).Keeps lost (shown a) shown') :
    (r >>= f).Keeps lost before shown' := by
  intro b issues n hb i hi
  obtain ⟨a, found, later, m, k, hr, hfa, rfl, -⟩ := exists_of_bind hb
  have hlater := hf a found m hr b later k hfa i
  have hearlier (hi : before i ∨ i ∈ found) : shown' b i ∨ lost i := by
    rcases h a found m hr i hi with hshown | hlost
    · exact hlater (.inl hshown)
    · exact .inr hlost
  rcases hi with hi | hi
  · exact hearlier (.inl hi)
  · rcases List.mem_append.1 hi with hi | hi
    · exact hearlier (.inr hi)
    · exact hlater (.inr hi)

theorem pure {a : α} (h : ∀ i, before i → shown a i) : (pure a : Render α).Keeps lost before shown := by
  intro b issues n hb i hi
  cases hb
  rcases hi with hi | hi
  · exact .inl (h i hi)
  · cases hi

/-- A result without any issue. -/
theorem quiet (a : α) : (Pure.pure a : Render α).Keeps lost nothing shown :=
  .pure nofun

theorem map {f : α → β} (h : r.Keeps lost before shown)
    (hf : ∀ a issues n, r = .done a issues n → ∀ i, shown a i → shown' (f a) i) :
    (f <$> r).Keeps lost before shown' := by
  rw [← bind_pure_comp]
  exact h.bind fun a issues n hr => .pure (hf a issues n hr)

theorem mono {lost' before' : Issue → Prop} {weaker : α → Issue → Prop} (h : r.Keeps lost before shown)
    (hbefore : ∀ i, before' i → before i) (hshown : ∀ a i, shown a i → weaker a i) (hlost : ∀ i, lost i → lost' i) :
    r.Keeps lost' before' weaker := by
  intro a issues n hr i hi
  rcases h a issues n hr i (hi.imp_left (hbefore i)) with hi | hi
  · exact .inl (hshown a i hi)
  · exact .inr (hlost i hi)

/-- What was shown before is shown still, beside what the result shows. -/
theorem frame (h : r.Keeps lost nothing shown) (before : Issue → Prop) :
    r.Keeps lost before fun a i => before i ∨ shown a i := by
  intro a issues n hr i hi
  rcases hi with hi | hi
  · exact .inl (.inl hi)
  · exact (h a issues n hr i (.inr hi)).imp_left .inr

theorem after {found : List Issue} (h : r.Keeps lost (fun i => before i ∨ i ∈ found) shown) (m : Nat) :
    (r.after found m).Keeps lost before shown := by
  intro a issues n hr i hi
  obtain ⟨later, k, hdone, rfl, -⟩ := exists_of_after hr
  apply h a later k hdone i
  rcases hi with hi | hi
  · exact .inl (.inl hi)
  · rcases List.mem_append.1 hi with hi | hi
    · exact .inl (.inr hi)
    · exact .inr hi

theorem ofDialect (x : Except DialectError α) : (ofDialect x).Keeps lost nothing shown := by
  cases x with
  | error e => exact nofun
  | ok a => exact quiet a

theorem mapM {f : α → Render β} {xs : List α} (h : ∀ x ∈ xs, (f x).Keeps lost nothing shown') :
    (xs.mapM f).Keeps lost nothing fun ys i => ∃ y ∈ ys, shown' y i := by
  induction xs with
  | nil => exact quiet []
  | cons x xs ih =>
    rw [List.mapM_cons]
    apply (h x List.mem_cons_self).bind
    intro y _ _ _
    apply ((ih fun x hx => h x (List.mem_cons_of_mem _ hx)).frame _).bind
    intro ys _ _ _
    apply pure
    rintro i (hi | ⟨z, hz, hi⟩)
    · exact ⟨y, List.mem_cons_self, hi⟩
    · exact ⟨z, List.mem_cons_of_mem _ hz, hi⟩

end Keeps

end SqlComposer.Render
