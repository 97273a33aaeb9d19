import SqlComposer.Proofs.Render.Keeps

/-!
# Results that note what is found

* `Render.Notes` : there is a result, and it comes with the issues that are asked for;
* `Notes.bind`, `Notes.map`, `Notes.mapM`, `Notes.after` : its laws;
* `Notes.of_each` : the issues may be looked at one by one.
-/

namespace SqlComposer.Render

variable {α β : Type}

/-- There is a result, and every issue of `found` is noted with it. -/
def Notes (found : Issue → Prop) (r : Render α) : Prop :=
  ∃ a issues n, r = .done a issues n ∧ ∀ i, found i → i ∈ issues

namespace Notes

variable {found later : Issue → Prop} {r : Render α}

theorem mono (h : r.Notes found) (hle : ∀ i, later i → found i) : r.Notes later := by
  obtain ⟨a, issues, n, hr, hfound⟩ := h
  exact ⟨a, issues, n, hr, fun i hi => hfound i (hle i hi)⟩

/-- A result without any issue. -/
theorem quiet (a : α) : (pure a : Render α).Notes nothing :=
  ⟨a, [], 0, rfl, nofun⟩

/-- There is only one result, so that each issue can be found in its own way. -/
theorem of_each (h : r.Notes nothing) (hi : ∀ i, found i → r.Notes (· = i)) : r.Notes found := by
  obtain ⟨a, issues, n, hr, -⟩ := h
  refine ⟨a, issues, n, hr, fun i hfound => ?_⟩
  obtain ⟨b, issues', n', hr', hmem⟩ := hi i hfound
  cases hr.symm.trans hr'
  exact hmem i rfl

theorem note (i : Issue) : (note i).Notes (· = i) := by
  refine ⟨_, _, _, rfl, ?_⟩
  rintro j rfl
  exact List.mem_singleton_self j

theorem ofDialect {x : Except DialectError α} (h : ∃ a, x = .ok a) : (ofDialect x).Notes nothing := by
  obtain ⟨a, rfl⟩ := h
  exact quiet a

theorem bind {f : α → Render β} (h : r.Notes found)
    (hf : ∀ a issues n, r = .done a issues n → (f a).Notes later) : (r >>= f).Notes fun i => found i ∨ later i := by
  obtain ⟨a, issues, n, rfl, hfound⟩ := h
  obtain ⟨b, issues', n', hb, hlater⟩ := hf a issues n rfl
  refine ⟨b, issues ++ issues', n + n', by rw [done_bind, hb, after_done], ?_⟩
  rintro i (hi | hi)
  · exact List.mem_append_left _ (hfound i hi)
  · exact List.mem_append_right _ (hlater i hi)

theorem map (h : r.Notes found) (f : α → β) : (f <$> r).Notes found := by
  obtain ⟨a, issues, n, rfl, hfound⟩ := h
  exact ⟨f a, issues, n, map_done _ _ _ _, hfound⟩

theorem after (h : r.Notes later) (issues : List Issue) (n : Nat) :
    (r.after issues n).Notes fun i => i ∈ issues ∨ later i := by
  obtain ⟨a, issues', n', rfl, hlater⟩ := h
  refine ⟨a, issues ++ issues', n + n', after_done _ _ _ _ _, ?_⟩
  rintro i (hi | hi)
  · exact List.mem_append_left _ hi
  · exact List.mem_append_right _ (hlater i hi)

theorem mapM {f : α → Render β} {xs : List α} {found : α → Issue → Prop} (h : ∀ x ∈ xs, (f x).Notes (found x)) :
    (xs.mapM f).Notes fun i => ∃ x ∈ xs, found x i := by
  induction xs with
  | nil =>
    apply (quiet []).mono
    rintro i ⟨x, hx, -⟩
    cases hx
  | cons x xs ih =>
    rw [List.mapM_cons]
    have hrest := ih fun x hx => h x (List.mem_cons_of_mem _ hx)
    apply ((h x List.mem_cons_self).bind fun y _ _ _ => hrest.bind fun ys _ _ _ => quiet (y :: ys)).mono
    rintro i ⟨y, hy, hi⟩
    rcases List.mem_cons.1 hy with rfl | hy
    · exact .inl hi
    · exact .inr (.inl ⟨y, hy, hi⟩)

end Notes

end SqlComposer.Render
