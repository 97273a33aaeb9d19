import Mathlib.Algebra.BigOperators.Fin
import Mathlib.Data.Multiset.AddSub
import SqlComposer.Proofs.Render.Notes

/-!
# Notes without their order

* `Tally` : issues without their order, with the number of branches left out;
* `Render.Gives` : a result with its notes, whose order is left open;
* `Gives.bind`, `Gives.map`, `Gives.bind_pure`, `Gives.mapM_ofFn` : its laws, by which the notes of parts are added up;
* `Gives.perm` : results that give the same have the same issues up to their order.
-/

namespace SqlComposer

/-- Issues without their order, and a number of branches left out. -/
abbrev Tally := Multiset Issue × Nat

namespace Render

variable {α β : Type} {r : Render α} {a : α} {b : β} {t u : Tally}

/-- The result is `a`, and what was noted on the way is `t`, in some order. -/
def Gives (r : Render α) (a : α) (t : Tally) : Prop :=
  ∃ issues masked, r = .done a issues masked ∧ ((issues : Multiset Issue), masked) = t

namespace Gives

theorem exists_of_notes {found : Issue → Prop} (h : r.Notes found) : ∃ a t, r.Gives a t := by
  obtain ⟨a, issues, masked, hr, -⟩ := h
  exact ⟨a, _, issues, masked, hr, rfl⟩

theorem pure (a : α) : (Pure.pure a : Render α).Gives a 0 :=
  ⟨[], 0, rfl, rfl⟩

theorem bind {f : α → Render β} (h : r.Gives a t) (hf : (f a).Gives b u) : (r >>= f).Gives b (t + u) := by
  obtain ⟨issues, masked, rfl, rfl⟩ := h
  obtain ⟨later, more, hfa, rfl⟩ := hf
  exact ⟨issues ++ later, masked + more, by rw [done_bind, hfa, after_done], rfl⟩

theorem map (h : r.Gives a t) (f : α → β) : (f <$> r).Gives (f a) t := by
  obtain ⟨issues, masked, rfl, rfl⟩ := h
  exact ⟨issues, masked, map_done _ _ _ _, rfl⟩

theorem bind_pure {f : α → β} (h : r.Gives a t) : (r >>= fun a => Pure.pure (f a)).Gives (f a) t := by
  rw [bind_pure_comp]
  exact h.map f

/-- The notes of the parts add up. -/
theorem mapM_ofFn {n : Nat} {f : α → Render β} {x : Fin n → α} {y : Fin n → β} {t : Fin n → Tally}
    (h : ∀ i, (f (x i)).Gives (y i) (t i)) : ((List.ofFn x).mapM f).Gives (List.ofFn y) (∑ i, t i) := by
  induction n with
  | zero => exact pure []
  | succ n ih =>
    have hrest := ih fun i => h i.succ
    rw [List.ofFn_succ, List.mapM_cons, List.ofFn_succ, Fin.sum_univ_succ]
    exact (h 0).bind hrest.bind_pure

/-- Results that give the same differ in the order of their issues only. -/
theorem perm {r' : Render α} (h : r.Gives a t) (h' : r'.Gives a t) :
    ∃ issues issues' masked, r = .done a issues masked ∧ r' = .done a issues' masked ∧ issues.Perm issues' := by
  obtain ⟨issues, masked, hr, rfl⟩ := h
  obtain ⟨issues', masked', hr', ht⟩ := h'
  obtain ⟨hissues, rfl⟩ := Prod.mk.inj ht
  exact ⟨issues, issues', masked', hr, hr', Multiset.coe_eq_coe.1 hissues.symm⟩

end Gives

end Render

end SqlComposer
