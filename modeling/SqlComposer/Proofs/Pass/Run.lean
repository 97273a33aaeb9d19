import SqlComposer.Compose

/-!
# A pass step by step

* `run_finished`, `run_moved`, `run_lexeme`, `run_value` : a pass by its next step;
* `run_endToken` : before a token it does not matter whether the last token has been ended in the output;
* `Render.content` : a result with its issues but without the count of branches left out;
* `Render.Congruence` : results that stay alike behind the same first step;
* `Next.Related`, `run_of_related`, `run_bind_of_related` : two passes whose next steps ask for the same;
* `Pass.induction`, `run_related`, `run_bind_related` : what holds step by step holds of whole passes, also where
  something is done with the text of the first.
-/

namespace SqlComposer

namespace Render

variable {α β : Type}

/-- The result and its issues, or the failure. How many branches were left out is not part of it. -/
def content : Render α → Except DialectError (α × List Issue)
  | failed e => .error e
  | done a issues _ => .ok (a, issues)

theorem content_after_congr {x y : Render α} (h : x.content = y.content) (issues : List Issue) (m n : Nat) :
    (x.after issues m).content = (y.after issues n).content := by
  cases x <;> cases y <;> simp_all [content]

theorem content_bind_congr (x : Render α) {f g : α → Render β} (h : ∀ a, (f a).content = (g a).content) :
    (x >>= f).content = (x >>= g).content := by
  cases x with
  | failed e => rfl
  | done a issues m => exact content_after_congr (h a) issues m m

/-- Results that are alike stay alike behind the same first step. -/
structure Congruence (E : Render String → Render String → Prop) : Prop where
  after : ∀ {x y : Render String} (found : List Issue), E x y → E (x.after found 0) (y.after found 0)
  bind : ∀ (x : Render String) {f g : String → Render String}, (∀ text, E (f text) (g text)) → E (x >>= f) (x >>= g)

theorem congruence_eq : Congruence (· = ·) where
  after found h := congrArg (after found 0) h
  bind _ _ _ h := bind_congr h

theorem congruence_content : Congruence fun x y => x.content = y.content where
  after found h := content_after_congr h found 0 0
  bind x _ _ h := content_bind_congr x h

end Render

variable {ctx : Context} {s t : Pass}

/-! ## One step -/

theorem run_finished (h : s.next ctx.placeholders = .finished) : run ctx s = s.finish ctx := by
  rw [run]
  split <;> simp_all

theorem run_moved {found : List Issue} (h : s.next ctx.placeholders = .moved found t) :
    run ctx s = (run ctx t).after found 0 := by
  rw [run]
  split <;> simp_all

theorem run_lexeme {l : Lexeme} (h : s.next ctx.placeholders = .lexeme l t) :
    run ctx s = ctx.lexeme l >>= fun text => run ctx (t.write text) := by
  rw [run]
  split <;> simp_all

theorem run_value {v : Value} {m : Option Modifier} (h : s.next ctx.placeholders = .value v m t) :
    run ctx s = render ctx m v >>= fun text => run ctx (t.write text) := by
  rw [run]
  split <;> simp_all

/-- A step that asks for nothing and finds nothing. -/
theorem run_silent (h : s.next ctx.placeholders = .moved [] t) : run ctx s = run ctx t := by
  rw [run_moved h, Render.after_nil_zero]

/-- Two states with the same next step have the same end, unless they end here. -/
theorem run_congr (h : s.next ctx.placeholders = t.next ctx.placeholders)
    (hf : s.next ctx.placeholders = .finished → s.finish ctx = t.finish ctx) : run ctx s = run ctx t := by
  cases hn : s.next ctx.placeholders with
  | finished =>
    have ht := h.symm.trans hn
    rw [run_finished hn, run_finished ht, hf hn]
  | moved found u =>
    have ht := h.symm.trans hn
    rw [run_moved hn, run_moved ht]
  | lexeme l u =>
    have ht := h.symm.trans hn
    rw [run_lexeme hn, run_lexeme ht]
  | value v m u =>
    have ht := h.symm.trans hn
    rw [run_value hn, run_value ht]

/-- Every token ends the one before it in the output, and at the end of the stream nothing is joined. -/
theorem run_endToken (h : s.lexemes = []) : run ctx s.endToken = run ctx s := by
  apply run_congr
  · simp only [Pass.next, Pass.endToken, h]
    cases s.queue <;> rfl
  · intro _
    rfl

theorem run_of_compose {ts : List Token} {statement : Statement} (h : ctx.compose ts = .ok statement) :
    run ctx (.start ts) = .done statement.sql statement.issues statement.masked := by
  rw [Context.compose] at h
  split at h
  · cases h
  · next hr =>
    cases h
    exact hr

/-! ## Two passes -/

@[simp] theorem Pass.write_empty (s : Pass) : s.write "" = s := by
  rw [Pass.write, Output.push_empty]

/-- Two steps that ask for the same and leave related states. -/
inductive Next.Related (R : Pass → Pass → Prop) : Next → Next → Prop
  | moved (found : List Issue) {s t : Pass} (h : R s t) : Related R (.moved found s) (.moved found t)
  | lexeme (l : Lexeme) {s t : Pass} (h : R s t) : Related R (.lexeme l s) (.lexeme l t)
  | value (v : Value) (m : Option Modifier) {s t : Pass} (h : R s t) : Related R (.value v m s) (.value v m t)

theorem Next.Related.mono {R R' : Pass → Pass → Prop} {x y : Next} (hR : ∀ s t, R s t → R' s t)
    (h : Next.Related R x y) : Next.Related R' x y := by
  cases h with
  | moved found h => exact .moved found (hR _ _ h)
  | lexeme l h => exact .lexeme l (hR _ _ h)
  | value v m h => exact .value v m (hR _ _ h)

/-- Passes whose next steps are related come to alike ends, if the related states do. What is done with the text of the
first is `k`. -/
theorem run_bind_of_related {E : Render String → Render String → Prop} (hE : Render.Congruence E)
    {k : String → Render String} {R : Pass → Pass → Prop}
    (hr : ∀ s t, R s t → ∀ text, E (run ctx (s.write text) >>= k) (run ctx (t.write text)))
    (h : Next.Related R (s.next ctx.placeholders) (t.next ctx.placeholders)) :
    E (run ctx s >>= k) (run ctx t) := by
  generalize hs : s.next ctx.placeholders = x at h
  generalize ht : t.next ctx.placeholders = y at h
  cases h with
  | @moved found u v h =>
    have hempty := hr _ _ h ""
    rw [Pass.write_empty, Pass.write_empty] at hempty
    rw [run_moved hs, run_moved ht, Render.after_bind]
    exact hE.after found hempty
  | lexeme l h =>
    rw [run_lexeme hs, run_lexeme ht, bind_assoc]
    exact hE.bind _ (hr _ _ h)
  | value v m h =>
    rw [run_value hs, run_value ht, bind_assoc]
    exact hE.bind _ (hr _ _ h)

/-- Passes whose next steps are related come to alike ends, if the related states do. -/
theorem run_of_related {E : Render String → Render String → Prop} (hE : Render.Congruence E) {R : Pass → Pass → Prop}
    (hr : ∀ s t, R s t → ∀ text, E (run ctx (s.write text)) (run ctx (t.write text)))
    (h : Next.Related R (s.next ctx.placeholders) (t.next ctx.placeholders)) : E (run ctx s) (run ctx t) := by
  rw [← bind_pure (run ctx s)]
  refine run_bind_of_related hE (fun u v huv text => ?_) h
  rw [bind_pure]
  exact hr u v huv text

/-- Passes whose next steps are related have the same content, if the related states have. -/
theorem content_run_of_related {R : Pass → Pass → Prop}
    (hw : ∀ s t text, R s t → R (s.write text) (t.write text))
    (hr : ∀ s t, R s t → (run ctx s).content = (run ctx t).content)
    (h : Next.Related R (s.next ctx.placeholders) (t.next ctx.placeholders)) :
    (run ctx s).content = (run ctx t).content := by
  refine run_of_related Render.congruence_content (fun u v huv text => ?_) h
  exact hr _ _ (hw _ _ text huv)

/-! ## Whole passes -/

/-- The state that a step leaves, what it asks for not being written yet. -/
def Next.state? : Next → Option Pass
  | .finished => none
  | .moved _ s | .lexeme _ s | .value _ _ s => some s

/-- A step uses up tokens, or else a lexeme. -/
theorem Pass.progress {placeholders : Bool} {s u : Pass} (h : (s.next placeholders).state? = some u) :
    u.nodes < s.nodes ∨ (u.nodes = s.nodes ∧ u.lexemes.length < s.lexemes.length) := by
  have hw := s.within_next placeholders
  cases hn : s.next placeholders with
  | finished =>
    rw [hn] at h
    cases h
  | moved found t =>
    rw [hn] at h hw
    obtain rfl := Option.some.inj h
    exact hw
  | lexeme l t =>
    rw [hn] at h hw
    obtain rfl := Option.some.inj h
    exact hw
  | value v m t =>
    rw [hn] at h hw
    obtain rfl := Option.some.inj h
    have hv := v.nodes_pos
    simp only [Within] at hw
    omega

/-- What holds of a state if it holds of the states behind its next step, holds of every state. -/
theorem Pass.induction {P : Pass → Prop} (placeholders : Bool)
    (step : ∀ s, (∀ u, (s.next placeholders).state? = some u → ∀ text, P (u.write text)) → P s) (s : Pass) : P s :=
  step s fun u hu text =>
    have := Pass.progress hu
    Pass.induction placeholders step (u.write text)
  termination_by (s.nodes, s.lexemes.length)
  decreasing_by
    rw [Prod.lex_def, Pass.nodes_write, Pass.lexemes_write]
    exact this

theorem Next.Related.with_states {R : Pass → Pass → Prop} {x y : Next} (h : Next.Related R x y) :
    Next.Related (fun s t => R s t ∧ x.state? = some s ∧ y.state? = some t) x y := by
  cases h with
  | moved found h => exact .moved found ⟨h, rfl, rfl⟩
  | lexeme l h => exact .lexeme l ⟨h, rfl, rfl⟩
  | value v m h => exact .value v m ⟨h, rfl, rfl⟩

theorem Next.Related.with_state {R : Pass → Pass → Prop} {x y : Next} (h : Next.Related R x y) :
    Next.Related (fun s t => R s t ∧ x.state? = some s) x y :=
  h.with_states.mono fun _ _ h => ⟨h.1, h.2.1⟩

theorem Next.Related.exists_state {R : Pass → Pass → Prop} {x y : Next} (h : Next.Related R x y) {s : Pass}
    (hs : x.state? = some s) : ∃ t, y.state? = some t ∧ R s t := by
  cases h with
  | moved found h =>
    cases hs
    exact ⟨_, rfl, h⟩
  | lexeme l h =>
    cases hs
    exact ⟨_, rfl, h⟩
  | value v m h =>
    cases hs
    exact ⟨_, rfl, h⟩

/-- Related states come to alike ends, if they do at once or their next steps are related again. What is done with the
text of the first is `k`. -/
theorem run_bind_related {E : Render String → Render String → Prop} (hE : Render.Congruence E)
    {k : String → Render String} {R : Pass → Pass → Prop}
    (hR : ∀ s t, R s t → E (run ctx s >>= k) (run ctx t) ∨
      Next.Related (fun u v => ∀ text, R (u.write text) (v.write text)) (s.next ctx.placeholders)
        (t.next ctx.placeholders))
    (h : R s t) : E (run ctx s >>= k) (run ctx t) := by
  induction s using Pass.induction ctx.placeholders generalizing t with
  | step s ih =>
    rcases hR s t h with hend | hnext
    · exact hend
    · refine run_bind_of_related hE ?_ hnext.with_state
      rintro u v ⟨huv, hu⟩ text
      exact ih u hu text (huv text)

/-- Related states come to alike ends, if their next steps are related again or both are the last. -/
theorem run_related {E : Render String → Render String → Prop} (hE : Render.Congruence E) {R : Pass → Pass → Prop}
    (hR : ∀ s t, R s t →
      (s.next ctx.placeholders = .finished ∧ t.next ctx.placeholders = .finished ∧ E (s.finish ctx) (t.finish ctx)) ∨
        Next.Related (fun u v => ∀ text, R (u.write text) (v.write text)) (s.next ctx.placeholders)
          (t.next ctx.placeholders))
    (h : R s t) : E (run ctx s) (run ctx t) := by
  rw [← bind_pure (run ctx s)]
  refine run_bind_related hE (fun u v huv => ?_) h
  rcases hR u v huv with ⟨hu, hv, hfinish⟩ | hnext
  · rw [bind_pure, run_finished hu, run_finished hv]
    exact .inl hfinish
  · exact .inr hnext

end SqlComposer
