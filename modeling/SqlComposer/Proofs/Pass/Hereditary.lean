import SqlComposer.Proofs.Pass.Met

/-!
# What is asked for stands in the stream

* `Value.Hereditary` : a property of values that their parts have too;
* `Pass.of_next`, `Work.Runs.of` : a pass and the writing of a value come to nothing but parts of what they are given;
* `Value.Renders` : every expression in the value writes itself;
* `succeeds_of_renders` : if every expression in a stream writes itself, so does every expression that is asked for.
-/

namespace SqlComposer

/-- The parts of a value have the property, if the value has it. -/
structure Value.Hereditary (P : Value → Prop) : Prop where
  list : ∀ {items : List Value}, P (.list items) → ∀ v ∈ items, P v
  map : ∀ {entries : List (String × Value)}, P (.map entries) → ∀ e ∈ entries, P e.2
  fragment : ∀ {ts : List Token}, P (.fragment ts) → ∀ t ∈ ts, P t.toValue

@[simp] theorem Token.toValue_ofElement (v : Value) : (ofElement v).toValue = v := by
  unfold ofElement
  split <;> rfl

/-! ## Passes -/

/-- The tokens to come have the property. -/
def Pass.Of (P : Value → Prop) (s : Pass) : Prop :=
  ∀ t ∈ s.queue, P t.toValue

/-- The value that the step asks for and the tokens that it leaves have the property. -/
def Next.Of (P : Value → Prop) : Next → Prop
  | .finished => True
  | .moved _ s | .lexeme _ s => s.Of P
  | .value v _ s => P v ∧ s.Of P

theorem Next.Of.state {P : Value → Prop} {x : Next} {t : Pass} (h : x.Of P) (ht : x.state? = some t) : t.Of P := by
  cases x with
  | finished => cases ht
  | moved found s =>
    cases ht
    exact h
  | lexeme l s =>
    cases ht
    exact h
  | value v m s =>
    cases ht
    exact h.2

namespace Pass

variable {P : Value → Prop} {s : Pass}

theorem of_fail (h : s.Of P) (i : Issue) : (s.fail i).Of P := by
  show (s.marked i).Of P
  unfold marked
  split <;> exact h

theorem of_endBranch {x : Next} (h : x.Of P) : (endBranch x).Of P := by
  cases x <;> exact h

theorem of_branched (h : s.Of P) (b : Except Issue Branches) : (s.branched b).Of P := by
  cases b with
  | ok b => exact h
  | error i => exact of_fail h i

theorem of_take (h : s.Of P) (code : String) {f : Value → Pass → Next}
    (hf : ∀ v (u : Pass), P v → u.Of P → (f v u).Of P) : (s.take code f).Of P := by
  unfold take
  split
  · exact of_fail h _
  · next t queue hq =>
    rw [Of, hq] at h
    exact hf _ _ (h t List.mem_cons_self) fun u hu => h u (List.mem_cons_of_mem _ hu)

theorem of_block (h : s.Of P) (k : Keyword) : (s.block k).Of P := by
  unfold block
  split
  · exact of_endBranch (of_take h _ fun v u _ hu => of_branched hu _)
  · split
    · next lexemes _ =>
      have h' : Pass.Of P { s with lexemes := lexemes } := h
      exact of_endBranch (of_take h' _ fun v u _ hu => of_branched hu _)
    · exact of_endBranch (of_branched h _)
  · exact of_endBranch (of_branched h _)

theorem of_bound (h : s.Of P) (k : Keyword) : (s.bound k).Of P := by
  apply of_take h
  intro v u _ hu
  split
  · exact hu
  · split
    · exact hu
    · exact of_fail hu _

theorem of_expand (hP : Value.Hereditary P) (h : s.Of P) : s.expand.Of P := by
  apply of_take h
  intro v u hv hu
  split
  · exact hu
  · split
    · next items =>
      intro t ht
      rcases List.mem_append.1 ht with ht | ht
      · obtain ⟨v, hmem, rfl⟩ := List.mem_map.1 ht
        rw [Token.toValue_ofElement]
        exact hP.list hv v hmem
      · exact hu t ht
    · intro t ht
      rcases List.mem_append.1 ht with ht | ht
      · exact hP.fragment hv t ht
      · exact hu t ht
    · exact ⟨hv, hu⟩

theorem of_unknown (h : s.Of P) (code : String) : (s.unknown code).Of P := by
  have htail : Pass.Of P { s with queue := s.queue.tail } := fun t ht => h t (List.mem_of_mem_tail ht)
  have hstep (u : Pass) (hu : u.Of P) :
      Next.Of P (if u.isMasked then .moved [] u else u.fail (.unknownModifier code)) := by
    split
    · exact hu
    · exact of_fail hu _
  unfold unknown
  split
  · exact hstep _ htail
  · exact hstep _ h

theorem of_marker (hP : Value.Hereditary P) (h : s.Of P) (code : String) (inText : Bool) :
    (s.marker code inText).Of P := by
  unfold marker
  split
  · exact of_unknown h code
  · split
    · exact of_bound h _
    · split
      · exact of_block h _
      · exact of_fail h _
  · exact of_expand hP h
  · apply of_take h
    intro v u hv hu
    split
    · exact hu
    · exact ⟨hv, hu⟩

theorem of_placeholder (h : s.Of P) : s.placeholder.Of P := by
  unfold placeholder
  split
  · exact of_fail h _
  · next t queue hq =>
    rw [Of, hq] at h
    have hrest : Pass.Of P { s with queue := queue } := fun u hu => h u (List.mem_cons_of_mem _ hu)
    simp only
    split
    · exact hrest
    · exact ⟨h t List.mem_cons_self, hrest⟩

theorem of_onLexeme (hP : Value.Hereditary P) (h : s.Of P) (l : Lexeme) : (s.onLexeme l).Of P := by
  unfold onLexeme
  split
  · exact of_marker hP h _ _
  · exact of_placeholder h
  · split <;> exact h

theorem of_onValue (h : s.Of P) {v : Value} (hv : P v) : (s.onValue v).Of P := by
  unfold onValue
  split
  · exact h
  · split
    · unfold mapping
      simp only
      split
      · exact ⟨hv, h⟩
      · split <;> exact ⟨hv, h⟩
    · exact ⟨hv, h⟩

theorem of_onToken (hP : Value.Hereditary P) (h : s.Of P) {t : Token} (ht : P t.toValue) (placeholders : Bool) :
    (s.onToken placeholders t).Of P := by
  cases t with
  | sql text => exact h
  | modifier code => exact of_marker (s := { s with lastRow := s.lastRow.next }) hP h code false
  | value v => exact of_onValue h ht

/-- Every step asks for a token of the stream or a part of one, and leaves others of them. -/
theorem of_next (hP : Value.Hereditary P) (h : s.Of P) (placeholders : Bool) : (s.next placeholders).Of P := by
  unfold next
  split
  · next l lexemes _ => exact of_onLexeme (s := { s with lexemes := lexemes }) hP h l
  · split
    · trivial
    · next t queue hq =>
      rw [Of, hq] at h
      have hrest : Pass.Of P { s with queue := queue }.endToken := fun u hu => h u (List.mem_cons_of_mem _ hu)
      exact of_onToken hP hrest (h t List.mem_cons_self) placeholders

end Pass

/-! ## The course of the work -/

/-- The tokens to come in the pass have the property, or the value has it. -/
def Work.Of (P : Value → Prop) : Work → Prop
  | .pass s => s.Of P
  | .value _ v => P v

variable {P : Value → Prop} {ctx : Context} {w w' : Work}

theorem of_start {ts : List Token} (h : ∀ t ∈ ts, P t.toValue) : (Work.pass (.start ts)).Of P :=
  h

theorem Reached.mem {entries : List (String × Value)} {height height' : Option Nat} {e : String × Value}
    (h : Reached height entries height' e) : e ∈ entries := by
  induction h with
  | here => exact List.mem_cons_self
  | later _ _ ih => exact List.mem_cons_of_mem _ ih

theorem Work.Part.of (hP : Value.Hereditary P) (hp : w.Part ctx w') (h : w.Of P) : w'.Of P := by
  cases hp with
  | @step s _ hstep =>
    obtain ⟨t, ht, out, rfl⟩ := hstep
    show t.Of P
    exact (Pass.of_next hP h ctx.placeholders).state ht
  | asked hn =>
    have hnext := Pass.of_next hP h ctx.placeholders
    rw [hn] at hnext
    exact hnext.1
  | fragment _ ts => exact of_start (hP.fragment h)
  | elements _ items =>
    apply of_start
    intro t ht
    obtain ⟨v, hmem, rfl⟩ := List.mem_map.1 ht
    rw [Token.toValue_ofElement]
    exact hP.list h v hmem
  | item _ hv => exact hP.list h _ hv
  | entry _ he _ => exact hP.map h _ he
  | order he _ => exact hP.map h _ he
  | cell he hv _ => exact hP.list (hP.map h _ he) _ hv

theorem Work.Runs.of (hP : Value.Hereditary P) (hrun : w.Runs ctx w') (h : w.Of P) : w'.Of P := by
  cases hrun with
  | part hp _ => exact hp.of hP h
  | cell he _ hv _ => exact hP.list (hP.map h _ he.mem) _ hv

/-! ## Expressions -/

/-- Every expression in the value writes itself in the dialect, under any modifier. -/
inductive Value.Renders (d : Dialect) : Value → Prop
  | scalar (a : Scalar) : Renders d (.scalar a)
  | expression {e : Expression} (h : ∀ m, ∃ text, e.render d m = .ok text) : Renders d (.expression e)
  | list {items : List Value} (h : ∀ v ∈ items, Renders d v) : Renders d (.list items)
  | map {entries : List (String × Value)} (h : ∀ e ∈ entries, Renders d e.2) : Renders d (.map entries)
  | fragment {ts : List Token} (h : ∀ t ∈ ts, Renders d t.toValue) : Renders d (.fragment ts)

theorem hereditary_renders (d : Dialect) : Value.Hereditary (Value.Renders d) where
  list h := by
    cases h with
    | list h => exact h
  map h := by
    cases h with
    | map h => exact h
  fragment h := by
    cases h with
    | fragment h => exact h

/-- Where every expression in a pass or value writes itself, every expression that is asked for does. -/
theorem Work.Of.succeeds (h : w.Of (Value.Renders ctx.dialect)) : w.Succeeds ctx := by
  have hall (w' : Work) (hreach : Relation.ReflTransGen (Work.Runs ctx) w w') : w'.Of (Value.Renders ctx.dialect) := by
    induction hreach with
    | refl => exact h
    | tail _ hrun ih => exact hrun.of (hereditary_renders _) ih
  intro m e hreach
  cases hall _ hreach with
  | expression h => exact h m

theorem succeeds_of_renders {ts : List Token} (h : ∀ t ∈ ts, t.toValue.Renders ctx.dialect) :
    (Work.pass (.start ts)).Succeeds ctx :=
  (of_start h).succeeds

end SqlComposer
