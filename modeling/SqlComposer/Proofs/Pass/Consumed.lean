import SqlComposer.Proofs.Pass.Overlooked

/-!
# The tokens that a step takes

* `Pass.taken` : how many tokens the next step takes from the stream;
* `Next.TakesFrom` : a step takes tokens from the front, and puts back less than it takes;
* `Pass.takes_next` : the next step does so with `Pass.taken`;
* `Pass.nodes_next`, `Pass.nodes_of_trans` : what is to come shrinks by every token that is taken, and from one token of
  the stream to the next.
-/

namespace SqlComposer

/-- How many tokens a marker takes. -/
def takenBy (code : String) (inText : Bool) (behind : List Lexeme) (q : List Token) : Nat :=
  if takesNext code inText behind then min 1 q.length else 0

/-- How many tokens the next step takes: the next one of the stream, and one for a marker or placeholder if any is left. -/
def Pass.taken (s : Pass) : Nat :=
  match s.lexemes, s.queue with
  | .marker code :: behind, q => takenBy code true behind q
  | .placeholder :: _, q => min 1 q.length
  | _ :: _, _ => 0
  | [], .modifier code :: q => takenBy code false [] q + 1
  | [], _ :: _ => 1
  | [], [] => 0

/-- The step takes the first `k` tokens of `q`. What it puts back in front of the others is smaller than they are, by a node
for each of them. -/
def Next.TakesFrom (q : List Token) (k : Nat) (x : Next) : Prop :=
  ∀ u, x.state? = some u → ∃ back, u.queue = back ++ q.drop k ∧ tokenNodes back + k ≤ tokenNodes (q.take k)

theorem length_le_tokenNodes (ts : List Token) : ts.length ≤ tokenNodes ts := by
  induction ts with
  | nil => exact Nat.le_refl 0
  | cons t ts ih =>
    have ht := t.nodes_pos
    rw [List.length_cons, tokenNodes]
    omega

namespace Next.TakesFrom

variable {x : Next} {q : List Token} {k : Nat}

/-- Where nothing is put back. -/
theorem of_queue (hk : k ≤ q.length) (h : ∀ u, x.state? = some u → u.queue = q.drop k) : x.TakesFrom q k := by
  intro u hu
  have hlength := length_le_tokenNodes (q.take k)
  rw [List.length_take_of_le hk] at hlength
  exact ⟨[], h u hu, by rwa [tokenNodes, Nat.zero_add]⟩

theorem endBranch (h : x.TakesFrom q k) : (Pass.endBranch x).TakesFrom q k := by
  cases x with
  | moved found s =>
    rintro u ⟨⟩
    exact h s rfl
  | _ => exact h

/-- One more token in front. -/
theorem cons (h : x.TakesFrom q k) (t : Token) : x.TakesFrom (t :: q) (k + 1) := by
  intro u hu
  obtain ⟨back, hq, hback⟩ := h u hu
  have ht := t.nodes_pos
  refine ⟨back, hq, ?_⟩
  rw [List.take_succ_cons, tokenNodes]
  omega

end Next.TakesFrom

namespace Pass

open Next (TakesFrom)

variable (s : Pass)

/-! ## Steps that take nothing -/

theorem takes_moved (found : List Issue) : (Next.moved found s).TakesFrom s.queue 0 := by
  refine .of_queue (Nat.zero_le _) ?_
  rintro u ⟨⟩
  rfl

theorem takes_value (v : Value) (m : Option Modifier) : (Next.value v m s).TakesFrom s.queue 0 := by
  refine .of_queue (Nat.zero_le _) ?_
  rintro u ⟨⟩
  rfl

theorem takes_fail (i : Issue) : (s.fail i).TakesFrom s.queue 0 := by
  refine .of_queue (Nat.zero_le _) ?_
  rintro u ⟨⟩
  unfold marked
  split <;> rfl

theorem takes_branched (b : Except Issue Branches) : (s.branched b).TakesFrom s.queue 0 := by
  cases b with
  | ok b => exact takes_moved { s with branches := b } []
  | error i => exact takes_fail s i

/-! ## Markers and placeholders -/

/-- What takes a token takes the first, if there is one. -/
theorem takes_take (code : String) {f : Value → Pass → Next}
    (hf : ∀ (t : Token) (u : Pass), (f t.toValue u).TakesFrom (t :: u.queue) 1) :
    (s.take code f).TakesFrom s.queue (min 1 s.queue.length) := by
  unfold take
  split
  · next hq =>
    have h := takes_fail s (.extraModifier code)
    rw [hq] at h ⊢
    exact h
  · next t queue hq =>
    rw [hq, List.length_cons, Nat.min_eq_left (Nat.succ_pos _)]
    exact hf t { s with queue := queue }

theorem takes_block {k : Keyword} (hk : k.isConditional = true) :
    (s.block k).TakesFrom s.queue (takenBy k.code true s.lexemes s.queue) := by
  cases k with
  | ifTrue => exact (takes_take s _ fun t u => (takes_branched u _).cons t).endBranch
  | otherwise =>
    unfold block
    cases hd : dropElseIf? s.lexemes with
    | none =>
      have htakes : takesNext Keyword.otherwise.code true s.lexemes = false := by simp [takesNext, hd]
      rw [takenBy, htakes]
      exact (takes_branched s _).endBranch
    | some lexemes =>
      have htakes : takesNext Keyword.otherwise.code true s.lexemes = true := by simp [takesNext, hd]
      rw [takenBy, htakes]
      exact (takes_take { s with lexemes := lexemes } _ fun t u => (takes_branched u _).cons t).endBranch
  | endIf => exact (takes_branched s _).endBranch
  | limit => cases hk
  | offset => cases hk

theorem takes_bound (k : Keyword) : (s.bound k).TakesFrom s.queue (min 1 s.queue.length) := by
  refine takes_take s _ fun t u => TakesFrom.cons ?_ t
  split
  · exact takes_moved u []
  · split
    · next count _ => exact takes_moved { u with bounds := setBound k count u.bounds } []
    · exact takes_fail u _

/-- The elements of a list or fragment come in its place. -/
theorem takes_expand : s.expand.TakesFrom s.queue (min 1 s.queue.length) := by
  refine takes_take s _ fun t u => ?_
  have hnodes : tokenNodes ((t :: u.queue).take 1) = t.toValue.nodes := by
    rw [List.take_succ_cons, List.take_zero, tokenNodes, tokenNodes, Nat.add_zero, Token.nodes_toValue]
  split
  · exact (takes_moved u []).cons t
  · split
    · next items hv =>
      rintro u ⟨⟩
      refine ⟨items.map Token.ofElement, rfl, ?_⟩
      rw [hnodes, hv, tokenNodes_map_ofElement, Value.nodes]
      omega
    · next tokens hv =>
      rintro u ⟨⟩
      refine ⟨tokens, rfl, ?_⟩
      rw [hnodes, hv, Value.nodes]
      omega
    · exact (takes_value u _ _).cons t

theorem takes_unknown (code : String) :
    (s.unknown code).TakesFrom s.queue (if s.lexemes.isEmpty then min 1 s.queue.length else 0) := by
  have step (u : Pass) : TakesFrom u.queue 0 (if u.isMasked then .moved [] u else u.fail (.unknownModifier code)) := by
    split
    · exact takes_moved u []
    · exact takes_fail u _
  unfold unknown
  split
  · cases hq : s.queue with
    | nil => exact step { s with queue := [] }
    | cons t q =>
      rw [List.length_cons, Nat.min_eq_left (Nat.succ_pos _)]
      exact (step { s with queue := q }).cons t
  · exact step s

theorem takes_marker (code : String) (inText : Bool) :
    (s.marker code inText).TakesFrom s.queue (takenBy code inText s.lexemes s.queue) := by
  unfold marker
  split
  · next hc =>
    have htakes : takesNext code inText s.lexemes = s.lexemes.isEmpty := by rw [takesNext, hc]
    rw [takenBy, htakes]
    exact takes_unknown s code
  · next k hc =>
    obtain rfl := Marker.code_of_ofCode? hc
    cases hk : k.isConditional with
    | false =>
      have htakes : takesNext k.code inText s.lexemes = true := by
        cases k <;> first | rfl | cases hk
      rw [takenBy, htakes]
      exact takes_bound s k
    | true =>
      cases inText with
      | false =>
        have htakes : takesNext k.code false s.lexemes = false := by
          cases k <;> first | rfl | cases hk
        rw [takenBy, htakes]
        exact takes_fail s _
      | true => exact takes_block s hk
  · next hc =>
    have htakes : takesNext code inText s.lexemes = true := by simp [takesNext, hc]
    rw [takenBy, htakes]
    exact takes_expand s
  · next m hc =>
    have htakes : takesNext code inText s.lexemes = true := by simp [takesNext, hc]
    rw [takenBy, htakes]
    refine takes_take s code fun t u => TakesFrom.cons ?_ t
    split
    · exact takes_moved u []
    · exact takes_value u _ _

theorem takes_placeholder : s.placeholder.TakesFrom s.queue (min 1 s.queue.length) := by
  unfold placeholder
  split
  · next hq =>
    have h := takes_fail s .extraPlaceholder
    rw [hq] at h ⊢
    exact h
  · next t queue hq =>
    rw [hq, List.length_cons, Nat.min_eq_left (Nat.succ_pos _)]
    refine TakesFrom.cons ?_ t
    show TakesFrom queue 0 (if _ then _ else _)
    split
    · exact takes_moved { s with queue := queue } []
    · exact takes_value { s with queue := queue } _ _

/-! ## The next step -/

theorem takes_onValue (v : Value) : (s.onValue v).TakesFrom s.queue 0 := by
  unfold onValue
  split
  · exact takes_moved { s with lastRow := s.lastRow.next } []
  · split
    · unfold mapping
      simp only
      split
      · exact takes_value { s with lastRow := .adjacent } _ _
      · split
        · exact takes_value { s with lastRow := .adjacent } _ _
        · exact takes_value ({ s with lastRow := .adjacent }.write ",").endToken _ _
        · exact takes_value { s with lastRow := .adjacent } _ _
    · exact takes_value { s with lastRow := s.lastRow.next } _ _

theorem takes_passive (l : Lexeme) : TakesFrom s.queue 0 (if s.isMasked then .moved [] s else .lexeme l s) := by
  split
  · exact takes_moved s []
  · refine .of_queue (Nat.zero_le _) ?_
    rintro u ⟨⟩
    rfl

/-- A step takes its tokens from the front of the stream. -/
theorem takes_next (placeholders : Bool) : (s.next placeholders).TakesFrom s.queue s.taken := by
  unfold taken next
  cases hl : s.lexemes with
  | cons l behind =>
    cases l with
    | marker code => exact takes_marker { s with lexemes := behind } code true
    | placeholder => exact takes_placeholder { s with lexemes := behind }
    | _ => exact takes_passive { s with lexemes := behind } _
  | nil =>
    cases hq : s.queue with
    | nil => rintro u ⟨⟩
    | cons t q =>
      let s' : Pass := { s with lexemes := [], queue := q }.endToken
      cases t with
      | sql text =>
        exact (takes_moved { s' with lexemes := scan (.fragment placeholders) text, lastRow := s.lastRow.next } []).cons _
      | modifier code =>
        exact (takes_marker { s' with lastRow := s.lastRow.next } code false).cons _
      | value v => exact (takes_onValue s' v).cons _

variable {s : Pass} {u : Pass} {placeholders : Bool}

/-- What is to come shrinks by every token that is taken. -/
theorem nodes_next (h : (s.next placeholders).state? = some u) : u.nodes + s.taken ≤ s.nodes := by
  obtain ⟨back, hq, hback⟩ := takes_next s placeholders u h
  have hsplit := tokenNodes_append (s.queue.take s.taken) (s.queue.drop s.taken)
  rw [List.take_append_drop] at hsplit
  rw [nodes, nodes, hq, tokenNodes_append]
  omega

theorem taken_pos (hl : s.lexemes = []) (hq : s.queue ≠ []) : 0 < s.taken := by
  obtain ⟨t, q, hq⟩ := List.exists_cons_of_ne_nil hq
  unfold taken
  rw [hl, hq]
  cases t with
  | modifier code => exact Nat.succ_pos _
  | _ => exact Nat.one_pos

/-- Behind the next token of the stream, and everything that it takes, less is to come. -/
theorem nodes_of_trans (hl : s.lexemes = []) (h : Relation.TransGen (Step placeholders) s u) : u.nodes < s.nodes := by
  obtain ⟨_, ⟨t, ht, out, rfl⟩, hreach⟩ := Relation.TransGen.head'_iff.1 h
  have hq : s.queue ≠ [] := by
    intro hq
    rw [next, hl, hq] at ht
    cases ht
  have htaken := taken_pos hl hq
  have hnext := nodes_next ht
  have hle : u.nodes ≤ t.nodes := Reaches.nodes_le (s := { t with out := out }) hreach
  omega

end Pass

end SqlComposer
