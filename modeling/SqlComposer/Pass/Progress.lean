import SqlComposer.Pass

/-!
# Every step of a pass uses something up

* `Pass.nodes` : the size of the tokens to come;
* `Pass.Within` : what a step may leave; `Pass.within_next` : a step uses up tokens, or else a lexeme, and a
  value that it asks for is smaller than what was left.
-/

namespace SqlComposer.Pass

/-- The size of the tokens to come. -/
def nodes (s : Pass) : Nat :=
  tokenNodes s.queue

/-- The step leaves fewer than `n` nodes of tokens, or `n` nodes and fewer than `k` lexemes. A value that
it asks for and the tokens it leaves are together no larger than `n`. -/
def Within (n k : Nat) : Next → Prop
  | .finished => True
  | .moved _ s => s.nodes < n ∨ (s.nodes = n ∧ s.lexemes.length < k)
  | .lexeme _ s => s.nodes < n ∨ (s.nodes = n ∧ s.lexemes.length < k)
  | .value v _ s => v.nodes + s.nodes ≤ n

theorem Within.le {n k j : Nat} {x : Next} (h : Within n k x) (hk : k ≤ j) : Within n j x := by
  cases x <;> simp only [Within] at h ⊢ <;> omega

theorem Within.mono {n m k : Nat} {x : Next} (h : Within n k x) (hn : n < m) (j : Nat) : Within m j x := by
  cases x <;> simp only [Within] at h ⊢ <;> omega

@[simp] theorem nodes_write (text : String) (s : Pass) : (s.write text).nodes = s.nodes := rfl

@[simp] theorem lexemes_write (text : String) (s : Pass) : (s.write text).lexemes = s.lexemes := rfl

@[simp] theorem nodes_marked (i : Issue) (s : Pass) : (s.marked i).nodes = s.nodes := by
  unfold marked; split <;> rfl

@[simp] theorem lexemes_marked (i : Issue) (s : Pass) : (s.marked i).lexemes = s.lexemes := by
  unfold marked; split <;> rfl

theorem within_fail (i : Issue) (s : Pass) : Within s.nodes (s.lexemes.length + 1) (s.fail i) := by
  simp [Within, fail]

theorem within_endBranch {n k : Nat} {x : Next} (h : Within n k x) : Within n k (endBranch x) := by
  cases x <;> exact h

theorem within_branched (s : Pass) (b : Except Issue Branches) :
    Within s.nodes (s.lexemes.length + 1) (s.branched b) := by
  cases b with
  | ok b => simp [Within, branched, nodes]
  | error i => exact within_fail i s

/-- What takes a token leaves less, if what it does then adds no more than the token had. -/
theorem within_take (code : String) (s : Pass) (f : Value → Pass → Next)
    (h : ∀ v s', v.nodes + s'.nodes = s.nodes → s'.lexemes = s.lexemes →
      Within s.nodes (s.lexemes.length + 1) (f v s')) :
    Within s.nodes (s.lexemes.length + 1) (s.take code f) := by
  unfold take
  split
  · exact within_fail _ s
  · next t queue hq => exact h _ _ (by simp [nodes, hq, tokenNodes]) rfl

theorem length_le_of_dropElseIf? {ls rest : List Lexeme} (h : dropElseIf? ls = some rest) :
    rest.length ≤ ls.length := by
  unfold dropElseIf? at h
  split at h
  · split at h <;> cases h; simp
  · split at h <;> cases h; simp; omega
  · cases h

theorem within_block (k : Keyword) (s : Pass) : Within s.nodes (s.lexemes.length + 1) (s.block k) := by
  have lt {v : Value} {t : Pass} (h : v.nodes + t.nodes = s.nodes) : t.nodes < s.nodes := by
    have := v.nodes_pos; omega
  unfold block
  split
  · exact within_endBranch (within_take _ s _ fun v t h _ => (within_branched t _).mono (lt h) _)
  · split
    · next rest hr =>
      have hl := length_le_of_dropElseIf? hr
      exact within_endBranch <| (within_take _ { s with lexemes := rest } _
        fun v t h _ => (within_branched t _).mono (lt h) _).le (Nat.succ_le_succ hl)
    · exact within_endBranch (within_branched s _)
  · exact within_endBranch (within_branched s _)

theorem within_bound (k : Keyword) (s : Pass) : Within s.nodes (s.lexemes.length + 1) (s.bound k) := by
  refine within_take _ s _ fun v t h hl => ?_
  have hv := v.nodes_pos
  split
  · simp only [Within]; omega
  · split
    · simp only [Within, nodes] at h ⊢; omega
    · exact (within_fail _ t).mono (by omega) _

theorem within_expand (s : Pass) : Within s.nodes (s.lexemes.length + 1) s.expand := by
  refine within_take _ s _ fun v t h hl => ?_
  have hv := v.nodes_pos
  split
  · simp only [Within]; omega
  · split
    · simp only [Within, nodes, Value.nodes, tokenNodes_append, tokenNodes_map_ofElement] at h ⊢; omega
    · simp only [Within, nodes, Value.nodes, tokenNodes_append] at h ⊢; omega
    · simp only [Within]; omega

theorem tokenNodes_tail_le (ts : List Token) : tokenNodes ts.tail ≤ tokenNodes ts := by
  cases ts <;> simp [tokenNodes]

theorem within_unknown (code : String) (s : Pass) :
    Within s.nodes (s.lexemes.length + 1) (s.unknown code) := by
  have step (t : Pass) (hn : t.nodes ≤ s.nodes) (hl : t.lexemes = s.lexemes) :
      Within s.nodes (s.lexemes.length + 1) (if t.isMasked then .moved [] t else t.fail (.unknownModifier code)) := by
    split
    · simp only [Within, hl]; omega
    · simp only [Within, fail, nodes_marked, lexemes_marked, hl]; omega
  unfold unknown
  split
  · exact step _ (tokenNodes_tail_le s.queue) rfl
  · exact step _ (Nat.le_refl _) rfl

theorem within_marker (code : String) (inText : Bool) (s : Pass) :
    Within s.nodes (s.lexemes.length + 1) (s.marker code inText) := by
  unfold marker
  split
  · exact within_unknown code s
  · split
    · exact within_bound _ s
    · split
      · exact within_block _ s
      · exact within_fail _ s
  · exact within_expand s
  · refine within_take _ s _ fun v t h hl => ?_
    have hv := v.nodes_pos
    split <;> simp only [Within] <;> omega

theorem within_placeholder (s : Pass) : Within s.nodes (s.lexemes.length + 1) s.placeholder := by
  unfold placeholder
  split
  · exact within_fail _ s
  · next t queue hq =>
    have ht := t.nodes_pos
    simp only
    split <;> simp only [Within, nodes, hq, tokenNodes, Token.nodes_toValue] <;> omega

theorem within_onLexeme (l : Lexeme) (s : Pass) : Within s.nodes (s.lexemes.length + 1) (s.onLexeme l) := by
  unfold onLexeme
  split
  · exact within_marker _ _ s
  · exact within_placeholder s
  · split <;> simp [Within]

theorem within_onValue (v : Value) (s : Pass) : Within (v.nodes + s.nodes) 0 (s.onValue v) := by
  have hv := v.nodes_pos
  unfold onValue
  split
  · simp only [Within, nodes]; omega
  · split
    · unfold mapping
      simp only
      split
      · simp [Within, nodes]
      · split <;> simp [Within, nodes, write, endToken]
    · simp [Within, nodes]

theorem within_onToken (placeholders : Bool) (t : Token) (s : Pass) :
    Within (t.nodes + s.nodes) 0 (s.onToken placeholders t) := by
  unfold onToken
  split
  · simp only [Within, nodes, Token.nodes]; omega
  · exact (within_marker _ _ _).mono (by simp only [nodes, Token.nodes]; omega) _
  · exact within_onValue _ _

/-- A step either uses up tokens, or leaves them and uses up a lexeme. -/
theorem within_next (placeholders : Bool) (s : Pass) :
    Within s.nodes s.lexemes.length (s.next placeholders) := by
  unfold next
  split
  · next l rest hl =>
    rw [hl]
    exact within_onLexeme l { s with lexemes := rest }
  · next hl =>
    split
    · trivial
    · next t queue hq =>
      have := within_onToken placeholders t { s with queue := queue }.endToken
      simpa [nodes, hq, tokenNodes, hl, endToken] using this

end SqlComposer.Pass
