import SqlComposer.Proofs.Pass.Run

/-!
# Two passes side by side

* `Pass.Takes` : the value that the next step takes from the stream; `Pass.Chooses` : the step at which a condition
  may choose a branch;
* `SameBut` : streams with the same tokens, but for some values;
* `Parallel` : two states that differ in some values to come and in their outputs alone;
* `Parallel.next` : they stay so, if a value in which they differ is taken only where the output is left out and not
  as a condition that may choose a branch.
-/

namespace SqlComposer

/-! ## What a step takes -/

/-- Whether a marker takes the next token. Blocks are known in SQL text only, and an unknown code takes a token only
as the last lexeme of its text. -/
def takesNext (code : String) (inText : Bool) (behind : List Lexeme) : Bool :=
  match Marker.ofCode? code with
  | none => behind.isEmpty
  | some (.keyword .ifTrue) => inText
  | some (.keyword .otherwise) => inText && (dropElseIf? behind).isSome
  | some (.keyword .endIf) => false
  | some _ => true

/-- The next step takes the value `v` from the front of `q`, as it stands or for a marker or a placeholder. -/
inductive Pass.Takes (s : Pass) (v : Value) (q : List Token) : Prop
  | bare (lexemes : s.lexemes = []) (queue : s.queue = .value v :: q)
  | modifier (code : String) (lexemes : s.lexemes = []) (queue : s.queue = .modifier code :: .value v :: q)
      (takes : takesNext code false [] = true)
  | marker (code : String) (behind : List Lexeme) (lexemes : s.lexemes = .marker code :: behind)
      (queue : s.queue = .value v :: q) (takes : takesNext code true behind = true)
  | placeholder (behind : List Lexeme) (lexemes : s.lexemes = .placeholder :: behind) (queue : s.queue = .value v :: q)

/-- The next step opens another branch of a block of which no branch has been chosen yet. -/
def Pass.Chooses (s : Pass) : Prop :=
  (∃ behind, s.lexemes = .marker Keyword.otherwise.code :: behind) ∧ s.branches.blocks.head? = some .waiting

theorem Marker.code_of_ofCode? {code : String} {k : Keyword} (h : ofCode? code = some (.keyword k)) : code = k.code := by
  unfold ofCode? at h
  split at h <;> cases h <;> rfl

/-! ## Streams that differ in some values -/

/-- Streams with the same tokens, but for values where `P` holds of the value and the tokens behind it. -/
inductive SameBut (P : Value → List Token → Prop) : List Token → List Token → Prop
  | nil : SameBut P [] []
  | same (t : Token) {q q' : List Token} (h : SameBut P q q') : SameBut P (t :: q) (t :: q')
  | value {v : Value} {q q' : List Token} (p : P v q) (w : Value) (h : SameBut P q q') :
      SameBut P (.value v :: q) (.value w :: q')

namespace SameBut

variable {P Q : Value → List Token → Prop} {q q' : List Token}

theorem refl (P : Value → List Token → Prop) : ∀ q, SameBut P q q
  | [] => .nil
  | t :: q => .same t (refl P q)

theorem mono (hPQ : ∀ v q, P v q → Q v q) (h : SameBut P q q') : SameBut Q q q' := by
  induction h with
  | nil => exact .nil
  | same t _ ih => exact .same t ih
  | value p w _ ih => exact .value (hPQ _ _ p) w ih

theorem append (h : SameBut P q q') : ∀ ts, SameBut P (ts ++ q) (ts ++ q')
  | [] => h
  | t :: ts => .same t (h.append ts)

theorem tail (h : SameBut P q q') : SameBut P q.tail q'.tail := by
  cases h with
  | nil => exact .nil
  | same t h => exact h
  | value p w h => exact h

/-- Values are no SQL text. -/
theorem firstText? (h : SameBut P q q') : SqlComposer.firstText? q = SqlComposer.firstText? q' := by
  induction h with
  | nil => rfl
  | same t _ ih => cases t <;> simp only [SqlComposer.firstText?, ih]
  | value p w _ ih => simpa only [SqlComposer.firstText?] using ih

end SameBut

/-! ## Side by side -/

/-- Outputs that stay alike when the same is added to both. -/
structure Output.Congruence (O : Output → Output → Prop) : Prop where
  push : ∀ {a b : Output} (piece : String), O a b → O (a.push piece) (b.push piece)
  endToken : ∀ {a b : Output}, O a b → O a.endToken b.endToken

/-- Two states that differ in their outputs, as `O` says, and in values to come, as `P` says. -/
structure Parallel (O : Output → Output → Prop) (P : Value → List Token → Prop) (s t : Pass) : Prop where
  queue : SameBut P s.queue t.queue
  lexemes : s.lexemes = t.lexemes
  out : O s.out t.out
  branches : s.branches = t.branches
  bounds : s.bounds = t.bounds
  inserting : s.inserting = t.inserting
  lastRow : s.lastRow = t.lastRow

namespace Parallel

variable {O : Output → Output → Prop} {P Q : Value → List Token → Prop} {s t : Pass} {x y : Next}

theorem isMasked (h : Parallel O P s t) : t.isMasked = s.isMasked :=
  congrArg Branches.isMasked h.branches.symm

theorem mono (h : Parallel O P s t) (hPQ : ∀ v q, P v q → Q v q) : Parallel O Q s t :=
  { h with queue := h.queue.mono hPQ }

theorem write (hO : Output.Congruence O) (h : Parallel O P s t) (text : String) :
    Parallel O P (s.write text) (t.write text) :=
  { h with out := hO.push text h.out }

theorem endToken (hO : Output.Congruence O) (h : Parallel O P s t) : Parallel O P s.endToken t.endToken :=
  { h with out := hO.endToken h.out }

theorem fail (hO : Output.Congruence O) (h : Parallel O P s t) (i : Issue) :
    Next.Related (Parallel O P) (s.fail i) (t.fail i) := by
  unfold Pass.fail Pass.marked
  rw [h.isMasked]
  split
  · exact .moved [i] h
  · exact .moved [i] (h.write hO i.mark)

theorem endBranch (hO : Output.Congruence O) (h : Next.Related (Parallel O P) x y) :
    Next.Related (Parallel O P) (Pass.endBranch x) (Pass.endBranch y) := by
  cases h with
  | moved found h => exact .moved found (h.endToken hO)
  | lexeme l h => exact .lexeme l h
  | value v m h => exact .value v m h

theorem branched (hO : Output.Congruence O) (h : Parallel O P s t) (b : Except Issue Branches) :
    Next.Related (Parallel O P) (s.branched b) (t.branched b) := by
  cases b with
  | ok b => exact .moved [] { h with branches := rfl }
  | error i => exact h.fail hO i

/-- What takes a token goes on alike, if what it does with a value in which the streams differ does not depend on
the value. -/
theorem take (hO : Output.Congruence O) (h : Parallel O P s t) (code : String) {f : Value → Pass → Next}
    (hf : ∀ v {s' t' : Pass}, Parallel O P s' t' → Next.Related (Parallel O P) (f v s') (f v t'))
    (hv : ∀ v q, s.queue = .value v :: q → P v q → ∀ w (u : Pass), u.branches = s.branches → f w u = f v u) :
    Next.Related (Parallel O P) (s.take code f) (t.take code f) := by
  have hq := h.queue
  generalize hs : s.queue = qs at hq
  generalize ht : t.queue = qt at hq
  cases hq with
  | nil =>
    rw [Pass.take, hs, Pass.take, ht]
    exact h.fail hO _
  | same x hq =>
    rw [Pass.take, hs, Pass.take, ht]
    exact hf _ { h with queue := hq }
  | @value v q q' p w hq =>
    have hw : f w { t with queue := q' } = f v { t with queue := q' } := hv v q hs p w _ h.branches.symm
    rw [Pass.take, hs, Pass.take, ht]
    show Next.Related _ (f v _) (f w _)
    rw [hw]
    exact hf v { h with queue := hq }

theorem openBlock_of_isMasked {b : Branches} (h : b.isMasked = true) (c d : Bool) : b.openBlock c = b.openBlock d := by
  have hl : leavesOut b.blocks = true := h
  simp [Branches.openBlock, Branch.first, h, hl]

/-- The condition of a further branch matters only where none has been chosen yet. -/
theorem otherwiseIf_of_ne_waiting {b : Branches} (h : b.blocks.head? ≠ some .waiting) (c d : Bool) :
    b.otherwiseIf c = b.otherwiseIf d := by
  obtain ⟨blocks, n, nested⟩ := b
  cases blocks with
  | nil => rfl
  | cons block outer =>
    cases block with
    | waiting => exact absurd rfl h
    | _ => rfl

theorem block (hO : Output.Congruence O) (h : Parallel O P s t) {k : Keyword} (hk : k.isConditional = true)
    (hv : takesNext k.code true s.lexemes = true → ∀ v q, s.queue = .value v :: q → P v q →
      s.isMasked = true ∧ (k = .otherwise → s.branches.blocks.head? ≠ some .waiting)) :
    Next.Related (Parallel O P) (s.block k) (t.block k) := by
  unfold Pass.block
  cases k with
  | ifTrue =>
    refine endBranch hO (h.take hO _ (fun v s' t' h' => ?_) fun v q hq p w u hu => ?_)
    · rw [h'.branches]
      exact h'.branched hO _
    · obtain ⟨hm, -⟩ := hv rfl v q hq p
      have hum : u.branches.isMasked = true := by
        rw [hu]
        exact hm
      exact congrArg (fun b => u.branched (.ok b)) (openBlock_of_isMasked hum _ _)
  | otherwise =>
    simp only [← h.lexemes]
    cases hd : dropElseIf? s.lexemes with
    | none =>
      simp only [h.branches]
      exact endBranch hO (h.branched hO _)
    | some rest =>
      have h' : Parallel O P { s with lexemes := rest } { t with lexemes := rest } := { h with lexemes := rfl }
      refine endBranch hO (h'.take hO _ (fun v s' t' h' => ?_) fun v q hq p w u hu => ?_)
      · rw [h'.branches]
        exact h'.branched hO _
      · have htakes : takesNext Keyword.otherwise.code true s.lexemes = true := by
          simp [takesNext, hd]
        obtain ⟨-, hne⟩ := hv htakes v q hq p
        have hune : u.branches.blocks.head? ≠ some .waiting := by
          rw [hu]
          exact hne rfl
        exact congrArg u.branched (otherwiseIf_of_ne_waiting hune _ _)
  | endIf =>
    simp only [h.branches]
    exact endBranch hO (h.branched hO _)
  | limit => cases hk
  | offset => cases hk

/-- Where the output is left out a value that is taken does not matter. -/
theorem ite_isMasked {u : Pass} (h : u.isMasked = true) (m x y : Next) :
    (if u.isMasked = true then m else x) = if u.isMasked = true then m else y := by
  rw [if_pos h, if_pos h]

theorem bound (hO : Output.Congruence O) (h : Parallel O P s t) (k : Keyword)
    (hv : ∀ v q, s.queue = .value v :: q → P v q → s.isMasked = true) :
    Next.Related (Parallel O P) (s.bound k) (t.bound k) := by
  refine h.take hO _ (fun v s' t' h' => ?_) fun v q hq p w u hu => ?_
  · rw [h'.isMasked]
    split
    · exact .moved [] h'
    · split
      · exact .moved [] { h' with bounds := congrArg (Pass.setBound k _) h'.bounds }
      · exact h'.fail hO _
  · exact ite_isMasked ((congrArg Branches.isMasked hu).trans (hv v q hq p)) _ _ _

theorem expand (hO : Output.Congruence O) (h : Parallel O P s t)
    (hv : ∀ v q, s.queue = .value v :: q → P v q → s.isMasked = true) :
    Next.Related (Parallel O P) s.expand t.expand := by
  refine h.take hO _ (fun v s' t' h' => ?_) fun v q hq p w u hu => ?_
  · rw [h'.isMasked]
    split
    · exact .moved [] h'
    · split
      · exact .moved [] { h' with queue := h'.queue.append _ }
      · exact .moved [] { h' with queue := h'.queue.append _ }
      · exact .value _ _ h'
  · exact ite_isMasked ((congrArg Branches.isMasked hu).trans (hv v q hq p)) _ _ _

/-- An unknown code takes a token without looking at it. -/
theorem unknown (hO : Output.Congruence O) (h : Parallel O P s t) (code : String) :
    Next.Related (Parallel O P) (s.unknown code) (t.unknown code) := by
  have step {s t : Pass} (h : Parallel O P s t) :
      Next.Related (Parallel O P) (if s.isMasked = true then .moved [] s else s.fail (.unknownModifier code))
        (if t.isMasked = true then .moved [] t else t.fail (.unknownModifier code)) := by
    rw [h.isMasked]
    split
    · exact .moved [] h
    · exact h.fail hO _
  unfold Pass.unknown
  rw [← h.lexemes]
  split
  · exact step { h with queue := h.queue.tail, lexemes := rfl }
  · exact step h

theorem marker (hO : Output.Congruence O) (h : Parallel O P s t) (code : String) (inText : Bool)
    (hv : takesNext code inText s.lexemes = true → ∀ v q, s.queue = .value v :: q → P v q → s.isMasked = true ∧
      (code = Keyword.otherwise.code → inText = true → s.branches.blocks.head? ≠ some .waiting)) :
    Next.Related (Parallel O P) (s.marker code inText) (t.marker code inText) := by
  have masked (htakes : takesNext code inText s.lexemes = true) (v : Value) (q : List Token)
      (hq : s.queue = .value v :: q) (p : P v q) : s.isMasked = true := (hv htakes v q hq p).1
  unfold Pass.marker
  split
  · exact h.unknown hO code
  · next k hc =>
    obtain rfl := Marker.code_of_ofCode? hc
    cases hk : k.isConditional with
    | false =>
      have htakes : takesNext k.code inText s.lexemes = true := by
        cases k <;> first | rfl | cases hk
      exact h.bound hO k (masked htakes)
    | true =>
      cases inText with
      | false => exact h.fail hO _
      | true =>
        refine h.block hO hk fun htakes v q hq p => ?_
        obtain ⟨hm, hne⟩ := hv htakes v q hq p
        exact ⟨hm, fun he => hne (by rw [he]) rfl⟩
  · next hc => exact h.expand hO (masked (by simp [takesNext, hc]))
  · next m hc =>
    refine h.take hO _ (fun v s' t' h' => ?_) fun v q hq p w u hu => ?_
    · rw [h'.isMasked]
      split
      · exact .moved [] h'
      · exact .value v _ h'
    · have hm := masked (by simp [takesNext, hc]) v q hq p
      exact ite_isMasked ((congrArg Branches.isMasked hu).trans hm) _ _ _

theorem placeholder (hO : Output.Congruence O) (h : Parallel O P s t)
    (hv : ∀ v q, s.queue = .value v :: q → P v q → s.isMasked = true) :
    Next.Related (Parallel O P) s.placeholder t.placeholder := by
  have hq := h.queue
  unfold Pass.placeholder
  generalize hs : s.queue = qs at hq
  generalize ht : t.queue = qt at hq
  cases hq with
  | nil => exact h.fail hO _
  | @same x q q' hq =>
    have h' : Parallel O P { s with queue := q } { t with queue := q' } := { h with queue := hq }
    simp only
    rw [h'.isMasked]
    split
    · exact .moved [] h'
    · exact .value _ _ h'
  | @value v q q' p w hq =>
    have h' : Parallel O P { s with queue := q } { t with queue := q' } := { h with queue := hq }
    have hm : Pass.isMasked { s with queue := q } = true := hv v q hs p
    simp only
    rw [h'.isMasked, if_pos hm, if_pos hm]
    exact .moved [] h'

theorem passive (h : Parallel O P s t) (l : Lexeme) :
    Next.Related (Parallel O P) (if s.isMasked = true then .moved [] s else .lexeme l s)
      (if t.isMasked = true then .moved [] t else .lexeme l t) := by
  rw [h.isMasked]
  split
  · exact .moved [] h
  · exact .lexeme l h

theorem mapping (hO : Output.Congruence O) (h : Parallel O P s t) (entries : List (String × Value)) :
    Next.Related (Parallel O P) (s.mapping entries) (t.mapping entries) := by
  have h' : Parallel O P { s with lastRow := .adjacent } { t with inserting := s.inserting, lastRow := .adjacent } :=
    { h with inserting := rfl, lastRow := rfl }
  unfold Pass.mapping
  rw [← h.inserting, ← h.lastRow]
  split
  · exact .value _ _ h'
  · split
    · exact .value _ _ h'
    · exact .value _ _ ((h'.write hO ",").endToken hO)
    · exact .value _ _ h'

theorem onValue_of_isMasked (h : Parallel O P s t) (hm : s.isMasked = true) (v w : Value) :
    Next.Related (Parallel O P) (s.onValue v) (t.onValue w) := by
  unfold Pass.onValue
  rw [h.isMasked, if_pos hm, if_pos hm]
  exact .moved [] { h with lastRow := congrArg LastRow.next h.lastRow }

theorem onValue (hO : Output.Congruence O) (h : Parallel O P s t) (v : Value) :
    Next.Related (Parallel O P) (s.onValue v) (t.onValue v) := by
  cases hm : s.isMasked with
  | true => exact h.onValue_of_isMasked hm v v
  | false =>
    have hn : ¬s.isMasked = true := by rw [hm]; decide
    unfold Pass.onValue
    rw [h.isMasked, if_neg hn, if_neg hn]
    split
    · exact h.mapping hO _
    · exact .value _ _ { h with lastRow := congrArg LastRow.next h.lastRow }

/-- Two states side by side stay so. -/
theorem next (hO : Output.Congruence O) (h : Parallel O P s t)
    (hv : ∀ v q, s.Takes v q → P v q → s.isMasked = true ∧ ¬s.Chooses) (placeholders : Bool) :
    (s.next placeholders = .finished ∧ t.next placeholders = .finished) ∨
      Next.Related (Parallel O P) (s.next placeholders) (t.next placeholders) := by
  cases hl : s.lexemes with
  | cons l behind =>
    have h' : Parallel O P { s with lexemes := behind } { t with lexemes := behind } := { h with lexemes := rfl }
    refine .inr ?_
    rw [Pass.next, Pass.next, hl, ← h.lexemes, hl]
    cases l with
    | marker code =>
      refine h'.marker hO code true fun htakes v q hq p => ?_
      obtain ⟨hm, hc⟩ := hv v q (.marker code behind hl hq htakes) p
      refine ⟨hm, ?_⟩
      rintro rfl - hw
      exact hc ⟨⟨behind, hl⟩, hw⟩
    | placeholder => exact h'.placeholder hO fun v q hq p => (hv v q (.placeholder behind hl hq) p).1
    | _ => exact h'.passive _
  | nil =>
    have ht : t.lexemes = [] := h.lexemes.symm.trans hl
    have hq := h.queue
    rw [Pass.next, Pass.next, hl, ht]
    generalize hs : s.queue = qs at hq
    generalize hqt : t.queue = qt at hq
    cases hq with
    | nil => exact .inl ⟨rfl, rfl⟩
    | @same x q q' hq =>
      have h' : Parallel O P (Pass.endToken { s with queue := q, lexemes := [] })
          (Pass.endToken { t with queue := q', lexemes := [] }) :=
        { h with queue := hq, lexemes := rfl, out := hO.endToken h.out }
      refine .inr ?_
      cases x with
      | sql text => exact .moved [] { h' with lexemes := rfl, lastRow := congrArg LastRow.next h.lastRow }
      | value v => exact h'.onValue hO v
      | modifier code =>
        have h'' : Parallel O P { Pass.endToken { s with queue := q, lexemes := [] } with lastRow := s.lastRow.next }
            { Pass.endToken { t with queue := q', lexemes := [] } with lastRow := t.lastRow.next } :=
          { h' with lastRow := congrArg LastRow.next h.lastRow }
        refine h''.marker hO code false fun htakes v q₂ hq₂ p => ?_
        have hq₃ : q = .value v :: q₂ := hq₂
        exact ⟨(hv v q₂ (.modifier code hl (by rw [hs, hq₃]) htakes) p).1, fun _ => Bool.noConfusion⟩
    | @value v q q' p w hq =>
      have h' : Parallel O P (Pass.endToken { s with queue := q, lexemes := [] })
          (Pass.endToken { t with queue := q', lexemes := [] }) :=
        { h with queue := hq, lexemes := rfl, out := hO.endToken h.out }
      exact .inr (h'.onValue_of_isMasked (hv v q (.bare hl hs) p).1 v w)

end Parallel

end SqlComposer
