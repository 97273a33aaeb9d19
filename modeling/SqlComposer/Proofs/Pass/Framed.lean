import SqlComposer.Proofs.Pass.BlockTree
import SqlComposer.Proofs.Pass.Overlooked

/-!
# A pass inside another

* `Pass.Always` : what holds of every state of a pass;
* `Pass.wantsMore`, `Pass.isUnopened`, `Pass.setsBound` : the steps that look beyond the tokens of a pass, beyond its blocks,
  or set its row bounds;
* `Frame`, `Framed` : two states of which one has more tokens behind it and more blocks around it;
* `Framed.next` : they go on together, if the smaller one keeps to what it has;
* `Forked` : a pass, and the pass with either of two ends behind its tokens;
* `run_append` : a pass over tokens that end exactly comes to what stands behind them;
* `Framed.run` : from there on the smaller frame alone counts.
-/

namespace SqlComposer

/-! ## Every state of a pass -/

namespace Pass

variable {placeholders : Bool} {P : Pass → Prop} {s t : Pass}

/-- `P` holds of every state of the pass from `s` on. -/
def Always (placeholders : Bool) (P : Pass → Prop) (s : Pass) : Prop :=
  ∀ u, s.Reaches placeholders u → P u

theorem Always.self (h : Always placeholders P s) : P s :=
  h s .refl

theorem Always.of_next (h : Always placeholders P s) (ht : (s.next placeholders).state? = some t) (text : String) :
    Always placeholders P (t.write text) := by
  intro u hu
  have hstep : s.Step placeholders (t.write text) := ⟨t, ht, _, rfl⟩
  exact h u (hu.head hstep)

theorem always_of_step (hs : P s)
    (hnext : ∀ t, (s.next placeholders).state? = some t → ∀ out, Always placeholders P { t with out := out }) :
    Always placeholders P s := by
  intro u hu
  rcases hu.cases_head with rfl | ⟨_, ⟨t, ht, out, rfl⟩, hu⟩
  · exact hs
  · exact hnext t ht out u hu

theorem always_of_next (hs : P s) (ht : (s.next placeholders).state? = some t)
    (h : ∀ out, Always placeholders P { t with out := out }) : Always placeholders P s := by
  refine always_of_step hs fun t' ht' => ?_
  obtain rfl := Option.some.inj (ht.symm.trans ht')
  exact h

theorem next_of_end (hl : s.lexemes = []) (hq : s.queue = []) (placeholders : Bool) : s.next placeholders = .finished := by
  rw [next, hl, hq]

theorem always_of_end (hl : s.lexemes = []) (hq : s.queue = []) (hs : P s) : Always placeholders P s := by
  refine always_of_step hs fun t ht => ?_
  rw [next_of_end hl hq] at ht
  cases ht

theorem always_of_text {text : String} {ls : List Lexeme} {q : List Token} (hs : P s) (hl : s.lexemes = [])
    (hq : s.queue = .sql text :: q) (hscan : scan (.fragment placeholders) text = ls)
    (h : ∀ out, Always placeholders P { s.enter ls q with out := out }) : Always placeholders P s := by
  subst hscan
  refine always_of_next hs ?_ h
  rw [s.next_sql placeholders hl hq]
  rfl

/-! ## Beyond its own -/

/-- Whether the next step wants a token and none is left. -/
def wantsMore (s : Pass) : Bool :=
  match s.lexemes, s.queue with
  | .marker code :: behind, [] => takesNext code true behind
  | .placeholder :: _, [] => true
  | [], [.modifier code] => takesNext code false []
  | _, _ => false

/-- Whether the next step goes on with a block or closes one, and none is open. -/
def isUnopened (s : Pass) : Bool :=
  match s.lexemes with
  | .marker code :: _ => (code == Keyword.otherwise.code || code == Keyword.endIf.code) && s.branches.blocks.isEmpty
  | _ => false

/-- Whether the stream has ended and a block is open. -/
def isUnclosed (s : Pass) : Bool :=
  s.lexemes.isEmpty && s.queue.isEmpty && !s.branches.blocks.isEmpty

/-- Whether the next step sets a row bound, or would if the value were a count. -/
def setsBound (s : Pass) : Bool :=
  !s.isMasked &&
    match s.lexemes, s.queue with
    | .marker code :: _, _ | [], .modifier code :: _ => code == Keyword.limit.code || code == Keyword.offset.code
    | _, _ => false

end Pass

/-- A pass over the tokens, whatever it writes, never wants one more: it stops exactly at their end. -/
def EndsExactly (placeholders : Bool) (tokens : List Token) : Prop :=
  (Pass.start tokens).Always placeholders (·.wantsMore = false)

/-! ## Frames -/

/-- What stands around a pass: the tokens behind its own, the open blocks around its own, all in their chosen branch, and
the number of branches left out before. Both insert rows or neither does. -/
structure Frame where
  tokens : List Token
  blocks : List Branch
  masked : Nat
  inserting : Bool
  shown : ∀ o ∈ blocks, o = .chosen

/-- Tokens behind, and nothing else around. -/
def Frame.behind (tokens : List Token) (inserting : Bool) : Frame :=
  ⟨tokens, [], 0, inserting, nofun⟩

namespace Branches

variable (f : Frame) (b : Branches)

/-- The blocks with those of the frame around them. -/
def inside (f : Frame) (b : Branches) : Branches :=
  ⟨b.blocks ++ f.blocks, f.masked + b.masked, b.nested.append f.shown⟩

@[simp] theorem isMasked_inside : (b.inside f).isMasked = b.isMasked := by
  obtain ⟨blocks, n, nested⟩ := b
  cases blocks with
  | nil => exact leavesOut_of_chosen f.shown
  | cons block outer => rfl

theorem openBlock_inside (condition : Bool) :
    (b.inside f).openBlock condition = (b.openBlock condition).inside f := by
  have hm : leavesOut (b.inside f).blocks = leavesOut b.blocks := isMasked_inside f b
  have hfirst : Branch.first condition (b.inside f).blocks = Branch.first condition b.blocks := by
    rw [Branch.first, Branch.first, hm]
  refine Branches.ext (congrArg (· :: _) hfirst) ?_
  show (if (b.inside f).isMasked || condition then f.masked + b.masked else f.masked + b.masked + 1) =
    f.masked + if b.isMasked || condition then b.masked else b.masked + 1
  rw [isMasked_inside]
  split <;> rfl

variable {f b}

/-- Without blocks of its own and around it, a pass has none. -/
theorem blocks_inside_of_nil (hf : f.blocks = []) (hb : b.blocks = []) : (b.inside f).blocks = [] := by
  show b.blocks ++ f.blocks = []
  rw [hf, hb, List.nil_append]

theorem otherwiseIf_inside (h : f.blocks = [] ∨ b.blocks ≠ []) (condition : Bool) :
    (b.inside f).otherwiseIf condition = (b.otherwiseIf condition).map (inside f) := by
  obtain ⟨blocks, n, nested⟩ := b
  cases blocks with
  | nil =>
    have hf : f.blocks = [] := h.resolve_right (absurd rfl)
    exact otherwiseIf_of_nil (blocks_inside_of_nil hf rfl) condition
  | cons block outer =>
    refine congrArg Except.ok (Branches.ext rfl ?_)
    show (if block = .chosen then f.masked + n + 1 else f.masked + n) = f.masked + if block = .chosen then n + 1 else n
    split <;> rfl

theorem close_inside (h : f.blocks = [] ∨ b.blocks ≠ []) : (b.inside f).close = b.close.map (inside f) := by
  obtain ⟨blocks, n, nested⟩ := b
  cases blocks with
  | nil =>
    have hf : f.blocks = [] := h.resolve_right (absurd rfl)
    exact close_of_nil (blocks_inside_of_nil hf rfl)
  | cons block outer => rfl

end Branches

/-- Row bounds that stay alike when the same is set in both. -/
def RowBounds.Congruence (B : RowBounds → RowBounds → Prop) : Prop :=
  ∀ (k : Keyword) (count : Option Nat) {a b : RowBounds}, B a b → B (Pass.setBound k count a) (Pass.setBound k count b)

theorem congruence_bounds_eq : RowBounds.Congruence (· = ·) :=
  fun k count _ _ h => congrArg (Pass.setBound k count) h

/-- `t` is `s` inside the frame `f`, with outputs as `O` says and row bounds as `B` says. -/
structure Framed (f : Frame) (O : Output → Output → Prop) (B : RowBounds → RowBounds → Prop) (s t : Pass) : Prop where
  queue : t.queue = s.queue ++ f.tokens
  lexemes : s.lexemes = t.lexemes
  out : O s.out t.out
  branches : t.branches = s.branches.inside f
  bounds : B s.bounds t.bounds
  inserting : s.inserting = f.inserting
  inserting' : t.inserting = f.inserting
  /-- Where no rows are inserted it does not matter when the last one was. -/
  lastRow : f.inserting = true → s.lastRow = t.lastRow

namespace Framed

variable {f : Frame} {O : Output → Output → Prop} {B : RowBounds → RowBounds → Prop} {s t : Pass} {x y : Next}

theorem isMasked (h : Framed f O B s t) : t.isMasked = s.isMasked := by
  rw [Pass.isMasked, h.branches, Branches.isMasked_inside, Pass.isMasked]

theorem write (hO : Output.Congruence O) (h : Framed f O B s t) (text : String) :
    Framed f O B (s.write text) (t.write text) :=
  { h with out := hO.push text h.out }

theorem endToken (hO : Output.Congruence O) (h : Framed f O B s t) : Framed f O B s.endToken t.endToken :=
  { h with out := hO.endToken h.out }

theorem nextRow (h : Framed f O B s t) :
    Framed f O B { s with lastRow := s.lastRow.next } { t with lastRow := t.lastRow.next } :=
  { h with lastRow := fun hf => congrArg LastRow.next (h.lastRow hf) }

theorem fail (hO : Output.Congruence O) (h : Framed f O B s t) (i : Issue) :
    Next.Related (Framed f O B) (s.fail i) (t.fail i) := by
  unfold Pass.fail Pass.marked
  rw [h.isMasked]
  split
  · exact .moved [i] h
  · exact .moved [i] (h.write hO i.mark)

theorem endBranch (hO : Output.Congruence O) (h : Next.Related (Framed f O B) x y) :
    Next.Related (Framed f O B) (Pass.endBranch x) (Pass.endBranch y) := by
  cases h with
  | moved found h => exact .moved found (h.endToken hO)
  | lexeme l h => exact .lexeme l h
  | value v m h => exact .value v m h

theorem branched (hO : Output.Congruence O) (h : Framed f O B s t) {b c : Except Issue Branches}
    (hb : c = b.map (Branches.inside f)) : Next.Related (Framed f O B) (s.branched b) (t.branched c) := by
  subst hb
  cases b with
  | ok b => exact .moved [] { h with branches := rfl }
  | error i => exact h.fail hO i

/-- What takes a token takes the same one, if there is one or nothing stands behind. -/
theorem take (hO : Output.Congruence O) (h : Framed f O B s t) (code : String) (hq : f.tokens = [] ∨ s.queue ≠ [])
    {g : Value → Pass → Next}
    (hg : ∀ v {s' t' : Pass}, s'.branches = s.branches → Framed f O B s' t' →
      Next.Related (Framed f O B) (g v s') (g v t')) :
    Next.Related (Framed f O B) (s.take code g) (t.take code g) := by
  have hqueue := h.queue
  generalize hs : s.queue = q at hq hqueue
  cases q with
  | nil =>
    rw [hq.resolve_right (absurd rfl), List.append_nil] at hqueue
    rw [Pass.take, hs, Pass.take, hqueue]
    exact h.fail hO _
  | cons x q =>
    rw [Pass.take, hs, Pass.take, hqueue]
    exact hg _ rfl { h with queue := rfl }

theorem block (hO : Output.Congruence O) (h : Framed f O B s t) {k : Keyword} (hk : k.isConditional = true)
    (hq : takesNext k.code true s.lexemes = true → f.tokens = [] ∨ s.queue ≠ [])
    (hopen : k = .otherwise ∨ k = .endIf → f.blocks = [] ∨ s.branches.blocks ≠ []) :
    Next.Related (Framed f O B) (s.block k) (t.block k) := by
  unfold Pass.block
  cases k with
  | ifTrue =>
    refine endBranch hO (h.take hO _ (hq rfl) fun v s' t' _ h' => ?_)
    rw [h'.branches, Branches.openBlock_inside]
    exact h'.branched hO rfl
  | otherwise =>
    have hblocks := hopen (.inl rfl)
    simp only [← h.lexemes]
    cases hd : dropElseIf? s.lexemes with
    | none =>
      refine endBranch hO (h.branched hO ?_)
      rw [h.branches]
      exact Branches.otherwiseIf_inside hblocks true
    | some rest =>
      have htakes : takesNext Keyword.otherwise.code true s.lexemes = true := by
        simp [takesNext, hd]
      have h' : Framed f O B { s with lexemes := rest } { t with lexemes := rest } := { h with lexemes := rfl }
      refine endBranch hO (h'.take hO _ (hq htakes) fun v s' t' hs' h' => h'.branched hO ?_)
      rw [h'.branches]
      refine Branches.otherwiseIf_inside ?_ _
      rw [hs']
      exact hblocks
  | endIf =>
    refine endBranch hO (h.branched hO ?_)
    rw [h.branches]
    exact Branches.close_inside (hopen (.inr rfl))
  | limit => cases hk
  | offset => cases hk

theorem bound (hO : Output.Congruence O) (h : Framed f O B s t) (k : Keyword) (hq : f.tokens = [] ∨ s.queue ≠ [])
    (hB : s.isMasked = false → RowBounds.Congruence B) : Next.Related (Framed f O B) (s.bound k) (t.bound k) := by
  refine h.take hO _ hq fun v s' t' hs' h' => ?_
  rw [h'.isMasked]
  split
  · exact .moved [] h'
  · next hm =>
    have hshown : s.isMasked = false := by
      rw [Pass.isMasked, ← hs']
      exact eq_false_of_ne_true hm
    split
    · exact .moved [] { h' with bounds := hB hshown k _ h'.bounds }
    · exact h'.fail hO _

theorem expand (hO : Output.Congruence O) (h : Framed f O B s t) (hq : f.tokens = [] ∨ s.queue ≠ []) :
    Next.Related (Framed f O B) s.expand t.expand := by
  refine h.take hO _ hq fun v s' t' _ h' => ?_
  have hsplice (ts : List Token) : Framed f O B { s' with queue := ts ++ s'.queue } { t' with queue := ts ++ t'.queue } := by
    refine { h' with queue := ?_ }
    rw [h'.queue, List.append_assoc]
  rw [h'.isMasked]
  split
  · exact .moved [] h'
  · split
    · exact .moved [] (hsplice _)
    · exact .moved [] (hsplice _)
    · exact .value _ _ h'

theorem unknown (hO : Output.Congruence O) (h : Framed f O B s t) (code : String)
    (hq : s.lexemes = [] → f.tokens = [] ∨ s.queue ≠ []) :
    Next.Related (Framed f O B) (s.unknown code) (t.unknown code) := by
  have step {s t : Pass} (h : Framed f O B s t) :
      Next.Related (Framed f O B) (if s.isMasked = true then .moved [] s else s.fail (.unknownModifier code))
        (if t.isMasked = true then .moved [] t else t.fail (.unknownModifier code)) := by
    rw [h.isMasked]
    split
    · exact .moved [] h
    · exact h.fail hO _
  unfold Pass.unknown
  rw [← h.lexemes]
  split
  · next he =>
    have htail : t.queue.tail = s.queue.tail ++ f.tokens := by
      rw [h.queue]
      rcases hq (List.isEmpty_iff.1 he) with hf | hne
      · rw [hf, List.append_nil, List.append_nil]
      · exact List.tail_append_of_ne_nil hne
    exact step { h with queue := htail, lexemes := rfl }
  · exact step h

theorem marker (hO : Output.Congruence O) (h : Framed f O B s t) (code : String) (inText : Bool)
    (hq : takesNext code inText s.lexemes = true → f.tokens = [] ∨ s.queue ≠ [])
    (hopen : ∀ k : Keyword, k = .otherwise ∨ k = .endIf → code = k.code → inText = true →
      f.blocks = [] ∨ s.branches.blocks ≠ [])
    (hB : ∀ k : Keyword, k = .limit ∨ k = .offset → code = k.code → s.isMasked = false → RowBounds.Congruence B) :
    Next.Related (Framed f O B) (s.marker code inText) (t.marker code inText) := by
  unfold Pass.marker
  split
  · next hc =>
    refine h.unknown hO code fun hl => hq ?_
    rw [takesNext, hc, hl]
    rfl
  · next k hc =>
    obtain rfl := Marker.code_of_ofCode? hc
    cases hk : k.isConditional with
    | false =>
      have htakes : takesNext k.code inText s.lexemes = true := by
        cases k <;> first | rfl | cases hk
      have hbound : k = .limit ∨ k = .offset := by
        cases k <;> first | decide | cases hk
      exact h.bound hO k (hq htakes) (hB k hbound rfl)
    | true =>
      cases inText with
      | false => exact h.fail hO _
      | true => exact h.block hO hk hq fun hk => hopen k hk rfl rfl
  · next hc => exact h.expand hO (hq (by simp [takesNext, hc]))
  · next m hc =>
    refine h.take hO _ (hq (by simp [takesNext, hc])) fun v s' t' _ h' => ?_
    rw [h'.isMasked]
    split
    · exact .moved [] h'
    · exact .value v _ h'

theorem placeholder (hO : Output.Congruence O) (h : Framed f O B s t) (hq : f.tokens = [] ∨ s.queue ≠ []) :
    Next.Related (Framed f O B) s.placeholder t.placeholder := by
  have hqueue := h.queue
  unfold Pass.placeholder
  generalize hs : s.queue = q at hq hqueue
  cases q with
  | nil =>
    rw [hq.resolve_right (absurd rfl), List.append_nil] at hqueue
    rw [hqueue]
    exact h.fail hO _
  | cons x q =>
    have h' : Framed f O B { s with queue := q } { t with queue := q ++ f.tokens } := { h with queue := rfl }
    rw [hqueue]
    show Next.Related _ (if _ then _ else _) (if Pass.isMasked { t with queue := q ++ f.tokens } = true then _ else _)
    rw [h'.isMasked]
    split
    · exact .moved [] h'
    · exact .value _ _ h'

theorem passive (h : Framed f O B s t) (l : Lexeme) :
    Next.Related (Framed f O B) (if s.isMasked = true then .moved [] s else .lexeme l s)
      (if t.isMasked = true then .moved [] t else .lexeme l t) := by
  rw [h.isMasked]
  split
  · exact .moved [] h
  · exact .lexeme l h

theorem mapping (hO : Output.Congruence O) (h : Framed f O B s t) (entries : List (String × Value)) :
    Next.Related (Framed f O B) (s.mapping entries) (t.mapping entries) := by
  have h' : Framed f O B { s with inserting := f.inserting, lastRow := .adjacent }
      { t with inserting := f.inserting, lastRow := .adjacent } :=
    { h with inserting := rfl, inserting' := rfl, lastRow := fun _ => rfl }
  unfold Pass.mapping
  rw [h.inserting, h.inserting']
  split
  · exact .value _ _ h'
  · next hf =>
    rw [← h.lastRow (by simpa using hf)]
    split
    · exact .value _ _ h'
    · exact .value _ _ ((h'.write hO ",").endToken hO)
    · exact .value _ _ h'

theorem onValue (hO : Output.Congruence O) (h : Framed f O B s t) (v : Value) :
    Next.Related (Framed f O B) (s.onValue v) (t.onValue v) := by
  unfold Pass.onValue
  rw [h.isMasked]
  split
  · exact .moved [] h.nextRow
  · split
    · exact h.mapping hO _
    · exact .value _ _ h.nextRow

/-- The smaller state ends, or both go on together, if it keeps to its own tokens, to its own blocks and to row bounds
that both may set. -/
theorem next (hO : Output.Congruence O) (h : Framed f O B s t) (hq : f.tokens = [] ∨ s.wantsMore = false)
    (hopen : f.blocks = [] ∨ s.isUnopened = false) (hB : RowBounds.Congruence B ∨ s.setsBound = false)
    (placeholders : Bool) :
    s.lexemes = [] ∧ s.queue = [] ∨
      Next.Related (Framed f O B) (s.next placeholders) (t.next placeholders) := by
  cases hl : s.lexemes with
  | cons l behind =>
    have h' : Framed f O B { s with lexemes := behind } { t with lexemes := behind } := { h with lexemes := rfl }
    refine .inr ?_
    rw [Pass.next, Pass.next, hl, ← h.lexemes, hl]
    cases l with
    | marker code =>
      refine h'.marker hO code true (fun htakes => hq.imp_right ?_) ?_ ?_
      · rintro hwants (hs : s.queue = [])
        simp [Pass.wantsMore, hl, hs, htakes] at hwants
      · rintro k hk rfl -
        refine hopen.imp_right ?_
        rintro hunopened (hb : s.branches.blocks = [])
        rcases hk with rfl | rfl <;> simp [Pass.isUnopened, hl, hb] at hunopened
      · rintro k hk rfl (hshown : s.isMasked = false)
        refine hB.resolve_right ?_
        rcases hk with rfl | rfl <;> simp [Pass.setsBound, hl, hshown]
    | placeholder =>
      refine h'.placeholder hO (hq.imp_right ?_)
      rintro hwants (hs : s.queue = [])
      simp [Pass.wantsMore, hl, hs] at hwants
    | _ => exact h'.passive _
  | nil =>
    have ht : t.lexemes = [] := h.lexemes.symm.trans hl
    cases hs : s.queue with
    | nil => exact .inl ⟨rfl, rfl⟩
    | cons x q =>
      have hqueue : t.queue = x :: (q ++ f.tokens) := by
        rw [h.queue, hs, List.cons_append]
      have h' : Framed f O B (Pass.endToken { s with queue := q, lexemes := [] })
          (Pass.endToken { t with queue := q ++ f.tokens, lexemes := [] }) :=
        { h with queue := rfl, lexemes := rfl, out := hO.endToken h.out }
      refine .inr ?_
      rw [Pass.next, Pass.next, hl, ht, hs, hqueue]
      cases x with
      | sql text => exact .moved [] { h'.nextRow with lexemes := rfl }
      | value v => exact h'.onValue hO v
      | modifier code =>
        refine h'.nextRow.marker hO code false ?_ (fun _ _ _ => Bool.noConfusion) ?_
        · rintro (htakes : takesNext code false [] = true)
          refine hq.imp_right ?_
          rintro hwants (rfl : q = [])
          simp [Pass.wantsMore, hl, hs, htakes] at hwants
        · rintro k hk rfl (hshown : s.isMasked = false)
          refine hB.resolve_right ?_
          rcases hk with rfl | rfl <;> simp [Pass.setsBound, hl, hs, hshown]

/-- Two states behind each other's tokens are alike where they enter the same tokens. -/
theorem siblings {X X' : List Token} {inserting : Bool} {t' : Pass} (h : Framed (.behind X inserting) (· = ·) (· = ·) s t)
    (h' : Framed (.behind X' inserting) (· = ·) (· = ·) s t') (ls : List Lexeme) (q : List Token) :
    Framed (.behind [] inserting) (· = ·) (· = ·) (t.enter ls q) (t'.enter ls q) where
  queue := (List.append_nil q).symm
  lexemes := rfl
  out := congrArg Output.endToken (h.out.symm.trans h'.out)
  branches := by
    show t'.branches = t.branches.inside _
    rw [h.branches, h'.branches]
    simp [Branches.inside, Frame.behind]
  bounds := h.bounds.symm.trans h'.bounds
  inserting := h.inserting'
  inserting' := h'.inserting'
  lastRow hf := congrArg LastRow.next ((h.lastRow hf).symm.trans (h'.lastRow hf))

/-- Inside a frame without tokens and blocks of its own the pass comes to the same, if it ends alike. -/
theorem run {ctx : Context} {E : Render String → Render String → Prop} (hE : Render.Congruence E)
    (hO : Output.Congruence O) (hB : RowBounds.Congruence B) (htokens : f.tokens = []) (hblocks : f.blocks = [])
    (hfinish : ∀ s t, Framed f O B s t → E (s.finish ctx) (t.finish ctx)) (h : Framed f O B s t) :
    E (SqlComposer.run ctx s) (SqlComposer.run ctx t) := by
  refine run_related (R := Framed f O B) hE (fun s t h => ?_) h
  rcases h.next hO (.inl htokens) (.inl hblocks) (.inl hB) ctx.placeholders with ⟨hl, hq⟩ | hnext
  · have ht : t.queue = [] := by rw [h.queue, hq, htokens, List.append_nil]
    exact .inl ⟨Pass.next_of_end hl hq _, Pass.next_of_end (h.lexemes.symm.trans hl) ht _, hfinish s t h⟩
  · exact .inr (hnext.mono fun _ _ huv text => huv.write hO text)

/-- Two states behind each other's tokens come to the same where they enter the same tokens. -/
theorem run_siblings {ctx : Context} {X X' : List Token} {inserting : Bool} {t' : Pass}
    (h : Framed (.behind X inserting) (· = ·) (· = ·) s t) (h' : Framed (.behind X' inserting) (· = ·) (· = ·) s t')
    (q : List Token) (written : String) :
    SqlComposer.run ctx ((t.enter [] q).write written) = SqlComposer.run ctx ((t'.enter [] q).write written) := by
  refine Framed.run Render.congruence_eq congruence_out_eq congruence_bounds_eq rfl rfl (fun u u' hu => ?_)
    ((h.siblings h' [] q).write congruence_out_eq written)
  rw [Pass.finish, Pass.finish, hu.out, hu.bounds, hu.branches]
  simp [Branches.inside, Frame.behind]

end Framed

/-! ## Behind tokens that end exactly -/

theorem Next.Related.join {R R' : Pass → Pass → Prop} {x y z : Next} (h : Next.Related R x y)
    (h' : Next.Related R' x z) : Next.Related (fun t t' => ∃ s, R s t ∧ R' s t') y z := by
  cases h with
  | moved found h =>
    cases h' with
    | moved _ h' => exact .moved found ⟨_, h, h'⟩
  | lexeme l h =>
    cases h' with
    | lexeme _ h' => exact .lexeme l ⟨_, h, h'⟩
  | value v m h =>
    cases h' with
    | value _ _ h' => exact .value v m ⟨_, h, h'⟩

theorem firstText?_append {A : List Token} (h : (firstText? A).isSome = true) (X : List Token) :
    firstText? (A ++ X) = firstText? A := by
  induction A with
  | nil => cases h
  | cons t A ih =>
    cases t with
    | sql text => rfl
    | modifier code => exact ih h
    | value v => exact ih h

theorem framed_start {A : List Token} (h : (firstText? A).isSome = true) (X : List Token) :
    Framed (.behind X (Pass.start A).inserting) (· = ·) (· = ·) (.start A) (.start (A ++ X)) where
  queue := rfl
  lexemes := rfl
  out := rfl
  branches := rfl
  bounds := rfl
  inserting := rfl
  inserting' := congrArg (Option.any isInsertCommand) (firstText?_append h X)
  lastRow _ := rfl

/-- `s` is a pass that stops exactly at the end of its tokens, and `t` and `t'` are the pass with `X` and with `X'` behind
them. -/
structure Forked (placeholders inserting : Bool) (X X' : List Token) (s t t' : Pass) : Prop where
  endsExactly : s.Always placeholders (·.wantsMore = false)
  framed : Framed (.behind X inserting) (· = ·) (· = ·) s t
  framed' : Framed (.behind X' inserting) (· = ·) (· = ·) s t'

namespace Forked

variable {placeholders inserting : Bool} {X X' : List Token} {s t t' : Pass}

theorem start {A : List Token} (hA : EndsExactly placeholders A) (hfirst : (firstText? A).isSome = true)
    (X X' : List Token) :
    Forked placeholders (Pass.start A).inserting X X' (.start A) (.start (A ++ X)) (.start (A ++ X')) :=
  ⟨hA, framed_start hfirst X, framed_start hfirst X'⟩

/-- Before the end of the tokens all three go on alike. -/
theorem next (h : Forked placeholders inserting X X' s t t') :
    s.lexemes = [] ∧ s.queue = [] ∨
      Next.Related (fun u u' => ∃ v : Pass, ∀ text,
        Forked placeholders inserting X X' (v.write text) (u.write text) (u'.write text))
        (t.next placeholders) (t'.next placeholders) := by
  have hfed := h.endsExactly.self
  rcases h.framed.next congruence_out_eq (.inr hfed) (.inl rfl) (.inl congruence_bounds_eq) placeholders with hend | hnext
  · exact .inl hend
  rcases h.framed'.next congruence_out_eq (.inr hfed) (.inl rfl) (.inl congruence_bounds_eq) placeholders with hend | hnext'
  · exact .inl hend
  refine .inr ((hnext.with_state.join hnext').mono ?_)
  rintro u u' ⟨v, ⟨hu, hv⟩, hu'⟩
  exact ⟨v, fun text =>
    ⟨h.endsExactly.of_next hv text, hu.write congruence_out_eq text, hu'.write congruence_out_eq text⟩⟩

end Forked

/-- A pass over tokens that end exactly comes to what stands behind them, in the state that the tokens alone lead to. -/
theorem run_append {ctx : Context} {E : Render String → Render String → Prop} (hE : Render.Congruence E)
    {A X X' : List Token} (hA : EndsExactly ctx.placeholders A) (hfirst : (firstText? A).isSome = true)
    (hend : ∀ {s t t' : Pass}, s.lexemes = [] → s.queue = [] →
      Framed (.behind X (Pass.start A).inserting) (· = ·) (· = ·) s t →
      Framed (.behind X' (Pass.start A).inserting) (· = ·) (· = ·) s t' → E (run ctx t) (run ctx t')) :
    E (run ctx (.start (A ++ X))) (run ctx (.start (A ++ X'))) := by
  rw [← bind_pure (run ctx (.start (A ++ X)))]
  refine run_bind_related (R := fun t t' => ∃ s, Forked ctx.placeholders (Pass.start A).inserting X X' s t t') hE ?_
    ⟨_, Forked.start hA hfirst X X'⟩
  rintro t t' ⟨s, h⟩
  rcases h.next with ⟨hl, hq⟩ | hnext
  · rw [bind_pure]
    exact .inl (hend hl hq h.framed h.framed')
  · refine .inr (hnext.mono ?_)
    rintro u u' ⟨v, hv⟩ text
    exact ⟨_, hv text⟩

end SqlComposer
