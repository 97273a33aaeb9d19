import SqlComposer.Proofs.Pass.Run

/-!
# Closed segments of a stream

A segment is closed if it feeds its own markers and placeholders and neither steers blocks nor splices tokens.
The pass goes over it as a whole, whatever stands behind it.

* `TakesToken`, `Fed` : the markers that take one token; what is fed by its own tokens;
* `Pass.serve`, `Pass.marker_of_takesToken` : what a marker does with the token that it takes;
* `Keeps`, `Fed.skipsTo` : where output is left out the pass goes over a closed segment and keeps all but the
  tokens;
* `Alike`, `Fed.content_run` : where it is not, two passes over the same closed segment go on alike.
-/

namespace SqlComposer

/-- The marker takes one token and is no keyword of a block and no splice. An unknown code takes a token only
as the last lexeme of its text. -/
def TakesToken (code : String) (behind : List Lexeme) : Prop :=
  match Marker.ofCode? code with
  | none => behind = []
  | some (.keyword k) => k.isConditional = false
  | some (.modifier m) => m ≠ .expand

/-- A lexeme that takes no token. -/
def Lexeme.IsPassive : Lexeme → Prop
  | .marker _ | .placeholder => False
  | _ => True

/-- The lexemes to come of a text and the tokens behind it feed all their markers and placeholders, with
nothing left over in between. -/
inductive Fed (placeholders : Bool) : List Lexeme → List Token → Prop
  | done : Fed placeholders [] []
  | sql {text : String} {q : List Token} (h : Fed placeholders (scan (.fragment placeholders) text) q) :
      Fed placeholders [] (.sql text :: q)
  | value {v : Value} {q : List Token} (h : Fed placeholders [] q) : Fed placeholders [] (.value v :: q)
  | modifier {code : String} {t : Token} {q : List Token} (takes : TakesToken code [])
      (h : Fed placeholders [] q) : Fed placeholders [] (.modifier code :: t :: q)
  | marker {code : String} {ls : List Lexeme} {t : Token} {q : List Token} (takes : TakesToken code ls)
      (h : Fed placeholders ls q) : Fed placeholders (.marker code :: ls) (t :: q)
  | unknown {code : String} {ls : List Lexeme} {q : List Token} (none : Marker.ofCode? code = none)
      (inside : ls ≠ []) (h : Fed placeholders ls q) : Fed placeholders (.marker code :: ls) q
  | placeholder {ls : List Lexeme} {t : Token} {q : List Token} (h : Fed placeholders ls q) :
      Fed placeholders (.placeholder :: ls) (t :: q)
  | passive {l : Lexeme} {ls : List Lexeme} {q : List Token} (passive : l.IsPassive)
      (h : Fed placeholders ls q) : Fed placeholders (l :: ls) q

/-! ## Steps over a segment -/

namespace Pass

/-- The state further on in the same token. -/
def moveTo (ls : List Lexeme) (q : List Token) (s : Pass) : Pass :=
  { s with lexemes := ls, queue := q }

/-- The state inside the next token. -/
def enter (ls : List Lexeme) (q : List Token) (s : Pass) : Pass :=
  { s with lexemes := ls, queue := q, out := s.out.endToken, lastRow := s.lastRow.next }

/-- What a marker does with the value that it takes, where output is not left out. -/
def serve (code : String) (v : Value) (s : Pass) : Next :=
  match Marker.ofCode? code with
  | none => s.fail (.unknownModifier code)
  | some (.keyword k) =>
    match rowCount? v with
    | some count => .moved [] { s with bounds := setBound k count s.bounds }
    | none => s.fail (.invalidCombination v.kind k.code)
  | some (.modifier m) => .value v (some m) s

variable {s : Pass} {ls : List Lexeme} {q : List Token} {t : Token} {code : String} (placeholders : Bool)

/-- A marker that takes a token takes it in any case, and where output is left out does no more. -/
theorem marker_of_takesToken (h : TakesToken code s.lexemes) (hq : s.queue = t :: q) (inText : Bool) :
    s.marker code inText =
      if s.isMasked then .moved [] { s with queue := q } else serve code t.toValue { s with queue := q } := by
  unfold TakesToken at h
  unfold marker serve
  split at h
  · next hc => simp [hc, unknown, h, hq, isMasked]
  · next k hc =>
    simp only [hc, h, bound, take, hq, Bool.not_false, if_true]
    rfl
  · next m hc =>
    rw [hc]
    split
    · next he => cases he
    · next he => cases he
    · next he =>
      obtain rfl : m = .expand := by simpa using he
      exact absurd rfl h
    · next he =>
      cases he
      rw [take, hq]
      rfl

theorem next_marker (hl : s.lexemes = .marker code :: ls) (hq : s.queue = t :: q) (h : TakesToken code ls) :
    s.next placeholders =
      if s.isMasked then .moved [] (s.moveTo ls q) else serve code t.toValue (s.moveTo ls q) := by
  rw [next, hl]
  exact marker_of_takesToken (s := { s with lexemes := ls }) h hq true

theorem next_unknown (hl : s.lexemes = .marker code :: ls) (h : Marker.ofCode? code = none) (hne : ls ≠ []) :
    s.next placeholders =
      if s.isMasked then .moved [] (s.moveTo ls s.queue)
      else (s.moveTo ls s.queue).fail (.unknownModifier code) := by
  rw [next, hl]
  simp only [onLexeme, marker, h, unknown, List.isEmpty_iff, hne, if_false]
  rfl

theorem next_placeholder (hl : s.lexemes = .placeholder :: ls) (hq : s.queue = t :: q) :
    s.next placeholders =
      if s.isMasked then .moved [] (s.moveTo ls q) else .value t.toValue none (s.moveTo ls q) := by
  rw [next, hl]
  simp only [onLexeme, placeholder, hq]
  rfl

theorem next_passive {l : Lexeme} (hl : s.lexemes = l :: ls) (h : l.IsPassive) :
    s.next placeholders =
      if s.isMasked then .moved [] (s.moveTo ls s.queue) else .lexeme l (s.moveTo ls s.queue) := by
  rw [next, hl]
  cases l <;> first | exact h.elim | rfl

theorem next_sql {text : String} (hl : s.lexemes = []) (hq : s.queue = .sql text :: q) :
    s.next placeholders = .moved [] (s.enter (scan (.fragment placeholders) text) q) := by
  rw [next, hl, hq]
  rfl

theorem next_modifier (hl : s.lexemes = []) (hq : s.queue = .modifier code :: t :: q) (h : TakesToken code []) :
    s.next placeholders =
      if s.isMasked then .moved [] (s.enter [] q) else serve code t.toValue (s.enter [] q) := by
  rw [next, hl, hq]
  have he : s.enter [] (t :: q) = { s.enter s.lexemes (t :: q) with queue := t :: q } := by rw [hl]; rfl
  exact marker_of_takesToken (s := s.enter [] (t :: q)) h rfl false

theorem next_value_of_isMasked {v : Value} (hl : s.lexemes = []) (hq : s.queue = .value v :: q)
    (hm : s.isMasked = true) : s.next placeholders = .moved [] (s.enter [] q) := by
  rw [next, hl, hq]
  exact if_pos hm

/-- The modifier of a value without one, where no rows are inserted. -/
def bareModifier : Value → Option Modifier
  | .map _ => some .assign
  | _ => none

/-- Where no rows are inserted only the mark of the last row depends on the row before. A value that is no
mapping is no row. -/
theorem next_value {v : Value} (hl : s.lexemes = []) (hq : s.queue = .value v :: q) (hm : s.isMasked = false)
    (hi : s.inserting = false ∨ bareModifier v = none) :
    ∃ r, s.next placeholders = .value v (bareModifier v) { s.enter [] q with lastRow := r } := by
  have hn : ¬s.isMasked = true := by rw [hm]; decide
  rw [next, hl, hq]
  cases v with
  | map entries =>
    have hf : s.inserting = false := by
      rcases hi with hi | hi
      · exact hi
      · cases hi
    refine ⟨.adjacent, (if_neg hn).trans ?_⟩
    exact if_pos (by simpa [endToken] using hf)
  | scalar _ => exact ⟨_, if_neg hn⟩
  | list _ => exact ⟨_, if_neg hn⟩
  | fragment _ => exact ⟨_, if_neg hn⟩
  | expression _ => exact ⟨_, if_neg hn⟩

end Pass

/-! ## Where output is left out -/

/-- The later state has the output, the blocks and the bounds of the earlier one. -/
structure Keeps (s t : Pass) : Prop where
  text : t.out.text = s.out.text
  branches : t.branches = s.branches
  bounds : t.bounds = s.bounds
  inserting : t.inserting = s.inserting

theorem Keeps.refl (s : Pass) : Keeps s s := ⟨rfl, rfl, rfl, rfl⟩

theorem Keeps.trans {s t u : Pass} (h : Keeps s t) (h' : Keeps t u) : Keeps s u :=
  ⟨h'.text.trans h.text, h'.branches.trans h.branches, h'.bounds.trans h.bounds, h'.inserting.trans h.inserting⟩

theorem keeps_moveTo (ls : List Lexeme) (q : List Token) (s : Pass) : Keeps s (s.moveTo ls q) := ⟨rfl, rfl, rfl, rfl⟩

theorem keeps_enter (ls : List Lexeme) (q : List Token) (s : Pass) : Keeps s (s.enter ls q) := ⟨rfl, rfl, rfl, rfl⟩

/-- The pass comes to the tokens of `rest` and keeps all but the tokens before them. -/
def SkipsTo (ctx : Context) (rest : List Token) (s : Pass) : Prop :=
  ∃ t, t.lexemes = [] ∧ t.queue = rest ∧ Keeps s t ∧ run ctx s = run ctx t

theorem SkipsTo.of_next {ctx : Context} {rest : List Token} {s t : Pass}
    (hn : s.next ctx.placeholders = .moved [] t) (hk : Keeps s t) (h : SkipsTo ctx rest t) : SkipsTo ctx rest s := by
  obtain ⟨u, hl, hq, hu, hr⟩ := h
  exact ⟨u, hl, hq, hk.trans hu, (run_silent hn).trans hr⟩

/-- Where output is left out the pass goes over a closed segment and keeps all but the tokens. -/
theorem Fed.skipsTo {ctx : Context} {ls : List Lexeme} {q : List Token} (h : Fed ctx.placeholders ls q)
    {rest : List Token} {s : Pass} (hl : s.lexemes = ls) (hq : s.queue = q ++ rest) (hm : s.isMasked = true) :
    SkipsTo ctx rest s := by
  induction h generalizing s with
  | done => exact ⟨s, hl, hq, .refl s, rfl⟩
  | sql h ih => exact .of_next (s.next_sql _ hl hq) (keeps_enter _ _ s) (ih rfl rfl hm)
  | value h ih => exact .of_next (s.next_value_of_isMasked _ hl hq hm) (keeps_enter _ _ s) (ih rfl rfl hm)
  | modifier takes h ih =>
    exact .of_next ((s.next_modifier _ hl hq takes).trans (if_pos hm)) (keeps_enter _ _ s) (ih rfl rfl hm)
  | marker takes h ih =>
    exact .of_next ((s.next_marker _ hl hq takes).trans (if_pos hm)) (keeps_moveTo _ _ s) (ih rfl rfl hm)
  | unknown none inside h ih =>
    exact .of_next ((s.next_unknown _ hl none inside).trans (if_pos hm)) (keeps_moveTo _ _ s) (ih rfl hq hm)
  | placeholder h ih =>
    exact .of_next ((s.next_placeholder _ hl hq).trans (if_pos hm)) (keeps_moveTo _ _ s) (ih rfl rfl hm)
  | passive passive h ih =>
    exact .of_next ((s.next_passive _ hl passive).trans (if_pos hm)) (keeps_moveTo _ _ s) (ih rfl hq hm)

/-! ## Where it is not -/

/-- Two states that write alike: the same output so far, the same bounds, nothing left out and no rows
inserted. Each has its own blocks and its own tokens. -/
structure Alike (b b' : Branches) (s t : Pass) : Prop where
  out : s.out = t.out
  bounds : s.bounds = t.bounds
  branches : s.branches = b
  branches' : t.branches = b'
  inserting : s.inserting = false
  inserting' : t.inserting = false

namespace Alike

variable {b b' : Branches} {s t : Pass}

theorem write (h : Alike b b' s t) (text : String) : Alike b b' (s.write text) (t.write text) :=
  ⟨congrArg (·.push text) h.out, h.bounds, h.branches, h.branches', h.inserting, h.inserting'⟩

theorem moveTo (h : Alike b b' s t) (ls : List Lexeme) (q q' : List Token) :
    Alike b b' (s.moveTo ls q) (t.moveTo ls q') :=
  ⟨h.out, h.bounds, h.branches, h.branches', h.inserting, h.inserting'⟩

theorem enter (h : Alike b b' s t) (ls : List Lexeme) (q q' : List Token) :
    Alike b b' (s.enter ls q) (t.enter ls q') :=
  ⟨congrArg Output.endToken h.out, h.bounds, h.branches, h.branches', h.inserting, h.inserting'⟩

end Alike

/-- Two states that write alike, with the lexemes and tokens that they have still to come. -/
structure AlikeAt (b b' : Branches) (ls : List Lexeme) (q q' : List Token) (s t : Pass) : Prop
    extends Alike b b' s t where
  lexemes : s.lexemes = ls
  lexemes' : t.lexemes = ls
  queue : s.queue = q
  queue' : t.queue = q'

namespace AlikeAt

variable {b b' : Branches} {ls : List Lexeme} {q q' : List Token} {s t : Pass}

theorem write (h : AlikeAt b b' ls q q' s t) (text : String) :
    AlikeAt b b' ls q q' (s.write text) (t.write text) :=
  ⟨h.toAlike.write text, h.lexemes, h.lexemes', h.queue, h.queue'⟩

theorem isMasked (h : AlikeAt b b' ls q q' s t) (hm : b.isMasked = false) : ¬s.isMasked = true := by
  rw [Pass.isMasked, h.branches, hm]
  decide

theorem isMasked' (h : AlikeAt b b' ls q q' s t) (hm : b'.isMasked = false) : ¬t.isMasked = true := by
  rw [Pass.isMasked, h.branches', hm]
  decide

theorem fail (h : AlikeAt b b' ls q q' s t) (hm : b.isMasked = false) (hm' : b'.isMasked = false) (i : Issue) :
    Next.Related (AlikeAt b b' ls q q') (s.fail i) (t.fail i) := by
  rw [Pass.fail, Pass.fail, Pass.marked, Pass.marked, if_neg (h.isMasked hm), if_neg (h.isMasked' hm')]
  exact .moved [i] (h.write i.mark)

theorem serve (h : AlikeAt b b' ls q q' s t) (hm : b.isMasked = false) (hm' : b'.isMasked = false) (code : String)
    (v : Value) : Next.Related (AlikeAt b b' ls q q') (s.serve code v) (t.serve code v) := by
  unfold Pass.serve
  split
  · exact h.fail hm hm' _
  · split
    · next count _ =>
      refine .moved [] ⟨⟨h.out, ?_, h.branches, h.branches', h.inserting, h.inserting'⟩, h.lexemes, h.lexemes',
        h.queue, h.queue'⟩
      exact congrArg (Pass.setBound _ count) h.bounds
    · exact h.fail hm hm' _
  · exact .value v _ h

/-- Alike next steps lead to the same content, if alike states do. -/
theorem content_run {ctx : Context}
    (hr : ∀ s t, AlikeAt b b' ls q q' s t → (run ctx s).content = (run ctx t).content)
    (h : Next.Related (AlikeAt b b' ls q q') (s.next ctx.placeholders) (t.next ctx.placeholders)) :
    (run ctx s).content = (run ctx t).content :=
  content_run_of_related (fun _ _ text hst => hst.write text) hr h

end AlikeAt

/-- Where nothing is left out two passes go over the same closed segment alike. -/
theorem Fed.content_run {ctx : Context} {ls : List Lexeme} {q : List Token} (h : Fed ctx.placeholders ls q)
    {b b' : Branches} (hm : b.isMasked = false) (hm' : b'.isMasked = false) {rest rest' : List Token}
    (hrest : ∀ s t, AlikeAt b b' [] rest rest' s t → (run ctx s).content = (run ctx t).content) {s t : Pass}
    (hst : AlikeAt b b' ls (q ++ rest) (q ++ rest') s t) : (run ctx s).content = (run ctx t).content := by
  induction h generalizing s t with
  | done => exact hrest s t hst
  | sql h ih =>
    refine AlikeAt.content_run (fun _ _ => ih) ?_
    rw [s.next_sql _ hst.lexemes hst.queue, t.next_sql _ hst.lexemes' hst.queue']
    exact .moved [] ⟨hst.enter _ _ _, rfl, rfl, rfl, rfl⟩
  | @value v q h ih =>
    refine AlikeAt.content_run (fun _ _ => ih) ?_
    obtain ⟨r, hs⟩ :=
      s.next_value ctx.placeholders hst.lexemes hst.queue (by simpa using hst.isMasked hm)
        (.inl hst.inserting)
    obtain ⟨r', ht⟩ :=
      t.next_value ctx.placeholders hst.lexemes' hst.queue' (by simpa using hst.isMasked' hm')
        (.inl hst.inserting')
    rw [hs, ht]
    have he := hst.enter [] (q ++ rest) (q ++ rest')
    exact .value v _ ⟨⟨he.out, he.bounds, he.branches, he.branches', he.inserting, he.inserting'⟩, rfl, rfl, rfl, rfl⟩
  | modifier takes h ih =>
    refine AlikeAt.content_run (fun _ _ => ih) ?_
    rw [s.next_modifier _ hst.lexemes hst.queue takes, if_neg (hst.isMasked hm),
      t.next_modifier _ hst.lexemes' hst.queue' takes, if_neg (hst.isMasked' hm')]
    exact AlikeAt.serve ⟨hst.enter _ _ _, rfl, rfl, rfl, rfl⟩ hm hm' _ _
  | marker takes h ih =>
    refine AlikeAt.content_run (fun _ _ => ih) ?_
    rw [s.next_marker _ hst.lexemes hst.queue takes, if_neg (hst.isMasked hm),
      t.next_marker _ hst.lexemes' hst.queue' takes, if_neg (hst.isMasked' hm')]
    exact AlikeAt.serve ⟨hst.moveTo _ _ _, rfl, rfl, rfl, rfl⟩ hm hm' _ _
  | @unknown code ls q none inside h ih =>
    refine AlikeAt.content_run (fun _ _ => ih) ?_
    rw [s.next_unknown _ hst.lexemes none inside, if_neg (hst.isMasked hm),
      t.next_unknown _ hst.lexemes' none inside, if_neg (hst.isMasked' hm')]
    have hmove : AlikeAt b b' ls (q ++ rest) (q ++ rest') (s.moveTo ls s.queue) (t.moveTo ls t.queue) :=
      ⟨hst.moveTo _ _ _, rfl, rfl, hst.queue, hst.queue'⟩
    exact hmove.fail hm hm' _
  | placeholder h ih =>
    refine AlikeAt.content_run (fun _ _ => ih) ?_
    rw [s.next_placeholder _ hst.lexemes hst.queue, if_neg (hst.isMasked hm),
      t.next_placeholder _ hst.lexemes' hst.queue', if_neg (hst.isMasked' hm')]
    exact .value _ _ ⟨hst.moveTo _ _ _, rfl, rfl, rfl, rfl⟩
  | passive passive h ih =>
    refine AlikeAt.content_run (fun _ _ => ih) ?_
    rw [s.next_passive _ hst.lexemes passive, if_neg (hst.isMasked hm),
      t.next_passive _ hst.lexemes' passive, if_neg (hst.isMasked' hm')]
    exact .lexeme _ ⟨hst.moveTo _ _ _, rfl, rfl, hst.queue, hst.queue'⟩

end SqlComposer
