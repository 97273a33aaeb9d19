import SqlComposer.Proofs.Pass.Segment

/-!
# Conditional blocks leave no trace

* `BlockTree`, `Alternatives` : closed segments and blocks, nested to any depth;
* `BlockTree.tokens`, `BlockTree.selected` : the whole stream, and the stream of the selected branches alone;
* `BlockTree.Written` : the segments are closed, and an end is left out only where nothing follows;
* `Leads`, `Agree` : the keywords and the branches left out as steps; two streams that come to the same;
* `outcome_selected` : the whole stream gives the statement and the issues of the selected branches.
-/

namespace SqlComposer

/-! ## Trees -/

mutual

/-- Closed segments and blocks, one after the other. -/
inductive BlockTree
  | empty
  | segment (tokens : List Token) (rest : BlockTree)
  | block (condition : Token) (body : BlockTree) (others : Alternatives) (rest : BlockTree)

/-- What follows the first branch of a block. Its end may be left out. -/
inductive Alternatives
  | none (ended : Bool)
  | otherwise (body : BlockTree) (ended : Bool)
  | otherwiseIf (condition : Token) (body : BlockTree) (others : Alternatives)

end

/-- The end of a block, if it is written. -/
def endTokens (ended : Bool) : List Token :=
  if ended then [.sql "%end"] else []

mutual

/-- The whole stream. -/
def BlockTree.tokens : BlockTree → List Token
  | .empty => []
  | .segment tokens rest => tokens ++ rest.tokens
  | .block condition body others rest =>
    .sql "%if" :: condition :: (body.tokens ++ (others.tokens ++ rest.tokens))

def Alternatives.tokens : Alternatives → List Token
  | .none ended => endTokens ended
  | .otherwise body ended => .sql "%else" :: (body.tokens ++ endTokens ended)
  | .otherwiseIf condition body others => .sql "%else %if" :: condition :: (body.tokens ++ others.tokens)

end

mutual

/-- The stream of the selected branches alone: of each block the first branch whose condition is true. -/
def BlockTree.selected : BlockTree → List Token
  | .empty => []
  | .segment tokens rest => tokens ++ rest.selected
  | .block condition body others rest =>
    (if condition.toValue.isTruthy then body.selected else others.selected) ++ rest.selected

def Alternatives.selected : Alternatives → List Token
  | .none _ => []
  | .otherwise body _ => body.selected
  | .otherwiseIf condition body others =>
    if condition.toValue.isTruthy then body.selected else others.selected

end

mutual

/-- The segments are closed, and with the tokens `after` behind the tree an end is left out only where nothing
follows. -/
def BlockTree.Written (placeholders : Bool) (after : List Token) : BlockTree → Prop
  | .empty => True
  | .segment tokens rest => Fed placeholders [] tokens ∧ rest.Written placeholders after
  | .block _ body others rest =>
    body.Written placeholders (others.tokens ++ (rest.tokens ++ after)) ∧
      others.Written placeholders (rest.tokens ++ after) ∧ rest.Written placeholders after

def Alternatives.Written (placeholders : Bool) (after : List Token) : Alternatives → Prop
  | .none ended => ended = false → after = []
  | .otherwise body ended =>
    body.Written placeholders (endTokens ended ++ after) ∧ (ended = false → after = [])
  | .otherwiseIf _ body others =>
    body.Written placeholders (others.tokens ++ after) ∧ others.Written placeholders after

end

/-! ## Steps of the whole stream -/

theorem Branch.next_of_ne_waiting (block : Branch) (h : block ≠ .waiting) (condition : Bool) (blocks : List Branch) :
    leavesOut (block.next condition :: blocks) = true ∧ block.next condition ≠ .waiting := by
  cases block with
  | chosen =>
    have hn : Branch.spent ≠ .waiting := by decide
    exact ⟨rfl, hn⟩
  | waiting => exact absurd rfl h
  | spent => exact ⟨rfl, h⟩
  | enclosed => exact ⟨rfl, h⟩

/-- The state in front of the tokens `q`, behind a keyword that has left `b`. -/
def Pass.branch (b : Branches) (q : List Token) (s : Pass) : Pass :=
  { s.enter [] q with branches := b }.endToken

/-- From the tokens `q`, with `blocks` open, the pass comes to the tokens `rest`, with `blocks'` open, and has
neither written nor found anything. -/
def Leads (ctx : Context) (blocks : List Branch) (q : List Token) (blocks' : List Branch) (rest : List Token) :
    Prop :=
  ∀ s : Pass, s.lexemes = [] → s.queue = q → s.branches.blocks = blocks →
    ∃ u : Pass, u.lexemes = [] ∧ u.queue = rest ∧ u.branches.blocks = blocks' ∧ u.out.text = s.out.text ∧
      u.bounds = s.bounds ∧ u.inserting = s.inserting ∧ run ctx s = run ctx u

section Steps

variable {ctx : Context} {s : Pass} {q rest : List Token} {blocks : List Branch}

theorem leads_segment {ts : List Token} (hm : leavesOut blocks = true) (h : Fed ctx.placeholders [] ts) :
    Leads ctx blocks (ts ++ rest) blocks rest := by
  intro s hl hq hb
  have hs : s.isMasked = true := by
    rw [← hm, Pass.isMasked, Branches.isMasked, hb]
  obtain ⟨u, hul, huq, hk, hr⟩ := h.skipsTo hl hq hs
  exact ⟨u, hul, huq, by rw [hk.branches, hb], hk.text, hk.bounds, hk.inserting, hr⟩

/-- The text of a keyword and the keyword are two steps of the pass. -/
theorem run_keyword {k : Keyword} {text : String} {ls : List Lexeme} {b : Branches} (hl : s.lexemes = [])
    (hq : s.queue = .sql text :: q) (hscan : scan (.fragment ctx.placeholders) text = .marker k.code :: ls)
    (hk : k.isConditional = true) (hb : (s.enter ls q).block k = .moved [] (s.branch b rest)) :
    run ctx s = run ctx (s.branch b rest) := by
  rw [run_silent (s.next_sql _ hl hq), hscan]
  apply run_silent
  show (s.enter ls q).marker k.code true = _
  simp [Pass.marker, hk, hb]

theorem scan_if (placeholders : Bool) : scan (.fragment placeholders) "%if" = [.marker "if"] := by
  cases placeholders <;> decide +kernel

theorem scan_else (placeholders : Bool) : scan (.fragment placeholders) "%else" = [.marker "else"] := by
  cases placeholders <;> decide +kernel

theorem scan_elseIf (placeholders : Bool) :
    scan (.fragment placeholders) "%else %if" = [.marker "else", .text " ", .marker "if"] := by
  cases placeholders <;> decide +kernel

theorem scan_end (placeholders : Bool) : scan (.fragment placeholders) "%end" = [.marker "end"] := by
  cases placeholders <;> decide +kernel

theorem leads_if (condition : Token) :
    Leads ctx blocks (.sql "%if" :: condition :: rest) (Branch.first condition.toValue.isTruthy blocks :: blocks) rest := by
  rintro s hl hq rfl
  exact ⟨s.branch (s.branches.openBlock condition.toValue.isTruthy) rest, rfl, rfl, rfl, rfl, rfl, rfl,
    run_keyword (k := .ifTrue) hl hq (scan_if _) rfl rfl⟩

theorem leads_else {block : Branch} :
    Leads ctx (block :: blocks) (.sql "%else" :: rest) (block.next true :: blocks) rest := by
  intro s hl hq hb
  obtain ⟨c, hc, hcb, -⟩ := Branches.exists_otherwiseIf hb true
  have hstep : (s.enter [] rest).block .otherwise = .moved [] (s.branch c rest) := by
    show Pass.endBranch ((s.enter [] rest).branched (s.branches.otherwiseIf true)) = _
    rw [hc]
    rfl
  exact ⟨s.branch c rest, rfl, rfl, hcb, rfl, rfl, rfl,
    run_keyword (k := .otherwise) hl hq (scan_else _) rfl hstep⟩

theorem leads_elseIf {block : Branch} (condition : Token) :
    Leads ctx (block :: blocks) (.sql "%else %if" :: condition :: rest)
      (block.next condition.toValue.isTruthy :: blocks) rest := by
  intro s hl hq hb
  obtain ⟨c, hc, hcb, -⟩ := Branches.exists_otherwiseIf hb condition.toValue.isTruthy
  have hd : dropElseIf? [.text " ", .marker "if"] = some [] := by decide
  have hstep : (s.enter [.text " ", .marker "if"] (condition :: rest)).block .otherwise =
      .moved [] (s.branch c rest) := by
    have he : (s.enter [.text " ", .marker "if"] (condition :: rest)).block .otherwise =
        Pass.endBranch ((s.enter [] rest).branched (s.branches.otherwiseIf condition.toValue.isTruthy)) := by
      simp only [Pass.block, Pass.enter, hd]
      rfl
    rw [he, hc]
    rfl
  exact ⟨s.branch c rest, rfl, rfl, hcb, rfl, rfl, rfl,
    run_keyword (k := .otherwise) hl hq (scan_elseIf _) rfl hstep⟩

theorem leads_end {block : Branch} : Leads ctx (block :: blocks) (.sql "%end" :: rest) blocks rest := by
  intro s hl hq hb
  obtain ⟨c, hc, hcb, -⟩ := Branches.exists_close hb
  have hstep : (s.enter [] rest).block .endIf = .moved [] (s.branch c rest) := by
    show Pass.endBranch ((s.enter [] rest).branched s.branches.close) = _
    rw [hc]
    rfl
  exact ⟨s.branch c rest, rfl, rfl, hcb, rfl, rfl, rfl,
    run_keyword (k := .endIf) hl hq (scan_end _) rfl hstep⟩

end Steps

/-! ## Two streams -/

/-- Two states between tokens with the same output and bounds. The first has `blocks` open, which no longer
matters behind its last token; the second leaves nothing out. -/
structure Beside (blocks : List Branch) (q q' : List Token) (s t : Pass) : Prop where
  text : s.out.text = t.out.text
  bounds : s.bounds = t.bounds
  lexemes : s.lexemes = []
  lexemes' : t.lexemes = []
  queue : s.queue = q
  queue' : t.queue = q'
  blocks : q ≠ [] → s.branches.blocks = blocks
  shown : t.isMasked = false
  inserting : s.inserting = false
  inserting' : t.inserting = false

/-- The tokens `q`, with `blocks` open, and the tokens `q'` come to the same. -/
def Agree (ctx : Context) (blocks : List Branch) (q q' : List Token) : Prop :=
  ∀ s t, Beside blocks q q' s t → (run ctx s).content = (run ctx t).content

section Agree

variable {ctx : Context} {blocks blocks' : List Branch} {q q' rest rest' : List Token}

theorem agree_nil : Agree ctx blocks [] [] := by
  intro s t h
  have hs : s.next ctx.placeholders = .finished := by rw [Pass.next, h.lexemes, h.queue]
  have ht : t.next ctx.placeholders = .finished := by rw [Pass.next, h.lexemes', h.queue']
  rw [run_finished hs, run_finished ht]
  unfold Pass.finish Output.finish
  rw [h.text, h.bounds]
  exact Render.content_after_congr rfl [] _ _

theorem Agree.of_nil (h : Agree ctx blocks [] q') : Agree ctx blocks' [] q' := by
  intro s t hst
  exact h s t { hst with blocks := fun hne => absurd rfl hne }

theorem Leads.agree (hl : Leads ctx blocks q blocks' rest) (hne : q ≠ []) (h : Agree ctx blocks' rest q') :
    Agree ctx blocks q q' := by
  intro s t hst
  obtain ⟨u, hul, huq, hub, hut, hubo, hui, hr⟩ := hl s hst.lexemes hst.queue (hst.blocks hne)
  rw [hr]
  exact h u t
    { hst with
      text := hut.trans hst.text
      bounds := hubo.trans hst.bounds
      lexemes := hul
      queue := huq
      blocks := fun _ => hub
      inserting := hui.trans hst.inserting }

/-- A closed segment that is left out. -/
theorem Agree.skip {ts : List Token} (hm : leavesOut blocks = true) (hf : Fed ctx.placeholders [] ts)
    (h : Agree ctx blocks rest q') : Agree ctx blocks (ts ++ rest) q' := by
  cases ts with
  | nil => exact h
  | cons t ts => exact (leads_segment hm hf).agree (by simp) h

/-- A closed segment that is shown. -/
theorem Agree.segment {ts : List Token} (hm : leavesOut blocks = false) (hf : Fed ctx.placeholders [] ts)
    (h : Agree ctx blocks rest rest') : Agree ctx blocks (ts ++ rest) (ts ++ rest') := by
  cases ts with
  | nil => exact h
  | cons token ts =>
    intro s t hst
    have hb : s.branches.blocks = blocks := hst.blocks (by simp)
    have hs : s.branches.isMasked = false := by
      rw [← hm, Branches.isMasked, hb]
    have hout : s.out.endToken = t.out.endToken := by
      unfold Output.endToken
      rw [hst.text]
    rw [← run_endToken hst.lexemes, ← run_endToken hst.lexemes']
    refine hf.content_run hs hst.shown (fun u v (huv : AlikeAt _ _ [] rest rest' u v) => h u v ?_)
      ⟨⟨hout, hst.bounds, rfl, rfl, hst.inserting, hst.inserting'⟩, hst.lexemes, hst.lexemes', hst.queue, hst.queue'⟩
    exact
      { text := congrArg Output.text huv.out
        bounds := huv.bounds
        lexemes := huv.lexemes
        lexemes' := huv.lexemes'
        queue := huv.queue
        queue' := huv.queue'
        blocks := fun _ => by rw [huv.branches, hb]
        shown := by rw [Pass.isMasked, huv.branches']; exact hst.shown
        inserting := huv.inserting
        inserting' := huv.inserting' }

/-- The end of a block, written or left out. -/
theorem Agree.ends {block : Branch} {ended : Bool} (he : ended = false → rest = [])
    (h : Agree ctx blocks rest q') : Agree ctx (block :: blocks) (endTokens ended ++ rest) q' := by
  cases ended with
  | true => exact leads_end.agree (by simp) h
  | false =>
    obtain rfl := he rfl
    exact h.of_nil

/-! ## Blocks -/

mutual

/-- A tree that is left out. -/
theorem BlockTree.agree_of_leavesOut : ∀ (tree : BlockTree) {blocks : List Branch} {after after' : List Token},
    leavesOut blocks = true → tree.Written ctx.placeholders after → Agree ctx blocks after after' →
      Agree ctx blocks (tree.tokens ++ after) after'
  | .empty, _, _, _, _, _, h => h
  | .segment ts rest, blocks, after, after', hm, hw, h => by
    rw [BlockTree.tokens, List.append_assoc]
    exact (rest.agree_of_leavesOut hm hw.2 h).skip hm hw.1
  | .block condition body others rest, blocks, after, after', hm, hw, h => by
    obtain ⟨hbody, hothers, hrest⟩ := hw
    simp only [BlockTree.tokens, List.cons_append, List.append_assoc]
    refine (leads_if condition).agree (by simp) ?_
    rw [Branch.first, if_pos hm]
    exact body.agree_of_leavesOut rfl hbody
      (others.agree_of_passed (by decide) hothers (rest.agree_of_leavesOut hm hrest h))

/-- Branches behind the chosen one, or in a block that is left out. -/
theorem Alternatives.agree_of_passed : ∀ (others : Alternatives) {block : Branch} {blocks : List Branch}
    {after after' : List Token}, block ≠ .waiting → others.Written ctx.placeholders after →
      Agree ctx blocks after after' → Agree ctx (block :: blocks) (others.tokens ++ after) after'
  | .none ended, _, _, _, _, _, hw, h => h.ends hw
  | .otherwise body ended, block, blocks, after, after', hb, hw, h => by
    obtain ⟨hm, -⟩ := block.next_of_ne_waiting hb true blocks
    rw [Alternatives.tokens, List.cons_append, List.append_assoc]
    exact leads_else.agree (by simp) (body.agree_of_leavesOut hm hw.1 (h.ends hw.2))
  | .otherwiseIf condition body others, block, blocks, after, after', hb, hw, h => by
    obtain ⟨hm, hn⟩ := block.next_of_ne_waiting hb condition.toValue.isTruthy blocks
    simp only [Alternatives.tokens, List.cons_append, List.append_assoc]
    exact (leads_elseIf condition).agree (by simp)
      (body.agree_of_leavesOut hm hw.1 (others.agree_of_passed hn hw.2 h))

end

mutual

/-- A tree that is shown comes to its selected branches. -/
theorem BlockTree.agree : ∀ (tree : BlockTree) {blocks : List Branch} {after after' : List Token},
    leavesOut blocks = false → tree.Written ctx.placeholders after → Agree ctx blocks after after' →
      Agree ctx blocks (tree.tokens ++ after) (tree.selected ++ after')
  | .empty, _, _, _, _, _, h => h
  | .segment ts rest, blocks, after, after', hm, hw, h => by
    rw [BlockTree.tokens, BlockTree.selected, List.append_assoc, List.append_assoc]
    exact (rest.agree hm hw.2 h).segment hm hw.1
  | .block condition body others rest, blocks, after, after', hm, hw, h => by
    obtain ⟨hbody, hothers, hrest⟩ := hw
    have hr := rest.agree hm hrest h
    simp only [BlockTree.tokens, BlockTree.selected, List.cons_append, List.append_assoc]
    refine (leads_if condition).agree (by simp) ?_
    rw [Branch.first, hm, if_neg (by decide)]
    by_cases hc : condition.toValue.isTruthy = true
    · rw [if_pos hc, if_pos hc]
      exact body.agree rfl hbody (others.agree_of_passed (by decide) hothers hr)
    · rw [if_neg hc, if_neg hc]
      exact body.agree_of_leavesOut rfl hbody (others.agree hothers hr)

/-- Branches of a block that has none chosen yet. -/
theorem Alternatives.agree : ∀ (others : Alternatives) {blocks : List Branch} {after after' : List Token},
    others.Written ctx.placeholders after → Agree ctx blocks after after' →
      Agree ctx (.waiting :: blocks) (others.tokens ++ after) (others.selected ++ after')
  | .none ended, _, _, _, hw, h => h.ends hw
  | .otherwise body ended, blocks, after, after', hw, h => by
    rw [Alternatives.tokens, Alternatives.selected, List.cons_append, List.append_assoc]
    exact leads_else.agree (by simp) (body.agree rfl hw.1 (h.ends hw.2))
  | .otherwiseIf condition body others, blocks, after, after', hw, h => by
    simp only [Alternatives.tokens, Alternatives.selected, List.cons_append, List.append_assoc]
    refine (leads_elseIf condition).agree (by simp) ?_
    rw [Branch.next]
    by_cases hc : condition.toValue.isTruthy = true
    · rw [if_pos hc, if_pos hc]
      exact body.agree rfl hw.1 (others.agree_of_passed (by decide) hw.2 h)
    · rw [if_neg hc, if_neg hc]
      exact body.agree_of_leavesOut rfl hw.1 (others.agree hw.2 h)

end

end Agree

/-! ## Statements -/

/-- What the caller of a composition reads: the statement and its issues, without the number of branches left
out. -/
def Context.outcome (ctx : Context) (tokens : List Token) : Except DialectError (String × List Issue) :=
  (ctx.compose tokens).map fun statement => (statement.sql, statement.issues)

theorem outcome_eq_content (ctx : Context) (tokens : List Token) :
    ctx.outcome tokens = (run ctx (.start tokens)).content := by
  unfold Context.outcome Context.compose
  cases run ctx (.start tokens) <;> rfl

/-- A stream that does not insert rows and is written as closed segments and blocks gives the statement and
the issues of the stream of its selected branches. -/
theorem outcome_selected (ctx : Context) {text : String} {ts : List Token} {rest : BlockTree}
    (hi : isInsertCommand text = false)
    (hw : (BlockTree.segment (.sql text :: ts) rest).Written ctx.placeholders []) :
    ctx.outcome (BlockTree.segment (.sql text :: ts) rest).tokens =
      ctx.outcome (BlockTree.segment (.sql text :: ts) rest).selected := by
  rw [outcome_eq_content, outcome_eq_content]
  have h : Agree ctx [] _ _ := (BlockTree.segment (.sql text :: ts) rest).agree rfl hw agree_nil
  rw [List.append_nil, List.append_nil] at h
  exact h _ _
    { text := rfl
      bounds := rfl
      lexemes := rfl
      lexemes' := rfl
      queue := rfl
      queue' := rfl
      blocks := fun _ => rfl
      shown := rfl
      inserting := hi
      inserting' := hi }

/-- An alternative that is chosen, with a block in it that is not, and both ends left out. -/
def unendedTree : BlockTree :=
  .segment [.sql "SELECT %i", .value (.scalar (.int 1))]
    (.block (.value (.scalar .null)) (.segment [.sql "FROM %n", .value (.scalar (.text "t"))] .empty)
      (.otherwiseIf (.value (.scalar (.bool true)))
        (.segment [.sql "FROM u"] (.block (.value (.scalar (.int 0))) (.segment [.sql "WHERE 0"] .empty) (.none false)
          .empty))
        (.none false))
      .empty)

theorem outcome_selected_unended :
    isInsertCommand "SELECT %i" = false ∧ unendedTree.Written true [] ∧
      Context.outcome (.leapDay .mysql) unendedTree.tokens =
        Context.outcome (.leapDay .mysql) [.sql "SELECT %i", .value (.scalar (.int 1)), .sql "FROM u"] := by
  have hselect : scan (.fragment true) "SELECT %i" = [.text "SELECT ", .marker "i"] := by decide +kernel
  have hfrom : scan (.fragment true) "FROM %n" = [.text "FROM ", .marker "n"] := by decide +kernel
  have hu : scan (.fragment true) "FROM u" = [.text "FROM u"] := by decide +kernel
  have hwhere : scan (.fragment true) "WHERE 0" = [.text "WHERE 0"] := by decide +kernel
  have hi : TakesToken "i" [] := by
    show Modifier.int ≠ .expand
    decide
  have hn : TakesToken "n" [] := by
    show Modifier.identifier ≠ .expand
    decide
  have hw : unendedTree.Written true [] :=
    ⟨.sql (hselect ▸ .passive trivial (.marker hi .done)),
      ⟨.sql (hfrom ▸ .passive trivial (.marker hn .done)), trivial⟩,
      ⟨⟨.sql (hu ▸ .passive trivial .done), ⟨.sql (hwhere ▸ .passive trivial .done), trivial⟩, fun _ => rfl, trivial⟩,
        fun _ => rfl⟩,
      trivial⟩
  exact ⟨by decide, hw, outcome_selected _ (by decide) hw⟩

end SqlComposer
