import Mathlib
import SqlComposer.Proofs.Pass.LeftOut
import SqlComposer.Proofs.Pass.Rows
import SqlComposer.Proofs.Pass.Total

/-!
# Branches between rows

A branch that is left out writes nothing, but its tokens stand between the rows before and behind it, so that no comma
joins these.

* `Feeds` : one step of what feeds its own markers; `Enclosed` : whole blocks, nested to any depth;
* `Pass.At` : where a pass is; `Feeds.exists_next`, `Enclosed.leavesTo` : where output is left out the pass goes over a
  branch step by step and comes back to the blocks that were open in front of it;
* `run_removed`, `run_rowAdjacent`, `run_rowApart` : from a row to the next one;
* `outcome_rowsApart` : the rows around a branch that is left out are written as they are without it, but for the comma.
-/

namespace SqlComposer

/-- With the lexemes to come of a text and the tokens behind it, the next step takes no tokens but those that it needs,
and leaves the later lexemes and tokens. It neither steers blocks nor splices tokens. -/
inductive Feeds (placeholders : Bool) : List Lexeme → List Token → List Lexeme → List Token → Prop
  | sql (text : String) (q : List Token) :
      Feeds placeholders [] (.sql text :: q) (scan (.fragment placeholders) text) q
  | value (v : Value) (q : List Token) : Feeds placeholders [] (.value v :: q) [] q
  | modifier {code : String} (takes : TakesToken code []) (t : Token) (q : List Token) :
      Feeds placeholders [] (.modifier code :: t :: q) [] q
  | marker {code : String} {ls : List Lexeme} (takes : TakesToken code ls) (t : Token) (q : List Token) :
      Feeds placeholders (.marker code :: ls) (t :: q) ls q
  | unknown {code : String} {ls : List Lexeme} (none : Marker.ofCode? code = none) (inside : ls ≠ []) (q : List Token) :
      Feeds placeholders (.marker code :: ls) q ls q
  | placeholder (ls : List Lexeme) (t : Token) (q : List Token) :
      Feeds placeholders (.placeholder :: ls) (t :: q) ls q
  | passive {l : Lexeme} (passive : l.IsPassive) (ls : List Lexeme) (q : List Token) :
      Feeds placeholders (l :: ls) q ls q

/-- The lexemes to come of a text and the tokens behind it close `n` blocks that were opened before, and all that they
open, and feed all their markers and placeholders. -/
inductive Enclosed (placeholders : Bool) : Nat → List Lexeme → List Token → Prop
  | done : Enclosed placeholders 0 [] []
  | feeds {n : Nat} {ls ls' : List Lexeme} {q q' : List Token} (step : Feeds placeholders ls q ls' q')
      (h : Enclosed placeholders n ls' q') : Enclosed placeholders n ls q
  | opens {n : Nat} {ls : List Lexeme} {q : List Token} (condition : Token) (h : Enclosed placeholders (n + 1) ls q) :
      Enclosed placeholders n (.marker Keyword.ifTrue.code :: ls) (condition :: q)
  | otherwise {n : Nat} {ls : List Lexeme} {q : List Token} (alone : dropElseIf? ls = none)
      (h : Enclosed placeholders (n + 1) ls q) :
      Enclosed placeholders (n + 1) (.marker Keyword.otherwise.code :: ls) q
  | otherwiseIf {n : Nat} {ls ls' : List Lexeme} {q : List Token} (followed : dropElseIf? ls = some ls')
      (condition : Token) (h : Enclosed placeholders (n + 1) ls' q) :
      Enclosed placeholders (n + 1) (.marker Keyword.otherwise.code :: ls) (condition :: q)
  | closes {n : Nat} {ls : List Lexeme} {q : List Token} (h : Enclosed placeholders n ls q) :
      Enclosed placeholders (n + 1) (.marker Keyword.endIf.code :: ls) q

/-- The lexemes and tokens to come and the open blocks of a pass, with a row that does not stand directly in front. -/
structure Pass.At (ls : List Lexeme) (q : List Token) (blocks : List Branch) (s : Pass) : Prop where
  lexemes : s.lexemes = ls
  queue : s.queue = q
  blocks : s.branches.blocks = blocks
  apart : s.lastRow = .apart

namespace Pass.At

variable {ctx : Context} {placeholders : Bool} {s : Pass} {ls : List Lexeme} {q : List Token} {blocks : List Branch}

theorem isMasked (h : s.At ls q blocks) (hm : leavesOut blocks = true) : s.isMasked = true := by
  rw [← hm, Pass.isMasked, Branches.isMasked, h.blocks]

theorem moveTo (h : s.At ls q blocks) (ls' : List Lexeme) (q' : List Token) : (s.moveTo ls' q').At ls' q' blocks :=
  ⟨rfl, rfl, h.blocks, h.apart⟩

theorem enter (h : s.At ls q blocks) (ls' : List Lexeme) (q' : List Token) : (s.enter ls' q').At ls' q' blocks :=
  ⟨rfl, rfl, h.blocks, congrArg LastRow.next h.apart⟩

end Pass.At

/-! ## Step by step -/

section Steps

variable {placeholders : Bool} {s : Pass} {ls ls' : List Lexeme} {q q' rest : List Token} {blocks : List Branch}

/-- Where output is left out a step over what feeds its own markers only takes their tokens. -/
theorem Feeds.exists_next (h : Feeds placeholders ls q ls' q') (hs : s.At ls (q ++ rest) blocks)
    (hm : leavesOut blocks = true) :
    ∃ t, s.next placeholders = .moved [] t ∧ t.At ls' (q' ++ rest) blocks := by
  have hmasked := hs.isMasked hm
  cases h with
  | sql text q => exact ⟨_, s.next_sql _ hs.lexemes hs.queue, hs.enter _ _⟩
  | value v q => exact ⟨_, s.next_value_of_isMasked _ hs.lexemes hs.queue hmasked, hs.enter _ _⟩
  | modifier takes t q =>
    exact ⟨_, (s.next_modifier _ hs.lexemes hs.queue takes).trans (if_pos hmasked), hs.enter _ _⟩
  | marker takes t q => exact ⟨_, (s.next_marker _ hs.lexemes hs.queue takes).trans (if_pos hmasked), hs.moveTo _ _⟩
  | unknown none inside q =>
    refine ⟨_, (s.next_unknown _ hs.lexemes none inside).trans (if_pos hmasked), ?_⟩
    rw [hs.queue]
    exact hs.moveTo _ _
  | placeholder ls t q => exact ⟨_, (s.next_placeholder _ hs.lexemes hs.queue).trans (if_pos hmasked), hs.moveTo _ _⟩
  | passive passive ls q =>
    refine ⟨_, (s.next_passive _ hs.lexemes passive).trans (if_pos hmasked), ?_⟩
    rw [hs.queue]
    exact hs.moveTo _ _

/-- A keyword of a block in a text. -/
theorem Pass.next_keyword {k : Keyword} (hl : s.lexemes = .marker k.code :: ls) (hk : k.isConditional = true) :
    s.next placeholders = (s.moveTo ls s.queue).block k := by
  rw [next, hl]
  simp [onLexeme, marker, hk]
  rfl

/-- The state behind a keyword in a text, which has left `b`. -/
def Pass.steer (b : Branches) (ls : List Lexeme) (q : List Token) (s : Pass) : Pass :=
  { s.moveTo ls q with branches := b }.endToken

theorem Pass.At.steer (h : s.At ls q blocks) (b : Branches) (ls' : List Lexeme) (q' : List Token) :
    (s.steer b ls' q').At ls' q' b.blocks :=
  ⟨rfl, rfl, rfl, h.apart⟩

variable {condition : Token}

theorem next_opens (hs : s.At (.marker Keyword.ifTrue.code :: ls) (condition :: q) blocks)
    (hm : leavesOut blocks = true) :
    ∃ t, s.next placeholders = .moved [] t ∧ t.At ls q (.enclosed :: blocks) := by
  have hb : (s.branches.openBlock condition.toValue.isTruthy).blocks = .enclosed :: blocks := by
    rw [Branches.blocks_openBlock, hs.blocks, Branch.first, if_pos hm]
  refine ⟨s.steer (s.branches.openBlock condition.toValue.isTruthy) ls q, ?_, hb ▸ hs.steer _ ls q⟩
  rw [s.next_keyword hs.lexemes rfl, hs.queue]
  rfl

/-- In a branch that is left out the branches of a block inside it do not matter. -/
theorem otherwiseIf_enclosed {b : Branches} (hb : b.blocks = .enclosed :: blocks) (c : Bool) :
    b.otherwiseIf c = .ok b := by
  obtain ⟨words, masked, nested⟩ := b
  obtain rfl : words = .enclosed :: blocks := hb
  rfl

theorem next_otherwise (hs : s.At (.marker Keyword.otherwise.code :: ls) q (.enclosed :: blocks))
    (alone : dropElseIf? ls = none) :
    ∃ t, s.next placeholders = .moved [] t ∧ t.At ls q (.enclosed :: blocks) := by
  have hblock : (s.moveTo ls q).block .otherwise =
      Pass.endBranch ((s.moveTo ls q).branched (s.branches.otherwiseIf true)) := by
    simp only [Pass.block, Pass.moveTo, alone]
    rfl
  refine ⟨s.steer s.branches ls q, ?_, hs.blocks ▸ hs.steer s.branches ls q⟩
  rw [s.next_keyword hs.lexemes rfl, hs.queue, hblock, otherwiseIf_enclosed hs.blocks]
  rfl

theorem next_otherwiseIf (hs : s.At (.marker Keyword.otherwise.code :: ls) (condition :: q) (.enclosed :: blocks))
    (followed : dropElseIf? ls = some ls') :
    ∃ t, s.next placeholders = .moved [] t ∧ t.At ls' q (.enclosed :: blocks) := by
  have hblock : (s.moveTo ls (condition :: q)).block .otherwise =
      Pass.endBranch ((s.moveTo ls' q).branched (s.branches.otherwiseIf condition.toValue.isTruthy)) := by
    simp only [Pass.block, Pass.moveTo, followed]
    rfl
  refine ⟨s.steer s.branches ls' q, ?_, hs.blocks ▸ hs.steer s.branches ls' q⟩
  rw [s.next_keyword hs.lexemes rfl, hs.queue, hblock, otherwiseIf_enclosed hs.blocks]
  rfl

theorem next_closes {block : Branch} (hs : s.At (.marker Keyword.endIf.code :: ls) q (block :: blocks)) :
    ∃ t, s.next placeholders = .moved [] t ∧ t.At ls q blocks := by
  obtain ⟨c, hclose, hblocks, -⟩ := Branches.exists_close hs.blocks
  have hblock : (s.moveTo ls q).block .endIf = Pass.endBranch ((s.moveTo ls q).branched s.branches.close) := rfl
  refine ⟨s.steer c ls q, ?_, hblocks ▸ hs.steer c ls q⟩
  rw [s.next_keyword hs.lexemes rfl, hs.queue, hblock, hclose]
  rfl

end Steps

/-! ## Whole branches -/

theorem leavesOut_replicate {blocks : List Branch} (hm : leavesOut blocks = true) (n : Nat) :
    leavesOut (List.replicate n .enclosed ++ blocks) = true := by
  cases n with
  | zero => exact hm
  | succ n => rfl

/-- Through a branch that is left out the pass comes to the tokens of `rest`, with `blocks` open, and has found
nothing. -/
def Pass.LeavesTo (placeholders : Bool) (rest : List Token) (blocks : List Branch) (s : Pass) : Prop :=
  ∃ u, LeavesOut placeholders s [] u ∧ u.At [] rest blocks

theorem Pass.LeavesTo.of_next {placeholders : Bool} {rest : List Token} {blocks : List Branch} {s : Pass}
    {P : Pass → Prop} (hm : s.isMasked = true) (hn : ∃ t, s.next placeholders = .moved [] t ∧ P t)
    (h : ∀ t, P t → t.LeavesTo placeholders rest blocks) : s.LeavesTo placeholders rest blocks := by
  obtain ⟨t, hnext, ht⟩ := hn
  obtain ⟨u, hu, hat⟩ := h t ht
  exact ⟨u, .silent hm hnext hu, hat⟩

/-- Where output is left out the pass goes over whole blocks, writes and finds nothing, and comes back to the blocks
that were open before. -/
theorem Enclosed.leavesTo {placeholders : Bool} {n : Nat} {ls : List Lexeme} {q : List Token}
    (h : Enclosed placeholders n ls q) {s : Pass} {rest rest' : List Token} {blocks blocks' : List Branch}
    (hs : s.At ls (q ++ rest) (List.replicate n .enclosed ++ blocks)) (hm : leavesOut blocks = true)
    (hrest : ∀ u : Pass, u.At [] rest blocks → u.LeavesTo placeholders rest' blocks') :
    s.LeavesTo placeholders rest' blocks' := by
  -- whatever is opened on the way is enclosed, so that `n` enclosed blocks always stand on top of `blocks`
  induction h generalizing s with
  | done => exact hrest s hs
  | @feeds n _ _ _ _ step h ih =>
    have hinside := leavesOut_replicate hm n
    exact .of_next (hs.isMasked hinside) (step.exists_next hs hinside) fun t ht => ih ht
  | @opens n _ _ condition h ih =>
    have hinside := leavesOut_replicate hm n
    exact .of_next (hs.isMasked hinside) (next_opens hs hinside) fun t ht => ih ht
  | otherwise alone h ih => exact .of_next (hs.isMasked rfl) (next_otherwise hs alone) fun t ht => ih ht
  | otherwiseIf followed condition h ih =>
    exact .of_next (hs.isMasked rfl) (next_otherwiseIf hs followed) fun t ht => ih ht
  | closes h ih => exact .of_next (hs.isMasked rfl) (next_closes hs) fun t ht => ih ht

/-- The end of a branch that is left out. -/
theorem leavesTo_end {placeholders : Bool} {s : Pass} {rest : List Token} {block : Branch} {blocks : List Branch}
    (hs : s.At [] (.sql "%end" :: rest) (block :: blocks)) (hm : leavesOut (block :: blocks) = true) :
    s.LeavesTo placeholders rest blocks := by
  have htext : ∃ t, s.next placeholders = .moved [] t ∧ t.At [.marker Keyword.endIf.code] rest (block :: blocks) :=
    ⟨_, s.next_sql _ hs.lexemes hs.queue, scan_end placeholders ▸ hs.enter _ _⟩
  exact .of_next (hs.isMasked hm) htext fun t ht =>
    .of_next (ht.isMasked hm) (next_closes ht) fun u hu => ⟨u, .refl u, hu⟩

/-! ## Between rows -/

/-- Behind a row, a branch that is left out leads to the tokens behind it, with the output as it was. -/
theorem run_removed {ctx : Context} {s : Pass} (hm : s.isMasked = false) (text : String) {condition : Token}
    (hc : condition.toValue.isTruthy = false) {branch : List Token} (hb : Enclosed ctx.placeholders 0 [] branch)
    (rest : List Token) :
    ∃ u : Pass, u.At [] rest s.branches.blocks ∧ u.out.text = text ∧ u.bounds = s.bounds ∧ u.inserting = s.inserting ∧
      run ctx (s.atRow ⟨text, false⟩ (.sql "%if" :: condition :: (branch ++ .sql "%end" :: rest))) = run ctx u := by
  let b := s.branches.openBlock condition.toValue.isTruthy
  let q := branch ++ .sql "%end" :: rest
  let v := (s.atRow ⟨text, false⟩ (.sql "%if" :: condition :: q)).branch b q
  have hopened : run ctx (s.atRow ⟨text, false⟩ (.sql "%if" :: condition :: q)) = run ctx v :=
    run_keyword (k := .ifTrue) rfl rfl (scan_if _) rfl rfl
  have hblocks : b.blocks = .waiting :: s.branches.blocks := by
    have hshown : ¬leavesOut s.branches.blocks = true := by
      show ¬s.isMasked = true
      simp [hm]
    rw [Branches.blocks_openBlock, Branch.first, if_neg hshown, hc]
    rfl
  have hat : v.At [] q (List.replicate 0 .enclosed ++ .waiting :: s.branches.blocks) := ⟨rfl, rfl, hblocks, rfl⟩
  obtain ⟨u, hleaves, hu⟩ := hb.leavesTo hat rfl fun u hu => leavesTo_end hu rfl
  have hun := hleaves.unwritten.1
  exact ⟨u, hu, hun.text, hun.bounds, hun.inserting,
    hopened.trans (hleaves.run_eq.trans (Render.after_nil_zero _))⟩

section Rows

variable {ctx : Context} {s : Pass} {row : List (String × Value)} {text : String} {values : List String}
  {later : List Issue} {more : Nat}

/-- A last row directly behind a row. -/
theorem run_rowAdjacent (hm : s.isMasked = false) (hb : s.bounds = .unbounded) (hi : s.inserting = true)
    (hlast : text.toList.getLast? = some ')') (hvalues : renderValues ctx row = .done values later more) :
    run ctx (s.atRow ⟨text, false⟩ [.value (.map row)]) =
      .done (Output.finish ⟨text, false⟩ ++ ", " ++ tuple values) later (more + s.branches.masked) := by
  have hadjacent : LastRow.adjacent ≠ .none := by decide
  exact run_lastRow (s := s.atRow ⟨text, false⟩ [.value (.map row)]) rfl rfl hm hb hi hadjacent hlast hvalues

/-- A last row with a branch that is left out between it and a row. -/
theorem run_rowApart (hm : s.isMasked = false) (hb : s.bounds = .unbounded) (hi : s.inserting = true)
    (hlast : text.toList.getLast? = some ')') (hvalues : renderValues ctx row = .done values later more)
    {condition : Token} (hc : condition.toValue.isTruthy = false) {branch : List Token}
    (hbranch : Enclosed ctx.placeholders 0 [] branch) :
    ∃ masked, run ctx (s.atRow ⟨text, false⟩
        (.sql "%if" :: condition :: (branch ++ [.sql "%end", .value (.map row)]))) =
      .done (Output.finish ⟨text, false⟩ ++ " " ++ tuple values) later masked := by
  obtain ⟨u, hu, htext, hub, hui, hremoved⟩ := run_removed hm text hc hbranch [.value (.map row)]
  have hapart : u.lastRow ≠ .none := by
    rw [hu.apart]
    decide
  have hum : u.isMasked = false := by
    rw [← hm, Pass.isMasked, Pass.isMasked, Branches.isMasked, Branches.isMasked, hu.blocks]
  have hout : u.out.finish = Output.finish ⟨text, false⟩ := by rw [Output.finish, htext, Output.finish]
  have hrow := run_lastRow hu.lexemes hu.queue hum (hub.trans hb) (hui.trans hi) hapart (htext ▸ hlast) hvalues
  rw [hu.apart, hout] at hrow
  exact ⟨_, hremoved.trans hrow⟩

/-- The values of a mapping succeed, if their expressions write themselves. -/
theorem succeeds_of_renders_entry (h : (Value.map row).Renders ctx.dialect) {e : String × Value} (he : e ∈ row)
    (m : Option Modifier) : (Work.value m e.2).Succeeds ctx :=
  Work.Of.succeeds (w := .value m e.2) ((hereditary_renders _).map h e he)

theorem exists_renderCells_eq (hd : ctx.dialect.WritesAll) (h : (Value.map row).Renders ctx.dialect) :
    ∃ cells issues masked, renderCells ctx .expand row = .done cells issues masked := by
  obtain ⟨cells, issues, masked, hr, -⟩ := notes_renderCells hd (notesBelow hd _) .expand (Nat.lt_succ_self _)
    fun e he m _ => succeeds_of_renders_entry h he m
  exact ⟨cells, issues, masked, hr⟩

theorem exists_renderValues_eq (hd : ctx.dialect.WritesAll) (h : (Value.map row).Renders ctx.dialect) :
    ∃ texts issues masked, renderValues ctx row = .done texts issues masked := by
  obtain ⟨texts, issues, masked, hr, -⟩ := notes_renderValues (notesBelow hd _) (Nat.lt_succ_self _)
    fun e he m _ => succeeds_of_renders_entry h he m
  exact ⟨texts, issues, masked, hr⟩

end Rows

/-- The rows around a branch that is left out are written as they are without it, with the same issues, but no comma
stands between them. -/
theorem outcome_rowsApart {k : Dialect.Kind} {ctx : Context} (hd : ctx.dialect = k.dialect) {first : String}
    (hi : isInsertCommand first = true) (hfirst : ∀ l ∈ scan (.fragment ctx.placeholders) first, l.IsPassive)
    {row row' : List (String × Value)} (hrow : (Value.map row).Renders ctx.dialect)
    (hrow' : (Value.map row').Renders ctx.dialect) {condition : Token} (hc : condition.toValue.isTruthy = false)
    {branch : List Token} (hb : Enclosed ctx.placeholders 0 [] branch) :
    ∃ head text found later masked,
      ctx.outcome [.sql first, .value (.map row)] = .ok (head, found) ∧
      render ctx (some .list) (.map row') = .done text later masked ∧
      ctx.outcome [.sql first, .value (.map row), .value (.map row')] = .ok (head ++ ", " ++ text, found ++ later) ∧
      ctx.outcome ([.sql first, .value (.map row), .sql "%if", condition] ++ branch ++
        [.sql "%end", .value (.map row')]) = .ok (head ++ " " ++ text, found ++ later) := by
  have hwrites : ctx.dialect.WritesAll := by
    rw [hd]
    exact k.writesAll
  obtain ⟨texts, issues, masked, hfront, -⟩ :=
    Render.Notes.mapM fun l (_ : l ∈ scan (.fragment ctx.placeholders) first) => Context.notes_lexeme hwrites l
  obtain ⟨cells, found, more, hcells⟩ := exists_renderCells_eq hwrites hrow
  obtain ⟨values, later, more', hvalues⟩ := exists_renderValues_eq hwrites hrow'
  let text := Output.opening (concat texts) (valuesClause cells)
  have hlast : text.toList.getLast? = some ')' :=
    Output.getLast?_opening (head?_valuesClause cells) (by decide) (getLast?_valuesClause cells)
  have hstart := run_frontRow hi hfirst hfront hcells
  have hinserting (q : List Token) : (Pass.behindFront first (concat texts) q).inserting = true :=
    (inserting_behindFront _ _ _).trans hi
  refine ⟨Output.finish ⟨text, false⟩, tuple values, issues ++ found, later, more', ?_, ?_, ?_, ?_⟩
  · exact outcome_firstRow hi hfirst hfront hcells
  · rw [render, hvalues, Render.map_done, tupleFor_list]
  · rw [outcome_eq_content, hstart, run_rowAdjacent rfl rfl (hinserting _) hlast hvalues]
    rfl
  · let q := .sql "%if" :: condition :: (branch ++ [.sql "%end", .value (.map row')])
    let s := Pass.behindFront first (concat texts) q
    obtain ⟨_, hrun⟩ := run_rowApart (s := s) rfl rfl (hinserting q) hlast hvalues hc hb
    show ctx.outcome (.sql first :: .value (.map row) :: q) = _
    rw [outcome_eq_content, hstart, hrun]
    rfl

/-- A row, a marker and a block in a branch that is left out: the block has another branch, with an unknown code. -/
def sampleBranch : List Token :=
  [.value (.map [("a", .scalar (.int 7))]), .sql ", %i %if", .value (.scalar (.int 8)), .value (.scalar (.bool true)),
    .sql "?%else %if %zz x", .value (.list []), .value (.scalar .null), .modifier "l", .value (.scalar (.int 1)),
    .sql "%end"]

theorem enclosed_sampleBranch : Enclosed true 0 [] sampleBranch := by
  have hif : scan (.fragment true) ", %i %if" = [.text ", ", .marker "i", .text " ", .marker "if"] := by decide +kernel
  have helse : scan (.fragment true) "?%else %if %zz x" =
      [.placeholder, .marker "else", .text " ", .marker "if", .text " ", .marker "zz", .text " x"] := by decide +kernel
  have hi : TakesToken "i" [.text " ", .marker "if"] := by
    rw [TakesToken, show Marker.ofCode? "i" = some (.modifier .int) from rfl]
    decide
  have hl : TakesToken "l" [] := by
    rw [TakesToken, show Marker.ofCode? "l" = some (.modifier .list) from rfl]
    decide
  have htext (text : String) : (Lexeme.text text).IsPassive := trivial
  refine .feeds (.value _ _) (.feeds (.sql _ _) ?_)
  rw [hif]
  refine .feeds (.passive (htext _) _ _) (.feeds (.marker hi _ _) (.feeds (.passive (htext _) _ _) (.opens _ ?_)))
  refine .feeds (.sql _ _) ?_
  rw [helse]
  refine .feeds (.placeholder _ _ _) (.otherwiseIf rfl _ ?_)
  refine .feeds (.passive (htext _) _ _) (.feeds (.unknown rfl (by decide) _) (.feeds (.passive (htext _) _ _) ?_))
  refine .feeds (.modifier hl _ _) (.feeds (.sql _ _) ?_)
  rw [scan_end]
  exact .closes .done

theorem outcome_rowsApart_sample :
    let ctx : Context := .leapDay .mysql
    let row := [("a", Value.scalar (.int 1))]
    let row' := [("a", Value.scalar (.int 2))]
    isInsertCommand "INSERT INTO t" = true ∧ (∀ l ∈ scan (.fragment ctx.placeholders) "INSERT INTO t", l.IsPassive) ∧
      (Value.map row).Renders ctx.dialect ∧ (Value.map row').Renders ctx.dialect ∧
      Enclosed ctx.placeholders 0 [] sampleBranch ∧
      ∃ head text found later masked,
        ctx.outcome [.sql "INSERT INTO t", .value (.map row)] = .ok (head, found) ∧
        render ctx (some .list) (.map row') = .done text later masked ∧
        ctx.outcome [.sql "INSERT INTO t", .value (.map row), .value (.map row')] =
          .ok (head ++ ", " ++ text, found ++ later) ∧
        ctx.outcome ([.sql "INSERT INTO t", .value (.map row), .sql "%if", .value (.scalar .null)] ++ sampleBranch ++
          [.sql "%end", .value (.map row')]) = .ok (head ++ " " ++ text, found ++ later) := by
  intro ctx row row'
  have hi : isInsertCommand "INSERT INTO t" = true := by decide +kernel
  have hfirst : ∀ l ∈ scan (.fragment ctx.placeholders) "INSERT INTO t", l.IsPassive := by
    have hscan : scan (.fragment ctx.placeholders) "INSERT INTO t" = [.text "INSERT INTO t"] := by
      show scan (.fragment true) "INSERT INTO t" = _
      decide +kernel
    simp [hscan, Lexeme.IsPassive]
  have hrow (n : Int) : (Value.map [("a", .scalar (.int n))]).Renders ctx.dialect := by
    refine .map fun e he => ?_
    obtain rfl := List.mem_singleton.1 he
    exact .scalar _
  exact ⟨hi, hfirst, hrow 1, hrow 2, enclosed_sampleBranch,
    outcome_rowsApart rfl hi hfirst (hrow 1) (hrow 2) rfl enclosed_sampleBranch⟩

/-- The comma between two rows is lost where a branch that is left out stands between them. -/
theorem comma_lost :
    let ctx : Context := .leapDay .generic
    let row : Token := .value (.map [("a", .scalar (.int 1))])
    let row' : Token := .value (.map [("a", .scalar (.int 2))])
    let without := ctx.outcome [.sql "INSERT INTO t", row, row']
    let around := ctx.outcome [.sql "INSERT INTO t", row, .sql "%if", .value (.scalar (.bool false)), .sql "%end", row']
    isInsertCommand "INSERT INTO t" = true ∧ (∀ l ∈ scan (.fragment ctx.placeholders) "INSERT INTO t", l.IsPassive) ∧
      Enclosed ctx.placeholders 0 [] [] ∧ without = .ok ("INSERT INTO t (\"a\") VALUES (1), (2)", []) ∧
      around = .ok ("INSERT INTO t (\"a\") VALUES (1) (2)", []) ∧ around ≠ without := by
  intro ctx row row' without around
  have hi : isInsertCommand "INSERT INTO t" = true := by decide +kernel
  have hscan : scan (.fragment ctx.placeholders) "INSERT INTO t" = [.text "INSERT INTO t"] := by
    show scan (.fragment true) "INSERT INTO t" = _
    decide +kernel
  have hfirst : ∀ l ∈ scan (.fragment ctx.placeholders) "INSERT INTO t", l.IsPassive := by
    rw [hscan]
    intro l hl
    obtain rfl := List.mem_singleton.1 hl
    trivial
  have hcells : renderCells ctx .expand [("a", .scalar (.int 1))] = .done [("\"a\"", "1")] [] 0 := by cbv
  have hvalues : renderValues ctx [("a", .scalar (.int 2))] = .done ["2"] [] 0 := by cbv
  let head := Output.opening "INSERT INTO t" (valuesClause [("\"a\"", "1")])
  have hlast : head.toList.getLast? = some ')' := by decide +kernel
  let s (q : List Token) := Pass.behindFront "INSERT INTO t" "INSERT INTO t" q
  have hinserting (q : List Token) : (s q).inserting = true := (inserting_behindFront _ _ _).trans hi
  have hrow (q : List Token) :
      run ctx (.start (.sql "INSERT INTO t" :: row :: q)) = run ctx ((s q).atRow ⟨head, false⟩ q) := by
    have hfront : (scan (.fragment ctx.placeholders) "INSERT INTO t").mapM ctx.lexeme =
        .done ["INSERT INTO t"] [] 0 := by
      rw [hscan]
      rfl
    have hconcat : concat ["INSERT INTO t"] = "INSERT INTO t" := by decide +kernel
    rw [run_frontRow hi hfirst hfront hcells, hconcat]
    exact Render.after_nil_zero _
  have hwithout : without = .ok ("INSERT INTO t (\"a\") VALUES (1), (2)", []) := by
    have hrun := run_rowAdjacent rfl rfl (hinserting [row']) hlast hvalues
    have htext : Output.finish ⟨head, false⟩ ++ ", " ++ tuple ["2"] = "INSERT INTO t (\"a\") VALUES (1), (2)" := by
      decide +kernel
    rw [htext] at hrun
    exact (outcome_eq_content ctx _).trans (congrArg Render.content ((hrow [row']).trans hrun))
  have haround : around = .ok ("INSERT INTO t (\"a\") VALUES (1) (2)", []) := by
    let q : List Token := [.sql "%if", .value (.scalar (.bool false)), .sql "%end", row']
    have hfalse : (Token.value (.scalar (.bool false))).toValue.isTruthy = false := rfl
    obtain ⟨masked, hrun⟩ := run_rowApart rfl rfl (hinserting q) hlast hvalues hfalse .done
    have htext : Output.finish ⟨head, false⟩ ++ " " ++ tuple ["2"] = "INSERT INTO t (\"a\") VALUES (1) (2)" := by
      decide +kernel
    rw [htext] at hrun
    exact (outcome_eq_content ctx _).trans (congrArg Render.content ((hrow q).trans hrun))
  refine ⟨hi, hfirst, .done, hwithout, haround, ?_⟩
  rw [hwithout, haround]
  intro h
  have htext := congrArg Prod.fst (Except.ok.inj h)
  revert htext
  decide +kernel

end SqlComposer
