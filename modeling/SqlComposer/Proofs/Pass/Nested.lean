import SqlComposer.Proofs.Pass.Framed
import SqlComposer.Proofs.Pass.Inline
import SqlComposer.Proofs.Pass.Splice

/-!
# A pass of its own, or tokens in place of a token

* `StandsAlone` : tokens over which a pass keeps to itself;
* `Framed.tight_run` : a pass with more branches left out before it, and with other white space;
* `NestedIn` : a pass of its own, and the pass over the same tokens where they stand;
* `run_nested` : a pass of its own whose text is written, and a pass over the same tokens where they stand;
* `tightOutcome_nested` : within a stream the two give the same but for white space.
-/

namespace SqlComposer

/-- The state keeps to what it has: it wants no token beyond its own, goes on with no block that it has not opened, sets
no row bound, and at its end has closed its blocks. -/
structure Pass.KeepsToItself (s : Pass) : Prop where
  fed : s.wantsMore = false
  opened : s.isUnopened = false
  closed : s.isUnclosed = false
  unbounded : s.setsBound = false

/-- A pass over the tokens keeps to itself, whatever it writes. -/
def StandsAlone (placeholders : Bool) (tokens : List Token) : Prop :=
  (Pass.start tokens).Always placeholders Pass.KeepsToItself

variable {ctx : Context} {k : Dialect.Kind} {s t : Pass} {ts C : List Token} {v : Value}

/-! ## Other white space, and more branches left out -/

namespace Framed

variable {f : Frame}

theorem tight_finish (hd : ctx.dialect = k.dialect) (h : Framed f Output.SameText (· = ·) s t) :
    ((s.finish ctx).after [] f.masked).tight = (t.finish ctx).tight := by
  have hout : Text.unspaced s.out.finish.toList = Text.unspaced t.out.finish.toList := by
    rw [Output.unspaced_finish, Output.unspaced_finish]
    exact h.out
  simp only [Pass.finish, Render.after_after, Render.tight_after, h.bounds, h.branches, Branches.inside, List.append_nil, hd]
  split
  · simp only [Render.tight, Render.pure_eq, Render.map_done, hout]
  · rw [tight_bounded k _ hout]

/-- Results that are alike but for white space, where more branches were left out before the second. -/
theorem congruence_after (n : Nat) : Render.Congruence fun x y => (x.after [] n).tight = y.tight where
  after {x y} found h := by
    have hx : (x.after found 0).after [] n = (x.after [] n).after found 0 := by
      simp
    rw [hx, Render.tight_after, h, Render.tight_after]
  bind x f g h := by
    cases x with
    | failed e => rfl
    | done text issues m =>
      have hf : ((f text).after issues m).after [] n = ((f text).after [] n).after issues m := by
        simp [Nat.add_comm]
      rw [Render.done_bind, Render.done_bind, hf, Render.tight_after, h, Render.tight_after]

theorem tight_run (hd : ctx.dialect = k.dialect) (htokens : f.tokens = []) (hblocks : f.blocks = [])
    (h : Framed f Output.SameText (· = ·) s t) : ((SqlComposer.run ctx s).after [] f.masked).tight =
      (SqlComposer.run ctx t).tight :=
  h.run (congruence_after f.masked) congruence_sameText congruence_bounds_eq htokens hblocks fun _ _ h => h.tight_finish hd

end Framed

/-! ## A pass of its own -/

/-- `o'` is the output `o` of a pass of its own, behind the text written before it, but for white space. -/
def Output.Behind (before : List Char) (o o' : Output) : Prop :=
  Text.unspaced o'.text.toList = before ++ Text.unspaced o.text.toList

theorem congruence_behind (before : List Char) : Output.Congruence (Output.Behind before) where
  push piece h := by rw [Output.Behind, Output.unspaced_push, Output.unspaced_push, h, List.append_assoc]
  endToken h := h

/-- No row bounds in a pass of its own, and those that were set before around it. -/
def RowBounds.Within (outer inner b : RowBounds) : Prop :=
  inner = .unbounded ∧ b = outer

/-- What a state that leaves nothing out has around tokens with `C` behind them. -/
def Pass.around (u : Pass) (C : List Token) (hm : u.isMasked = false) : Frame where
  tokens := C
  blocks := u.branches.blocks
  masked := u.branches.masked
  inserting := false
  shown := Branches.eq_chosen_of_not_isMasked hm

/-- `s` is a pass of its own that keeps to itself, and `t` the pass over the same tokens where they stand, from `u` on with
`C` behind them. -/
structure NestedIn (placeholders : Bool) (u : Pass) (C : List Token) (hm : u.isMasked = false) (s t : Pass) : Prop where
  alone : s.Always placeholders Pass.KeepsToItself
  framed : Framed (u.around C hm) (Output.Behind (Text.unspaced u.out.text.toList)) (RowBounds.Within u.bounds) s t

namespace NestedIn

variable {placeholders : Bool} {u w : Pass} {hm : u.isMasked = false}

theorem start (hts : StandsAlone placeholders ts) (hinsert : (firstText? ts).any isInsertCommand = false)
    (hq : u.queue = ts ++ C) (hl : u.lexemes = []) (hi : u.inserting = false) :
    NestedIn placeholders u C hm (.start ts) u where
  alone := hts
  framed :=
    { queue := hq
      lexemes := hl.symm
      out := (List.append_nil _).symm
      branches := rfl
      bounds := ⟨rfl, rfl⟩
      inserting := hinsert
      inserting' := hi
      lastRow := Bool.noConfusion }

theorem next (h : NestedIn placeholders u C hm s t) :
    s.lexemes = [] ∧ s.queue = [] ∨
      Next.Related (fun s' t' => ∀ text, NestedIn placeholders u C hm (s'.write text) (t'.write text))
        (s.next placeholders) (t.next placeholders) := by
  have hO := congruence_behind (Text.unspaced u.out.text.toList)
  have hself := h.alone.self
  refine (h.framed.next hO (.inr hself.fed) (.inr hself.opened) (.inr hself.unbounded) placeholders).imp_right
    fun hnext => hnext.with_state.mono ?_
  rintro s' t' ⟨h', hs'⟩ text
  exact ⟨h.alone.of_next hs' text, h'.write hO text⟩

theorem blocks_of_end (h : NestedIn placeholders u C hm s t) (hl : s.lexemes = []) (hq : s.queue = []) :
    s.branches.blocks = [] := by
  simpa [Pass.isUnclosed, hl, hq] using h.alone.self.closed

/-- At its end the pass of its own has its text, and no row bounds. -/
theorem finish (h : NestedIn placeholders u C hm s t) (ctx : Context) :
    s.finish ctx = .done s.out.finish [] s.branches.masked := by
  have hbounds : s.bounds.isUnbounded = true := by
    rw [h.framed.bounds.1]
    rfl
  rw [Pass.finish, hbounds, if_pos rfl]
  simp [Render.pure_eq]

/-- At the end of its tokens the text of the pass of its own is written; what was left out inside has still to be counted
outside. -/
theorem tail (h : NestedIn placeholders u C hm s t) (hl : s.lexemes = []) (hq : s.queue = [])
    (hu : Framed (.behind [] false) (· = ·) (· = ·) (u.moveTo [] C) w) :
    Framed ⟨[], [], s.branches.masked, false, nofun⟩ Output.SameText (· = ·) (w.write s.out.finish) t where
  queue := by
    show t.queue = w.queue ++ []
    rw [h.framed.queue, hq, List.append_nil, hu.queue]
    exact (List.append_nil C).symm
  lexemes := hu.lexemes.symm.trans (hl.symm.trans h.framed.lexemes)
  out := by
    show Text.unspaced (w.out.push s.out.finish).text.toList = Text.unspaced t.out.text.toList
    rw [Output.unspaced_push, Output.unspaced_finish, h.framed.out, ← hu.out]
    rfl
  branches := by
    show t.branches = w.branches.inside _
    rw [h.framed.branches, hu.branches]
    simp [Branches.inside, Frame.behind, Pass.moveTo, Pass.around, h.blocks_of_end hl hq, Nat.add_comm]
  bounds := hu.bounds.symm.trans h.framed.bounds.2.symm
  inserting := hu.inserting'
  inserting' := h.framed.inserting'
  lastRow := Bool.noConfusion

end NestedIn

/-- A pass of its own over tokens that stand alone, whose text is then written, and the pass over the same tokens where
they stand. -/
theorem run_nested {u w : Pass} (hd : ctx.dialect = k.dialect) (hts : StandsAlone ctx.placeholders ts)
    (hinsert : (firstText? ts).any isInsertCommand = false) (hq : u.queue = ts ++ C) (hm : u.isMasked = false)
    (hl : u.lexemes = []) (hu : Framed (.behind [] false) (· = ·) (· = ·) (u.moveTo [] C) w) :
    (run ctx (.start ts) >>= fun text => run ctx (w.write text)).tight = (run ctx u).tight := by
  refine run_bind_related (R := NestedIn ctx.placeholders u C hm) Render.congruence_tight (fun s t h => ?_)
    (.start hts hinsert hq hl hu.inserting)
  rcases h.next with ⟨hsl, hsq⟩ | hnext
  · rw [run_finished (Pass.next_of_end hsl hsq _), h.finish, Render.done_bind]
    exact .inl ((h.tail hsl hsq hu).tight_run hd rfl rfl)
  · exact .inr hnext

/-! ## Within a stream -/

/-- Where the output is left out the token of a splice is passed over. -/
theorem Pass.next_splice_of_isMasked (placeholders : Bool) {q : List Token} (hl : s.lexemes = [])
    (hq : s.queue = .modifier Modifier.expand.code :: .value v :: q) (hm : s.isMasked = true) :
    s.next placeholders = .moved [] (s.enter [] q) := by
  rw [next, hl, hq]
  exact if_pos hm

/-- Tokens that stand alone are written alike in place of a token and by a pass of its own: the same but for white space,
with the same issues and the same number of branches left out. -/
theorem tightOutcome_nested (hd : ctx.dialect = k.dialect) {A C : List Token} (hA : EndsExactly ctx.placeholders A)
    (hfirst : (firstText? A).isSome = true) (hselect : (firstText? A).any isInsertCommand = false)
    (hv : v.spliced? = some ts) (hts : StandsAlone ctx.placeholders ts)
    (hinsert : (firstText? ts).any isInsertCommand = false) :
    ctx.tightOutcome (A ++ [.modifier Modifier.expand.code, .value v] ++ C) =
      ctx.tightOutcome (A ++ [.value (.fragment ts)] ++ C) := by
  apply tightOutcome_congr
  rw [List.append_assoc, List.append_assoc]
  refine run_append Render.congruence_tight hA hfirst fun {s t t'} hl hq h h' => ?_
  have hinserting : (Pass.start A).inserting = false := hselect
  rw [hinserting] at h h'
  have hqueue : t.queue = .modifier Modifier.expand.code :: .value v :: C := by
    rw [h.queue, hq]
    rfl
  have hqueue' : t'.queue = .value (.fragment ts) :: C := by
    rw [h'.queue, hq]
    rfl
  have hlexemes : t.lexemes = [] := h.lexemes.symm.trans hl
  have hlexemes' : t'.lexemes = [] := h'.lexemes.symm.trans hl
  cases hm : s.isMasked with
  | true =>
    have hrest := @Framed.run_siblings _ _ ctx _ _ _ _ h h' C ""
    rw [Pass.write_empty, Pass.write_empty] at hrest
    rw [run_silent (t.next_splice_of_isMasked _ hlexemes hqueue (h.isMasked.trans hm)),
      run_silent (t'.next_value_of_isMasked _ hlexemes' hqueue' (h'.isMasked.trans hm)), hrest]
  | false =>
    have hshown : t.isMasked = false := h.isMasked.trans hm
    have hshown' : t'.isMasked = false := h'.isMasked.trans hm
    obtain ⟨r, hvalue⟩ := t'.next_value ctx.placeholders hlexemes' hqueue' hshown' (.inr rfl)
    have hu : Framed (.behind [] false) (· = ·) (· = ·) (t.enter [] C) { t'.enter [] C with lastRow := r } :=
      { h.siblings h' [] C with lastRow := Bool.noConfusion }
    have hfragment : render ctx (Pass.bareModifier (.fragment ts)) (.fragment ts) = run ctx (.start ts) := by
      show render ctx none (.fragment ts) = _
      rw [render]
    rw [run_silent (t.next_splice ctx.placeholders hlexemes hqueue hv hshown), run_value hvalue, hfragment]
    exact (run_nested (u := t.enter [] (ts ++ C)) hd hts hinsert rfl hshown rfl hu).symm

/-- Inside a block stands a list with a block of its own, of which the first branch is left out, with markers and
placeholders that take its elements, and with a mapping. -/
theorem tightOutcome_nested_block :
    let ctx : Context := .leapDay .mysql
    let A : List Token := [.sql "SELECT a%if", .value (.scalar (.bool true))]
    let C : List Token := [.sql "%end FROM t LIMIT %i", .value (.scalar (.int 5))]
    let list : Value := .list [.scalar (.text ", b%if"), .scalar (.bool false), .scalar (.text " = 1%else = %s, ?%end"),
      .scalar (.int 7), .scalar .null, .map [("c", .list [])]]
    let ts : List Token := [.sql ", b%if", .value (.scalar (.bool false)), .sql " = 1%else = %s, ?%end",
      .value (.scalar (.int 7)), .value (.scalar .null), .value (.map [("c", .list [])])]
    ctx.dialect = Dialect.Kind.mysql.dialect ∧ EndsExactly ctx.placeholders A ∧ (firstText? A).isSome = true ∧
      (firstText? A).any isInsertCommand = false ∧ list.spliced? = some ts ∧ StandsAlone ctx.placeholders ts ∧
      (firstText? ts).any isInsertCommand = false ∧
      ctx.tightOutcome (A ++ [.modifier Modifier.expand.code, .value list] ++ C) =
        ctx.tightOutcome (A ++ [.value (.fragment ts)] ++ C) := by
  intro ctx A C list ts
  have hA : EndsExactly ctx.placeholders A := by
    have hscan : scan (.fragment true) "SELECT a%if" = [.text "SELECT a", .marker "if"] := by decide +kernel
    refine Pass.always_of_text rfl rfl rfl hscan fun out => ?_
    iterate 2 refine Pass.always_of_next rfl rfl fun out => ?_
    exact Pass.always_of_end rfl rfl rfl
  have hts : StandsAlone ctx.placeholders ts := by
    have hopening : scan (.fragment true) ", b%if" = [.text ", b", .marker "if"] := by decide +kernel
    have hbranches : scan (.fragment true) " = 1%else = %s, ?%end" = [.text " = 1", .marker "else", .text " = ",
        .marker "s", .text ", ", .placeholder, .marker "end"] := by decide +kernel
    refine Pass.always_of_text ⟨rfl, rfl, rfl, rfl⟩ rfl rfl hopening fun out => ?_
    iterate 2 refine Pass.always_of_next ⟨rfl, rfl, rfl, rfl⟩ rfl fun out => ?_
    refine Pass.always_of_text ⟨rfl, rfl, rfl, rfl⟩ rfl rfl hbranches fun out => ?_
    iterate 8 refine Pass.always_of_next ⟨rfl, rfl, rfl, rfl⟩ rfl fun out => ?_
    exact Pass.always_of_end rfl rfl ⟨rfl, rfl, rfl, rfl⟩
  have hselect : (firstText? A).any isInsertCommand = false := by
    show isInsertCommand "SELECT a%if" = false
    decide +kernel
  have hinsert : (firstText? ts).any isInsertCommand = false := by
    show isInsertCommand ", b%if" = false
    decide +kernel
  exact ⟨rfl, hA, rfl, hselect, rfl, hts, hinsert, tightOutcome_nested (k := .mysql) rfl hA rfl hselect rfl hts hinsert⟩

end SqlComposer
