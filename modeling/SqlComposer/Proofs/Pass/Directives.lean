import SqlComposer.Proofs.Calendar.IsoReader
import SqlComposer.Proofs.Number.Notation
import SqlComposer.Proofs.Pass.Framed
import SqlComposer.Proofs.Pass.Total

/-!
# Row bounds between the tokens

* `Directive` : a keyword for a row bound and the token it takes; `Directive.bounds` : what the last of each keyword say;
* `Pass.ComesToHead` : the pass over some tokens stops exactly behind them;
* `Interspersed` : a stream with directives at places to which the pass comes;
* `Abreast` : the pass without and the pass with directives, both as far as the tokens before a place lead;
* `AbreastToHead` : such passes, where the tokens before lead to the head of the loop; `Bounding` : such passes behind
  the last directive;
* `run_interspersed` : the bounded text of the first pass is the text of the second;
* `compose_interspersed` : so directives change nothing but the bounds of the statement.
-/

namespace SqlComposer

/-! ## Directives -/

/-- A keyword for a row bound, and the token that it takes for a count. -/
structure Directive where
  keyword : Keyword
  token : Token
  /-- The count, which null takes away. -/
  count : Option Nat
  isBound : keyword.isConditional = false
  counts : Pass.rowCount? token.toValue = some count

namespace Directive

/-- The directive as it stands in a stream. -/
def tokens (d : Directive) : List Token :=
  [.modifier d.keyword.code, d.token]

/-- The row bounds with the one that the directive sets. -/
def set (b : RowBounds) (d : Directive) : RowBounds :=
  Pass.setBound d.keyword d.count b

/-- The count of the last directive with the keyword. -/
def last (k : Keyword) (ds : List Directive) : Option Nat :=
  (ds.filter (·.keyword = k)).getLast?.bind count

/-- What the last limit and the last offset say. -/
def bounds (ds : List Directive) : RowBounds :=
  ⟨last .limit ds, last .offset ds⟩

theorem last_concat (k : Keyword) (ds : List Directive) (d : Directive) :
    last k (ds ++ [d]) = if d.keyword = k then d.count else last k ds := by
  rw [last, List.filter_append]
  by_cases hk : d.keyword = k
  · simp [hk]
  · simp [hk, last]

/-- One after the other, the directives leave what the last of each keyword say. -/
theorem foldl_set (ds : List Directive) : ds.foldl set .unbounded = bounds ds := by
  induction ds using List.reverseRecOn with
  | nil => rfl
  | append_singleton ds d ih =>
    have hset : bounds (ds ++ [d]) = set (bounds ds) d := by
      rw [bounds, last_concat, last_concat]
      obtain ⟨keyword, token, count, isBound, counts⟩ := d
      cases keyword with
      | limit => rfl
      | offset => rfl
      | _ => cases isBound
    rw [List.foldl_append, ih, hset, List.foldl_cons, List.foldl_nil]

end Directive

/-! ## What counts -/

/-- The decimal digits of a number below the limit count. -/
theorem Pass.rowCount?_decimal {n : Nat} (h : n < RowBounds.countLimit) :
    rowCount? (.scalar (.text (String.ofList (Decimal.natText n)))) = some (some n) := by
  have hpadded : Decimal.natText n = Decimal.padded 0 n := by simp [Decimal.padded]
  have hdigits := Decimal.isDigits_natText n
  have hplus : Decimal.dropPlus (Decimal.natText n) = Decimal.natText n := by
    unfold Decimal.dropPlus
    split
    · next cs hcs =>
      have hplus : Char.isDigit '+' = true := (Decimal.isDigits_iff.1 hdigits).2 '+' (hcs ▸ List.mem_cons_self)
      cases hplus
    · rfl
  have hvalue : Decimal.natOf (Decimal.natText n) = n := by rw [hpadded, Decimal.natOf_padded]
  have hstrip : Text.strip (Decimal.natText n) = Decimal.natText n := by
    rw [hpadded]
    exact (isTrimmed_padded 0 n).strip_eq
  rw [rowCount?, String.toList_ofList, hstrip, Decimal.unsigned?, hplus, if_pos hdigits, hvalue]
  simp [h]

/-- A directive with decimal digits. -/
def Directive.decimal (k : Keyword) (hk : k.isConditional = false) (n : Nat) (h : n < RowBounds.countLimit) : Directive :=
  ⟨k, .value (.scalar (.text (String.ofList (Decimal.natText n)))), some n, hk, Pass.rowCount?_decimal h⟩

theorem exists_head_of_rowCount? {text : String} {count : Option Nat}
    (h : Pass.rowCount? (.scalar (.text text)) = some count) :
    ∃ c cs, Text.dropBlank text.toList = c :: cs ∧ c ∈ "+0123456789".toList := by
  obtain ⟨blank, -, hblank⟩ := Text.exists_dropBlankEnd_append_blank (Text.dropBlank text.toList)
  have hdigits : Decimal.isDigits (Decimal.dropPlus (Text.strip text.toList)) = true := by
    by_contra hno
    rw [Pass.rowCount?, Decimal.unsigned?, if_neg hno] at h
    cases h
  rw [hblank, ← Text.strip]
  unfold Decimal.dropPlus at hdigits
  split at hdigits
  · next cs hcs =>
    rw [hcs]
    exact ⟨'+', cs ++ blank, rfl, List.mem_cons_self⟩
  · obtain ⟨hne, hall⟩ := Decimal.isDigits_iff.1 hdigits
    obtain ⟨c, cs, hcs⟩ := List.exists_cons_of_ne_nil hne
    rw [hcs] at hall ⊢
    exact ⟨c, cs ++ blank, rfl, List.mem_cons_of_mem _ (Pattern.mem_digits_iff.2 (hall c List.mem_cons_self))⟩

/-- What counts is no command. -/
theorem not_isInsertCommand_of_rowCount? {text : String} {count : Option Nat}
    (h : Pass.rowCount? (.scalar (.text text)) = some count) : isInsertCommand text = false := by
  obtain ⟨c, cs, hhead, hc⟩ := exists_head_of_rowCount? h
  have hupper : c.toUpper ≠ 'I' ∧ c.toUpper ≠ 'R' := by
    have hall : "+0123456789".toList.all (fun c => c.toUpper != 'I' && c.toUpper != 'R') = true := by decide
    simpa using List.all_eq_true.1 hall c hc
  rw [isInsertCommand, hhead, List.take_succ_cons, List.map_cons]
  simp [String.ext_iff, hupper]

/-! ## Places -/

namespace Pass

variable {placeholders masked : Bool} {s t : Pass}

/-- Whether the stream has ended and the output is not left out as `masked` says. -/
def endsUnlike (masked : Bool) (s : Pass) : Bool :=
  s.lexemes.isEmpty && s.queue.isEmpty && s.isMasked != masked

/-- The pass, whatever it writes, never wants a token more than it has. Behind its tokens it is at the head of its loop,
and the output is left out there or not, as `masked` says. -/
def ComesToHead (placeholders masked : Bool) (s : Pass) : Prop :=
  s.Always placeholders fun u => u.wantsMore = false ∧ u.endsUnlike masked = false

theorem ComesToHead.isMasked (h : s.ComesToHead placeholders masked) (hl : s.lexemes = []) (hq : s.queue = []) :
    s.isMasked = masked := by
  simpa [endsUnlike, hl, hq] using h.self.2

/-- More tokens behind those to come. -/
def followedBy (ts : List Token) (s : Pass) : Pass :=
  { s with queue := s.queue ++ ts }

end Pass

/-- `q'` are the tokens `q`, which stand behind `before`, with directives among them: `ds` where the output is shown and
others where it is left out. At each of them the pass is at the head of its loop. -/
inductive Interspersed (placeholders : Bool) : List Token → List Token → List Token → List Directive → Prop
  | done (before : List Token) : Interspersed placeholders before [] [] []
  | token {before q q' : List Token} {ds : List Directive} (t : Token) (h : Interspersed placeholders (before ++ [t]) q q' ds) :
      Interspersed placeholders before (t :: q) (t :: q') ds
  | shown {before q q' : List Token} {ds : List Directive} (d : Directive)
      (place : (Pass.start before).ComesToHead placeholders false) (h : Interspersed placeholders before q q' ds) :
      Interspersed placeholders before q (d.tokens ++ q') (d :: ds)
  | leftOut {before q q' : List Token} {ds : List Directive} (d : Directive)
      (place : (Pass.start before).ComesToHead placeholders true) (h : Interspersed placeholders before q q' ds) :
      Interspersed placeholders before q (d.tokens ++ q') ds

/-- A count that stands as SQL text may be the first text of the stream, but it is no command. -/
theorem Interspersed.not_inserting {placeholders : Bool} {before q q' : List Token} {ds : List Directive}
    (h : Interspersed placeholders before q q' ds) (hq : (firstText? q).any isInsertCommand = false) :
    (firstText? q').any isInsertCommand = false := by
  have hdirective (d : Directive) {q' : List Token} (hq' : (firstText? q').any isInsertCommand = false) :
      (firstText? (d.tokens ++ q')).any isInsertCommand = false := by
    obtain ⟨keyword, token, count, isBound, counts⟩ := d
    cases token with
    | sql text => exact not_isInsertCommand_of_rowCount? counts
    | modifier code => exact hq'
    | value v => exact hq'
  induction h with
  | done before => exact hq
  | token t h ih =>
    cases t with
    | sql text => exact hq
    | modifier code => exact ih hq
    | value v => exact ih hq
  | shown d place h ih => exact hdirective d (ih hq)
  | leftOut d place h ih => exact hdirective d (ih hq)

/-! ## Passes that go the same way -/

variable {ctx : Context} {placeholders masked : Bool} {s t t' : Pass} {A X X' : List Token} {b : RowBounds}

/-- Two states with the same tokens behind the same state. -/
theorem Framed.beside {inserting : Bool} {O O₁ O₂ : Output → Output → Prop} {B B₁ B₂ : RowBounds → RowBounds → Prop}
    (h : Framed (.behind X inserting) O₁ B₁ s t) (h' : Framed (.behind X inserting) O₂ B₂ s t') (hO : O t.out t'.out)
    (hB : B t.bounds t'.bounds) : Framed (.behind [] inserting) O B t t' where
  queue := by rw [h.queue, h'.queue]; exact (List.append_nil _).symm
  lexemes := h.lexemes.symm.trans h'.lexemes
  out := hO
  branches := by
    rw [h.branches, h'.branches]
    simp [Branches.inside, Frame.behind]
  bounds := hB
  inserting := h.inserting'
  inserting' := h'.inserting'
  lastRow hf := (h.lastRow hf).symm.trans (h'.lastRow hf)

theorem congruence_out_true : Output.Congruence fun _ _ => True :=
  ⟨fun _ _ => trivial, fun _ => trivial⟩

/-- Where a pass comes to is not a matter of its output and its row bounds. -/
theorem Framed.comesToHead (h : Framed (.behind [] false) (fun _ _ => True) (fun _ _ => True) s t)
    (ht : t.ComesToHead placeholders masked) : s.ComesToHead placeholders masked := by
  intro u hu
  induction hu using Relation.ReflTransGen.head_induction_on generalizing t with
  | refl =>
    have hqueue : t.queue = u.queue := h.queue.trans (List.append_nil _)
    have hself := ht.self
    rwa [Pass.wantsMore, Pass.endsUnlike, hqueue, ← h.lexemes, h.isMasked] at hself
  | head hstep _ ih =>
    obtain ⟨s', hs', out, rfl⟩ := hstep
    have hbounds : RowBounds.Congruence fun _ _ => True := fun _ _ _ _ _ => trivial
    rcases h.next congruence_out_true (.inl rfl) (.inl rfl) (.inl hbounds) placeholders with ⟨hl, hq⟩ | hnext
    · rw [Pass.next_of_end hl hq] at hs'
      cases hs'
    · obtain ⟨t', ht', h'⟩ := hnext.exists_state hs'
      exact ih (t := t'.write "") { h' with out := trivial } (ht.of_next ht' "")

/-- Wherever the pass over the tokens before comes to with more tokens behind them, there the pass from `s` on comes to. -/
def Pass.Continues (placeholders : Bool) (before : List Token) (s : Pass) : Prop :=
  ∀ ts masked, (firstText? (before ++ ts)).any isInsertCommand = false →
    (Pass.start (before ++ ts)).ComesToHead placeholders masked → (s.followedBy ts).ComesToHead placeholders masked

theorem Pass.Continues.followedBy {before : List Token} (h : s.Continues placeholders before) (ts : List Token) :
    (s.followedBy ts).Continues placeholders (before ++ ts) := by
  intro ts' masked hfirst hplace
  rw [List.append_assoc] at hfirst hplace
  have hcomes := h (ts ++ ts') masked hfirst hplace
  rwa [Pass.followedBy, ← List.append_assoc] at hcomes

theorem Pass.framed_followedBy (hi : s.inserting = false) (ts : List Token) :
    Framed (.behind ts false) (fun _ _ => True) (fun _ _ => True) s (s.followedBy ts) where
  queue := rfl
  lexemes := rfl
  out := trivial
  branches := by simp [Pass.followedBy, Branches.inside, Frame.behind]
  bounds := trivial
  inserting := hi
  inserting' := hi
  lastRow := Bool.noConfusion

/-- A step that keeps to its own tokens is the same step with more tokens behind. -/
theorem Pass.Continues.of_next {before : List Token} (h : s.Continues placeholders before) (hi : s.inserting = false)
    (hw : s.wantsMore = false) (ht : (s.next placeholders).state? = some t) (text : String) :
    (t.write text).Continues placeholders before := by
  intro ts masked hfirst hplace
  have hbounds : RowBounds.Congruence fun _ _ => True := fun _ _ _ _ _ => trivial
  rcases (s.framed_followedBy hi ts).next congruence_out_true (.inr hw) (.inl rfl) (.inl hbounds) placeholders
    with ⟨hl, hq⟩ | hnext
  · rw [Pass.next_of_end hl hq] at ht
    cases ht
  · obtain ⟨u, hu, hframed⟩ := hnext.exists_state ht
    have hcomes := (h ts masked hfirst hplace).of_next hu text
    refine Framed.comesToHead (t := u.write text) ?_ hcomes
    exact ((t.framed_followedBy hframed.inserting ts).beside hframed trivial trivial).write congruence_out_true text

/-! ## Abreast -/

/-- `t` is a pass that sets no row bounds, `t'` a pass with the bounds `b`. Both are where the pass `s` over the tokens
before is, with `X` and `X'` behind. -/
structure Abreast (placeholders : Bool) (before X X' : List Token) (b : RowBounds) (s t t' : Pass) : Prop where
  continues : s.Continues placeholders before
  plain : t.Always placeholders (·.setsBound = false)
  framed : Framed (.behind X false) (· = ·) (fun _ c => c = .unbounded) s t
  framed' : Framed (.behind X' false) (· = ·) (fun _ c => c = b) s t'

/-- A state sets a bound with more tokens behind, if it does so without them. -/
theorem Framed.setsBound {f : Frame} {O : Output → Output → Prop} {B : RowBounds → RowBounds → Prop}
    (h : Framed f O B s t) (ht : t.setsBound = false) : s.setsBound = false := by
  rw [Pass.setsBound, h.isMasked, ← h.lexemes, h.queue] at ht
  rw [Pass.setsBound]
  cases hl : s.lexemes with
  | cons l ls =>
    rw [hl] at ht
    cases l <;> exact ht
  | nil =>
    rw [hl] at ht
    cases hq : s.queue with
    | nil => exact Bool.and_false _
    | cons x q =>
      rw [hq, List.cons_append] at ht
      cases x <;> exact ht

/-- Where nothing is left out a directive sets its bound, and it does nothing else. -/
theorem run_directive (d : Directive) (hl : t.lexemes = []) (hq : t.queue = .modifier d.keyword.code :: d.token :: X) :
    ∃ r, run ctx t =
      run ctx { t with queue := X, bounds := if t.isMasked then t.bounds else d.set t.bounds, lastRow := r } := by
  have htakes : TakesToken d.keyword.code [] := by
    rw [TakesToken, Marker.ofCode?_keyword_code]
    exact d.isBound
  let u : Pass :=
    { t with queue := X, bounds := if t.isMasked then t.bounds else d.set t.bounds, lastRow := t.lastRow.next }
  have hu : t.next ctx.placeholders = .moved [] u.endToken := by
    have henter : t.enter [] X = { u with bounds := t.bounds }.endToken := by rw [← hl]; rfl
    rw [t.next_modifier ctx.placeholders hl hq htakes, henter]
    cases hm : t.isMasked with
    | true => simp only [u, hm, if_true]
    | false =>
      simp only [Pass.serve, Marker.ofCode?_keyword_code, d.counts, u, hm, Bool.false_eq_true, if_false]
      rfl
  exact ⟨_, (run_silent hu).trans (run_endToken hl)⟩

namespace Abreast

/-- The next token is the same in both passes. -/
theorem token {x : Token} (h : Abreast placeholders A (x :: X) (x :: X') b s t t') :
    Abreast placeholders (A ++ [x]) X X' b (s.followedBy [x]) t t' where
  continues := h.continues.followedBy [x]
  plain := h.plain
  framed := { h.framed with queue := by rw [h.framed.queue, Pass.followedBy, List.append_assoc]; rfl }
  framed' := { h.framed' with queue := by rw [h.framed'.queue, Pass.followedBy, List.append_assoc]; rfl }

/-- Both passes go on alike, where the tokens before are enough. -/
theorem next (h : Abreast placeholders A X X' b s t t') (hw : s.wantsMore = false) :
    s.lexemes = [] ∧ s.queue = [] ∨
      Next.Related (fun u u' => ∃ v, (s.next placeholders).state? = some v ∧
        ∀ text, Abreast placeholders A X X' b (v.write text) (u.write text) (u'.write text))
        (t.next placeholders) (t'.next placeholders) := by
  have hset : s.setsBound = false := h.framed.setsBound h.plain.self
  rcases h.framed.next congruence_out_eq (.inr hw) (.inl rfl) (.inr hset) placeholders with hend | hnext
  · exact .inl hend
  rcases h.framed'.next congruence_out_eq (.inr hw) (.inl rfl) (.inr hset) placeholders with hend | hnext'
  · exact .inl hend
  refine .inr ((hnext.with_states.join hnext').mono ?_)
  rintro u u' ⟨v, ⟨hu, hv, hut⟩, hu'⟩
  refine ⟨v, hv, fun text => ?_⟩
  exact {
    continues := h.continues.of_next h.framed.inserting hw hv text
    plain := h.plain.of_next hut text
    framed := hu.write congruence_out_eq text
    framed' := hu'.write congruence_out_eq text }

theorem comesToHead (h : Abreast placeholders A X X' b s t t') {q : List Token}
    (hfirst : (firstText? (A ++ q)).any isInsertCommand = false) (place : (Pass.start A).ComesToHead placeholders masked) :
    s.ComesToHead placeholders masked := by
  have hnil := h.continues [] masked
  rw [List.append_nil, Pass.followedBy, List.append_nil] at hnil
  refine hnil ?_ place
  cases hA : firstText? A with
  | none => rfl
  | some text => rwa [firstText?_append (by rw [hA]; rfl), hA] at hfirst

end Abreast

/-- Passes that are abreast, as far as the pass `s` leads, which comes to the head of its loop at the end of its tokens. -/
structure AbreastToHead (placeholders masked : Bool) (before X X' : List Token) (b : RowBounds) (s t t' : Pass) : Prop where
  place : s.ComesToHead placeholders masked
  abreast : Abreast placeholders before X X' b s t t'

namespace AbreastToHead

/-- Before the end of the tokens both passes go on alike. -/
theorem next (h : AbreastToHead placeholders masked A X X' b s t t') :
    s.lexemes = [] ∧ s.queue = [] ∨
      Next.Related (fun u u' => ∃ v : Pass, ∀ text,
        AbreastToHead placeholders masked A X X' b (v.write text) (u.write text) (u'.write text))
        (t.next placeholders) (t'.next placeholders) := by
  refine (h.abreast.next h.place.self.1).imp_right fun hnext => hnext.mono ?_
  rintro u u' ⟨v, hv, huv⟩
  exact ⟨v, fun text => ⟨h.place.of_next hv text, huv text⟩⟩

/-- Both passes come to the end of the tokens before. -/
theorem run {k : String → Render String} (h : AbreastToHead ctx.placeholders masked A X X' b s t t')
    (hend : ∀ {s t t' : Pass}, s.lexemes = [] → s.queue = [] → s.isMasked = masked →
      Abreast ctx.placeholders A X X' b s t t' → SqlComposer.run ctx t >>= k = SqlComposer.run ctx t') :
    SqlComposer.run ctx t >>= k = SqlComposer.run ctx t' := by
  refine run_bind_related (R := fun t t' => ∃ s, AbreastToHead ctx.placeholders masked A X X' b s t t')
    Render.congruence_eq ?_ ⟨s, h⟩
  rintro t t' ⟨s, h⟩
  rcases h.next with ⟨hl, hq⟩ | hnext
  · exact .inl (hend hl hq (h.place.isMasked hl hq) h.abreast)
  · refine .inr (hnext.mono ?_)
    rintro u u' ⟨v, hv⟩ text
    exact ⟨_, hv text⟩

end AbreastToHead

namespace Abreast

/-- At the end of the tokens before, the second pass takes a directive. -/
theorem directive {d : Directive} (h : Abreast ctx.placeholders A X (d.tokens ++ X') b s t t') (hl : s.lexemes = [])
    (hq : s.queue = []) :
    ∃ u, SqlComposer.run ctx t' = SqlComposer.run ctx u ∧
      Abreast ctx.placeholders A X X' (if s.isMasked then b else d.set b) s t u := by
  have hlexemes : t'.lexemes = [] := h.framed'.lexemes.symm.trans hl
  have hqueue : t'.queue = .modifier d.keyword.code :: d.token :: X' := by rw [h.framed'.queue, hq]; rfl
  obtain ⟨r, hrun⟩ := run_directive d hlexemes hqueue
  have hbounds : (if t'.isMasked then t'.bounds else d.set t'.bounds) = if s.isMasked then b else d.set b := by
    rw [h.framed'.isMasked, h.framed'.bounds]
  refine ⟨_, hrun, { h with framed' := ?_ }⟩
  exact { h.framed' with queue := by rw [hq]; rfl, bounds := hbounds, lastRow := Bool.noConfusion }

end Abreast

/-! ## Whole passes -/

/-- The text of a pass with row bounds. -/
def Context.bounding (ctx : Context) (b : RowBounds) (text : String) : Render String :=
  if b.isUnbounded then pure text else .ofDialect (ctx.dialect.bounded b text)

/-- `t` is a pass that has no row bounds and sets none, and `t'` is the same pass with the bounds `b`. -/
structure Bounding (placeholders : Bool) (b : RowBounds) (t t' : Pass) : Prop where
  plain : t.Always placeholders (·.setsBound = false)
  framed : Framed (.behind [] false) (· = ·) (fun a c => a = .unbounded ∧ c = b) t t'

namespace Bounding

theorem next (h : Bounding placeholders b t t') :
    t.lexemes = [] ∧ t.queue = [] ∨
      Next.Related (fun u u' => ∀ text, Bounding placeholders b (u.write text) (u'.write text)) (t.next placeholders)
        (t'.next placeholders) := by
  refine (h.framed.next congruence_out_eq (.inl rfl) (.inl rfl) (.inr h.plain.self) placeholders).imp_right
    fun hnext => hnext.with_state.mono ?_
  rintro u u' ⟨huu', hu⟩ text
  exact ⟨h.plain.of_next hu text, huu'.write congruence_out_eq text⟩

theorem finish (h : Bounding ctx.placeholders b t t') : t.finish ctx >>= ctx.bounding b = t'.finish ctx := by
  have hfinish : t.finish ctx = .done t.out.finish [] t.branches.masked := by
    rw [Pass.finish, h.framed.bounds.1]
    exact (Render.after_done _ _ _ _ _).trans (by rw [Nat.add_zero]; rfl)
  have hmasked : t'.branches.masked = t.branches.masked := by
    rw [h.framed.branches]
    simp [Branches.inside, Frame.behind]
  rw [hfinish, Render.done_bind, Pass.finish, h.framed.bounds.2, ← h.framed.out, hmasked]
  rfl

/-- Without further directives the bounds that were set before show at the end alone. -/
theorem run (h : Bounding ctx.placeholders b t t') : SqlComposer.run ctx t >>= ctx.bounding b = SqlComposer.run ctx t' := by
  refine run_bind_related (R := Bounding ctx.placeholders b) Render.congruence_eq (fun t t' h => ?_) h
  rcases h.next with ⟨hl, hq⟩ | hnext
  · have hqueue : t'.queue = [] := by rw [h.framed.queue, hq]; rfl
    rw [run_finished (Pass.next_of_end hl hq _),
      run_finished (Pass.next_of_end (h.framed.lexemes.symm.trans hl) hqueue _)]
    exact .inl h.finish
  · exact .inr hnext

end Bounding

theorem run_interspersed {q q' : List Token} {ds : List Directive} (h : Interspersed ctx.placeholders A q q' ds)
    (hfirst : (firstText? (A ++ q)).any isInsertCommand = false) (hs : Abreast ctx.placeholders A q q' b s t t') :
    run ctx t >>= ctx.bounding (ds.foldl Directive.set b) = run ctx t' := by
  induction h generalizing s t t' b with
  | done before =>
    refine Bounding.run ⟨hs.plain, ?_⟩
    exact hs.framed.beside hs.framed' (hs.framed.out.symm.trans hs.framed'.out) ⟨hs.framed.bounds, hs.framed'.bounds⟩
  | @token before q q' ds x h ih =>
    rw [List.append_cons] at hfirst
    exact ih hfirst hs.token
  | shown d place h ih =>
    refine AbreastToHead.run ⟨hs.comesToHead hfirst place, hs⟩ fun hl hq hm hs => ?_
    obtain ⟨u, hu, hs'⟩ := hs.directive hl hq
    rw [hm] at hs'
    exact (ih hfirst hs').trans hu.symm
  | leftOut d place h ih =>
    refine AbreastToHead.run ⟨hs.comesToHead hfirst place, hs⟩ fun hl hq hm hs => ?_
    obtain ⟨u, hu, hs'⟩ := hs.directive hl hq
    rw [hm] at hs'
    exact (ih hfirst hs').trans hu.symm

/-! ## Statements -/

/-- The text of a statement with row bounds. -/
def Dialect.Kind.boundedText (k : Dialect.Kind) (b : RowBounds) (sql : String) : String :=
  if b.isUnbounded then sql else String.ofList (k.bounded b sql.toList)

/-- The pass over a stream that is no command to insert rows, and the pass over the stream with directives. -/
theorem abreast_start {S S' : List Token} (hcommand : (firstText? S).any isInsertCommand = false)
    (hcommand' : (firstText? S').any isInsertCommand = false)
    (hplain : (Pass.start S).Always placeholders (·.setsBound = false)) :
    Abreast placeholders [] S S' .unbounded (.start []) (.start S) (.start S') where
  continues := by
    intro ts masked hfirst hplace
    refine Framed.comesToHead ?_ hplace
    exact ⟨(List.append_nil ts).symm, rfl, trivial, rfl, trivial, rfl, hfirst, Bool.noConfusion⟩
  plain := hplain
  framed := ⟨rfl, rfl, rfl, rfl, rfl, rfl, hcommand, Bool.noConfusion⟩
  framed' := ⟨rfl, rfl, rfl, rfl, rfl, rfl, hcommand', Bool.noConfusion⟩

/-- Directives between the tokens of a stream that sets no row bounds of its own. -/
theorem compose_interspersed {k : Dialect.Kind} (hd : ctx.dialect = k.dialect) {S S' : List Token} {ds : List Directive}
    (hcommand : (firstText? S).any isInsertCommand = false)
    (hplain : (Pass.start S).Always ctx.placeholders (·.setsBound = false))
    (hs : (Work.pass (.start S)).Succeeds ctx) (h : Interspersed ctx.placeholders [] S S' ds) :
    ∃ statement, ctx.compose S = .ok statement ∧
      ctx.compose S' = .ok { statement with sql := k.boundedText (Directive.bounds ds) statement.sql } := by
  have hstart := abreast_start hcommand (h.not_inserting hcommand) hplain
  have hrun := run_interspersed h hcommand hstart
  rw [Directive.foldl_set] at hrun
  obtain ⟨statement, hstatement, -⟩ := compose_total hd hs
  have hdone := run_of_compose hstatement
  have hbounding : ctx.bounding (Directive.bounds ds) statement.sql =
      .done (k.boundedText (Directive.bounds ds) statement.sql) [] 0 := by
    rw [Context.bounding, Dialect.Kind.boundedText, hd]
    split <;> rfl
  refine ⟨statement, hstatement, ?_⟩
  rw [hdone, Render.done_bind, hbounding] at hrun
  rw [Context.compose, ← hrun]
  simp

/-- Two limits, of which the second counts, and an offset in a branch that is left out. -/
theorem compose_interspersed_sample :
    let ctx : Context := .leapDay .postgres
    let three : Directive := ⟨.limit, .value (.scalar (.int 3)), some 3, rfl, rfl⟩
    let five : Directive := .decimal .limit rfl 5 (by decide)
    let seven : Directive := ⟨.offset, .value (.scalar (.int 7)), some 7, rfl, rfl⟩
    let S : List Token := [.sql "SELECT a", .sql "%if", .value (.scalar (.bool false))]
    let S' : List Token := .sql "SELECT a" :: three.tokens ++ five.tokens ++
      [.sql "%if", .value (.scalar (.bool false))] ++ seven.tokens
    ctx.dialect = Dialect.Kind.postgres.dialect ∧ (firstText? S).any isInsertCommand = false ∧
      (Pass.start S).Always ctx.placeholders (·.setsBound = false) ∧ (Work.pass (.start S)).Succeeds ctx ∧
      Interspersed ctx.placeholders [] S S' [three, five] ∧
      ∃ statement, ctx.compose S = .ok statement ∧
        ctx.compose S' = .ok { statement with sql := Dialect.Kind.postgres.boundedText ⟨some 5, none⟩ statement.sql } := by
  intro ctx three five seven S S'
  have hselect : scan (.fragment true) "SELECT a" = [.text "SELECT a"] := by decide +kernel
  have hif : scan (.fragment true) "%if" = [.marker "if"] := by decide +kernel
  have hcommand : (firstText? S).any isInsertCommand = false := by
    show isInsertCommand "SELECT a" = false
    decide +kernel
  have hplain : (Pass.start S).Always ctx.placeholders (·.setsBound = false) := by
    refine Pass.always_of_text rfl rfl rfl hselect fun out => Pass.always_of_next rfl rfl fun out => ?_
    refine Pass.always_of_text rfl rfl rfl hif fun out => Pass.always_of_next rfl rfl fun out => ?_
    exact Pass.always_of_end rfl rfl rfl
  have hs : (Work.pass (.start S)).Succeeds ctx := by
    apply succeeds_of_renders
    simp only [S, List.forall_mem_cons]
    exact ⟨.scalar _, .scalar _, .scalar _, nofun⟩
  have hshown : (Pass.start [.sql "SELECT a"]).ComesToHead ctx.placeholders false := by
    refine Pass.always_of_text ⟨rfl, rfl⟩ rfl rfl hselect fun out => Pass.always_of_next ⟨rfl, rfl⟩ rfl fun out => ?_
    exact Pass.always_of_end rfl rfl ⟨rfl, rfl⟩
  have hleftOut : (Pass.start S).ComesToHead ctx.placeholders true := by
    refine Pass.always_of_text ⟨rfl, rfl⟩ rfl rfl hselect fun out => Pass.always_of_next ⟨rfl, rfl⟩ rfl fun out => ?_
    refine Pass.always_of_text ⟨rfl, rfl⟩ rfl rfl hif fun out => Pass.always_of_next ⟨rfl, rfl⟩ rfl fun out => ?_
    exact Pass.always_of_end rfl rfl ⟨rfl, rfl⟩
  have h : Interspersed ctx.placeholders [] S S' [three, five] :=
    .token _ (.shown three hshown (.shown five hshown (.token _ (.token _ (.leftOut seven hleftOut (.done _))))))
  exact ⟨rfl, hcommand, hplain, hs, h, compose_interspersed (k := .postgres) rfl hcommand hplain hs h⟩

end SqlComposer
