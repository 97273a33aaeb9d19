import SqlComposer.Proofs.Lexeme.PlainText
import SqlComposer.Proofs.Output.Spacing
import SqlComposer.Proofs.Pass.BlockTree

/-!
# Slots in plain text

A slot in plain text takes the next token. What it writes is compared, but for white space, with the token on its
own between the two halves of the text.

* `Context.unspacedOutcome` : the statement of a stream without white space, with its issues;
* `run_passive`, `run_plain`, `run_toSlot`, `run_slot` : a pass over plain text and what stands in it;
* `run_end`, `outcome_eq_finish`, `run_passive_sql` : the end of a stream; `WritesOn` : what is written up to there;
* `unspacedOutcome_slot`, `unspacedOutcome_value`, `unspacedOutcome_modifier` : a slot in plain text, and a token
  between plain texts.
-/

namespace SqlComposer

/-! ## Without white space -/

/-- A text without white space and its issues, or the failure. -/
abbrev Written := Except DialectError (List Char × List Issue)

namespace Written

/-- What is written, with `text` in front. -/
def behind (text : List Char) (w : Written) : Written :=
  w.map fun p => (text ++ p.1, p.2)

/-- One after the other. -/
def followedBy (w w' : Written) : Written :=
  w.bind fun p => w'.map fun p' => (p.1 ++ p'.1, p.2 ++ p'.2)

@[simp] theorem behind_ok (a b : List Char) (issues : List Issue) :
    behind a (.ok (b, issues)) = .ok (a ++ b, issues) := rfl

@[simp] theorem behind_behind (a b : List Char) (w : Written) : (w.behind b).behind a = w.behind (a ++ b) := by
  cases w <;> simp [behind, Except.map]

theorem followedBy_assoc (a b c : Written) : (a.followedBy b).followedBy c = a.followedBy (b.followedBy c) := by
  cases a <;> cases b <;> cases c <;> simp [followedBy, Except.map, Except.bind]

end Written

def Render.unspaced (r : Render String) : Written :=
  r.content.map fun p => (Text.unspaced p.1.toList, p.2)

/-- The statement of a stream without white space, and its issues. -/
def Context.unspacedOutcome (ctx : Context) (tokens : List Token) : Written :=
  (ctx.outcome tokens).map fun p => (Text.unspaced p.1.toList, p.2)

theorem unspacedOutcome_eq (ctx : Context) (tokens : List Token) :
    ctx.unspacedOutcome tokens = (run ctx (.start tokens)).unspaced := by
  rw [Context.unspacedOutcome, outcome_eq_content, Render.unspaced]

/-- A text is written, and from there on always the same. -/
theorem Render.unspaced_bind {f : String → Render String} {before : List Char} {rest : Written} (r : Render String)
    (h : ∀ text, (f text).unspaced = rest.behind (before ++ Text.unspaced text.toList)) :
    (r >>= f).unspaced = (r.unspaced.followedBy rest).behind before := by
  cases r with
  | failed e => rfl
  | done text issues m =>
    have htext := h text
    rw [Render.done_bind]
    generalize f text = x at htext
    cases x <;> cases rest <;>
      simp_all [unspaced, content, Written.behind, Written.followedBy, Except.map, Except.bind]

/-! ## Passes over a token -/

/-- The modifier under which a slot writes its token. -/
inductive Slot.Writes : Slot → Option Modifier → Prop
  | marker {code : String} {m : Modifier} (known : Marker.ofCode? code = some (.modifier m)) (ne : m ≠ .expand) :
      Writes (.marker code) (some m)
  | placeholder : Writes .placeholder none

/-- Between tokens, with `q` to come, nothing left out and no bounds set. -/
structure Pass.Before (q : List Token) (s : Pass) : Prop where
  lexemes : s.lexemes = []
  queue : s.queue = q
  shown : s.isMasked = false
  bounds : s.bounds = .unbounded

theorem before_start (q : List Token) : (Pass.start q).Before q := ⟨rfl, rfl, rfl, rfl⟩

variable {ctx : Context} {s : Pass} {q : List Token} {ls : List Lexeme} {before after : String} {slot : Slot}
  {m : Option Modifier} {t : Token}

theorem Pass.Before.write_enter (h : s.Before (t :: q)) (q' : List Token) (text : String) :
    ((s.enter [] q').write text).Before q' :=
  ⟨rfl, rfl, h.shown, h.bounds⟩

@[simp] theorem Pass.write_write (a b : String) (s : Pass) : (s.write a).write b = s.write (a ++ b) := by
  simp only [Pass.write, Output.push_push]

theorem concat_cons (text : String) (texts : List String) : concat (text :: texts) = text ++ concat texts := by
  simp [concat, String.ofList_append]

/-- Lexemes that take nothing from the stream are written one after the other. -/
theorem run_passive {passive : List Lexeme} (hp : ∀ l ∈ passive, l.IsPassive) (hl : s.lexemes = passive ++ ls)
    (hm : s.isMasked = false) :
    run ctx s = passive.mapM ctx.lexeme >>= fun texts => run ctx ((s.moveTo ls s.queue).write (concat texts)) := by
  induction passive generalizing s with
  | nil =>
    have hs : s.moveTo ls s.queue = s := by rw [Pass.moveTo, ← List.nil_append ls, ← hl]
    have he : concat [] = "" := rfl
    simp [hs, he]
  | cons l passive ih =>
    have hn := (s.next_passive ctx.placeholders hl (hp l (by simp))).trans (if_neg (by simp [hm]))
    have hrest (text : String) := @ih ((s.moveTo (passive ++ ls) s.queue).write text)
      (fun l hl => hp l (List.mem_cons_of_mem _ hl)) rfl hm
    rw [run_lexeme hn, List.mapM_cons]
    simp only [bind_assoc, pure_bind]
    refine bind_congr fun text => (hrest text).trans (bind_congr fun texts => ?_)
    rw [concat_cons, ← Pass.write_write]
    rfl

theorem run_plainLexemes {text : String} (hl : s.lexemes = plainLexemes text.toList ++ ls)
    (hm : s.isMasked = false) : run ctx s = run ctx ((s.moveTo ls s.queue).write text) := by
  have hp : ∀ l ∈ plainLexemes text.toList, l.IsPassive := by
    unfold plainLexemes
    split
    · simp
    · rintro l hl
      obtain rfl := List.mem_singleton.1 hl
      trivial
  have ht : (plainLexemes text.toList).mapM ctx.lexeme >>= (fun texts => pure (concat texts)) = pure text := by
    unfold plainLexemes
    split
    · next h =>
      obtain rfl : text = "" := by simpa using h
      rfl
    · simp [Context.lexeme, concat]
  have hb := congrArg (· >>= fun text => run ctx ((s.moveTo ls s.queue).write text)) ht
  simp only [bind_assoc, pure_bind] at hb
  rw [run_passive hp hl hm, hb]

theorem Slot.Writes.next_eq (h : slot.Writes m) (hl : s.lexemes = slot.lexeme :: ls) (hq : s.queue = t :: q)
    (hm : s.isMasked = false) (placeholders : Bool) : s.next placeholders = .value t.toValue m (s.moveTo ls q) := by
  have hn : ¬s.isMasked = true := by simp [hm]
  cases h with
  | @marker code m known ne =>
    have ht : TakesToken code ls := by rw [TakesToken, known]; exact ne
    rw [s.next_marker placeholders hl hq ht, if_neg hn, Pass.serve, known]
  | placeholder => rw [s.next_placeholder placeholders hl hq, if_neg hn]

theorem run_plain (hb : isPlain ctx.placeholders before.toList = true) (h : s.Before (.sql before :: q)) :
    run ctx s = run ctx ((s.enter [] q).write before) := by
  have hs : (s.enter (plainLexemes before.toList) q).lexemes = plainLexemes before.toList ++ [] :=
    (List.append_nil _).symm
  rw [run_silent (s.next_sql _ h.lexemes h.queue), scan_plain hb, run_plainLexemes hs h.shown]
  rfl

/-- The plain text in front of a slot is written. -/
theorem run_toSlot (hb : isPlain ctx.placeholders before.toList = true)
    (ha : isPlain ctx.placeholders after.toList = true) (hr : slot.IsRead ctx.placeholders after.toList)
    (h : s.Before (.sql (before ++ slot.text ++ after) :: q)) :
    run ctx s = run ctx ((s.enter (slot.lexeme :: plainLexemes after.toList) q).write before) := by
  let u := s.enter (plainLexemes before.toList ++ slot.lexeme :: plainLexemes after.toList) q
  have hu : run ctx u = run ctx ((u.moveTo (slot.lexeme :: plainLexemes after.toList) q).write before) :=
    run_plainLexemes rfl h.shown
  rw [run_silent (s.next_sql _ h.lexemes h.queue), scan_slot hb ha hr]
  exact hu

/-- The plain text behind a slot is written. -/
theorem run_rest (hm : s.isMasked = false) (after : String) (q : List Token) :
    run ctx (s.moveTo (plainLexemes after.toList) q) = run ctx ((s.moveTo [] q).write after) :=
  @run_plainLexemes ctx (s.moveTo (plainLexemes after.toList) q) [] after (List.append_nil _).symm hm

/-- Plain text with a slot in it takes one token and is written around it. -/
theorem run_slot (hb : isPlain ctx.placeholders before.toList = true)
    (ha : isPlain ctx.placeholders after.toList = true) (hr : slot.IsRead ctx.placeholders after.toList) (hw : slot.Writes m)
    (h : s.Before (.sql (before ++ slot.text ++ after) :: t :: q)) :
    run ctx s = render ctx m t.toValue >>= fun text => run ctx ((s.enter [] q).write (before ++ text ++ after)) := by
  let u := (s.enter (slot.lexeme :: plainLexemes after.toList) (t :: q)).write before
  have hnext : u.next ctx.placeholders = .value t.toValue m (u.moveTo (plainLexemes after.toList) q) :=
    hw.next_eq (s := u) rfl rfl h.shown ctx.placeholders
  have hrest (text : String) : run ctx ((u.moveTo (plainLexemes after.toList) q).write text) =
      run ctx ((s.enter [] q).write (before ++ text ++ after)) := by
    have hu : (u.write text).isMasked = false := h.shown
    rw [← Pass.write_write, ← Pass.write_write]
    exact run_rest hu after q
  rw [run_toSlot hb ha hr h]
  exact (run_value hnext).trans (bind_congr hrest)

/-! ## Whole streams -/

theorem run_end (h : s.Before []) : run ctx s = .done s.out.finish [] s.branches.masked := by
  have hn : s.next ctx.placeholders = .finished := by rw [Pass.next, h.lexemes, h.queue]
  have hu : s.bounds.isUnbounded = true := by rw [h.bounds]; rfl
  rw [run_finished hn, Pass.finish, hu, if_pos rfl]
  simp [Render.pure_eq]

/-- A stream whose pass comes to its end with nothing to report. -/
theorem outcome_eq_finish {ts : List Token} (hr : run ctx (.start ts) = run ctx s) (h : s.Before []) :
    ctx.outcome ts = .ok (s.out.finish, []) := by
  rw [outcome_eq_content, hr, run_end h]
  rfl

/-- A text that takes nothing from the stream is written by itself. -/
theorem run_passive_sql {text : String} (h : ∀ l ∈ scan (.fragment ctx.placeholders) text, l.IsPassive) :
    run ctx (.start [.sql text]) = (scan (.fragment ctx.placeholders) text).mapM ctx.lexeme >>= fun texts =>
      .done (String.ofList (Text.strip (concat texts).toList)) [] 0 := by
  let s := (Pass.start [.sql text]).enter (scan (.fragment ctx.placeholders) text) []
  have hs : s.lexemes = scan (.fragment ctx.placeholders) text ++ [] := (List.append_nil _).symm
  rw [run_silent ((Pass.start [.sql text]).next_sql _ rfl rfl), @run_passive ctx s [] _ h hs rfl]
  refine bind_congr fun texts => ?_
  have hend : ((s.moveTo [] s.queue).write (concat texts)).Before [] := ⟨rfl, rfl, rfl, rfl⟩
  rw [run_end hend, ← Output.finish_push_start]
  rfl

/-- From any state between tokens on, the tokens `q` are written as `w`. -/
def WritesOn (ctx : Context) (q : List Token) (w : Written) : Prop :=
  ∀ s : Pass, s.Before q → (run ctx s).unspaced = w.behind (Text.unspaced s.out.text.toList)

theorem writesOn_nil (ctx : Context) : WritesOn ctx [] (.ok ([], [])) := by
  intro s h
  rw [run_end h, Written.behind_ok, List.append_nil, ← Output.unspaced_finish]
  rfl

theorem WritesOn.sql {w : Written} (h : WritesOn ctx q w) {text : String}
    (ht : isPlain ctx.placeholders text.toList = true) :
    WritesOn ctx (.sql text :: q) (w.behind (Text.unspaced text.toList)) := by
  intro s hs
  rw [run_plain ht hs, h _ (hs.write_enter q text), Pass.write, Output.unspaced_push, Written.behind_behind]
  rfl

/-- What is asked for is written behind the text so far, and from there on always the same. -/
theorem WritesOn.value {w : Written} (h : WritesOn ctx q w) {v : Value} {t : Pass}
    (hn : s.next ctx.placeholders = .value v m t) (ht : t.Before q) (ho : t.out = s.out.endToken) :
    (run ctx s).unspaced =
      ((render ctx m v).unspaced.followedBy w).behind (Text.unspaced s.out.text.toList) := by
  rw [run_value hn]
  refine Render.unspaced_bind _ fun text => ?_
  have hw : (t.write text).Before q := ⟨ht.lexemes, ht.queue, ht.shown, ht.bounds⟩
  rw [h _ hw, Pass.write, Output.unspaced_push, ho]
  rfl

/-! ## Between two texts -/

/-- A result between two texts, without white space. -/
def Render.between (before after : String) (r : Render String) : Written :=
  r.content.map fun p => (Text.unspaced before.toList ++ Text.unspaced p.1.toList ++ Text.unspaced after.toList, p.2)

theorem Render.between_eq (before after : String) (r : Render String) :
    r.between before after =
      (r.unspaced.followedBy (.ok (Text.unspaced after.toList, []))).behind (Text.unspaced before.toList) := by
  cases r <;> simp [between, unspaced, content, Written.behind, Written.followedBy, Except.map, Except.bind]

theorem unspacedOutcome_slot (hb : isPlain ctx.placeholders before.toList = true)
    (ha : isPlain ctx.placeholders after.toList = true) (hr : slot.IsRead ctx.placeholders after.toList)
    (hw : slot.Writes m) (t : Token) :
    ctx.unspacedOutcome [.sql (before ++ slot.text ++ after), t] = (render ctx m t.toValue).between before after := by
  have h := before_start [.sql (before ++ slot.text ++ after), t]
  rw [unspacedOutcome_eq, run_slot hb ha hr hw h, Render.between_eq]
  refine Render.unspaced_bind _ fun text => ?_
  rw [writesOn_nil ctx _ (h.write_enter [] _), Pass.write, Output.unspaced_push]
  simp [Pass.enter, Pass.start, Output.endToken, Output.empty]

/-- The state behind the first text of a stream. -/
def Pass.behind (before : String) (ts : List Token) : Pass :=
  ((Pass.start (.sql before :: ts)).enter [] ts).write before

theorem before_behind (before : String) (ts : List Token) : (Pass.behind before ts).Before ts :=
  (before_start _).write_enter ts before

theorem inserting_behind (before : String) (ts : List Token) :
    (Pass.behind before ts).inserting = isInsertCommand before := by
  simp only [Pass.behind, Pass.write, Pass.enter, Pass.start, firstText?, Option.any_some]

theorem unspaced_behind (before : String) (ts : List Token) :
    Text.unspaced (Pass.behind before ts).out.text.toList = Text.unspaced before.toList := by
  simp [Pass.behind, Pass.write, Output.unspaced_push, Pass.enter, Pass.start, Output.endToken, Output.empty]

theorem unspacedOutcome_behind (hb : isPlain ctx.placeholders before.toList = true) (ts : List Token) :
    ctx.unspacedOutcome (.sql before :: ts) = (run ctx (Pass.behind before ts)).unspaced := by
  rw [unspacedOutcome_eq, run_plain hb (before_start _)]
  rfl

/-- What is asked for between two plain texts is written between them. -/
theorem unspacedOutcome_value {ts : List Token} {v : Value} {t : Pass}
    (hb : isPlain ctx.placeholders before.toList = true) (ha : isPlain ctx.placeholders after.toList = true)
    (hn : (Pass.behind before ts).next ctx.placeholders = .value v m t) (ht : t.Before [.sql after])
    (ho : t.out = (Pass.behind before ts).out.endToken) :
    ctx.unspacedOutcome (.sql before :: ts) = (render ctx m v).between before after := by
  rw [unspacedOutcome_behind hb, ((writesOn_nil ctx).sql ha).value hn ht ho, unspaced_behind, Render.between_eq,
    Written.behind_ok, List.append_nil]

theorem unspacedOutcome_modifier {code : String} {m : Modifier}
    (hb : isPlain ctx.placeholders before.toList = true) (ha : isPlain ctx.placeholders after.toList = true)
    (hc : Marker.ofCode? code = some (.modifier m)) (hne : m ≠ .expand) (t : Token) :
    ctx.unspacedOutcome [.sql before, .modifier code, t, .sql after] =
      (render ctx (some m) t.toValue).between before after := by
  have h := before_behind before [.modifier code, t, .sql after]
  have ht : TakesToken code [] := by rw [TakesToken, hc]; exact hne
  have hn := (Pass.behind before _).next_modifier ctx.placeholders h.lexemes h.queue ht
  rw [if_neg (by simp [h.shown]), Pass.serve, hc] at hn
  exact unspacedOutcome_value hb ha hn ⟨rfl, rfl, h.shown, h.bounds⟩ rfl

end SqlComposer
