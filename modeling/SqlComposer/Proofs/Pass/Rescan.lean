import SqlComposer.Proofs.Lexeme.Modes
import SqlComposer.Proofs.Pass.Framed
import SqlComposer.Proofs.Pass.Slot

/-!
# SQL text as a value

* `run_passive_of_isMasked` : where the output is left out lexemes that take nothing from the stream are passed over;
* `run_rescanned` : a text under the modifier `sql` and the same text as a token, from states that are alike;
* `compose_rescanned` : within a stream the two give the same statement, or the same failure of the dialect.
-/

namespace SqlComposer

variable {ctx : Context} {s t : Pass} {ls : List Lexeme} {code text : String} {A C : List Token}

theorem run_passive_of_isMasked {passive : List Lexeme} (hp : ∀ l ∈ passive, l.IsPassive)
    (hl : s.lexemes = passive ++ ls) (hm : s.isMasked = true) : run ctx s = run ctx (s.moveTo ls s.queue) := by
  induction passive generalizing s with
  | nil =>
    have hs : s.moveTo ls s.queue = s := by rw [Pass.moveTo, ← List.nil_append ls, ← hl]
    rw [hs]
  | cons l passive ih =>
    have hn := (s.next_passive ctx.placeholders hl (hp l List.mem_cons_self)).trans (if_pos hm)
    have hrest : ∀ l ∈ passive, l.IsPassive := fun l hl => hp l (List.mem_cons_of_mem _ hl)
    rw [run_silent hn]
    exact ih hrest rfl hm

theorem render_sql_text (ctx : Context) (text : String) :
    render ctx (some .sql) (.scalar (.text text)) = ctx.rawSql text := by
  rw [render]
  rfl

theorem takesToken_of_modifier {m : Modifier} (hc : Marker.ofCode? code = some (.modifier m)) (hm : m ≠ .expand)
    (ls : List Lexeme) : TakesToken code ls := by
  rw [TakesToken, hc]
  exact hm

/-- Behind the same state a text under the modifier comes to the same as the text itself. -/
theorem run_rescanned {s t t' : Pass} {inserting : Bool} (hc : Marker.ofCode? code = some (.modifier .sql))
    (htext : ∀ l ∈ scan (.fragment ctx.placeholders) text, l.IsPassive) (hl : s.lexemes = []) (hq : s.queue = [])
    (ht : Framed (.behind (.modifier code :: .value (.scalar (.text text)) :: C) inserting) (· = ·) (· = ·) s t)
    (ht' : Framed (.behind (.sql text :: C) inserting) (· = ·) (· = ·) s t') : run ctx t = run ctx t' := by
  have hqueue : t.queue = .modifier code :: .value (.scalar (.text text)) :: C := by
    rw [ht.queue, hq]
    rfl
  have hqueue' : t'.queue = .sql text :: C := by
    rw [ht'.queue, hq]
    rfl
  have hrest := @Framed.run_siblings _ _ ctx _ _ _ _ ht ht' C
  have hmarker := t.next_modifier ctx.placeholders (ht.lexemes.symm.trans hl) hqueue
    (takesToken_of_modifier hc (by decide) [])
  let u := t'.enter (scan (.fragment ctx.placeholders) text) C
  have hu : u.lexemes = scan (.fragment ctx.placeholders) text ++ [] := (List.append_nil _).symm
  rw [run_silent (t'.next_sql ctx.placeholders (ht'.lexemes.symm.trans hl) hqueue')]
  cases hm : s.isMasked with
  | true =>
    have hskipped := @run_passive_of_isMasked ctx u [] _ htext hu (ht'.isMasked.trans hm)
    have hempty := hrest ""
    rw [Pass.write_empty, Pass.write_empty] at hempty
    rw [run_silent (hmarker.trans (if_pos (ht.isMasked.trans hm))), hempty]
    exact hskipped.symm
  | false =>
    have hwritten := @run_passive ctx u [] _ htext hu (ht'.isMasked.trans hm)
    have hn : ¬t.isMasked = true := by simp [ht.isMasked, hm]
    have hvalue : t.next ctx.placeholders = .value (.scalar (.text text)) (some .sql) (t.enter [] C) := by
      rw [hmarker, if_neg hn, Pass.serve, hc]
      rfl
    rw [run_value hvalue, render_sql_text, Context.rawSql, scan_plain_eq htext, bind_assoc]
    simp only [pure_bind, hrest]
    exact hwritten.symm

/-- A text in which no marker and no placeholder is read is written, under the modifier that scans it, as the text itself
would be: with the same statement, or with the same failure of the dialect. -/
theorem compose_rescanned (ctx : Context) {A C : List Token} {code text : String} (hA : EndsExactly ctx.placeholders A)
    (hfirst : (firstText? A).isSome = true) (hc : Marker.ofCode? code = some (.modifier .sql))
    (htext : ∀ l ∈ scan (.fragment ctx.placeholders) text, l.IsPassive) :
    ctx.compose (A ++ [.modifier code, .value (.scalar (.text text))] ++ C) = ctx.compose (A ++ [.sql text] ++ C) := by
  have hrun : run ctx (.start (A ++ [.modifier code, .value (.scalar (.text text))] ++ C)) =
      run ctx (.start (A ++ [.sql text] ++ C)) := by
    rw [List.append_assoc, List.append_assoc]
    exact run_append Render.congruence_eq hA hfirst fun hl hq h h' => run_rescanned hc htext hl hq h h'
  rw [Context.compose, Context.compose, hrun]

/-- Behind a marker and the start of a block stand a quoted identifier, a percent sign in a string, a substitution that is
not known and a quote without a partner. -/
theorem compose_rescanned_unresolved :
    let ctx : Context := .leapDay .mysql
    let text := "[a b], 'it''s %i', :t: \""
    let A : List Token := [.sql "INSERT INTO t SELECT %i, %if", .value (.scalar (.int 1)), .value (.scalar (.bool true))]
    let C : List Token := [.sql ", ?%end %i", .value (.map [("a", .scalar .null)])]
    EndsExactly ctx.placeholders A ∧ (firstText? A).isSome = true ∧ Marker.ofCode? "p" = some (.modifier .sql) ∧
      (∀ l ∈ scan (.fragment ctx.placeholders) text, l.IsPassive) ∧
      ctx.compose (A ++ [.modifier "p", .value (.scalar (.text text))] ++ C) = ctx.compose (A ++ [.sql text] ++ C) := by
  intro ctx text A C
  have hA : EndsExactly ctx.placeholders A := by
    have hscan : scan (.fragment true) "INSERT INTO t SELECT %i, %if" =
        [.text "INSERT INTO t SELECT ", .marker "i", .text ", ", .marker "if"] := by decide +kernel
    refine Pass.always_of_text rfl rfl rfl hscan fun out => ?_
    iterate 4 refine Pass.always_of_next rfl rfl fun out => ?_
    exact Pass.always_of_end rfl rfl rfl
  have htext : ∀ l ∈ scan (.fragment ctx.placeholders) text, l.IsPassive := by
    have hscan : scan (.fragment true) text = [.identifier "a b", .text ", ", .string "it's %i", .text ", ",
        .substitution "t" false, .text " ", .aloneQuote] := by decide +kernel
    show ∀ l ∈ scan (.fragment true) text, l.IsPassive
    rw [hscan]
    simp [Lexeme.IsPassive]
  exact ⟨hA, rfl, rfl, htext, compose_rescanned ctx hA rfl rfl htext⟩

end SqlComposer
