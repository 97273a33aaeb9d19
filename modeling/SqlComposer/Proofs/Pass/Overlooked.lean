import Mathlib.Logic.Relation
import SqlComposer.Proofs.Pass.Parallel
import SqlComposer.Proofs.Pass.Segment

/-!
# Values in branches that are left out

* `Pass.Step`, `Pass.Reaches` : the states of a pass;
* `Overlooked` : the pass takes a value only where the output is left out, and not as a condition that may choose a
  branch;
* `Fed.overlooked` : so it is with every value of a closed segment where output is left out;
* `compose_overlooked` : such values do not matter, not even where the dialect fails.
-/

namespace SqlComposer

variable {placeholders : Bool} {s t u : Pass}

/-- One step of a pass. The output is left open, since no step looks at it. -/
def Pass.Step (placeholders : Bool) (s u : Pass) : Prop :=
  ∃ t, (s.next placeholders).state? = some t ∧ ∃ out, u = { t with out := out }

/-- The pass comes from one state to the other. -/
def Pass.Reaches (placeholders : Bool) : Pass → Pass → Prop :=
  Relation.ReflTransGen (Pass.Step placeholders)

/-- Wherever the pass from `s` on takes the value `v` from the front of `q`, the output is left out, and the value is
not the condition of a branch where none has been chosen yet. -/
def Overlooked (placeholders : Bool) (s : Pass) (v : Value) (q : List Token) : Prop :=
  ∀ u, s.Reaches placeholders u → u.Takes v q → u.isMasked = true ∧ ¬u.Chooses

theorem Overlooked.of_next {v : Value} {q : List Token} (h : Overlooked placeholders s v q)
    (ht : (s.next placeholders).state? = some t) (text : String) : Overlooked placeholders (t.write text) v q := by
  intro u hu
  have hstep : s.Step placeholders (t.write text) := ⟨t, ht, _, rfl⟩
  exact h u (hu.head hstep)

/-! ## Where values are overlooked -/

variable {v : Value} {q : List Token}

theorem Pass.Reaches.nodes_le (h : s.Reaches placeholders u) : u.nodes ≤ s.nodes := by
  induction h with
  | refl => exact Nat.le_refl _
  | tail _ hstep ih =>
    obtain ⟨t, ht, out, rfl⟩ := hstep
    have hle := Pass.progress ht
    show t.nodes ≤ s.nodes
    omega

theorem Pass.Takes.nodes_le (h : s.Takes v q) : v.nodes + tokenNodes q ≤ s.nodes := by
  cases h with
  | bare _ queue => simp [nodes, queue, tokenNodes, Token.nodes]
  | modifier _ _ queue => simp [nodes, queue, tokenNodes, Token.nodes]
  | marker _ _ _ queue => simp [nodes, queue, tokenNodes, Token.nodes]
  | placeholder _ _ queue => simp [nodes, queue, tokenNodes, Token.nodes]

/-- A value that no longer fits into what is to come is not taken any more. -/
theorem overlooked_of_nodes_lt (h : s.nodes < v.nodes + tokenNodes q) : Overlooked placeholders s v q := by
  intro u hu htakes
  have hlater := hu.nodes_le
  have htaken := htakes.nodes_le
  omega

theorem overlooked_of_step (htakes : s.Takes v q → s.isMasked = true ∧ ¬s.Chooses)
    (hnext : ∀ t, (s.next placeholders).state? = some t → ∀ out, Overlooked placeholders { t with out := out } v q) :
    Overlooked placeholders s v q := by
  intro u hu
  rcases hu.cases_head with rfl | ⟨_, ⟨t, ht, out, rfl⟩, hu⟩
  · exact htakes
  · exact hnext t ht out u hu

theorem overlooked_of_moved {found : List Issue} (htakes : s.Takes v q → s.isMasked = true ∧ ¬s.Chooses)
    (hn : s.next placeholders = .moved found t) (h : ∀ out, Overlooked placeholders { t with out := out } v q) :
    Overlooked placeholders s v q := by
  apply overlooked_of_step htakes
  intro t' ht'
  rw [hn] at ht'
  obtain rfl := Option.some.inj ht'
  exact h

theorem Fed.not_chooses {ls : List Lexeme} {ts : List Token} (h : Fed placeholders ls ts) (hl : s.lexemes = ls) :
    ¬s.Chooses := by
  rintro ⟨⟨behind, hb⟩, -⟩
  obtain rfl : ls = .marker Keyword.otherwise.code :: behind := hl.symm.trans hb
  cases h with
  | marker takes => exact Bool.noConfusion (show true = false from takes)
  | unknown none => cases none
  | passive passive => exact passive

theorem Fed.overlooked_of_moved {ls : List Lexeme} {ts : List Token} {found : List Issue} (h : Fed placeholders ls ts)
    (hl : s.lexemes = ls) (hm : s.isMasked = true) (hn : s.next placeholders = .moved found t)
    (ht : ∀ out, Overlooked placeholders { t with out := out } v q) : Overlooked placeholders s v q :=
  SqlComposer.overlooked_of_moved (fun _ => ⟨hm, h.not_chooses hl⟩) hn ht

/-- Where the output is left out the values of a closed segment are overlooked. -/
theorem Fed.overlooked {ls : List Lexeme} {ts rest : List Token} (h : Fed placeholders ls ts) (hl : s.lexemes = ls)
    (hq : s.queue = ts ++ rest) (hm : s.isMasked = true) (hrest : tokenNodes rest ≤ tokenNodes q) :
    Overlooked placeholders s v q := by
  induction h generalizing s with
  | done =>
    apply overlooked_of_nodes_lt
    have hv := v.nodes_pos
    rw [Pass.nodes, hq, List.nil_append]
    omega
  | sql h ih =>
    apply (Fed.sql h).overlooked_of_moved hl hm (s.next_sql _ hl hq)
    exact fun out => ih rfl rfl hm
  | @value w q h ih =>
    apply (Fed.value (v := w) h).overlooked_of_moved hl hm (s.next_value_of_isMasked _ hl hq hm)
    exact fun out => ih rfl rfl hm
  | @modifier code t q takes h ih =>
    apply (Fed.modifier (t := t) takes h).overlooked_of_moved hl hm ((s.next_modifier _ hl hq takes).trans (if_pos hm))
    exact fun out => ih rfl rfl hm
  | @marker code ls t q takes h ih =>
    apply (Fed.marker (t := t) takes h).overlooked_of_moved hl hm ((s.next_marker _ hl hq takes).trans (if_pos hm))
    exact fun out => ih rfl rfl hm
  | unknown none inside h ih =>
    apply (Fed.unknown none inside h).overlooked_of_moved hl hm ((s.next_unknown _ hl none inside).trans (if_pos hm))
    exact fun out => ih rfl hq hm
  | @placeholder ls t q h ih =>
    apply (Fed.placeholder (t := t) h).overlooked_of_moved hl hm ((s.next_placeholder _ hl hq).trans (if_pos hm))
    exact fun out => ih rfl rfl hm
  | passive passive h ih =>
    apply (Fed.passive passive h).overlooked_of_moved hl hm ((s.next_passive _ hl passive).trans (if_pos hm))
    exact fun out => ih rfl hq hm

/-! ## They do not matter -/

theorem congruence_out_eq : Output.Congruence (· = ·) where
  push piece h := congrArg (Output.push piece) h
  endToken h := congrArg Output.endToken h

/-- From two states that differ in overlooked values alone the pass comes to the same. -/
theorem run_overlooked (ctx : Context) (h : Parallel (· = ·) (Overlooked ctx.placeholders s) s t) :
    run ctx s = run ctx t := by
  refine run_related (R := fun s t => Parallel (· = ·) (Overlooked ctx.placeholders s) s t) Render.congruence_eq ?_ h
  intro s t h
  have hv : ∀ v q, s.Takes v q → Overlooked ctx.placeholders s v q → s.isMasked = true ∧ ¬s.Chooses :=
    fun v q htakes hover => hover s .refl htakes
  rcases h.next congruence_out_eq hv ctx.placeholders with ⟨hs, ht⟩ | hnext
  · refine .inl ⟨hs, ht, ?_⟩
    rw [Pass.finish, Pass.finish, h.out, h.bounds, h.branches]
  · refine .inr (hnext.with_state.mono ?_)
    rintro u v ⟨huv, hu⟩ text
    exact (huv.write congruence_out_eq text).mono fun w q hw => hw.of_next hu text

/-- Two streams that differ only in values which the pass takes where the output is left out, and not as a condition
that may choose a branch, give the same statement, or the same failure of the dialect. -/
theorem compose_overlooked (ctx : Context) {ts ts' : List Token}
    (h : SameBut (Overlooked ctx.placeholders (.start ts)) ts ts') : ctx.compose ts = ctx.compose ts' := by
  have hrun : run ctx (.start ts) = run ctx (.start ts') := by
    apply run_overlooked ctx
    exact
      { queue := h
        lexemes := rfl
        out := rfl
        branches := rfl
        bounds := rfl
        inserting := congrArg (Option.any isInsertCommand) h.firstText?
        lastRow := rfl }
  rw [Context.compose, Context.compose, hrun]

/-- In a branch that is left out the tokens of a modifier and of a row limit and a bare value are others, and the
dialect fails at every text. -/
theorem compose_overlooked_failing :
    let failing : Dialect := { Dialect.Kind.generic.dialect with text := fun _ => .error (.other "text") }
    let ctx : Context := { Context.leapDay .generic with dialect := failing }
    let e : Value := .expression ⟨0, fun _ _ => .error (.other "expression")⟩
    let written (v w x : Value) : List Token :=
      [.sql "%if", .value (.scalar (.bool false)), .sql "a = %s %lmt", .value v, .value w, .value x, .sql "%end"]
    let ts := written (.scalar (.text "x")) (.scalar (.int 1)) (.scalar .null)
    let ts' := written e (.scalar (.text "x")) (.list [e])
    SameBut (Overlooked ctx.placeholders (.start ts)) ts ts' ∧ ctx.compose ts = ctx.compose ts' := by
  intro failing ctx e written ts ts'
  have hif : scan (.fragment true) "%if" = [.marker "if"] := by decide +kernel
  have hbranch : scan (.fragment true) "a = %s %lmt" = [.text "a = ", .marker "s", .text " ", .marker "lmt"] := by
    decide +kernel
  have hfed {v w x : Value} : Fed true [] [.sql "a = %s %lmt", .value v, .value w, .value x] := by
    have hs : TakesToken "s" [.text " ", .marker "lmt"] := by
      show Modifier.text ≠ .expand
      decide
    have hlimit : TakesToken "lmt" [] := rfl
    exact .sql (hbranch ▸ .passive trivial (.marker hs (.passive trivial (.marker hlimit (.value .done)))))
  have hover {v : Value} {q : List Token} (hv : v ≠ .scalar (.bool false)) (hq : tokenNodes [.sql "%end"] ≤ tokenNodes q) :
      Overlooked true (.start ts) v q := by
    -- before the branch nothing is taken but the condition
    have hstart : ¬(Pass.start ts).Takes v q := by
      rintro (⟨-, hqueue⟩ | ⟨_, -, hqueue⟩ | ⟨_, _, hlexemes, -⟩ | ⟨_, hlexemes, -⟩)
      · cases hqueue
      · cases hqueue
      · cases hlexemes
      · cases hlexemes
    refine overlooked_of_moved (fun h => absurd h hstart) ((Pass.start ts).next_sql true rfl rfl) fun out => ?_
    let u : Pass := { (Pass.start ts).enter [.marker "if"] ts.tail with out := out }
    have hu : Overlooked true u v q := by
      have hcondition : ¬u.Takes v q := by
        rintro (⟨hlexemes, -⟩ | ⟨_, hlexemes, -⟩ | ⟨_, _, -, hqueue⟩ | ⟨_, hlexemes, -⟩)
        · cases hlexemes
        · cases hlexemes
        · exact hv (Token.value.inj (List.cons.inj hqueue).1).symm
        · cases hlexemes
      have hnext : u.next true = .moved [] (Pass.endToken { u with
          lexemes := [], queue := ts.tail.tail, branches := ⟨[.waiting], 1, by decide⟩ }) := rfl
      exact overlooked_of_moved (fun h => absurd h hcondition) hnext fun out => hfed.overlooked rfl rfl rfl hq
    rw [hif]
    exact hu
  have hsame : SameBut (Overlooked ctx.placeholders (.start ts)) ts ts' := by
    have hbool : ∀ a : Scalar, a ≠ .bool false → Value.scalar a ≠ .scalar (.bool false) := by
      rintro a ha h
      exact ha (Value.scalar.inj h)
    refine .same _ (.same _ (.same _ (.value ?_ _ (.value ?_ _ (.value ?_ _ (.same _ .nil))))))
    · exact hover (hbool _ (by decide)) (by decide +kernel)
    · exact hover (hbool _ (by decide)) (by decide +kernel)
    · exact hover (hbool _ (by decide)) (by decide +kernel)
  exact ⟨hsame, compose_overlooked ctx hsame⟩

end SqlComposer
