import SqlComposer.Proofs.Output.Marks
import SqlComposer.Proofs.Pass.Parallel

/-!
# What a step carries on

* `Pass.AtBlock` : the next lexeme is a keyword of a block;
* `Carries` : the text so far stays, issues are shown unless the output is left out, and only a keyword of a block
  changes the blocks;
* `Pass.carried_next` : so it is with every step.
-/

namespace SqlComposer

/-- The next lexeme is a keyword of a block. -/
def Pass.AtBlock (s : Pass) : Prop :=
  ∃ (k : Keyword) (behind : List Lexeme), k.isConditional = true ∧ s.lexemes = .marker k.code :: behind

/-- A step from an output and blocks to a later state takes nothing back, and shows what it finds unless the output is
left out. It keeps the blocks unless it stands at one. -/
structure Carries (o : Output) (b : Branches) (atBlock : Prop) (found : List Issue) (t : Pass) : Prop where
  text : ∀ part, Holds o.text part → Holds t.out.text part
  marks : b.isMasked = false → ∀ i ∈ found, Shows t.out.text i
  branches : atBlock ∨ t.branches = b

/-- The issues that a step finds. -/
def Next.found : Next → List Issue
  | .moved found _ => found
  | _ => []

/-- The step carries on from an output and blocks. -/
def Next.CarriedFrom (o : Output) (b : Branches) (atBlock : Prop) (x : Next) : Prop :=
  ∀ t, x.state? = some t → Carries o b atBlock x.found t

namespace Pass

variable {s : Pass} {o : Output} {b : Branches} {atBlock : Prop} {x : Next}

theorem carried_moved {found : List Issue} {t : Pass} (h : Carries o b atBlock found t) :
    (Next.moved found t).CarriedFrom o b atBlock := by
  intro u hu
  obtain rfl := Option.some.inj hu
  exact h

/-- A step that leaves the output and the blocks. -/
theorem carries_silent {t : Pass} (ho : t.out = o) (hb : t.branches = b) : Carries o b atBlock [] t := by
  refine ⟨fun part h => ?_, nofun, .inr hb⟩
  rwa [ho]

theorem carried_silent {t : Pass} (ho : t.out = o) (hb : t.branches = b) :
    (Next.moved [] t).CarriedFrom o b atBlock :=
  carried_moved (carries_silent ho hb)

theorem carried_asked {t : Pass} (ho : t.out = o) (hb : t.branches = b) (v : Value) (m : Option Modifier) :
    (Next.value v m t).CarriedFrom o b atBlock := by
  intro u hu
  obtain rfl := Option.some.inj hu
  exact carries_silent ho hb

theorem carried_fail (i : Issue) : (s.fail i).CarriedFrom s.out s.branches atBlock := by
  apply carried_moved
  unfold marked
  split
  · next hm =>
    refine ⟨fun _ h => h, fun hn => ?_, .inr rfl⟩
    rw [isMasked, hn] at hm
    cases hm
  · refine ⟨fun _ h => Output.holds_push _ _ h, fun _ j hj => ?_, .inr rfl⟩
    obtain rfl := List.mem_singleton.1 hj
    exact Output.shows_push (shows_mark j) s.out

theorem carried_endBranch (h : x.CarriedFrom o b atBlock) : (endBranch x).CarriedFrom o b atBlock := by
  cases x with
  | moved found t =>
    obtain ⟨htext, hmarks, hbranches⟩ := h t rfl
    exact carried_moved ⟨htext, hmarks, hbranches⟩
  | _ => exact h

theorem carried_branched (hb : atBlock) (c : Except Issue Branches) :
    (s.branched c).CarriedFrom s.out s.branches atBlock := by
  cases c with
  | ok b => exact carried_moved ⟨fun _ h => h, nofun, .inl hb⟩
  | error i => exact carried_fail i

theorem carried_take (code : String) {f : Value → Pass → Next}
    (hf : ∀ v (u : Pass), u.out = s.out → u.branches = s.branches → (f v u).CarriedFrom u.out u.branches atBlock) :
    (s.take code f).CarriedFrom s.out s.branches atBlock := by
  unfold take
  split
  · exact carried_fail _
  · exact hf _ _ rfl rfl

theorem carried_block (hb : atBlock) (k : Keyword) : (s.block k).CarriedFrom s.out s.branches atBlock := by
  unfold block
  split
  · apply carried_endBranch
    apply carried_take
    exact fun v u _ _ => carried_branched hb _
  · split
    · next lexemes _ =>
      apply carried_endBranch
      apply carried_take (s := { s with lexemes := lexemes })
      exact fun v u _ _ => carried_branched hb _
    · exact carried_endBranch (carried_branched hb _)
  · exact carried_endBranch (carried_branched hb _)

/-- What is done only where the output is not left out. -/
theorem carried_unless (hx : x.CarriedFrom s.out s.branches atBlock) :
    (if s.isMasked = true then Next.moved [] s else x).CarriedFrom s.out s.branches atBlock := by
  split
  · exact carried_silent rfl rfl
  · exact hx

theorem carried_bound (k : Keyword) : (s.bound k).CarriedFrom s.out s.branches atBlock := by
  apply carried_take
  intro v u _ _
  apply carried_unless
  split
  · exact carried_silent rfl rfl
  · exact carried_fail _

theorem carried_expand : s.expand.CarriedFrom s.out s.branches atBlock := by
  apply carried_take
  intro v u _ _
  apply carried_unless
  split
  · exact carried_silent rfl rfl
  · exact carried_silent rfl rfl
  · exact carried_asked rfl rfl _ _

theorem carried_unknown (code : String) : (s.unknown code).CarriedFrom s.out s.branches atBlock := by
  unfold unknown
  split
  · exact carried_unless (s := { s with queue := s.queue.tail }) (carried_fail _)
  · exact carried_unless (carried_fail _)

theorem carried_marker (code : String) (inText : Bool)
    (hb : ∀ k : Keyword, k.isConditional = true → code = k.code → inText = true → atBlock) :
    (s.marker code inText).CarriedFrom s.out s.branches atBlock := by
  unfold marker
  split
  · exact carried_unknown code
  · next k hc =>
    split
    · exact carried_bound _
    · next hk =>
      have hconditional : k.isConditional = true := by simpa using hk
      split
      · next hin => exact carried_block (hb k hconditional (Marker.code_of_ofCode? hc) hin) k
      · exact carried_fail _
  · exact carried_expand
  · apply carried_take
    intro v u _ _
    exact carried_unless (carried_asked rfl rfl _ _)

theorem carried_placeholder : s.placeholder.CarriedFrom s.out s.branches atBlock := by
  unfold placeholder
  split
  · exact carried_fail _
  · next t queue _ => exact carried_unless (s := { s with queue := queue }) (carried_asked rfl rfl _ _)

theorem carried_onLexeme (l : Lexeme) (hb : ∀ k : Keyword, k.isConditional = true → l = .marker k.code → atBlock) :
    (s.onLexeme l).CarriedFrom s.out s.branches atBlock := by
  unfold onLexeme
  split
  · next code =>
    apply carried_marker
    intro k hk hcode _
    exact hb k hk (by rw [hcode])
  · exact carried_placeholder
  · apply carried_unless
    intro u hu
    obtain rfl := Option.some.inj hu
    exact carries_silent rfl rfl

theorem carried_mapping (entries : List (String × Value)) :
    (s.mapping entries).CarriedFrom s.out s.branches atBlock := by
  unfold mapping
  simp only
  split
  · exact carried_asked rfl rfl _ _
  · split
    · exact carried_asked rfl rfl _ _
    · intro u hu
      obtain rfl := Option.some.inj hu
      exact ⟨fun _ h => Output.holds_push _ _ h, nofun, .inr rfl⟩
    · exact carried_asked rfl rfl _ _

theorem carried_onValue (v : Value) : (s.onValue v).CarriedFrom s.out s.branches atBlock := by
  unfold onValue
  split
  · exact carried_silent rfl rfl
  · split
    · exact carried_mapping _
    · exact carried_asked rfl rfl _ _

/-- A token by itself is no keyword of a block. -/
theorem carried_onToken (placeholders : Bool) (t : Token) :
    (s.onToken placeholders t).CarriedFrom s.out s.branches atBlock := by
  unfold onToken
  split
  · exact carried_silent rfl rfl
  · next code =>
    apply carried_marker (s := { s with lastRow := s.lastRow.next })
    intro _ _ _ hin
    cases hin
  · exact carried_onValue _

/-- Every step carries on. -/
theorem carried_next (s : Pass) (placeholders : Bool) :
    (s.next placeholders).CarriedFrom s.out s.branches s.AtBlock := by
  unfold next
  split
  · next l lexemes hl =>
    apply carried_onLexeme (s := { s with lexemes := lexemes })
    intro k hk hmarker
    exact ⟨k, lexemes, hk, by rw [hl, hmarker]⟩
  · split
    · nofun
    · next t queue _ =>
      intro u hu
      obtain ⟨htext, hmarks, hbranches⟩ := carried_onToken (s := { s with queue := queue }.endToken) placeholders t u hu
      exact ⟨htext, hmarks, hbranches⟩

end Pass

end SqlComposer
