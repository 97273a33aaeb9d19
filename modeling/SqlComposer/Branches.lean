import SqlComposer.Issue

/-!
# Conditional blocks

* `Branch` : the state of an open block; `leavesOut` : whether what follows the open blocks is left out;
* `Branches` : the open blocks, innermost first, and the number of branches left out so far;
* `Branches.Nested` : a block inside what is left out is enclosed, and no other is; `Branches` carries this,
  so the innermost block alone decides (`Branches.isMasked_iff`);
* `Branches.openBlock`, `otherwise`, `otherwiseIf`, `close`, `finish` : the steps.
-/

namespace SqlComposer

/-- The state of an open block. -/
inductive Branch
  /-- The current branch is the chosen one. -/
  | chosen
  /-- No branch has been chosen yet. -/
  | waiting
  /-- An earlier branch was the chosen one. -/
  | spent
  /-- The block stands inside a branch that is left out. -/
  | enclosed
  deriving DecidableEq

/-- Whether what follows the open blocks is left out. -/
def leavesOut : List Branch → Bool
  | [] => false
  | block :: _ => block != .chosen

namespace Branch

/-- A block that is opened, in its first branch, which has the condition. -/
def first (condition : Bool) (outer : List Branch) : Branch :=
  if leavesOut outer then enclosed else if condition then chosen else waiting

/-- The block in its next branch, which has the condition. -/
def next (condition : Bool) : Branch → Branch
  | chosen => spent
  | waiting => if condition then chosen else waiting
  | block => block

theorem first_eq_enclosed_iff (condition : Bool) (outer : List Branch) :
    first condition outer = enclosed ↔ leavesOut outer = true := by
  unfold first
  cases leavesOut outer <;> cases condition <;> decide

theorem next_eq_enclosed_iff (condition : Bool) (block : Branch) : block.next condition = enclosed ↔ block = enclosed := by
  cases block <;> cases condition <;> decide

end Branch

namespace Branches

/-- A block is enclosed exactly if the blocks around it leave it out. -/
def Nested : List Branch → Prop
  | [] => True
  | block :: outer => (block = .enclosed ↔ leavesOut outer = true) ∧ Nested outer

instance decidableNested : DecidablePred Nested
  | [] => isTrue trivial
  | block :: outer =>
    have := decidableNested outer
    inferInstanceAs (Decidable ((block = .enclosed ↔ leavesOut outer = true) ∧ Nested outer))

variable {block : Branch} {blocks inner outer : List Branch}

/-- What follows is left out exactly if some block leaves it out. -/
theorem Nested.leavesOut_iff (h : Nested blocks) : leavesOut blocks = true ↔ ∃ o ∈ blocks, o ≠ .chosen := by
  induction blocks with
  | nil => simp [leavesOut]
  | cons block outer ih =>
    obtain ⟨hblock, houter⟩ := h
    have ih := ih houter
    constructor
    · intro hm
      exact ⟨block, List.mem_cons_self, by simpa [leavesOut] using hm⟩
    · rintro ⟨o, ho, hne⟩
      rcases List.mem_cons.1 ho with rfl | ho
      · simpa [leavesOut] using hne
      · rw [hblock.2 (ih.2 ⟨o, ho, hne⟩)]
        rfl

theorem Nested.first (h : Nested outer) (condition : Bool) : Nested (Branch.first condition outer :: outer) :=
  ⟨Branch.first_eq_enclosed_iff condition outer, h⟩

theorem Nested.next (h : Nested (block :: outer)) (condition : Bool) : Nested (block.next condition :: outer) :=
  ⟨(Branch.next_eq_enclosed_iff condition block).trans h.1, h.2⟩

/-- Blocks that are all in their chosen branch leave nothing out. -/
theorem leavesOut_of_chosen (h : ∀ o ∈ blocks, o = .chosen) : leavesOut blocks = false := by
  cases blocks with
  | nil => rfl
  | cons block outer =>
    rw [h block List.mem_cons_self]
    rfl

theorem nested_of_chosen (h : ∀ o ∈ blocks, o = .chosen) : Nested blocks := by
  induction blocks with
  | nil => trivial
  | cons block outer ih =>
    obtain ⟨rfl, houter⟩ := List.forall_mem_cons.1 h
    exact ⟨by simp [leavesOut_of_chosen houter], ih houter⟩

/-- Blocks inside others that leave nothing out. -/
theorem Nested.append (h : Nested inner) (houter : ∀ o ∈ outer, o = .chosen) : Nested (inner ++ outer) := by
  induction inner with
  | nil => exact nested_of_chosen houter
  | cons block inner ih =>
    refine ⟨h.1.trans ?_, ih h.2⟩
    cases inner with
    | nil => exact iff_of_eq (congrArg (· = true) (leavesOut_of_chosen houter).symm)
    | cons b inner => rfl

end Branches

/-- The open blocks, innermost first, and the number of branches left out so far. -/
@[ext] structure Branches where
  blocks : List Branch
  masked : Nat
  nested : Branches.Nested blocks
  deriving DecidableEq

namespace Branches

/-- No block is open. -/
def empty : Branches :=
  ⟨[], 0, trivial⟩

/-- The number of open blocks. -/
def depth (b : Branches) : Nat :=
  b.blocks.length

/-- Whether what follows is left out. -/
def isMasked (b : Branches) : Bool :=
  leavesOut b.blocks

theorem isMasked_iff (b : Branches) : b.isMasked = true ↔ ∃ block ∈ b.blocks, block ≠ .chosen :=
  b.nested.leavesOut_iff

theorem eq_chosen_of_not_isMasked {b : Branches} (h : b.isMasked = false) : ∀ o ∈ b.blocks, o = .chosen := by
  intro o ho
  refine Decidable.byContradiction fun hne => ?_
  rw [b.isMasked_iff.2 ⟨o, ho, hne⟩] at h
  cases h

/-- Opens a block whose first branch has the condition. -/
def openBlock (condition : Bool) (b : Branches) : Branches where
  blocks := Branch.first condition b.blocks :: b.blocks
  masked := if b.isMasked || condition then b.masked else b.masked + 1
  nested := b.nested.first condition

/-- Opens the next branch of the innermost block, with a condition. -/
def otherwiseIf (condition : Bool) : Branches → Except Issue Branches
  | ⟨[], _, _⟩ => .error (.unexpectedKeyword "else")
  | ⟨block :: outer, masked, nested⟩ =>
    .ok ⟨block.next condition :: outer, if block = .chosen then masked + 1 else masked, nested.next condition⟩

/-- Opens the last branch of the innermost block. -/
def otherwise (b : Branches) : Except Issue Branches :=
  b.otherwiseIf true

/-- Closes the innermost block. -/
def close : Branches → Except Issue Branches
  | ⟨[], _, _⟩ => .error (.unexpectedKeyword "end")
  | ⟨_ :: outer, masked, nested⟩ => .ok ⟨outer, masked, nested.2⟩

/-- Closes all blocks. -/
def finish (b : Branches) : Branches :=
  ⟨[], b.masked, trivial⟩

section Steps

variable {b : Branches}

/-- What leaves out is an open block. -/
theorem exists_blocks_of_isMasked (hm : b.isMasked = true) : ∃ block outer, b.blocks = block :: outer := by
  unfold isMasked leavesOut at hm
  split at hm
  · cases hm
  · next block outer hb => exact ⟨block, outer, hb⟩

theorem blocks_openBlock (condition : Bool) (b : Branches) :
    (b.openBlock condition).blocks = Branch.first condition b.blocks :: b.blocks :=
  rfl

theorem otherwiseIf_of_nil (hb : b.blocks = []) (condition : Bool) :
    b.otherwiseIf condition = .error (.unexpectedKeyword "else") := by
  obtain ⟨blocks, masked, nested⟩ := b
  obtain rfl : blocks = [] := hb
  rfl

theorem exists_otherwiseIf (hb : b.blocks = block :: outer) (condition : Bool) :
    ∃ c, b.otherwiseIf condition = .ok c ∧ c.blocks = block.next condition :: outer ∧
      c.masked = if block = .chosen then b.masked + 1 else b.masked := by
  obtain ⟨blocks, masked, nested⟩ := b
  obtain rfl : blocks = block :: outer := hb
  exact ⟨_, rfl, rfl, rfl⟩

theorem close_of_nil (hb : b.blocks = []) : b.close = .error (.unexpectedKeyword "end") := by
  obtain ⟨blocks, masked, nested⟩ := b
  obtain rfl : blocks = [] := hb
  rfl

theorem exists_close (hb : b.blocks = block :: outer) :
    ∃ c, b.close = .ok c ∧ c.blocks = outer ∧ c.masked = b.masked := by
  obtain ⟨blocks, masked, nested⟩ := b
  obtain rfl : blocks = block :: outer := hb
  exact ⟨_, rfl, rfl, rfl⟩

end Steps

end Branches

end SqlComposer
