import SqlComposer.Pass

/-!
# Conditional blocks follow their history

`Branches` keeps one word for every open block. Here the blocks are told by what was called: for every open
block the conditions of its branches, in order. The chosen branch of a block is the first whose condition
holds, and a branch is left out if an open block stands in another branch than its chosen one.

* `BranchCall`, `Branches.call`, `Branches.after` : the calls, their answers and the states between them;
* `History`, `History.after`, `History.IsSuppressed`, `History.suppressions` : the same told by conditions;
* `blocksOf` : the words for the open blocks of a history; `blocks_after` : each call keeps to them;
* `follows_history` : the state after any sequence of calls.
-/

namespace SqlComposer

/-- A call on the open blocks. -/
inductive BranchCall
  | openBlock (condition : Bool)
  | otherwise
  | otherwiseIf (condition : Bool)
  | close
  deriving DecidableEq

/-- The issue of a call for which there is no open block. -/
def BranchCall.issue? : BranchCall → Option Issue
  | .openBlock _ => none
  | .otherwise | .otherwiseIf _ => some (.unexpectedKeyword "else")
  | .close => some (.unexpectedKeyword "end")

namespace Branches

/-- The answer of a call. -/
def call (b : Branches) : BranchCall → Except Issue Branches
  | .openBlock condition => .ok (b.openBlock condition)
  | .otherwise => b.otherwise
  | .otherwiseIf condition => b.otherwiseIf condition
  | .close => b.close

/-- The state after a call, which is the state before it where the answer is an issue. -/
def after (b : Branches) (c : BranchCall) : Branches :=
  match b.call c with
  | .ok next => next
  | .error _ => b

/-- The state after calls on a fresh state. -/
def ofCalls (calls : List BranchCall) : Branches :=
  calls.foldl after empty

end Branches

/-! ## Histories -/

/-- The open blocks, innermost first: for each the conditions of its branches, in order. -/
abbrev History := List (List Bool)

namespace History

/-- The history after a call. A last branch has the condition that always holds. Without an open block
there is nothing to continue and nothing to close. -/
def after : History → BranchCall → History
  | h, .openBlock condition => [condition] :: h
  | [], _ => []
  | conditions :: outer, .otherwise => (conditions ++ [true]) :: outer
  | conditions :: outer, .otherwiseIf condition => (conditions ++ [condition]) :: outer
  | _ :: outer, .close => outer

/-- The history of calls on a fresh state. -/
def ofCalls (calls : List BranchCall) : History :=
  calls.foldl after []

/-- The current branch, which is the last one, is the first whose condition holds. -/
def IsChosen (conditions : List Bool) : Prop :=
  conditions.findIdx? id = some (conditions.length - 1)

instance (conditions : List Bool) : Decidable (IsChosen conditions) :=
  inferInstanceAs (Decidable (_ = _))

/-- Some open block stands in another branch than its chosen one. -/
def IsSuppressed (h : History) : Prop :=
  ∃ conditions ∈ h, ¬IsChosen conditions

instance (h : History) : Decidable h.IsSuppressed :=
  inferInstanceAs (Decidable (∃ _ ∈ h, _))

/-- How many of the calls lead from output that is written to output that is left out. -/
def suppressions : History → List BranchCall → Nat
  | _, [] => 0
  | h, c :: calls =>
    (if ¬h.IsSuppressed ∧ (h.after c).IsSuppressed then 1 else 0) + suppressions (h.after c) calls

/-! ## One block -/

/-- The word for a block by itself. -/
def wordOf (conditions : List Bool) : Branch :=
  if IsChosen conditions then .chosen
  else if conditions.any id then .spent
  else .waiting

theorem isChosen_singleton (condition : Bool) : IsChosen [condition] ↔ condition = true := by
  cases condition <;> decide

/-- A further branch is the chosen one exactly if its condition is the first that holds. -/
theorem isChosen_append (conditions : List Bool) (condition : Bool) :
    IsChosen (conditions ++ [condition]) ↔ conditions.any id = false ∧ condition = true := by
  unfold IsChosen
  rw [List.findIdx?_append, List.length_append, List.length_singleton, Nat.add_sub_cancel]
  cases hf : conditions.findIdx? id with
  | none =>
    have ha : conditions.any id = false := by
      rw [List.findIdx?_eq_none_iff] at hf
      rw [List.any_eq_false]
      intro x hx
      simpa using hf x hx
    cases condition <;> simp [ha]
  | some i =>
    have hi := List.findIdx?_eq_some_iff_getElem.1 hf
    obtain ⟨hlt, htrue, -⟩ := hi
    have ha : conditions.any id = true := List.any_eq_true.2 ⟨_, List.getElem_mem hlt, htrue⟩
    simp [ha]
    omega

theorem wordOf_singleton (condition : Bool) :
    wordOf [condition] = if condition then .chosen else .waiting := by
  cases condition <;> decide

theorem any_of_isChosen {conditions : List Bool} (h : IsChosen conditions) : conditions.any id = true := by
  obtain ⟨hlt, htrue, -⟩ := List.findIdx?_eq_some_iff_getElem.1 h
  exact List.any_eq_true.2 ⟨_, List.getElem_mem hlt, htrue⟩

/-- Behind the chosen branch every further branch is left out; before it the condition decides. -/
theorem wordOf_append (conditions : List Bool) (condition : Bool) :
    wordOf (conditions ++ [condition]) =
      match wordOf conditions with
      | .waiting => if condition then .chosen else .waiting
      | _ => .spent := by
  have hc := isChosen_append conditions condition
  unfold wordOf
  by_cases ha : conditions.any id = true
  · have hn : ¬IsChosen (conditions ++ [condition]) := fun h => by
      rw [(hc.1 h).1] at ha
      cases ha
    rw [if_neg hn, if_pos (by rw [List.any_append, ha, Bool.true_or])]
    by_cases h : IsChosen conditions
    · rw [if_pos h]
    · rw [if_neg h, if_pos ha]
  · have hn : ¬IsChosen conditions := fun h => ha (any_of_isChosen h)
    rw [if_neg hn, if_neg ha]
    rw [Bool.not_eq_true] at ha
    cases condition with
    | true => rw [if_pos (hc.2 ⟨ha, rfl⟩)]; rfl
    | false =>
      rw [if_neg (fun h => Bool.noConfusion (hc.1 h).2), if_neg (by rw [List.any_append, ha]; decide)]
      rfl

/-! ## All open blocks -/

/-- The words for the open blocks: a block inside output that is left out is enclosed. -/
def blocksOf : History → List Branch
  | [] => []
  | conditions :: outer => (if IsSuppressed outer then .enclosed else wordOf conditions) :: blocksOf outer

theorem isSuppressed_cons (conditions : List Bool) (outer : History) :
    IsSuppressed (conditions :: outer) ↔ ¬IsChosen conditions ∨ IsSuppressed outer := by
  simp [IsSuppressed]

theorem wordOf_eq_chosen_iff (conditions : List Bool) : wordOf conditions = .chosen ↔ IsChosen conditions := by
  unfold wordOf
  split
  · simp [*]
  · split <;> simp [*]

theorem wordOf_ne_enclosed (conditions : List Bool) : wordOf conditions ≠ .enclosed := by
  unfold wordOf
  split
  · decide
  · split <;> decide

/-- The word for the innermost block tells whether output is left out. -/
theorem isMasked_iff {b : Branches} {h : History} (hb : b.blocks = blocksOf h) :
    b.isMasked = true ↔ h.IsSuppressed := by
  rw [Branches.isMasked, hb]
  cases h with
  | nil => simp [blocksOf, leavesOut, IsSuppressed]
  | cons conditions outer =>
    rw [isSuppressed_cons]
    by_cases ho : IsSuppressed outer
    · simp [blocksOf, leavesOut, ho]
    · simp [blocksOf, leavesOut, ho, wordOf_eq_chosen_iff]

theorem length_blocksOf (h : History) : (blocksOf h).length = h.length := by
  induction h with
  | nil => rfl
  | cons conditions outer ih => simp [blocksOf, ih]

/-! ## One call -/

/-- The last branch of a block is a branch whose condition holds. -/
theorem after_otherwise (h : History) : h.after .otherwise = h.after (.otherwiseIf true) := by
  cases h <;> rfl

/-- A further branch of the innermost block. -/
theorem blocks_after_otherwiseIf {b : Branches} {h : History} (hb : b.blocks = blocksOf h) (condition : Bool) :
    (b.after (.otherwiseIf condition)).blocks = blocksOf (h.after (.otherwiseIf condition)) ∧
      (b.after (.otherwiseIf condition)).masked =
        b.masked + if ¬h.IsSuppressed ∧ (h.after (.otherwiseIf condition)).IsSuppressed then 1 else 0 := by
  cases h with
  | nil => simp [Branches.after, Branches.call, Branches.otherwiseIf_of_nil hb, after, hb, IsSuppressed]
  | cons conditions outer =>
    obtain ⟨c, hc, hblocks, hmasked⟩ := Branches.exists_otherwiseIf hb condition
    have hafter : b.after (.otherwiseIf condition) = c := by rw [Branches.after, Branches.call, hc]
    rw [hafter, hblocks, hmasked]
    simp only [after, blocksOf, isSuppressed_cons, ← wordOf_eq_chosen_iff, wordOf_append]
    by_cases ho : IsSuppressed outer
    · simp [ho, Branch.next]
    · cases hw : wordOf conditions with
      | enclosed => exact absurd hw (wordOf_ne_enclosed conditions)
      | chosen => simp [ho, Branch.next]
      | waiting => cases condition <;> simp [ho, Branch.next]
      | spent => simp [ho, Branch.next]

/-- A call leaves the words for the open blocks of the history after it, and counts if output begins to be
left out with it. -/
theorem blocks_after {b : Branches} {h : History} (hb : b.blocks = blocksOf h) (c : BranchCall) :
    (b.after c).blocks = blocksOf (h.after c) ∧
      (b.after c).masked = b.masked + if ¬h.IsSuppressed ∧ (h.after c).IsSuppressed then 1 else 0 := by
  have hm := isMasked_iff hb
  cases c with
  | openBlock condition =>
    show Branch.first condition b.blocks :: b.blocks = _ ∧ (if b.isMasked || condition then b.masked else b.masked + 1) = _
    rw [Branches.isMasked, hb] at hm
    rw [Branch.first, Branches.isMasked, hb]
    by_cases hs : h.IsSuppressed
    · simp [hm.2 hs, hs, after, blocksOf]
    · have hl : leavesOut (blocksOf h) = false := by simpa [hs] using hm
      cases condition <;> simp [hl, hs, after, blocksOf, wordOf_singleton, isSuppressed_cons, isChosen_singleton]
  | otherwise =>
    rw [after_otherwise]
    exact blocks_after_otherwiseIf hb true
  | otherwiseIf condition => exact blocks_after_otherwiseIf hb condition
  | close =>
    cases h with
    | nil => simp [Branches.after, Branches.call, Branches.close_of_nil hb, after, hb, IsSuppressed]
    | cons conditions outer =>
      obtain ⟨c, hc, hblocks, hmasked⟩ := Branches.exists_close hb
      have hafter : b.after .close = c := by rw [Branches.after, Branches.call, hc]
      rw [hafter, hblocks, hmasked]
      simp [after, isSuppressed_cons]

/-- Only a call that needs an open block is answered by an issue, and only where there is none. -/
theorem call_eq_error_iff {b : Branches} {h : History} (hb : b.blocks = blocksOf h) (c : BranchCall) (i : Issue) :
    b.call c = .error i ↔ h = [] ∧ c.issue? = some i := by
  have branch (condition : Bool) : b.otherwiseIf condition = .error i ↔
      h = [] ∧ some (Issue.unexpectedKeyword "else") = some i := by
    cases h with
    | nil => simp [Branches.otherwiseIf_of_nil hb]
    | cons conditions outer =>
      obtain ⟨c, hc, -, -⟩ := Branches.exists_otherwiseIf hb condition
      simp [hc]
  cases c with
  | openBlock condition => simp [Branches.call, BranchCall.issue?]
  | otherwise => exact branch true
  | otherwiseIf condition => exact branch condition
  | close =>
    cases h with
    | nil => simp [Branches.call, Branches.close_of_nil hb, BranchCall.issue?]
    | cons conditions outer =>
      obtain ⟨c, hc, -, -⟩ := Branches.exists_close hb
      simp [Branches.call, hc]

/-! ## Any number of calls -/

theorem blocks_foldl_after (calls : List BranchCall) {b : Branches} {h : History} (hb : b.blocks = blocksOf h) :
    (calls.foldl Branches.after b).blocks = blocksOf (calls.foldl after h) ∧
      (calls.foldl Branches.after b).masked = b.masked + suppressions h calls := by
  induction calls generalizing b h with
  | nil => exact ⟨hb, rfl⟩
  | cons c calls ih =>
    have hc := blocks_after hb c
    have hr := ih hc.1
    refine ⟨hr.1, ?_⟩
    rw [List.foldl_cons, hr.2, hc.2, suppressions, Nat.add_assoc]

/-- In a pass the open blocks after a call are those after it, and its issue is noted. -/
theorem branched_call (s : Pass) (c : BranchCall) :
    ∃ t, s.branched (s.branches.call c) =
        .moved (match s.branches.call c with | .ok _ => [] | .error i => [i]) t ∧
      t.branches = s.branches.after c := by
  unfold Branches.after
  cases s.branches.call c with
  | ok b => exact ⟨_, rfl, rfl⟩
  | error i =>
    refine ⟨s.marked i, rfl, ?_⟩
    unfold Pass.marked
    split <;> rfl

/-- **The blocks follow their history.** After any calls on a fresh state output is left out exactly if some
open block stands in another branch than its chosen one; every block that was opened and not closed is
counted, and so is every call with which output began to be left out. A call is answered by an issue exactly
if it needs an open block and there is none, and then the state, and the state that a pass holds, stays. -/
theorem follows_history (calls : List BranchCall) :
    ((Branches.ofCalls calls).isMasked = true ↔ (ofCalls calls).IsSuppressed) ∧
    (Branches.ofCalls calls).depth = (ofCalls calls).length ∧
    (Branches.ofCalls calls).masked = suppressions [] calls ∧
    ∀ c i, ((Branches.ofCalls calls).call c = .error i ↔ ofCalls calls = [] ∧ c.issue? = some i) ∧
      ((Branches.ofCalls calls).call c = .error i →
        (Branches.ofCalls calls).after c = Branches.ofCalls calls ∧
        ∀ s : Pass, s.branches = Branches.ofCalls calls →
          ∃ t, s.branched (s.branches.call c) = .moved [i] t ∧ t.branches = Branches.ofCalls calls) := by
  have hstart : Branches.empty.blocks = blocksOf [] := rfl
  obtain ⟨hb, hm⟩ := blocks_foldl_after calls hstart
  refine ⟨isMasked_iff hb, ?_, ?_, fun c i => ⟨call_eq_error_iff hb c i, fun hc => ?_⟩⟩
  · rw [Branches.depth, Branches.ofCalls, hb, length_blocksOf, ofCalls]
  · rw [Branches.ofCalls, hm]
    exact Nat.zero_add _
  · have hkept : (Branches.ofCalls calls).after c = Branches.ofCalls calls := by
      rw [Branches.after, hc]
    refine ⟨hkept, fun s hs => ?_⟩
    obtain ⟨t, ht, hbt⟩ := branched_call s c
    rw [hs, hc] at ht
    rw [hs, hkept] at hbt
    exact ⟨t, by rw [hs, hc]; exact ht, hbt⟩

/-- A second `end` behind a closed block. -/
theorem follows_history_unopened :
    (Branches.ofCalls [.openBlock false, .otherwise, .close]).call .close = .error (.unexpectedKeyword "end") ∧
      (Branches.ofCalls [.openBlock false, .otherwise, .close]).after .close =
        Branches.ofCalls [.openBlock false, .otherwise, .close] :=
  have h : (Branches.ofCalls [.openBlock false, .otherwise, .close]).call .close =
      .error (.unexpectedKeyword "end") := rfl
  ⟨h, (((follows_history [.openBlock false, .otherwise, .close]).2.2.2 .close _).2 h).1⟩

end History

end SqlComposer
