import SqlComposer.Proofs.Pass.Overlooked

/-!
# Issues in branches that are left out

* `Pass.lack?` : what a step may find where the output is left out: there is no token for a marker or a placeholder, or
  a keyword of a block is a token;
* `Unwritten`, `Next.Finds` : a step that writes nothing; `exists_next_of_isMasked` : so is every step there;
* `LeavesOut` : the steps through a branch that is left out, with the issues that they find;
* `leftOut_issues` : such a branch writes nothing and finds nothing else.
-/

namespace SqlComposer

/-- The marker that a missing token is missed by: an `else` misses one for the `if` behind it. -/
def wantedBy (code : String) : String :=
  if code = Keyword.otherwise.code then Keyword.ifTrue.code else code

/-- What a marker finds where the output is left out: nothing if its code is not known, else that there is no token
for it, or that it is a keyword of a block and a token. -/
def markerLack? (code : String) (inText : Bool) (behind : List Lexeme) (queue : List Token) : Option Issue :=
  if (Marker.ofCode? code).isNone then none
  else if takesNext code inText behind then if queue.isEmpty then some (.extraModifier (wantedBy code)) else none
  else if inText then none
  else some (.unexpectedKeyword code)

/-- What the next step finds where the output is left out. -/
def Pass.lack? (s : Pass) : Option Issue :=
  match s.lexemes with
  | .marker code :: behind => markerLack? code true behind s.queue
  | .placeholder :: _ => if s.queue.isEmpty then some .extraPlaceholder else none
  | _ :: _ => none
  | [] =>
    match s.queue with
    | .modifier code :: queue => markerLack? code false [] queue
    | _ => none

/-- There is no token for a marker or a placeholder. -/
def Issue.IsExtra : Issue → Prop
  | .extraModifier _ | .extraPlaceholder => True
  | _ => False

/-- The later state has the text and the bounds of the earlier one, and no tokens but those that were to come. -/
structure Unwritten (s u : Pass) : Prop where
  text : u.out.text = s.out.text
  bounds : u.bounds = s.bounds
  inserting : u.inserting = s.inserting
  queue : u.queue <:+ s.queue

namespace Unwritten

variable {s t u : Pass}

theorem refl (s : Pass) : Unwritten s s :=
  ⟨rfl, rfl, rfl, List.suffix_refl _⟩

theorem trans (h : Unwritten s t) (h' : Unwritten t u) : Unwritten s u :=
  ⟨h'.text.trans h.text, h'.bounds.trans h.bounds, h'.inserting.trans h.inserting, h'.queue.trans h.queue⟩

theorem taken {x : Token} {queue : List Token} (h : s.queue = x :: queue) : Unwritten s { s with queue := queue } := by
  refine ⟨rfl, rfl, rfl, ?_⟩
  rw [h]
  exact List.suffix_cons x queue

theorem entered {x : Token} {queue : List Token} (h : s.queue = x :: queue) (ls : List Lexeme) :
    Unwritten s (s.enter ls queue) :=
  (taken h).trans ⟨rfl, rfl, rfl, List.suffix_refl _⟩

end Unwritten

/-- The step writes nothing and finds `found`. What finds an issue takes no token. -/
def Next.Finds (s : Pass) (found : List Issue) (x : Next) : Prop :=
  ∃ u, x = .moved found u ∧ Unwritten s u ∧ (found ≠ [] → u.queue = s.queue)

theorem Next.Finds.of_unwritten {s t : Pass} {found : List Issue} {x : Next} (h : x.Finds t found)
    (hst : Unwritten s t) (hq : t.queue = s.queue) : x.Finds s found := by
  obtain ⟨u, rfl, hu, hfound⟩ := h
  exact ⟨u, rfl, hst.trans hu, fun hne => (hfound hne).trans hq⟩

/-! ## One step -/

namespace Pass

variable {s : Pass} {placeholders : Bool}

theorem finds_silent {u : Pass} (h : Unwritten s u) : (Next.moved [] u).Finds s [] :=
  ⟨u, rfl, h, fun hne => absurd rfl hne⟩

theorem finds_fail (hm : s.isMasked = true) (i : Issue) : (s.fail i).Finds s [i] := by
  refine ⟨s, ?_, .refl s, fun _ => rfl⟩
  rw [fail, marked, if_pos hm]

theorem finds_endBranch {found : List Issue} {x : Next} (h : x.Finds s found) : (endBranch x).Finds s found := by
  obtain ⟨u, rfl, hu, hq⟩ := h
  exact ⟨u.endToken, rfl, ⟨hu.text, hu.bounds, hu.inserting, hu.queue⟩, hq⟩

theorem finds_branched (b : Branches) : (s.branched (.ok b)).Finds s [] :=
  finds_silent ⟨rfl, rfl, rfl, List.suffix_refl _⟩

theorem finds_take (hm : s.isMasked = true) (code : String) {f : Value → Pass → Next}
    (hf : ∀ v (u : Pass), u.isMasked = true → (f v u).Finds u []) :
    (s.take code f).Finds s (if s.queue.isEmpty then [.extraModifier code] else []) := by
  cases hq : s.queue with
  | nil =>
    rw [take, hq]
    exact finds_fail hm _
  | cons t queue =>
    obtain ⟨u, hu, hun, -⟩ := hf t.toValue { s with queue := queue } hm
    rw [take, hq]
    show Next.Finds s [] (f t.toValue { s with queue := queue })
    rw [hu]
    exact finds_silent ((Unwritten.taken hq).trans hun)

/-- Where the output is left out a block is open, so that each keyword of a block has one to steer. -/
theorem exists_otherwiseIf (hm : s.isMasked = true) (c : Bool) : ∃ b, s.branches.otherwiseIf c = .ok b := by
  obtain ⟨block, outer, hblocks⟩ := Branches.exists_blocks_of_isMasked hm
  obtain ⟨b, hb, -⟩ := Branches.exists_otherwiseIf hblocks c
  exact ⟨b, hb⟩

theorem exists_close (hm : s.isMasked = true) : ∃ b, s.branches.close = .ok b := by
  obtain ⟨block, outer, hblocks⟩ := Branches.exists_blocks_of_isMasked hm
  obtain ⟨b, hb, -⟩ := Branches.exists_close hblocks
  exact ⟨b, hb⟩

theorem toList_ite (b : Bool) (i : Issue) : (if b then some i else none).toList = if b then [i] else [] := by
  cases b <;> rfl

/-- The issue of a marker that takes a token. -/
theorem markerLack?_of_takesNext {code : String} {inText : Bool} {behind : List Lexeme} {queue : List Token}
    (hc : (Marker.ofCode? code).isSome = true) (ht : takesNext code inText behind = true) :
    (markerLack? code inText behind queue).toList = if queue.isEmpty then [.extraModifier (wantedBy code)] else [] := by
  have hn : ¬(Marker.ofCode? code).isNone = true := by
    rw [Option.isNone_iff_eq_none]
    exact Option.isSome_iff_ne_none.1 hc
  rw [markerLack?, if_neg hn, if_pos ht, toList_ite]

theorem wantedBy_of_ne {code : String} (h : code ≠ Keyword.otherwise.code) : wantedBy code = code :=
  if_neg h

theorem finds_block (hm : s.isMasked = true) {k : Keyword} (hk : k.isConditional = true) :
    (s.block k).Finds s (markerLack? k.code true s.lexemes s.queue).toList := by
  cases k with
  | ifTrue =>
    rw [markerLack?_of_takesNext rfl rfl, wantedBy_of_ne (by decide)]
    exact finds_endBranch (finds_take hm _ fun v u _ => finds_branched _)
  | otherwise =>
    unfold block
    simp only
    cases hd : dropElseIf? s.lexemes with
    | none =>
      have hl : markerLack? Keyword.otherwise.code true s.lexemes s.queue = none := by
        simp [markerLack?, takesNext, hd]
      obtain ⟨b, hb⟩ := exists_otherwiseIf hm true
      rw [hl, Branches.otherwise, hb]
      exact finds_endBranch (finds_branched b)
    | some rest =>
      have ht : takesNext Keyword.otherwise.code true s.lexemes = true := by simp [takesNext, hd]
      have htake := finds_take (s := { s with lexemes := rest }) hm Keyword.ifTrue.code
        (f := fun v s => s.branched (s.branches.otherwiseIf v.isTruthy)) fun v u hu => by
          obtain ⟨b, hb⟩ := exists_otherwiseIf hu v.isTruthy
          rw [hb]
          exact finds_branched b
      rw [markerLack?_of_takesNext rfl ht]
      exact (finds_endBranch htake).of_unwritten ⟨rfl, rfl, rfl, List.suffix_refl _⟩ rfl
  | endIf =>
    obtain ⟨b, hb⟩ := exists_close hm
    show Next.Finds s [] (endBranch (s.branched s.branches.close))
    rw [hb]
    exact finds_endBranch (finds_branched b)
  | limit => cases hk
  | offset => cases hk

/-- What is done only where the output is not left out. -/
theorem finds_unless (hm : s.isMasked = true) (x : Next) :
    (if s.isMasked = true then Next.moved [] s else x).Finds s [] := by
  rw [if_pos hm]
  exact finds_silent (.refl s)

theorem finds_bound (hm : s.isMasked = true) (k : Keyword) :
    (s.bound k).Finds s (if s.queue.isEmpty then [.extraModifier k.code] else []) := by
  apply finds_take hm
  intro v u hu
  exact finds_unless hu _

theorem finds_expand (hm : s.isMasked = true) :
    s.expand.Finds s (if s.queue.isEmpty then [.extraModifier Modifier.expand.code] else []) := by
  apply finds_take hm
  intro v u hu
  exact finds_unless hu _

theorem finds_unknown (hm : s.isMasked = true) (code : String) : (s.unknown code).Finds s [] := by
  have htail : Unwritten s { s with queue := s.queue.tail } := ⟨rfl, rfl, rfl, List.tail_suffix _⟩
  cases hl : s.lexemes.isEmpty with
  | true =>
    have hu : s.unknown code = .moved [] { s with queue := s.queue.tail } := by
      simp only [unknown, hl, if_true]
      exact if_pos hm
    rw [hu]
    exact finds_silent htail
  | false =>
    have hu : s.unknown code = .moved [] s := by
      simp only [unknown, hl, Bool.false_eq_true, if_false]
      exact if_pos hm
    rw [hu]
    exact finds_silent (.refl s)

theorem code_of_ofCode?_expand {code : String} (h : Marker.ofCode? code = some (.modifier .expand)) :
    code = Modifier.expand.code := by
  unfold Marker.ofCode? at h
  split at h <;> cases h
  rfl

theorem finds_marker (hm : s.isMasked = true) (code : String) (inText : Bool) :
    (s.marker code inText).Finds s (markerLack? code inText s.lexemes s.queue).toList := by
  unfold marker
  cases hc : Marker.ofCode? code with
  | none =>
    have hl : markerLack? code inText s.lexemes s.queue = none := by simp [markerLack?, hc]
    rw [hl]
    exact finds_unknown hm code
  | some known =>
    have hsome : (Marker.ofCode? code).isSome = true := by rw [hc]; rfl
    cases known with
    | keyword k =>
      obtain rfl := Marker.code_of_ofCode? hc
      cases hk : k.isConditional with
      | false =>
        have ht : takesNext k.code inText s.lexemes = true := by
          cases k <;> first | rfl | cases hk
        have hne : k.code ≠ Keyword.otherwise.code := by
          cases k <;> first | decide | cases hk
        rw [markerLack?_of_takesNext hsome ht, wantedBy_of_ne hne]
        simp only [hk]
        exact finds_bound hm k
      | true =>
        simp only [hk]
        cases inText with
        | true => exact finds_block hm hk
        | false =>
          have hl : markerLack? k.code false s.lexemes s.queue = some (.unexpectedKeyword k.code) := by
            cases k <;> first | rfl | cases hk
          rw [hl]
          exact finds_fail hm _
    | modifier m =>
      have ht : takesNext code inText s.lexemes = true := by simp [takesNext, hc]
      have hne : code ≠ Keyword.otherwise.code := by
        rintro rfl
        cases hc
      rw [markerLack?_of_takesNext hsome ht, wantedBy_of_ne hne]
      cases m with
      | expand =>
        obtain rfl := code_of_ofCode?_expand hc
        exact finds_expand hm
      | _ => exact finds_take hm _ fun v u hu => finds_unless hu _

theorem finds_placeholder (hm : s.isMasked = true) :
    s.placeholder.Finds s (if s.queue.isEmpty then [.extraPlaceholder] else []) := by
  cases hq : s.queue with
  | nil =>
    rw [placeholder, hq]
    exact finds_fail hm _
  | cons t queue =>
    have hp : s.placeholder = .moved [] { s with queue := queue } := by
      rw [placeholder, hq]
      exact if_pos hm
    rw [hp]
    exact finds_silent (Unwritten.taken hq)

theorem finds_onLexeme (hm : s.isMasked = true) {l : Lexeme} {behind : List Lexeme} (hl : s.lexemes = l :: behind) :
    (onLexeme l { s with lexemes := behind }).Finds s s.lack?.toList := by
  have hst : Unwritten s { s with lexemes := behind } := ⟨rfl, rfl, rfl, List.suffix_refl _⟩
  rw [lack?, hl]
  cases l with
  | marker code => exact (finds_marker (s := { s with lexemes := behind }) hm code true).of_unwritten hst rfl
  | placeholder =>
    show Next.Finds s (if s.queue.isEmpty then some .extraPlaceholder else none).toList (placeholder _)
    rw [toList_ite]
    exact (finds_placeholder (s := { s with lexemes := behind }) hm).of_unwritten hst rfl
  | _ => exact (finds_unless (s := { s with lexemes := behind }) hm _).of_unwritten hst rfl

/-- What is found where the output is left out. -/
theorem cases_of_markerLack? {code : String} {inText : Bool} {behind : List Lexeme} {queue : List Token} {i : Issue}
    (h : markerLack? code inText behind queue = some i) :
    i.IsExtra ∧ queue = [] ∨ i = .unexpectedKeyword code ∧ inText = false := by
  unfold markerLack? at h
  split at h
  · cases h
  · split at h
    · split at h
      · next hq =>
        cases h
        exact .inl ⟨trivial, List.isEmpty_iff.1 hq⟩
      · cases h
    · split at h
      · cases h
      · next hin =>
        cases h
        exact .inr ⟨rfl, by simpa using hin⟩

theorem isExtra_of_lack? {l : Lexeme} {behind : List Lexeme} (hl : s.lexemes = l :: behind) {i : Issue}
    (h : s.lack? = some i) : i.IsExtra ∧ s.queue = [] := by
  rw [lack?, hl] at h
  cases l with
  | marker code =>
    rcases cases_of_markerLack? h with hextra | ⟨-, hin⟩
    · exact hextra
    · cases hin
  | placeholder =>
    cases hq : s.queue with
    | nil =>
      rw [hq] at h
      cases h
      exact ⟨trivial, rfl⟩
    | cons t queue =>
      rw [hq] at h
      cases h
  | _ => cases h

/-- Where the output is left out a step asks for nothing and writes nothing. It finds that there is no token for a
marker or a placeholder, the stream having ended, or that a keyword of a block is a token, and nothing else. -/
theorem exists_next_of_isMasked (hm : s.isMasked = true) (placeholders : Bool) :
    s.next placeholders = .finished ∨
      ∃ u, s.next placeholders = .moved s.lack?.toList u ∧ Unwritten s u ∧ ∀ i, s.lack? = some i →
        i.IsExtra ∧ u.queue = [] ∨ ∃ code, i = .unexpectedKeyword code ∧ .modifier code ∈ s.queue := by
  cases hl : s.lexemes with
  | cons l behind =>
    obtain ⟨u, hu, hun, hfound⟩ := finds_onLexeme hm hl
    refine .inr ⟨u, ?_, hun, fun i hi => ?_⟩
    · rw [next, hl]
      exact hu
    · obtain ⟨hextra, hq⟩ := isExtra_of_lack? hl hi
      rw [hi] at hfound
      exact .inl ⟨hextra, (hfound (List.cons_ne_nil _ _)).trans hq⟩
  | nil =>
    cases hq : s.queue with
    | nil =>
      refine .inl ?_
      rw [next, hl, hq]
    | cons t queue =>
      have hentered (ls : List Lexeme) : Unwritten s (s.enter ls queue) := .entered hq ls
      right
      cases t with
      | sql text =>
        have hlack : s.lack? = none := by rw [lack?, hl, hq]
        rw [hlack]
        refine ⟨_, s.next_sql placeholders hl hq, hentered _, fun i hi => ?_⟩
        cases hi
      | value v =>
        have hlack : s.lack? = none := by rw [lack?, hl, hq]
        rw [hlack]
        refine ⟨_, s.next_value_of_isMasked placeholders hl hq hm, hentered _, fun i hi => ?_⟩
        cases hi
      | modifier code =>
        have hlack : s.lack? = markerLack? code false [] queue := by rw [lack?, hl, hq]
        have hnext : s.next placeholders = (s.enter [] queue).marker code false := by
          rw [next, hl, hq]
          rfl
        obtain ⟨u, hu, hun, hfound⟩ := finds_marker (s := s.enter [] queue) hm code false
        rw [hlack]
        refine ⟨u, hnext.trans hu, (hentered []).trans hun, fun i hi => ?_⟩
        have hi' : markerLack? code false (s.enter [] queue).lexemes (s.enter [] queue).queue = some i := hi
        rw [hi'] at hfound
        rcases cases_of_markerLack? hi with ⟨hextra, he⟩ | ⟨hkeyword, -⟩
        · exact .inl ⟨hextra, (hfound (List.cons_ne_nil _ _)).trans he⟩
        · exact .inr ⟨code, hkeyword, List.mem_cons_self⟩

end Pass

/-! ## Whole branches -/

/-- From the one state to the other the pass goes through a branch that is left out and finds these issues. -/
inductive LeavesOut (placeholders : Bool) : Pass → List Issue → Pass → Prop
  | refl (s : Pass) : LeavesOut placeholders s [] s
  | step {s t u : Pass} {found later : List Issue} (masked : s.isMasked = true)
      (next : s.next placeholders = .moved found t) (rest : LeavesOut placeholders t later u) :
      LeavesOut placeholders s (found ++ later) u

namespace LeavesOut

variable {ctx : Context} {s u : Pass} {found : List Issue}

theorem silent {placeholders : Bool} {t : Pass} (hm : s.isMasked = true) (hn : s.next placeholders = .moved [] t)
    (h : LeavesOut placeholders t found u) : LeavesOut placeholders s found u :=
  .step hm hn h

theorem run_eq (h : LeavesOut ctx.placeholders s found u) : run ctx s = (run ctx u).after found 0 := by
  induction h with
  | refl s => rw [Render.after_nil_zero]
  | step _ next _ ih => rw [run_moved next, ih, Render.after_after, Nat.zero_add]

/-- A branch that is left out writes nothing. It finds that there is no token for a marker or a placeholder only where
the stream ends in it, and else nothing but keywords of blocks that are tokens. -/
theorem unwritten {placeholders : Bool} (h : LeavesOut placeholders s found u) :
    Unwritten s u ∧ ∀ i ∈ found,
      i.IsExtra ∧ u.queue = [] ∨ ∃ code, i = .unexpectedKeyword code ∧ .modifier code ∈ s.queue := by
  induction h with
  | refl s => exact ⟨.refl s, nofun⟩
  | @step s t u found later masked next rest ih =>
    obtain ⟨hun, hlater⟩ := ih
    rcases s.exists_next_of_isMasked masked placeholders with hfinished | ⟨v, hv, hst, hfound⟩
    · rw [next] at hfinished
      cases hfinished
    · rw [next] at hv
      cases hv
      refine ⟨hst.trans hun, fun i hi => ?_⟩
      rcases List.mem_append.1 hi with hi | hi
      · rcases hfound i (Option.mem_toList.1 hi) with ⟨hextra, hq⟩ | hkeyword
        · have hend : u.queue <:+ [] := hq ▸ hun.queue
          exact .inl ⟨hextra, List.suffix_nil.1 hend⟩
        · exact .inr hkeyword
      · rcases hlater i hi with hextra | ⟨code, hcode, hmem⟩
        · exact .inl hextra
        · exact .inr ⟨code, hcode, hst.queue.subset hmem⟩

end LeavesOut

/-- Where the output is left out every step writes nothing, and finds what it lacks. A branch that is left out as a
whole adds to the issues of what follows that there is no token for a marker or a placeholder, and that only where the
stream ends in it, and the keywords of blocks that are tokens, and else nothing. -/
theorem leftOut_issues (ctx : Context) {s : Pass} (hm : s.isMasked = true) :
    (s.next ctx.placeholders = .finished ∨
      ∃ u, s.next ctx.placeholders = .moved s.lack?.toList u ∧ Unwritten s u) ∧
    ∀ found u, LeavesOut ctx.placeholders s found u →
      run ctx s = (run ctx u).after found 0 ∧ Unwritten s u ∧ ∀ i ∈ found,
        i.IsExtra ∧ u.queue = [] ∨ ∃ code, i = .unexpectedKeyword code ∧ .modifier code ∈ s.queue := by
  constructor
  · rcases s.exists_next_of_isMasked hm ctx.placeholders with hfinished | ⟨u, hu, hun, -⟩
    · exact .inl hfinished
    · exact .inr ⟨u, hu, hun⟩
  · intro found u h
    exact ⟨h.run_eq, h.unwritten⟩

/-- A keyword of a block as a token, a quote without a partner, an unknown code, and a marker at the end of the stream. -/
theorem leftOut_issues_starved :
    let ctx : Context := .leapDay .generic
    let s : Pass := { Pass.start [.modifier "else", .sql "'%zz %i"] with branches := Branches.empty.openBlock false }
    let found := [.unexpectedKeyword "else", .extraModifier "i"]
    s.isMasked = true ∧ ∃ u, LeavesOut true s found u ∧ run ctx s = (run ctx u).after found 0 ∧ Unwritten s u := by
  intro ctx s found
  have hscan : scan (.fragment true) "'%zz %i" = [.aloneQuote, .marker "zz", .text " ", .marker "i"] := by decide +kernel
  let s' := s.enter [] [.sql "'%zz %i"]
  let v := s'.enter [.aloneQuote, .marker "zz", .text " ", .marker "i"] []
  have hsql : s'.next true = .moved [] v := (s'.next_sql true rfl rfl).trans (by rw [hscan])
  have hmarker : LeavesOut true (v.moveTo [.marker "i"] []) ([.extraModifier "i"] ++ []) (v.moveTo [] []) :=
    .step rfl rfl (.refl _)
  have hbranch : LeavesOut true v [.extraModifier "i"] (v.moveTo [] []) :=
    .silent rfl rfl (.silent rfl rfl (.silent rfl rfl hmarker))
  have hleaves : LeavesOut true s ([.unexpectedKeyword "else"] ++ [.extraModifier "i"]) (v.moveTo [] []) :=
    .step rfl rfl (.silent rfl hsql hbranch)
  obtain ⟨hrun, hun, -⟩ := (leftOut_issues ctx rfl).2 found _ hleaves
  exact ⟨rfl, _, hleaves, hrun, hun⟩

/-- A branch that is left out and a marker in it for which there is no token: the issue is found and not shown. -/
theorem leftOut_branch_starves :
    let ctx : Context := .leapDay .generic
    let ts : List Token := [.sql "SELECT 1 %if", .value (.scalar (.bool false)), .sql "AND b = %i"]
    (∃ s u, (Pass.start ts).Reaches true s ∧ s.isMasked = true ∧ s.next true = .moved [.extraModifier "i"] u ∧
      u.isMasked = true) ∧ run ctx (.start ts) = .done "SELECT 1" [.extraModifier "i"] 1 := by
  intro ctx ts
  have hselect : scan (.fragment true) "SELECT 1 %if" = [.text "SELECT 1 ", .marker "if"] := by decide +kernel
  have hand : scan (.fragment true) "AND b = %i" = [.text "AND b = ", .marker "i"] := by decide +kernel
  let s := (Pass.start ts).enter [.text "SELECT 1 ", .marker "if"] ts.tail
  let t := (s.moveTo [.marker "if"] ts.tail).write "SELECT 1 "
  let u := Pass.endToken { t with lexemes := [], queue := [.sql "AND b = %i"], branches := ⟨[.waiting], 1, by decide⟩ }
  let v := u.enter [.text "AND b = ", .marker "i"] []
  have hs : (Pass.start ts).next true = .moved [] s :=
    ((Pass.start ts).next_sql true rfl rfl).trans (by rw [hselect]; rfl)
  have ht : s.next true = .lexeme (.text "SELECT 1 ") (s.moveTo [.marker "if"] ts.tail) := rfl
  have hu : t.next true = .moved [] u := rfl
  have hv : u.next true = .moved [] v := (u.next_sql true rfl rfl).trans (by rw [hand])
  have hmarker : LeavesOut true (v.moveTo [.marker "i"] []) ([.extraModifier "i"] ++ []) (v.moveTo [] []) :=
    .step rfl rfl (.refl _)
  have hleaves : LeavesOut true u [.extraModifier "i"] (v.moveTo [] []) :=
    .silent rfl hv (.silent rfl rfl hmarker)
  have hfinish : (v.moveTo [] []).finish ctx = .done "SELECT 1" [] 1 := by
    have hout : (v.moveTo [] []).out.finish = "SELECT 1" := by decide +kernel
    show (Render.after [] 1 (pure (v.moveTo [] []).out.finish)) = _
    rw [hout]
    rfl
  constructor
  · refine ⟨v.moveTo [.marker "i"] [], v.moveTo [] [], ?_, rfl, rfl, rfl⟩
    have hstart : (Pass.start ts).Step true s := ⟨s, by rw [hs]; rfl, _, rfl⟩
    have htext : s.Step true t := ⟨_, congrArg Next.state? ht, _, rfl⟩
    have hif : t.Step true u := ⟨u, congrArg Next.state? hu, _, rfl⟩
    have hbranch : u.Step true v := ⟨v, congrArg Next.state? hv, _, rfl⟩
    have hmasked : v.Step true (v.moveTo [.marker "i"] []) := ⟨_, rfl, _, rfl⟩
    exact .head hstart (.head htext (.head hif (.head hbranch (.single hmasked))))
  · calc
      run ctx (.start ts) = run ctx s := run_silent hs
      _ = ctx.lexeme (.text "SELECT 1 ") >>= fun text => run ctx ((s.moveTo [.marker "if"] ts.tail).write text) :=
        run_lexeme ht
      _ = run ctx t := pure_bind _ _
      _ = run ctx u := run_silent hu
      _ = (run ctx (v.moveTo [] [])).after [.extraModifier "i"] 0 := hleaves.run_eq
      _ = .done "SELECT 1" [.extraModifier "i"] 1 := by rw [run_finished rfl, hfinish, Render.after_done]; rfl

end SqlComposer
