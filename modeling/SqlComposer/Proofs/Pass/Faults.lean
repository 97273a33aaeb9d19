import SqlComposer.Proofs.Pass.LeftOut

/-!
# Faults of a stream

* `Pass.AtMarker` : the next step is at a marker, in SQL text or as a token;
* `Pass.Fault` : what can be wrong with the stream there: no token is left, the code is not known, no block is open, a
  keyword of a block stands as a token, or the value is no count of rows;
* `Pass.Fault.next` : the step finds the fault and goes on.
-/

namespace SqlComposer

namespace Pass

/-- The next step is at a marker with this code, in SQL text or not, with these lexemes and tokens behind it. -/
inductive AtMarker (s : Pass) : String → Bool → List Lexeme → List Token → Prop
  | text {code : String} {behind : List Lexeme} (lexemes : s.lexemes = .marker code :: behind) :
      AtMarker s code true behind s.queue
  | token {code : String} {q : List Token} (lexemes : s.lexemes = []) (queue : s.queue = .modifier code :: q) :
      AtMarker s code false [] q

/-- Something is wrong with the stream at the next step. A block that is still open when the stream ends is closed there,
and nothing is wrong with it. -/
inductive Fault (s : Pass) : Issue → Prop
  /-- A marker takes a token and none is left. -/
  | exhausted {code : String} {inText : Bool} {behind : List Lexeme} (marker : s.AtMarker code inText behind [])
      (known : (Marker.ofCode? code).isSome = true) (takes : takesNext code inText behind = true) :
      Fault s (.extraModifier (wantedBy code))
  /-- A placeholder takes a token and none is left. -/
  | unfilled {behind : List Lexeme} (lexemes : s.lexemes = .placeholder :: behind) (queue : s.queue = []) :
      Fault s .extraPlaceholder
  | unknown {code : String} {inText : Bool} {behind : List Lexeme} {q : List Token}
      (marker : s.AtMarker code inText behind q) (none : Marker.ofCode? code = none) (shown : s.isMasked = false) :
      Fault s (.unknownModifier code)
  /-- A block goes on or is closed, and none is open. An `else` that goes on with a condition finds its value. -/
  | unopened {k : Keyword} (hk : k = .otherwise ∨ k = .endIf) {behind : List Lexeme} {q : List Token}
      (marker : s.AtMarker k.code true behind q) (fed : takesNext k.code true behind = true → q ≠ [])
      (blocks : s.branches.blocks = []) : Fault s (.unexpectedKeyword k.code)
  /-- The keywords of blocks are known in SQL text only. -/
  | misplaced {k : Keyword} (hk : k.isConditional = true) {behind : List Lexeme} {q : List Token}
      (marker : s.AtMarker k.code false behind q) : Fault s (.unexpectedKeyword k.code)
  | uncounted {k : Keyword} (hk : k.isConditional = false) {inText : Bool} {behind : List Lexeme} {t : Token}
      {q : List Token} (marker : s.AtMarker k.code inText behind (t :: q)) (none : rowCount? t.toValue = none)
      (shown : s.isMasked = false) : Fault s (.invalidCombination t.toValue.kind k.code)

variable {s : Pass} {i : Issue}

theorem AtMarker.next {code : String} {inText : Bool} {behind : List Lexeme} {q : List Token}
    (h : s.AtMarker code inText behind q) (placeholders : Bool) :
    ∃ u : Pass, s.next placeholders = u.marker code inText ∧ u.lexemes = behind ∧ u.queue = q ∧
      u.branches = s.branches := by
  cases h with
  | @text behind lexemes =>
    refine ⟨{ s with lexemes := behind }, ?_, rfl, rfl, rfl⟩
    rw [Pass.next, lexemes]
    rfl
  | token lexemes queue =>
    refine ⟨s.enter [] q, ?_, rfl, rfl, rfl⟩
    rw [Pass.next, lexemes, queue]
    rfl

/-! ## Steps that find a fault -/

/-- The step finds this issue, and nothing else. -/
def Reports (i : Issue) (x : Next) : Prop :=
  ∃ t, x = .moved [i] t

theorem reports_fail (i : Issue) (s : Pass) : Reports i (s.fail i) :=
  ⟨_, rfl⟩

theorem Reports.endBranch {x : Next} (h : Reports i x) : Reports i (endBranch x) := by
  obtain ⟨t, rfl⟩ := h
  exact ⟨_, rfl⟩

theorem reports_take (code : String) (f : Value → Pass → Next) (hq : s.queue = []) :
    Reports (.extraModifier code) (s.take code f) := by
  rw [take, hq]
  exact reports_fail _ s

theorem take_cons (code : String) (f : Value → Pass → Next) {t : Token} {q : List Token} (hq : s.queue = t :: q) :
    s.take code f = f t.toValue { s with queue := q } := by
  rw [take, hq]

theorem marker_keyword (k : Keyword) (inText : Bool) :
    s.marker k.code inText =
      if k.isConditional then if inText then s.block k else s.fail (.unexpectedKeyword k.code) else s.bound k := by
  rw [marker, Marker.ofCode?_keyword_code]
  cases k <;> rfl

theorem marker_modifier {code : String} {m : Modifier} (h : Marker.ofCode? code = some (.modifier m)) (inText : Bool) :
    ∃ f, s.marker code inText = s.take code f := by
  unfold marker
  rw [h]
  by_cases hm : m = .expand
  · subst hm
    rw [code_of_ofCode?_expand h]
    exact ⟨_, rfl⟩
  · split
    · next he => cases he
    · next he => cases he
    · next he => exact absurd (by cases he; rfl) hm
    · exact ⟨_, rfl⟩

theorem reports_exhausted {code : String} {inText : Bool} (hq : s.queue = [])
    (known : (Marker.ofCode? code).isSome = true) (takes : takesNext code inText s.lexemes = true) :
    Reports (.extraModifier (wantedBy code)) (s.marker code inText) := by
  obtain ⟨marker, hc⟩ := Option.isSome_iff_exists.1 known
  cases marker with
  | modifier m =>
    have hne : code ≠ Keyword.otherwise.code := by
      rintro rfl
      cases hc
    obtain ⟨f, hf⟩ := s.marker_modifier hc inText
    rw [hf, wantedBy_of_ne hne]
    exact reports_take code f hq
  | keyword k =>
    obtain rfl := Marker.code_of_ofCode? hc
    rw [marker_keyword]
    cases k with
    | ifTrue =>
      obtain rfl : inText = true := takes
      exact (reports_take Keyword.ifTrue.code _ hq).endBranch
    | otherwise =>
      have hboth : inText = true ∧ (dropElseIf? s.lexemes).isSome = true := by simpa [takesNext] using takes
      obtain ⟨rfl, hsome⟩ := hboth
      obtain ⟨rest, hrest⟩ := Option.isSome_iff_exists.1 hsome
      show Reports _ (s.block .otherwise)
      simp only [block, hrest]
      exact (reports_take (s := { s with lexemes := rest }) Keyword.ifTrue.code _ hq).endBranch
    | endIf => cases takes
    | limit =>
      show Reports (.extraModifier Keyword.limit.code) (s.bound .limit)
      exact reports_take _ _ hq
    | offset =>
      show Reports (.extraModifier Keyword.offset.code) (s.bound .offset)
      exact reports_take _ _ hq

theorem reports_unknown {code : String} (h : Marker.ofCode? code = none) (hm : s.isMasked = false) (inText : Bool) :
    Reports (.unknownModifier code) (s.marker code inText) := by
  have hn : ¬s.isMasked = true := by rw [hm]; decide
  unfold marker
  rw [h]
  show Reports _ (s.unknown code)
  unfold unknown
  split
  · exact ⟨_, if_neg hn⟩
  · exact ⟨_, if_neg hn⟩

theorem reports_unopened {k : Keyword} (hk : k = .otherwise ∨ k = .endIf)
    (fed : takesNext k.code true s.lexemes = true → s.queue ≠ []) (hb : s.branches.blocks = []) :
    Reports (.unexpectedKeyword k.code) (s.marker k.code true) := by
  rcases hk with rfl | rfl
  · show Reports _ (s.block .otherwise)
    cases hrest : dropElseIf? s.lexemes with
    | none =>
      simp only [block, hrest]
      rw [Branches.otherwise, Branches.otherwiseIf_of_nil hb]
      exact (reports_fail _ s).endBranch
    | some rest =>
      have htakes : takesNext Keyword.otherwise.code true s.lexemes = true := by simp [takesNext, hrest]
      obtain ⟨t, q, hq⟩ := List.exists_cons_of_ne_nil (fed htakes)
      simp only [block, hrest]
      apply Reports.endBranch
      rw [take_cons (s := { s with lexemes := rest }) _ _ hq, Branches.otherwiseIf_of_nil hb]
      exact reports_fail _ _
  · have hclose := Branches.close_of_nil hb
    show Reports _ (endBranch (s.branched s.branches.close))
    rw [hclose]
    exact (reports_fail _ s).endBranch

theorem reports_misplaced {k : Keyword} (hk : k.isConditional = true) :
    Reports (.unexpectedKeyword k.code) (s.marker k.code false) := by
  rw [marker_keyword, if_pos hk]
  exact reports_fail _ s

theorem reports_uncounted {k : Keyword} (hk : k.isConditional = false) {t : Token} {q : List Token}
    (hq : s.queue = t :: q) (h : rowCount? t.toValue = none) (hm : s.isMasked = false) (inText : Bool) :
    Reports (.invalidCombination t.toValue.kind k.code) (s.marker k.code inText) := by
  have hn : ¬Pass.isMasked { s with queue := q } = true := by
    show ¬s.isMasked = true
    rw [hm]
    decide
  rw [marker_keyword, hk]
  show Reports _ (s.bound k)
  rw [bound, take_cons _ _ hq, if_neg hn, h]
  exact reports_fail _ _

/-- A fault of the stream is found, and the pass goes on. -/
theorem Fault.next (h : s.Fault i) (placeholders : Bool) : Reports i (s.next placeholders) := by
  cases h with
  | exhausted marker known takes =>
    obtain ⟨u, hnext, rfl, hq, -⟩ := marker.next placeholders
    rw [hnext]
    exact reports_exhausted hq known takes
  | unfilled lexemes queue =>
    rw [Pass.next, lexemes]
    show Reports _ (Pass.placeholder _)
    rw [placeholder, queue]
    exact reports_fail _ _
  | @unknown code inText _ _ marker none shown =>
    obtain ⟨u, hnext, -, -, hbranches⟩ := marker.next placeholders
    rw [hnext]
    exact reports_unknown none (by rwa [isMasked, hbranches]) inText
  | unopened hk marker fed blocks =>
    obtain ⟨u, hnext, rfl, rfl, hbranches⟩ := marker.next placeholders
    rw [hnext]
    exact reports_unopened hk fed (by rw [hbranches, blocks])
  | misplaced hk marker =>
    obtain ⟨u, hnext, -, -, -⟩ := marker.next placeholders
    rw [hnext]
    exact reports_misplaced hk
  | @uncounted _ hk inText _ _ _ marker none shown =>
    obtain ⟨u, hnext, -, hq, hbranches⟩ := marker.next placeholders
    rw [hnext]
    exact reports_uncounted hk hq none (by rwa [isMasked, hbranches]) inText

end Pass

end SqlComposer
