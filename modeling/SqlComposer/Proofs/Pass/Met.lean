import SqlComposer.Proofs.Pass.Faults
import SqlComposer.Proofs.Pass.Shown
import SqlComposer.Proofs.Render.Faults

/-!
# The faults that a composition meets

* `Reached` : the columns of a mapping to rows that are come to;
* `Value.Fault`, `Work.Fault` : what can be wrong with a value under a modifier, and at a step of a pass;
* `Work.Runs` : what is really done in the course of the work;
* `Work.Meets` : the faults that are met on the way;
* `meets_scalar`, `meets_fragment`, `meets_list`, `meets_entries`, `meets_names`, `meets_order`, `meets_rows` : what the
  faults of a value come from;
* `Pass.next_withOut`, `Work.Meets.withOut` : no step looks at the output, and what is met does not depend on it;
* `meets_pass` : what the faults of a pass come from.
-/

namespace SqlComposer

/-! ## Faults of values -/

/-- A column of a mapping to rows is come to if all columns before it are lists of one height. It comes with the height
that it should have, if there is a column before it. -/
inductive Reached : Option Nat → List (String × Value) → Option Nat → String × Value → Prop
  | here {height : Option Nat} {e : String × Value} {es : List (String × Value)} : Reached height (e :: es) height e
  | later {height height' : Option Nat} {key : String} {items : List Value} {es : List (String × Value)}
      {e : String × Value} (fits : ∀ n, height = some n → items.length = n)
      (h : Reached (some items.length) es height' e) : Reached height ((key, .list items) :: es) height' e

/-- A mapping to rows has no columns, or no values in them. -/
inductive Rowless : List (String × Value) → Issue → Prop
  | emptyMap : Rowless [] (.invalidCombination "empty map" Modifier.rows.code)
  | emptyLists {entries : List (String × Value)} (columns : entries ≠ []) (h : ∀ e ∈ entries, e.2 = .list []) :
      Rowless entries (.invalidCombination "empty list" Modifier.rows.code)

/-- The modifiers under which a mapping is written. -/
def mapModifiers : List Modifier :=
  [.assign, .values, .list, .inList, .allOf, .anyOf, .identifier, .orderBy, .rows]

/-- The modifiers, or none, under which the columns of a mapping are written beside its values. -/
def columnModes : List (Option Modifier) :=
  [none, some .assign, some .values, some .allOf, some .anyOf]

/-- Something is wrong with the value itself under the modifier: with a scalar, with the kind of the value, or with a
key, a column or the shape of a mapping. -/
inductive Value.Fault (ctx : Context) : Option Modifier → Value → Issue → Prop
  | scalar {m : Option Modifier} {a : Scalar} {i : Issue} (h : ctx.ScalarFault m a i) : Fault ctx m (.scalar a) i
  | fragment {m : Modifier} (hm : m ∉ [.sql, .expand]) (ts : List Token) :
      Fault ctx (some m) (.fragment ts) (.invalidCombination "fragment" m.code)
  | list {m : Modifier} (hm : m ∈ [.assign, .values, .rows]) (items : List Value) :
      Fault ctx (some m) (.list items) (.invalidCombination "list" m.code)
  | map {m : Modifier} (hm : m ∉ mapModifiers) (entries : List (String × Value)) :
      Fault ctx (some m) (.map entries) (.invalidCombination "map" m.code)
  | suffix {m : Option Modifier} {listAs : Modifier} (hm : (m, listAs) ∈ entryModes) {entries : List (String × Value)}
      {e : String × Value} (he : e ∈ entries) {code : String} (hc : (splitKey e.1).2 = some code)
      (none : Modifier.ofCode? code = none) : Fault ctx m (.map entries) (.unknownModifier code)
  | column {m : Option Modifier} (hm : m ∈ columnModes) {entries : List (String × Value)} {e : String × Value}
      (he : e ∈ entries) {i : Issue} (h : ctx.substitutions.substitute (splitKey e.1).1 = .error i) :
      Fault ctx m (.map entries) i
  | name {entries : List (String × Value)} {e : String × Value} (he : e ∈ entries) {i : Issue}
      (h : ctx.substitutions.substitute e.1 = .error i) : Fault ctx (some .identifier) (.map entries) i
  | alias {entries : List (String × Value)} {e : String × Value} (he : e ∈ entries) (hv : e.2.IsNameless) :
      Fault ctx (some .identifier) (.map entries) (.invalidCombination e.2.kind Modifier.identifier.code)
  | order {entries : List (String × Value)} {e : String × Value} (he : e ∈ entries) (hv : e.2.isList = false)
      {i : Issue} (h : ctx.substitutions.substitute e.1 = .error i) : Fault ctx (some .orderBy) (.map entries) i
  | rowsColumn {entries : List (String × Value)} {height : Option Nat} {e : String × Value}
      (he : Reached none entries height e) {i : Issue} (h : ctx.substitutions.substitute (splitKey e.1).1 = .error i) :
      Fault ctx (some .rows) (.map entries) i
  | rowsSuffix {entries : List (String × Value)} {height : Option Nat} {key : String} {items : List Value}
      (he : Reached none entries height (key, .list items)) (fits : ∀ n, height = some n → items.length = n)
      (rows : items ≠ []) {code : String} (hc : (splitKey key).2 = some code) (none : Modifier.ofCode? code = none) :
      Fault ctx (some .rows) (.map entries) (.unknownModifier code)
  | noRows {entries : List (String × Value)} {height : Option Nat} {e : String × Value}
      (he : Reached none entries height e) (hv : e.2.isList = false) :
      Fault ctx (some .rows) (.map entries) (.invalidCombination e.2.kind Modifier.rows.code)
  | unequalRows {entries : List (String × Value)} {n : Nat} {key : String} {items : List Value}
      (he : Reached none entries (some n) (key, .list items)) (h : items.length ≠ n) :
      Fault ctx (some .rows) (.map entries) (.unequalRows (splitKey key).1)
  | rowless {entries : List (String × Value)} {i : Issue} (h : Rowless entries i) :
      Fault ctx (some .rows) (.map entries) i

/-! ## The course of the work -/

namespace Work

/-- Something is wrong at this place of the work. -/
inductive Fault (ctx : Context) : Work → Issue → Prop
  | stream {s : Pass} {i : Issue} (h : s.Fault i) : Fault ctx (.pass s) i
  | lexeme {s t : Pass} {l : Lexeme} (hn : s.next ctx.placeholders = .lexeme l t) {i : Issue}
      (h : ctx.LexemeFault l i) : Fault ctx (.pass s) i
  | value {m : Option Modifier} {v : Value} {i : Issue} (h : v.Fault ctx m i) : Fault ctx (.value m v) i

/-- Whether a mapping is written as rows. -/
def isRows : Work → Bool
  | .value m (.map _) => decide (m = some .rows)
  | _ => false

/-- What is done in the course of the work. Of a mapping to rows this is every part of the columns that are come to and
are as high as they should be. -/
inductive Runs (ctx : Context) : Work → Work → Prop
  | part {w w' : Work} (hp : w.Part ctx w') (hw : w.isRows = false) : Runs ctx w w'
  | cell {entries : List (String × Value)} {height : Option Nat} {key : String} {items : List Value}
      (he : Reached none entries height (key, .list items)) (fits : ∀ n, height = some n → items.length = n)
      {v : Value} (hv : v ∈ items) {m : Option Modifier} (h : entryModifier .expand key v = .ok m) :
      Runs ctx (.value (some .rows) (.map entries)) (.value m v)

/-- The fault is met in the course of the work. -/
def Meets (ctx : Context) (w : Work) (i : Issue) : Prop :=
  ∃ w', Relation.ReflTransGen (Runs ctx) w w' ∧ w'.Fault ctx i

/-- Every expression that is asked for in the course of the work writes itself. -/
def Succeeds (ctx : Context) (w : Work) : Prop :=
  ∀ m e, Relation.ReflTransGen (Runs ctx) w (.value m (.expression e)) → ∃ text, e.render ctx.dialect m = .ok text

variable {ctx : Context} {w w' : Work} {i : Issue}

theorem Meets.cases (h : w.Meets ctx i) : w.Fault ctx i ∨ ∃ w', w.Runs ctx w' ∧ w'.Meets ctx i := by
  obtain ⟨w', hreach, hfault⟩ := h
  rcases hreach.cases_head with rfl | ⟨w'', hrun, hreach⟩
  · exact .inl hfault
  · exact .inr ⟨w'', hrun, w', hreach, hfault⟩

theorem Succeeds.of_runs (h : w.Succeeds ctx) (hrun : w.Runs ctx w') : w'.Succeeds ctx :=
  fun m e hreach => h m e (hreach.head hrun)

end Work

variable {ctx : Context} {i : Issue} {m : Option Modifier}

/-! ## Scalars, fragments and lists -/

theorem meets_scalar {a : Scalar} (h : (Work.value m (.scalar a)).Meets ctx i) : ctx.ScalarFault m a i := by
  rcases h.cases with hfault | ⟨w, hrun, hw⟩
  · cases hfault with
    | value hfault =>
      cases hfault with
      | scalar h => exact h
  · cases hrun with
    | part hp _ => cases hp

theorem not_meets_expression {e : Expression} : ¬(Work.value m (.expression e)).Meets ctx i := by
  intro h
  rcases h.cases with hfault | ⟨w, hrun, hw⟩
  · cases hfault with
    | value hfault => cases hfault
  · cases hrun with
    | part hp _ => cases hp

theorem meets_fragment {ts : List Token} (h : (Work.value m (.fragment ts)).Meets ctx i) :
    (m ∈ [none, some .sql, some .expand] ∧ (Work.pass (.start ts)).Meets ctx i) ∨
      ∃ m', m = some m' ∧ m' ∉ [.sql, .expand] ∧ i = .invalidCombination "fragment" m'.code := by
  rcases h.cases with hfault | ⟨w, hrun, hw⟩
  · cases hfault with
    | value hfault =>
      cases hfault with
      | fragment hm => exact .inr ⟨_, rfl, hm, rfl⟩
  · cases hrun with
    | part hp _ =>
      cases hp with
      | fragment hm => exact .inl ⟨hm, hw⟩

theorem meets_list {items : List Value} (h : (Work.value m (.list items)).Meets ctx i) :
    (m ∈ [some .sql, some .expand] ∧ (Work.pass (.start (items.map Token.ofElement))).Meets ctx i) ∨
      (∃ m', m = some m' ∧ m' ∈ [.assign, .values, .rows] ∧ i = .invalidCombination "list" m'.code) ∨
      (m ∉ [some .sql, some .expand, some .assign, some .values, some .rows] ∧
        ∃ v ∈ items, (Work.value (itemModifier m v) v).Meets ctx i) := by
  rcases h.cases with hfault | ⟨w, hrun, hw⟩
  · cases hfault with
    | value hfault =>
      cases hfault with
      | list hm => exact .inr (.inl ⟨_, rfl, hm, rfl⟩)
  · cases hrun with
    | part hp _ =>
      cases hp with
      | elements hm => exact .inl ⟨hm, hw⟩
      | item hm hv => exact .inr (.inr ⟨hm, _, hv, hw⟩)

/-! ## Mappings -/

/-- The fault is met at the value of an entry, or in the suffix of its key. -/
def EntryMeets (ctx : Context) (listAs : Modifier) (e : String × Value) (i : Issue) : Prop :=
  entryModifier listAs e.1 e.2 = .error i ∨
    ∃ m, entryModifier listAs e.1 e.2 = .ok m ∧ (Work.value m e.2).Meets ctx i

theorem entryModifier_of_suffix {key code : String} (hc : (splitKey key).2 = some code)
    (none : Modifier.ofCode? code = none) (listAs : Modifier) (v : Value) :
    entryModifier listAs key v = .error (.unknownModifier code) := by
  rw [entryModifier, hc]
  simp only [none]

/-- Each mode has one modifier for lists. -/
theorem entryModes_unique {listAs listAs' : Modifier} (h : (m, listAs) ∈ entryModes) (h' : (m, listAs') ∈ entryModes) :
    listAs' = listAs := by
  simp only [entryModes, List.mem_cons, List.not_mem_nil, or_false, Prod.mk.injEq] at h h'
  rcases h with ⟨rfl, rfl⟩ | ⟨rfl, rfl⟩ | ⟨rfl, rfl⟩ | ⟨rfl, rfl⟩ | ⟨rfl, rfl⟩ | ⟨rfl, rfl⟩ | ⟨rfl, rfl⟩ <;>
    simpa using h'

theorem meets_entries {entries : List (String × Value)} {listAs : Modifier} (hm : (m, listAs) ∈ entryModes)
    (h : (Work.value m (.map entries)).Meets ctx i) :
    ∃ e ∈ entries, (m ∈ columnModes ∧ ctx.substitutions.substitute (splitKey e.1).1 = .error i) ∨
      EntryMeets ctx listAs e i := by
  rcases h.cases with hfault | ⟨w, hrun, hw⟩
  · cases hfault with
    | value hfault =>
      cases hfault with
      | suffix _ he hc hnone => exact ⟨_, he, .inr (.inl (entryModifier_of_suffix hc hnone _ _))⟩
      | column hcolumn he hname => exact ⟨_, he, .inl ⟨hcolumn, hname⟩⟩
      | map hmap =>
        simp only [entryModes, List.mem_cons, List.not_mem_nil, or_false, Prod.mk.injEq, Option.some.injEq,
          reduceCtorEq, false_and, false_or] at hm
        rcases hm with ⟨rfl, -⟩ | ⟨rfl, -⟩ | ⟨rfl, -⟩ | ⟨rfl, -⟩ | ⟨rfl, -⟩ | ⟨rfl, -⟩ <;>
          exact absurd (by decide) hmap
      | _ => simp [entryModes] at hm
  · cases hrun with
    | part hp _ =>
      cases hp with
      | entry hm' he hentry =>
        obtain rfl := entryModes_unique hm hm'
        exact ⟨_, he, .inr (.inr ⟨_, hentry, hw⟩)⟩
      | order => simp [entryModes] at hm
      | cell => simp [entryModes] at hm
    | cell => simp [entryModes] at hm

theorem meets_refused {m : Modifier} (hm : m ∉ mapModifiers) {entries : List (String × Value)}
    (h : (Work.value (some m) (.map entries)).Meets ctx i) : i = .invalidCombination "map" m.code := by
  rcases h.cases with hfault | ⟨w, hrun, hw⟩
  · cases hfault with
    | value hfault =>
      cases hfault with
      | map => rfl
      | suffix hm' => revert hm' hm; cases m <;> simp [entryModes, mapModifiers]
      | column hm' => revert hm' hm; cases m <;> simp [columnModes, mapModifiers]
      | _ => exact absurd (by decide) hm
  · cases hrun with
    | part hp _ =>
      cases hp with
      | entry hm' => revert hm' hm; cases m <;> simp [entryModes, mapModifiers]
      | _ => exact absurd (by decide) hm
    | cell => exact absurd (by decide) hm

theorem meets_names {entries : List (String × Value)} (h : (Work.value (some .identifier) (.map entries)).Meets ctx i) :
    ∃ e ∈ entries, ctx.substitutions.substitute e.1 = .error i ∨
      (e.2.IsNameless ∧ i = .invalidCombination e.2.kind Modifier.identifier.code) := by
  rcases h.cases with hfault | ⟨w, hrun, hw⟩
  · cases hfault with
    | value hfault =>
      cases hfault with
      | name he hname => exact ⟨_, he, .inl hname⟩
      | «alias» he hv => exact ⟨_, he, .inr ⟨hv, rfl⟩⟩
      | map hm => exact absurd (by decide) hm
      | suffix hm => simp [entryModes] at hm
      | column hm => simp [columnModes] at hm
  · cases hrun with
    | part hp _ =>
      cases hp with
      | entry hm => simp [entryModes] at hm

theorem meets_order {entries : List (String × Value)} (h : (Work.value (some .orderBy) (.map entries)).Meets ctx i) :
    ∃ e ∈ entries, (e.2.isList = true ∧ (Work.value (some .expand) e.2).Meets ctx i) ∨
      (e.2.isList = false ∧ ctx.substitutions.substitute e.1 = .error i) := by
  rcases h.cases with hfault | ⟨w, hrun, hw⟩
  · cases hfault with
    | value hfault =>
      cases hfault with
      | order he hv hname => exact ⟨_, he, .inr ⟨hv, hname⟩⟩
      | map hm => exact absurd (by decide) hm
      | suffix hm => simp [entryModes] at hm
      | column hm => simp [columnModes] at hm
  · cases hrun with
    | part hp _ =>
      cases hp with
      | order he hv => exact ⟨_, he, .inl ⟨hv, hw⟩⟩
      | entry hm => simp [entryModes] at hm

/-- The fault is met in a column that should have this height. -/
inductive ColumnMeets (ctx : Context) (height : Option Nat) : String × Value → Issue → Prop
  | name {e : String × Value} {i : Issue} (h : ctx.substitutions.substitute (splitKey e.1).1 = .error i) :
      ColumnMeets ctx height e i
  | cell {key : String} {items : List Value} (fits : ∀ n, height = some n → items.length = n) {v : Value}
      (hv : v ∈ items) {i : Issue} (h : EntryMeets ctx .expand (key, v) i) : ColumnMeets ctx height (key, .list items) i
  | noRows {e : String × Value} (hv : e.2.isList = false) :
      ColumnMeets ctx height e (.invalidCombination e.2.kind Modifier.rows.code)
  | unequalRows {key : String} {items : List Value} {n : Nat} (hn : height = some n) (h : items.length ≠ n) :
      ColumnMeets ctx height (key, .list items) (.unequalRows (splitKey key).1)

theorem meets_rows {entries : List (String × Value)} (h : (Work.value (some .rows) (.map entries)).Meets ctx i) :
    (∃ height e, Reached none entries height e ∧ ColumnMeets ctx height e i) ∨ Rowless entries i := by
  rcases h.cases with hfault | ⟨w, hrun, hw⟩
  · cases hfault with
    | value hfault =>
      cases hfault with
      | rowsColumn he hname => exact .inl ⟨_, _, he, .name hname⟩
      | rowsSuffix he fits rows hc hnone =>
        obtain ⟨v, vs, rfl⟩ := List.exists_cons_of_ne_nil rows
        exact .inl ⟨_, _, he, .cell fits List.mem_cons_self (.inl (entryModifier_of_suffix hc hnone _ _))⟩
      | noRows he hv => exact .inl ⟨_, _, he, .noRows hv⟩
      | unequalRows he hne => exact .inl ⟨_, _, he, .unequalRows rfl hne⟩
      | rowless h => exact .inr h
      | map hm => exact absurd (by decide) hm
      | suffix hm => simp [entryModes] at hm
      | column hm => simp [columnModes] at hm
  · cases hrun with
    | part _ hrows => cases hrows
    | cell he fits hv hentry => exact .inl ⟨_, _, he, .cell fits hv (.inr ⟨_, hentry, hw⟩)⟩

/-! ## Passes -/

theorem eq_of_sameBut_false {q q' : List Token} (h : SameBut (fun _ _ => False) q q') : q = q' := by
  induction h with
  | nil => rfl
  | same t _ ih => rw [ih]
  | value p => exact p.elim

/-- The step, but for the output of the state that it leaves. -/
def Next.withOut (out : Output) : Next → Next
  | .finished => .finished
  | .moved found s => .moved found { s with out := out }
  | .lexeme l s => .lexeme l { s with out := out }
  | .value v m s => .value v m { s with out := out }

/-- No step looks at the output. -/
theorem Pass.next_withOut (s : Pass) (out : Output) (placeholders : Bool) :
    ∃ out', Pass.next placeholders { s with out := out } = (s.next placeholders).withOut out' := by
  have hparallel : Parallel (fun _ _ => True) (fun _ _ => False) s { s with out := out } :=
    ⟨.refl _ _, rfl, trivial, rfl, rfl, rfl, rfl⟩
  have hcongruence : Output.Congruence fun _ _ => True := ⟨fun _ _ => trivial, fun _ => trivial⟩
  have hstate {t u : Pass} (h : Parallel (fun _ _ => True) (fun _ _ => False) t u) : u = { t with out := u.out } := by
    obtain ⟨q, ls, o, b, bounds, inserting, r⟩ := u
    obtain ⟨hq, rfl, -, rfl, rfl, rfl, rfl⟩ := h
    rw [eq_of_sameBut_false hq]
  rcases hparallel.next hcongruence nofun placeholders with ⟨hs, hs'⟩ | hrelated
  · exact ⟨out, by rw [hs, hs']; rfl⟩
  · generalize s.next placeholders = x at hrelated
    generalize Pass.next placeholders { s with out := out } = y at hrelated
    cases hrelated with
    | @moved found t u h => exact ⟨u.out, by rw [hstate h]; rfl⟩
    | @lexeme l t u h => exact ⟨u.out, by rw [hstate h]; rfl⟩
    | @value v m t u h => exact ⟨u.out, by rw [hstate h]; rfl⟩

variable {s : Pass}

theorem Pass.AtMarker.withOut {code : String} {inText : Bool} {behind : List Lexeme} {q : List Token}
    (h : s.AtMarker code inText behind q) (out : Output) :
    Pass.AtMarker { s with out := out } code inText behind q := by
  cases h with
  | text lexemes => exact .text (s := { s with out := out }) lexemes
  | token lexemes queue => exact .token lexemes queue

theorem Pass.Fault.withOut (h : s.Fault i) (out : Output) : Pass.Fault { s with out := out } i := by
  cases h with
  | exhausted marker known takes => exact .exhausted (marker.withOut out) known takes
  | unfilled lexemes queue => exact .unfilled lexemes queue
  | unknown marker none shown => exact .unknown (marker.withOut out) none shown
  | unopened hk marker fed blocks => exact .unopened hk (marker.withOut out) fed blocks
  | misplaced hk marker => exact .misplaced hk (marker.withOut out)
  | uncounted hk marker none shown => exact .uncounted hk (marker.withOut out) none shown

theorem Pass.Step.withOut {placeholders : Bool} {u : Pass} (h : s.Step placeholders u) (out : Output) :
    Pass.Step placeholders { s with out := out } u := by
  obtain ⟨t, ht, o, rfl⟩ := h
  obtain ⟨out', hnext⟩ := s.next_withOut out placeholders
  refine ⟨{ t with out := out' }, ?_, o, rfl⟩
  rw [hnext]
  cases hs : s.next placeholders with
  | finished =>
    rw [hs] at ht
    cases ht
  | _ =>
    rw [hs] at ht
    cases ht
    rfl

theorem Work.Fault.withOut (h : Work.Fault ctx (.pass s) i) (out : Output) :
    Work.Fault ctx (.pass { s with out := out }) i := by
  cases h with
  | stream h => exact .stream (h.withOut out)
  | lexeme hn h =>
    obtain ⟨out', hnext⟩ := s.next_withOut out ctx.placeholders
    rw [hn] at hnext
    exact .lexeme hnext h

theorem Work.Runs.withOut {w : Work} (h : Work.Runs ctx (.pass s) w) (out : Output) :
    Work.Runs ctx (.pass { s with out := out }) w := by
  cases h with
  | part hp _ =>
    refine .part ?_ rfl
    cases hp with
    | step hstep => exact .step (hstep.withOut out)
    | asked hn =>
      obtain ⟨out', hnext⟩ := s.next_withOut out ctx.placeholders
      rw [hn] at hnext
      exact .asked hnext

/-- What is met does not depend on the output. -/
theorem Work.Meets.withOut (h : (Work.pass s).Meets ctx i) (out : Output) :
    (Work.pass { s with out := out }).Meets ctx i := by
  rcases h.cases with hfault | ⟨w, hrun, w', hreach, hfault⟩
  · exact ⟨_, .refl, hfault.withOut out⟩
  · exact ⟨w', hreach.head (hrun.withOut out), hfault⟩

/-- The fault is met at the step, or behind it whatever is written there. -/
def Next.Meets (ctx : Context) (i : Issue) : Next → Prop
  | .finished => False
  | .moved found t => i ∈ found ∨ (Work.pass t).Meets ctx i
  | .lexeme l t => ctx.LexemeFault l i ∨ ∀ text, (Work.pass (t.write text)).Meets ctx i
  | .value v m t => (Work.value m v).Meets ctx i ∨ ∀ text, (Work.pass (t.write text)).Meets ctx i

theorem meets_pass (h : (Work.pass s).Meets ctx i) : (s.next ctx.placeholders).Meets ctx i := by
  rcases h.cases with hfault | ⟨w, hrun, hw⟩
  · cases hfault with
    | stream hfault =>
      obtain ⟨t, ht⟩ := hfault.next ctx.placeholders
      rw [ht]
      exact .inl (List.mem_singleton_self i)
    | lexeme hn hfault =>
      rw [hn]
      exact .inl hfault
  · cases hrun with
    | part hp _ =>
      cases hp with
      | step hstep =>
        obtain ⟨t, ht, out, rfl⟩ := hstep
        cases hs : s.next ctx.placeholders with
        | finished =>
          rw [hs] at ht
          cases ht
        | moved found u =>
          rw [hs] at ht
          cases ht
          exact .inr (Work.Meets.withOut hw t.out)
        | lexeme l u | value v m u =>
          rw [hs] at ht
          cases ht
          exact .inr fun text => Work.Meets.withOut hw (t.write text).out
      | asked hn =>
        rw [hn]
        exact .inl hw

end SqlComposer
