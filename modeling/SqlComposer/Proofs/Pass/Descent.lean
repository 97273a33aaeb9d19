import SqlComposer.Proofs.Pass.Consumed
import SqlComposer.Proofs.Pass.Shown

/-!
# Composing comes to an end

* `Work.result` : what a pass or a value comes to; `Context.assemble` : the same from the results of its parts;
* `Work.Part.nodes_lt`, `wellFounded_part` : the parts of a value are smaller than the value, and no work has parts of parts
  without end;
* `assemble_congr` : nothing but the parts is asked for; `result_eq_assemble`, `eq_result` : so exactly one function
  assembles its results from those of the parts;
* `composing_ends` : the steps of a pass use up the stream, and values and passes inside each other get smaller.
-/

namespace SqlComposer

/-- What a pass or a value comes to. -/
def Work.result (ctx : Context) : Work → Render String
  | .pass s => run ctx s
  | .value m v => render ctx m v

/-! ## The parts put together -/

namespace Context

variable (ctx : Context) (results : Work → Render String)

/-- The value of an entry, by the suffix of its key. -/
def assembleEntry (listAs : Modifier) (e : String × Value) : Render String :=
  match entryModifier listAs e.1 e.2 with
  | .error i => .note i
  | .ok m => results (.value m e.2)

/-- The column and the value of an entry. -/
def assembleCell (listAs : Modifier) (e : String × Value) : Render (String × String) := do
  let column ← ctx.identifier (splitKey e.1).1
  let text ← assembleEntry results listAs e
  pure (column, text)

/-- A column with its direction, or the columns of a list. -/
def assembleOrder (e : String × Value) : Render String :=
  if e.2.isList then results (.value (some .expand) e.2)
  else do
    let column ← ctx.identifier e.1
    pure (column ++ " " ++ direction e.2)

/-- Columns, each with a list of values, all lists as long as the first. -/
def assembleColumns (height : Option Nat) : List (String × Value) → Render (Except String (List (String × List String)))
  | [] => pure (.ok [])
  | (key, v) :: es => do
    let column ← ctx.identifier (splitKey key).1
    match v with
    | .list items =>
      if height.any (· != items.length) then .error <$> .note (.unequalRows (splitKey key).1)
      else do
        let texts ← (items.map (Prod.mk key)).mapM (assembleEntry results .expand)
        let columns ← assembleColumns (some items.length) es
        pure (columns.map ((column, texts) :: ·))
    | v => .error <$> mismatch v.kind .rows

/-- A stream of its own under a modifier. -/
def assembleFragment (m : Option Modifier) (ts : List Token) : Render String :=
  match m with
  | none | some .sql | some .expand => results (.pass (.start ts))
  | some m => mismatch "fragment" m

/-- A list under a modifier. -/
def assembleList (m : Option Modifier) (items : List Value) : Render String :=
  match m with
  | some .sql | some .expand => results (.pass (.start (items.map Token.ofElement)))
  | some .assign => mismatch "list" .assign
  | some .values => mismatch "list" .values
  | some .rows => mismatch "list" .rows
  | m => closeItems m <$> items.mapM fun v => results (.value (itemModifier m v) v)

/-- A mapping under a modifier. -/
def assembleMap (m : Option Modifier) (entries : List (String × Value)) : Render String :=
  match m with
  | none | some .assign => do
    let cells ← entries.mapM (ctx.assembleCell results .expand)
    pure (commaList (cells.map assignment))
  | some .values => valuesClause <$> entries.mapM (ctx.assembleCell results .expand)
  | some .list => tupleFor .list <$> entries.mapM (assembleEntry results .expand)
  | some .inList => tupleFor .inList <$> entries.mapM (assembleEntry results .expand)
  | some .allOf => do
    let cells ← entries.mapM (ctx.assembleCell results .inList)
    pure (conditions "AND" (entries.zipWith comparison cells))
  | some .anyOf => do
    let cells ← entries.mapM (ctx.assembleCell results .inList)
    pure (conditions "OR" (entries.zipWith comparison cells))
  | some .identifier => commaList <$> entries.mapM ctx.alias
  | some .orderBy => commaList <$> entries.mapM (ctx.assembleOrder results)
  | some .rows => do
    let columns ← ctx.assembleColumns results none entries
    closeColumns columns
  | some m => mismatch "map" m

/-- What a pass or a value comes to, if the results of its parts are given. The recursion of the program is left open here. -/
def assemble : Work → Render String
  | .pass s =>
    match s.next ctx.placeholders with
    | .finished => s.finish ctx
    | .moved found t => (results (.pass t)).after found 0
    | .lexeme l t => do
      let text ← ctx.lexeme l
      results (.pass (t.write text))
    | .value v m t => do
      let text ← results (.value m v)
      results (.pass (t.write text))
  | .value m (.scalar a) => ctx.scalar m a
  | .value m (.expression e) => .ofDialect (e.render ctx.dialect m)
  | .value m (.fragment ts) => assembleFragment results m ts
  | .value m (.list items) => assembleList results m items
  | .value m (.map entries) => ctx.assembleMap results m entries

end Context

/-! ## The program assembles its results -/

variable {ctx : Context}

theorem renderColumns_eq_assemble (height : Option Nat) (entries : List (String × Value)) :
    renderColumns ctx height entries = ctx.assembleColumns (Work.result ctx) height entries := by
  induction entries generalizing height with
  | nil => rw [renderColumns, Context.assembleColumns]
  | cons e es ih =>
    obtain ⟨key, v⟩ := e
    rw [renderColumns, Context.assembleColumns]
    cases v with
    | list items =>
      simp only [renderValues_eq_mapM, ih]
      rfl
    | _ => rfl

theorem renderFragment_eq_assemble (m : Option Modifier) (ts : List Token) :
    render ctx m (.fragment ts) = Context.assembleFragment (Work.result ctx) m ts := by
  unfold Context.assembleFragment
  split <;> rw [render] <;> first | rfl | assumption

theorem renderList_eq_assemble (m : Option Modifier) (items : List Value) :
    render ctx m (.list items) = Context.assembleList (Work.result ctx) m items := by
  have hitems : renderItems ctx m items = items.mapM fun v => Work.result ctx (.value (itemModifier m v) v) :=
    renderItems_eq_mapM ctx m items
  unfold Context.assembleList
  split <;> rw [render] <;> first | rfl | assumption | rw [hitems]

theorem renderMap_eq_assemble (m : Option Modifier) (entries : List (String × Value)) :
    render ctx m (.map entries) = ctx.assembleMap (Work.result ctx) m entries := by
  have hcells (listAs : Modifier) :
      renderCells ctx listAs entries = entries.mapM (ctx.assembleCell (Work.result ctx) listAs) :=
    renderCells_eq_mapM ctx listAs entries
  have hvalues : renderValues ctx entries = entries.mapM (Context.assembleEntry (Work.result ctx) .expand) :=
    renderValues_eq_mapM ctx entries
  have horder : renderOrder ctx entries = entries.mapM (ctx.assembleOrder (Work.result ctx)) :=
    renderOrder_eq_mapM ctx entries
  have hcolumns : renderColumns ctx none entries = ctx.assembleColumns (Work.result ctx) none entries :=
    renderColumns_eq_assemble none entries
  unfold Context.assembleMap
  split <;> rw [render] <;> first | assumption | rw [hcells] | rw [hvalues] | rw [horder] | rw [hcolumns]

/-- The program puts the results of the parts together. -/
theorem result_eq_assemble (w : Work) : w.result ctx = ctx.assemble (Work.result ctx) w := by
  cases w with
  | pass s =>
    rw [Work.result, Context.assemble]
    cases hn : s.next ctx.placeholders with
    | finished => exact run_finished hn
    | moved found t => exact run_moved hn
    | lexeme l t => exact run_lexeme hn
    | value v m t => exact run_value hn
  | value m v =>
    rw [Work.result]
    cases v with
    | scalar a =>
      rw [render]
      rfl
    | expression e =>
      rw [render]
      rfl
    | fragment ts => exact renderFragment_eq_assemble m ts
    | list items => exact renderList_eq_assemble m items
    | map entries => exact renderMap_eq_assemble m entries

/-! ## Only the parts are asked for -/

section Congruence

variable {f g : Work → Render String}

theorem mapM_congr {α β : Type} {F G : α → Render β} {xs : List α} (h : ∀ x ∈ xs, F x = G x) : xs.mapM F = xs.mapM G := by
  induction xs with
  | nil => rfl
  | cons x xs ih =>
    rw [List.mapM_cons, List.mapM_cons, h x List.mem_cons_self, ih fun y hy => h y (List.mem_cons_of_mem x hy)]

theorem assembleEntry_congr {listAs : Modifier} {e : String × Value}
    (h : ∀ m, entryModifier listAs e.1 e.2 = .ok m → f (.value m e.2) = g (.value m e.2)) :
    Context.assembleEntry f listAs e = Context.assembleEntry g listAs e := by
  unfold Context.assembleEntry
  split
  · rfl
  · next m hm => exact h m hm

theorem assembleColumns_congr {height : Option Nat} {entries : List (String × Value)}
    (h : ∀ key items, (key, Value.list items) ∈ entries → ∀ v ∈ items, ∀ m, entryModifier .expand key v = .ok m →
      f (.value m v) = g (.value m v)) :
    ctx.assembleColumns f height entries = ctx.assembleColumns g height entries := by
  induction entries generalizing height with
  | nil => rfl
  | cons e es ih =>
    obtain ⟨key, v⟩ := e
    have hrest (height : Option Nat) := @ih height fun key items he => h key items (List.mem_cons_of_mem _ he)
    rw [Context.assembleColumns, Context.assembleColumns]
    cases v with
    | list items =>
      have hvalues : (items.map (Prod.mk key)).mapM (Context.assembleEntry f .expand) =
          (items.map (Prod.mk key)).mapM (Context.assembleEntry g .expand) := by
        apply mapM_congr
        intro e he
        obtain ⟨v, hv, rfl⟩ := List.mem_map.1 he
        exact assembleEntry_congr (h key items List.mem_cons_self v hv)
      simp only [hvalues, hrest]
    | _ => rfl

theorem assembleMap_congr {m : Option Modifier} {entries : List (String × Value)}
    (h : ∀ w, (Work.value m (.map entries)).Part ctx w → f w = g w) :
    ctx.assembleMap f m entries = ctx.assembleMap g m entries := by
  have hentry {listAs : Modifier} (hm : (m, listAs) ∈ entryModes) (e : String × Value) (he : e ∈ entries) :
      Context.assembleEntry f listAs e = Context.assembleEntry g listAs e :=
    assembleEntry_congr fun m' hm' => h _ (.entry hm he hm')
  have hcells (listAs : Modifier) (hm : (m, listAs) ∈ entryModes) :
      entries.mapM (ctx.assembleCell f listAs) = entries.mapM (ctx.assembleCell g listAs) := by
    apply mapM_congr
    intro e he
    rw [Context.assembleCell, Context.assembleCell, hentry hm e he]
  have hvalues (hm : (m, .expand) ∈ entryModes) :
      entries.mapM (Context.assembleEntry f .expand) = entries.mapM (Context.assembleEntry g .expand) :=
    mapM_congr (hentry hm)
  cases m with
  | none => simp only [Context.assembleMap, hcells .expand (by simp [entryModes])]
  | some m =>
    cases m with
    | assign => simp only [Context.assembleMap, hcells .expand (by simp [entryModes])]
    | values => simp only [Context.assembleMap, hcells .expand (by simp [entryModes])]
    | list => simp only [Context.assembleMap, hvalues (by simp [entryModes])]
    | inList => simp only [Context.assembleMap, hvalues (by simp [entryModes])]
    | allOf => simp only [Context.assembleMap, hcells .inList (by simp [entryModes])]
    | anyOf => simp only [Context.assembleMap, hcells .inList (by simp [entryModes])]
    | orderBy =>
      have horder : entries.mapM (ctx.assembleOrder f) = entries.mapM (ctx.assembleOrder g) := by
        apply mapM_congr
        intro e he
        unfold Context.assembleOrder
        split
        · next hv => exact h _ (.order he hv)
        · rfl
      simp only [Context.assembleMap, horder]
    | rows =>
      have hcolumns : ctx.assembleColumns f none entries = ctx.assembleColumns g none entries :=
        assembleColumns_congr fun key items he v hv m hm => h _ (.cell he hv hm)
      simp only [Context.assembleMap, hcolumns]
    | _ => rfl

/-- Nothing but the parts is asked for. -/
theorem assemble_congr {w : Work} (h : ∀ w', w.Part ctx w' → f w' = g w') : ctx.assemble f w = ctx.assemble g w := by
  cases w with
  | pass s =>
    have hstep (t : Pass) (ht : (s.next ctx.placeholders).state? = some t) (text : String) :
        f (.pass (t.write text)) = g (.pass (t.write text)) := h _ (.step ⟨t, ht, _, rfl⟩)
    rw [Context.assemble, Context.assemble]
    cases hn : s.next ctx.placeholders with
    | finished => rfl
    | moved found t =>
      have hmoved := hstep t (by rw [hn]; rfl) ""
      rw [Pass.write_empty] at hmoved
      simp only [hmoved]
    | lexeme l t => exact bind_congr fun text => hstep t (by rw [hn]; rfl) text
    | value v m t =>
      simp only [h _ (.asked hn)]
      exact bind_congr fun text => hstep t (by rw [hn]; rfl) text
  | value m v =>
    cases v with
    | scalar a => rfl
    | expression e => rfl
    | fragment ts =>
      show Context.assembleFragment f m ts = Context.assembleFragment g m ts
      unfold Context.assembleFragment
      split
      · exact h _ (.fragment (by simp) ts)
      · exact h _ (.fragment (by simp) ts)
      · exact h _ (.fragment (by simp) ts)
      · rfl
    | list items =>
      show Context.assembleList f m items = Context.assembleList g m items
      unfold Context.assembleList
      split
      · exact h _ (.elements (by simp) items)
      · exact h _ (.elements (by simp) items)
      · rfl
      · rfl
      · rfl
      · next hsql hexpand hassign hvalues hrows =>
        have hm : m ∉ [some .sql, some .expand, some .assign, some .values, some .rows] := by
          simp only [List.mem_cons, List.not_mem_nil, or_false, not_or]
          exact ⟨hsql, hexpand, hassign, hvalues, hrows⟩
        exact congrArg (closeItems m <$> ·) (mapM_congr fun v hv => h _ (.item hm hv))
    | map entries => exact assembleMap_congr h

end Congruence

/-! ## The parts are smaller -/

/-- The size of the tokens to come in a pass, or of a value. -/
def Work.nodes : Work → Nat
  | .pass s => s.nodes
  | .value _ v => v.nodes

namespace Work.Part

variable {w w' : Work} {m : Option Modifier} {v : Value}

theorem nodes_lt (h : (Work.value m v).Part ctx w) : w.nodes < v.nodes := by
  cases h with
  | fragment _ ts =>
    show tokenNodes ts < _
    rw [Value.nodes]
    omega
  | elements _ items =>
    show tokenNodes (items.map Token.ofElement) < _
    rw [tokenNodes_map_ofElement, Value.nodes]
    omega
  | item _ hv =>
    have hle := nodes_le_of_mem hv
    rw [Work.nodes, Value.nodes]
    omega
  | entry _ he _ =>
    have hle := nodes_le_of_mem_entries he
    rw [Work.nodes, Value.nodes]
    omega
  | order he _ =>
    have hle := nodes_le_of_mem_entries he
    rw [Work.nodes, Value.nodes]
    omega
  | cell he hv _ =>
    have hcolumn := nodes_le_of_mem_entries he
    have hle := nodes_le_of_mem hv
    rw [Value.nodes] at hcolumn
    rw [Work.nodes, Value.nodes]
    omega

theorem nodes_le (h : w.Part ctx w') : w'.nodes ≤ w.nodes := by
  cases w with
  | pass s =>
    cases h with
    | step hstep =>
      obtain ⟨t, ht, out, rfl⟩ := hstep
      have hle := Pass.progress ht
      show t.nodes ≤ s.nodes
      omega
    | asked hn =>
      have hwithin := s.within_next ctx.placeholders
      rw [hn, Pass.Within] at hwithin
      exact Nat.le_of_add_right_le hwithin
  | value m v => exact Nat.le_of_lt h.nodes_lt

end Work.Part

/-- A value inside a value, be it in a stream of its own, is smaller. -/
theorem nodes_of_trans_part {m m' : Option Modifier} {v v' : Value}
    (h : Relation.TransGen (Work.Part ctx) (.value m v) (.value m' v')) : v'.nodes < v.nodes := by
  obtain ⟨w, hpart, hreach⟩ := Relation.TransGen.head'_iff.1 h
  have hle : (Work.value m' v').nodes ≤ w.nodes := by
    generalize Work.value m' v' = w' at hreach
    induction hreach with
    | refl => exact Nat.le_refl _
    | tail _ hpart ih => exact Nat.le_trans hpart.nodes_le ih
  exact Nat.lt_of_le_of_lt hle hpart.nodes_lt

/-- The sizes that get smaller from a work to its parts: that of the tokens or the value, and where it stays the same, a
value comes behind a pass and a pass has less lexemes to come. -/
def Work.rank : Work → Nat × Nat × Nat
  | .pass s => (s.nodes, 1, s.lexemes.length)
  | .value _ v => (v.nodes, 0, 0)

theorem Work.Part.rank_lt {w w' : Work} (h : w.Part ctx w') : Prod.Lex (· < ·) (Prod.Lex (· < ·) (· < ·)) w'.rank w.rank := by
  cases w with
  | pass s =>
    cases h with
    | step hstep =>
      obtain ⟨t, ht, out, rfl⟩ := hstep
      show Prod.Lex _ _ (t.nodes, 1, t.lexemes.length) (s.nodes, 1, s.lexemes.length)
      rcases Pass.progress ht with hlt | ⟨heq, hlt⟩
      · exact .left _ _ hlt
      · rw [heq]
        exact .right _ (.right _ hlt)
    | @asked _ t m v hn =>
      have hle : v.nodes ≤ s.nodes := (Work.Part.asked hn).nodes_le
      show Prod.Lex _ _ (v.nodes, 0, 0) (s.nodes, 1, s.lexemes.length)
      rcases Nat.lt_or_eq_of_le hle with hlt | heq
      · exact .left _ _ hlt
      · rw [heq]
        exact .right _ (.left _ _ Nat.one_pos)
  | value m v =>
    have hlt := h.nodes_lt
    cases w' with
    | pass t => exact .left _ _ hlt
    | value m' v' => exact .left _ _ hlt

/-- No work has parts of parts without end. -/
theorem wellFounded_part (ctx : Context) : WellFounded fun w' w => Work.Part ctx w w' :=
  Subrelation.wf Work.Part.rank_lt (InvImage.wf Work.rank (Prod.lex Nat.lt_wfRel (Prod.lex Nat.lt_wfRel Nat.lt_wfRel)).wf)

/-- There is one way only to put results together from those of the parts. -/
theorem eq_result {f : Work → Render String} (h : ∀ w, f w = ctx.assemble f w) : f = Work.result ctx := by
  funext w
  induction w using (wellFounded_part ctx).induction with
  | _ w ih => rw [h, result_eq_assemble, assemble_congr ih]

/-! ## The whole -/

/-- Composing ends on every stream. -/
structure Context.Ends (ctx : Context) : Prop where
  /-- A step takes its tokens from the front of the stream. What it puts back in their place is smaller than they are. -/
  takes : ∀ s : Pass, (s.next ctx.placeholders).TakesFrom s.queue s.taken
  /-- It uses up a node for each token that it takes. If it uses up none, it uses up a lexeme. -/
  step : ∀ s u : Pass, (s.next ctx.placeholders).state? = some u →
    u.nodes + s.taken ≤ s.nodes ∧ (u.nodes < s.nodes ∨ u.nodes = s.nodes ∧ u.lexemes.length < s.lexemes.length)
  /-- From one token of the stream to the next, less is to come. -/
  token : ∀ s u : Pass, s.lexemes = [] → Relation.TransGen (Pass.Step ctx.placeholders) s u → u.nodes < s.nodes
  /-- The value that a step asks for was part of what was to come, and is no more. -/
  asked : ∀ (s u : Pass) (v : Value) (m : Option Modifier), s.next ctx.placeholders = .value v m u →
    v.nodes + u.nodes ≤ s.nodes
  /-- A value that is written in the course of another is smaller. -/
  value : ∀ (m m' : Option Modifier) (v v' : Value),
    Relation.TransGen (Work.Part ctx) (.value m v) (.value m' v') → v'.nodes < v.nodes
  /-- Passes and values inside each other come to an end. -/
  parts : WellFounded fun w' w => Work.Part ctx w w'
  /-- The recursion determines the results of all passes and values. -/
  unique : ∀ f : Work → Render String, (∀ w, f w = ctx.assemble f w) ↔ f = Work.result ctx

theorem composing_ends (ctx : Context) : ctx.Ends where
  takes s := s.takes_next ctx.placeholders
  step s u h := ⟨Pass.nodes_next h, Pass.progress h⟩
  token s u hl h := Pass.nodes_of_trans hl h
  asked s u v m h := by
    have hwithin := s.within_next ctx.placeholders
    rwa [h, Pass.Within] at hwithin
  value m m' v v' h := nodes_of_trans_part h
  parts := wellFounded_part ctx
  unique f := by
    constructor
    · exact eq_result
    · rintro rfl w
      exact result_eq_assemble w

end SqlComposer
