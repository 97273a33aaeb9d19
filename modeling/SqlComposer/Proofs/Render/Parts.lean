import SqlComposer.Compose
import SqlComposer.Proofs.Render.Keeps

/-!
# Parts of lists and mappings

* `Context.entryText`, `Context.entryCell`, `Context.orderText` : one entry of a mapping;
* `renderItems_eq_mapM`, `renderValues_eq_mapM`, `renderCells_eq_mapM`, `renderOrder_eq_mapM` : lists and mappings are
  written part by part;
* `WellShaped` : columns with rows; `wellShaped_renderColumns` : what is written of a mapping has this shape.
-/

namespace SqlComposer

/-! ## Part by part -/

namespace Context

/-- The value of an entry, by the suffix of its key. -/
def entryText (ctx : Context) (listAs : Modifier) (e : String × Value) : Render String :=
  match entryModifier listAs e.1 e.2 with
  | .error i => .note i
  | .ok m => render ctx m e.2

/-- The column and the value of an entry. -/
def entryCell (ctx : Context) (listAs : Modifier) (e : String × Value) : Render (String × String) := do
  let column ← ctx.identifier (splitKey e.1).1
  let text ← ctx.entryText listAs e
  pure (column, text)

/-- A column with its direction, or the columns of a list. -/
def orderText (ctx : Context) (e : String × Value) : Render String :=
  if e.2.isList then render ctx (some .expand) e.2
  else do
    let column ← ctx.identifier e.1
    pure (column ++ " " ++ direction e.2)

end Context

theorem renderItems_eq_mapM (ctx : Context) (m : Option Modifier) (items : List Value) :
    renderItems ctx m items = items.mapM fun v => render ctx (itemModifier m v) v := by
  induction items with
  | nil => rw [renderItems, List.mapM_nil]
  | cons v vs ih => rw [renderItems, ih, List.mapM_cons]

theorem renderValues_eq_mapM (ctx : Context) (entries : List (String × Value)) :
    renderValues ctx entries = entries.mapM (ctx.entryText .expand) := by
  induction entries with
  | nil => rw [renderValues, List.mapM_nil]
  | cons e es ih =>
    rw [renderValues, ih, List.mapM_cons, Context.entryText]
    cases entryModifier .expand e.1 e.2 <;> rfl

theorem renderCells_eq_mapM (ctx : Context) (listAs : Modifier) (entries : List (String × Value)) :
    renderCells ctx listAs entries = entries.mapM (ctx.entryCell listAs) := by
  induction entries with
  | nil => rw [renderCells, List.mapM_nil]
  | cons e es ih =>
    rw [renderCells, ih, List.mapM_cons, Context.entryCell, Context.entryText]
    simp only [bind_assoc, pure_bind]
    cases entryModifier listAs e.1 e.2 <;> rfl

theorem renderOrder_eq_mapM (ctx : Context) (entries : List (String × Value)) :
    renderOrder ctx entries = entries.mapM ctx.orderText := by
  induction entries with
  | nil => rw [renderOrder, List.mapM_nil]
  | cons e es ih =>
    rw [renderOrder, ih, List.mapM_cons, Context.orderText]
    cases e.2.isList with
    | true => rfl
    | false => simp

/-! ## Sizes -/

section Sizes

variable {entries : List (String × Value)} {items : List Value}

theorem nodes_le_of_mem {v : Value} (h : v ∈ items) : v.nodes ≤ itemNodes items := by
  induction items with
  | nil => cases h
  | cons w ws ih =>
    rw [itemNodes]
    rcases List.mem_cons.1 h with rfl | h
    · omega
    · have := ih h
      omega

theorem nodes_le_of_mem_entries {e : String × Value} (h : e ∈ entries) : e.2.nodes ≤ entryNodes entries := by
  induction entries with
  | nil => cases h
  | cons d ds ih =>
    rw [entryNodes]
    rcases List.mem_cons.1 h with rfl | h
    · omega
    · have := ih h
      omega

end Sizes

/-! ## Columns with rows -/

/-- Columns with as many rows as the first, and as the height asks for, or a mark. -/
def WellShaped (height : Option Nat) : Except String (List (String × List String)) → Prop
  | .error mark => ∃ j : Issue, mark = j.mark
  | .ok columns => ∃ n, (∀ h, height = some h → n = h) ∧ ∀ c ∈ columns, c.2.length = n

theorem length_of_renderValues {ctx : Context} {entries : List (String × Value)} {texts : List String} {issues : List Issue} {n : Nat}
    (h : renderValues ctx entries = .done texts issues n) : texts.length = entries.length := by
  rw [renderValues_eq_mapM] at h
  exact Render.length_of_mapM h

theorem wellShaped_renderColumns {ctx : Context} {entries : List (String × Value)} {height : Option Nat}
    {columns : Except String (List (String × List String))} {issues : List Issue} {n : Nat}
    (h : renderColumns ctx height entries = .done columns issues n) : WellShaped height columns := by
  induction entries generalizing height columns issues n with
  | nil =>
    rw [renderColumns] at h
    cases h
    refine ⟨height.getD 0, ?_, ?_⟩
    · rintro k rfl
      rfl
    · intro c hc
      cases hc
  | cons e es ih =>
    obtain ⟨key, v⟩ := e
    rw [renderColumns] at h
    obtain ⟨column, _, _, _, _, -, hlist, -, -⟩ := Render.exists_of_bind h
    split at hlist
    · next items =>
      split at hlist
      · cases hlist
        exact ⟨_, rfl⟩
      · next hheight =>
        obtain ⟨texts, _, _, _, _, htexts, htail, -, -⟩ := Render.exists_of_bind hlist
        obtain ⟨rest, _, _, _, _, hrest, hcons, -, -⟩ := Render.exists_of_bind htail
        have hlength : texts.length = items.length := by
          rw [length_of_renderValues htexts, List.length_map]
        cases hcons
        have hshape := ih hrest
        cases rest with
        | error mark => exact hshape
        | ok rest =>
          obtain ⟨k, hk, hall⟩ := hshape
          obtain rfl : k = items.length := hk _ rfl
          refine ⟨items.length, ?_, ?_⟩
          · rintro k rfl
            simp only [Option.any_some, bne_iff_ne, ne_eq, Decidable.not_not] at hheight
            exact hheight.symm
          · intro c hc
            rcases List.mem_cons.1 hc with rfl | hc
            · exact hlength
            · exact hall c hc
    · cases hlist
      exact ⟨_, rfl⟩

end SqlComposer
