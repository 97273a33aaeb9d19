import SqlComposer.Proofs.Pass.Hereditary

/-!
# Every stream gives a statement

* `notes_run`, `notesBelow` : passes and values have a text, and every fault that they meet is noted;
* `compose_total` : a stream always gives a statement, and every fault that is met is an issue of it.
-/

namespace SqlComposer

open Render (Notes nothing)

variable {ctx : Context} {n : Nat}

/-! ## Parts of lists and mappings -/

/-- Values of fewer nodes have a text, and the faults that they meet are noted. -/
def NotesBelow (ctx : Context) (n : Nat) : Prop :=
  ∀ (m : Option Modifier) (v : Value), v.nodes < n → (Work.value m v).Succeeds ctx →
    (render ctx m v).Notes ((Work.value m v).Meets ctx)

section Parts

variable {entries : List (String × Value)} {items : List Value}

theorem notes_renderItems (h : NotesBelow ctx n) (m : Option Modifier) (hn : itemNodes items < n)
    (hs : ∀ v ∈ items, (Work.value (itemModifier m v) v).Succeeds ctx) :
    (renderItems ctx m items).Notes fun i => ∃ v ∈ items, (Work.value (itemModifier m v) v).Meets ctx i := by
  rw [renderItems_eq_mapM]
  apply Notes.mapM
  intro v hv
  have hnodes := nodes_le_of_mem hv
  exact h _ v (by omega) (hs v hv)

theorem notes_entryText (h : NotesBelow ctx n) (listAs : Modifier) {e : String × Value} (hn : e.2.nodes < n)
    (hs : ∀ m, entryModifier listAs e.1 e.2 = .ok m → (Work.value m e.2).Succeeds ctx) :
    (ctx.entryText listAs e).Notes (EntryMeets ctx listAs e) := by
  unfold Context.entryText
  split
  · next j hj =>
    apply (Notes.note j).mono
    rintro i (hi | ⟨m, hm, -⟩)
    · cases hj.symm.trans hi
      rfl
    · cases hj.symm.trans hm
  · next m hm =>
    apply (h m e.2 hn (hs m hm)).mono
    rintro i (hi | ⟨m', hm', hi⟩)
    · cases hm.symm.trans hi
    · cases hm.symm.trans hm'
      exact hi

theorem notes_renderValues (h : NotesBelow ctx n) (hn : entryNodes entries < n)
    (hs : ∀ e ∈ entries, ∀ m, entryModifier .expand e.1 e.2 = .ok m → (Work.value m e.2).Succeeds ctx) :
    (renderValues ctx entries).Notes fun i => ∃ e ∈ entries, EntryMeets ctx .expand e i := by
  rw [renderValues_eq_mapM]
  apply Notes.mapM
  intro e he
  have hnodes := nodes_le_of_mem_entries he
  exact notes_entryText h .expand (by omega) (hs e he)

theorem notes_renderCells (hd : ctx.dialect.WritesAll) (h : NotesBelow ctx n) (listAs : Modifier)
    (hn : entryNodes entries < n)
    (hs : ∀ e ∈ entries, ∀ m, entryModifier listAs e.1 e.2 = .ok m → (Work.value m e.2).Succeeds ctx) :
    (renderCells ctx listAs entries).Notes fun i =>
      ∃ e ∈ entries, ctx.substitutions.substitute (splitKey e.1).1 = .error i ∨ EntryMeets ctx listAs e i := by
  rw [renderCells_eq_mapM]
  apply Notes.mapM
  intro e he
  have hnodes := nodes_le_of_mem_entries he
  have htext := notes_entryText h listAs (by omega) (hs e he)
  unfold Context.entryCell
  apply ((Context.notes_identifier hd _).bind fun column _ _ _ =>
    htext.bind fun text _ _ _ => .quiet (column, text)).mono
  rintro i (hi | hi)
  · exact .inl hi
  · exact .inr (.inl hi)

theorem notes_renderOrder (hd : ctx.dialect.WritesAll) (h : NotesBelow ctx n) (hn : entryNodes entries < n)
    (hs : ∀ e ∈ entries, e.2.isList = true → (Work.value (some .expand) e.2).Succeeds ctx) :
    (renderOrder ctx entries).Notes fun i =>
      ∃ e ∈ entries, (e.2.isList = true ∧ (Work.value (some .expand) e.2).Meets ctx i) ∨
        (e.2.isList = false ∧ ctx.substitutions.substitute e.1 = .error i) := by
  rw [renderOrder_eq_mapM]
  apply Notes.mapM
  intro e he
  have hnodes := nodes_le_of_mem_entries he
  unfold Context.orderText
  cases hlist : e.2.isList with
  | true =>
    apply (h _ e.2 (by omega) (hs e he hlist)).mono
    rintro i (⟨-, hi⟩ | ⟨hne, -⟩)
    · exact hi
    · cases hne
  | false =>
    apply ((Context.notes_identifier hd e.1).bind fun column _ _ _ =>
      .quiet (column ++ " " ++ direction e.2)).mono
    rintro i (⟨hne, -⟩ | ⟨-, hi⟩)
    · cases hne
    · exact .inl hi

theorem notes_alias (hd : ctx.dialect.WritesAll) (e : String × Value) :
    (ctx.alias e).Notes fun i => ctx.substitutions.substitute e.1 = .error i ∨
      (e.2.IsNameless ∧ i = .invalidCombination e.2.kind Modifier.identifier.code) := by
  unfold Context.alias
  apply (Context.notes_identifier hd e.1).bind
  intro column _ _ _
  split
  · next hv =>
    apply (Notes.quiet column).mono
    rintro i ⟨hn, -⟩
    exact hn.null hv
  · next name hv =>
    have hwritten : (if name.isEmpty then pure column else do
        let name ← Render.ofDialect (ctx.dialect.identifier name)
        pure (column ++ " AS " ++ name)).Notes nothing := by
      split
      · exact .quiet column
      · apply ((Notes.ofDialect (hd.identifier name)).bind fun name _ _ _ => .quiet (column ++ " AS " ++ name)).mono
        nofun
    apply hwritten.mono
    rintro i ⟨hn, -⟩
    exact hn.text name hv
  · apply (Notes.note _).mono
    rintro i ⟨-, rfl⟩
    rfl

end Parts

/-! ## Columns with rows -/

theorem notes_renderColumns (hd : ctx.dialect.WritesAll) (h : NotesBelow ctx n) {entries : List (String × Value)}
    (height : Option Nat) (hn : entryNodes entries < n)
    (hs : ∀ height' key items, Reached height entries height' (key, .list items) →
      (∀ k, height' = some k → items.length = k) → ∀ v ∈ items, ∀ m, entryModifier .expand key v = .ok m →
        (Work.value m v).Succeeds ctx) :
    (renderColumns ctx height entries).Notes fun i =>
      ∃ height' e, Reached height entries height' e ∧ ColumnMeets ctx height' e i := by
  induction entries generalizing height with
  | nil =>
    rw [renderColumns]
    apply (Notes.quiet _).mono
    rintro i ⟨_, _, ⟨⟩, -⟩
  | cons e es ih =>
    obtain ⟨key, v⟩ := e
    rw [entryNodes] at hn
    rw [renderColumns]
    have hname := @Context.notes_identifier ctx hd (splitKey key).1
    cases v with
    | list items =>
      by_cases fits : ∀ k, height = some k → items.length = k
      · have hheight : ¬height.any (· != items.length) = true := by
          cases height with
          | none => exact Bool.false_ne_true
          | some k => simp [fits k rfl]
        have hvalues : (renderValues ctx (items.map (Prod.mk key))).Notes
            fun i => ∃ e ∈ items.map (Prod.mk key), EntryMeets ctx .expand e i := by
          apply notes_renderValues h
          · rw [entryNodes_map_mk]
            rw [Value.nodes] at hn
            omega
          · intro e he m hm
            obtain ⟨v, hv, rfl⟩ := List.mem_map.1 he
            exact hs height key items .here fits v hv m hm
        have hrest := ih (some items.length) (by omega) fun height' key' items' hr => hs height' key' items' (.later fits hr)
        simp only [hheight, Bool.false_eq_true, if_false]
        apply (hname.bind fun column _ _ _ => hvalues.bind fun texts _ _ _ =>
          hrest.bind fun columns _ _ _ => .quiet (columns.map ((column, texts) :: ·))).mono
        rintro i ⟨height', e, hr, hi⟩
        cases hr with
        | here =>
          cases hi with
          | name hi => exact .inl hi
          | cell _ hv hi => exact .inr (.inl ⟨_, List.mem_map_of_mem hv, hi⟩)
          | noRows hv => cases hv
          | unequalRows hk hne => exact absurd (fits _ hk) hne
        | later _ hr => exact .inr (.inr (.inl ⟨height', e, hr, hi⟩))
      · obtain ⟨k, rfl, hk⟩ : ∃ k, height = some k ∧ items.length ≠ k := by simpa using fits
        have hheight : (some k).any (· != items.length) = true := by simpa using Ne.symm hk
        simp only [hheight, if_true]
        apply (hname.bind fun column _ _ _ => (Notes.note (.unequalRows (splitKey key).1)).map Except.error).mono
        rintro i ⟨height', e, hr, hi⟩
        cases hr with
        | here =>
          cases hi with
          | name hi => exact .inl hi
          | cell fits' _ _ => exact absurd (fits' k rfl) hk
          | noRows hv => cases hv
          | unequalRows _ _ => exact .inr rfl
        | later fits' _ => exact absurd (fits' k rfl) hk
    | _ =>
      apply (hname.bind fun column _ _ _ => (Notes.note _).map Except.error).mono
      rintro i ⟨height', e, hr, hi⟩
      cases hr with
      | here =>
        cases hi with
        | name hi => exact .inl hi
        | noRows _ => exact .inr rfl

/-- Columns without values come to nothing but their names. -/
theorem columns_of_emptyLists {entries : List (String × Value)} (hall : ∀ e ∈ entries, e.2 = .list [])
    {height : Option Nat} (hh : height = none ∨ height = some 0) {columns : Except String (List (String × List String))}
    {issues : List Issue} {k : Nat} (h : renderColumns ctx height entries = .done columns issues k) :
    ∃ cs, columns = .ok cs ∧ cs.length = entries.length ∧ ∀ c ∈ cs, c.2 = [] := by
  induction entries generalizing height columns issues k with
  | nil =>
    rw [renderColumns] at h
    cases h
    exact ⟨[], rfl, rfl, fun c hc => absurd hc List.not_mem_nil⟩
  | cons e es ih =>
    obtain ⟨key, v⟩ := e
    obtain rfl : v = .list [] := hall _ List.mem_cons_self
    have hheight : ¬height.any (· != ([] : List Value).length) = true := by
      rcases hh with rfl | rfl <;> decide
    rw [renderColumns] at h
    simp only [hheight, Bool.false_eq_true, if_false] at h
    obtain ⟨column, _, _, _, _, -, h, -, -⟩ := Render.exists_of_bind h
    obtain ⟨texts, _, _, _, _, htexts, h, -, -⟩ := Render.exists_of_bind h
    obtain ⟨rest, _, _, _, _, hrest, h, -, -⟩ := Render.exists_of_bind h
    rw [List.map_nil, renderValues] at htexts
    obtain ⟨cs, rfl, hlength, hempty⟩ := ih (fun e he => hall e (List.mem_cons_of_mem _ he)) (.inr rfl) hrest
    cases htexts
    cases h
    refine ⟨(column, []) :: cs, rfl, congrArg Nat.succ hlength, ?_⟩
    intro c hc
    rcases List.mem_cons.1 hc with rfl | hc
    · rfl
    · exact hempty c hc

theorem notes_closeColumns {entries : List (String × Value)} {columns : Except String (List (String × List String))}
    {issues : List Issue} {k : Nat} (h : renderColumns ctx none entries = .done columns issues k) :
    (closeColumns columns).Notes (Rowless entries) := by
  have hwritten : (closeColumns columns).Notes nothing := by
    unfold closeColumns
    split
    · exact .quiet _
    · exact (notes_mismatch _ _).mono nofun
    · split
      · exact (notes_mismatch _ _).mono nofun
      · exact .quiet _
  apply hwritten.of_each
  intro i hi
  cases hi with
  | emptyMap =>
    rw [renderColumns] at h
    cases h
    exact Notes.note _
  | emptyLists columns hall =>
    obtain ⟨cs, rfl, hlength, hempty⟩ := columns_of_emptyLists hall (.inl rfl) h
    cases cs with
    | nil => exact absurd (List.length_eq_zero_iff.1 hlength.symm) columns
    | cons c cs =>
      have hc : c.2.isEmpty = true := by rw [hempty c List.mem_cons_self]; rfl
      rw [closeColumns, if_pos hc]
      exact Notes.note _

/-! ## Passes -/

variable {s : Pass} {i : Issue}

theorem notes_finish (hd : ctx.dialect.WritesAll) (s : Pass) : (s.finish ctx).Notes nothing := by
  have hwritten : (if s.bounds.isUnbounded then pure s.out.finish
      else Render.ofDialect (ctx.dialect.bounded s.bounds s.out.finish)).Notes nothing := by
    split
    · exact .quiet _
    · exact .ofDialect (hd.bounded _ _)
  apply (hwritten.after [] s.branches.masked).mono
  nofun

/-- A pass has a text, if the values in it do, and every fault that it meets is noted. -/
theorem notes_run (hd : ctx.dialect.WritesAll) (h : NotesBelow ctx n) (hn : s.nodes < n)
    (hs : (Work.pass s).Succeeds ctx) : (run ctx s).Notes ((Work.pass s).Meets ctx) := by
  induction s using Pass.induction ctx.placeholders with
  | step s ih =>
    have hbehind (t : Pass) (ht : (s.next ctx.placeholders).state? = some t) (text : String) :
        (run ctx (t.write text)).Notes ((Work.pass (t.write text)).Meets ctx) := by
      have hprogress := Pass.progress ht
      have hnodes : (t.write text).nodes < n := by
        rw [Pass.nodes_write]
        omega
      exact ih t ht text hnodes (hs.of_runs (.part (.step ⟨t, ht, _, rfl⟩) rfl))
    have hrest (t : Pass) (ht : (s.next ctx.placeholders).state? = some t) (text : String) :
        (run ctx (t.write text)).Notes fun i => ∀ text, (Work.pass (t.write text)).Meets ctx i :=
      (hbehind t ht text).mono fun i hi => hi text
    have hnow (i : Issue) (hi : (Work.pass s).Meets ctx i) : (s.next ctx.placeholders).Meets ctx i := meets_pass hi
    cases hnext : s.next ctx.placeholders with
    | finished =>
      rw [hnext] at hnow
      rw [run_finished hnext]
      exact (notes_finish hd s).mono hnow
    | moved found t =>
      have hmoved := hbehind t (by rw [hnext]; rfl) ""
      rw [Pass.write_empty] at hmoved
      rw [hnext] at hnow
      rw [run_moved hnext]
      exact (hmoved.after found 0).mono hnow
    | lexeme l t =>
      rw [hnext] at hnow
      rw [run_lexeme hnext]
      exact ((Context.notes_lexeme hd l).bind fun text _ _ _ => hrest t (by rw [hnext]; rfl) text).mono hnow
    | value v m t =>
      have hv : v.nodes < n := by
        have hwithin := s.within_next ctx.placeholders
        rw [hnext, Pass.Within] at hwithin
        omega
      have hasked := h m v hv (hs.of_runs (.part (.asked hnext) rfl))
      rw [hnext] at hnow
      rw [run_value hnext]
      exact (hasked.bind fun text _ _ _ => hrest t (by rw [hnext]; rfl) text).mono hnow

/-! ## Values -/

/-- The stream inside a value is a part of it. -/
theorem notes_run_start (hd : ctx.dialect.WritesAll) (h : NotesBelow ctx n) {ts : List Token} (hn : tokenNodes ts < n)
    (hs : (Work.pass (.start ts)).Succeeds ctx) : (run ctx (.start ts)).Notes ((Work.pass (.start ts)).Meets ctx) := by
  have hstart : (Pass.start ts).nodes < n := hn
  exact notes_run hd h hstart hs

theorem notes_fragment (hd : ctx.dialect.WritesAll) (h : NotesBelow ctx n) (m : Option Modifier) {ts : List Token}
    (hn : tokenNodes ts < n) (hs : (Work.value m (.fragment ts)).Succeeds ctx) :
    (render ctx m (.fragment ts)).Notes ((Work.value m (.fragment ts)).Meets ctx) := by
  by_cases hm : m ∈ [none, some .sql, some .expand]
  · have hr : render ctx m (.fragment ts) = run ctx (.start ts) := by
      simp only [List.mem_cons, List.not_mem_nil, or_false] at hm
      rcases hm with rfl | rfl | rfl <;> rw [render]
    rw [hr]
    apply (notes_run_start hd h hn (hs.of_runs (.part (.fragment hm ts) rfl))).mono
    intro i hi
    rcases meets_fragment hi with ⟨-, hi⟩ | ⟨m', rfl, hm', -⟩
    · exact hi
    · exact absurd (by simpa using hm) hm'
  · cases m with
    | none => exact absurd List.mem_cons_self hm
    | some m =>
      have hr : render ctx (some m) (.fragment ts) = mismatch "fragment" m := by
        rw [render] <;> rintro ⟨⟩ <;> exact hm (by simp)
      rw [hr]
      apply (notes_mismatch "fragment" m).mono
      intro i hi
      rcases meets_fragment hi with ⟨hm', -⟩ | ⟨m', ⟨⟩, -, rfl⟩
      · exact absurd hm' hm
      · rfl

theorem notes_list (hd : ctx.dialect.WritesAll) (h : NotesBelow ctx n) (m : Option Modifier) {items : List Value}
    (hn : itemNodes items < n) (hs : (Work.value m (.list items)).Succeeds ctx) :
    (render ctx m (.list items)).Notes ((Work.value m (.list items)).Meets ctx) := by
  by_cases hexpanded : m ∈ [some .sql, some .expand]
  · have hstart : tokenNodes (items.map Token.ofElement) < n := by rwa [tokenNodes_map_ofElement]
    have hwritten := notes_run_start hd h hstart (hs.of_runs (.part (.elements hexpanded items) rfl))
    simp only [List.mem_cons, List.not_mem_nil, or_false] at hexpanded
    have hr : render ctx m (.list items) = run ctx (.start (items.map Token.ofElement)) := by
      rcases hexpanded with rfl | rfl <;> rw [render]
    rw [hr]
    apply hwritten.mono
    intro i hi
    rcases meets_list hi with ⟨-, hi⟩ | ⟨m', rfl, hm, -⟩ | ⟨hm, -⟩
    · exact hi
    · rcases hexpanded with hm' | hm' <;> cases hm' <;> simp at hm
    · rcases hexpanded with rfl | rfl <;> simp at hm
  · by_cases hrefused : ∃ m' ∈ [.assign, .values, .rows], m = some m'
    · obtain ⟨m', hm', rfl⟩ := hrefused
      have hr : render ctx (some m') (.list items) = mismatch "list" m' := by
        simp only [List.mem_cons, List.not_mem_nil, or_false] at hm'
        rcases hm' with rfl | rfl | rfl <;> rw [render]
      rw [hr]
      apply (notes_mismatch "list" m').mono
      intro i hi
      rcases meets_list hi with ⟨hm, -⟩ | ⟨m', ⟨⟩, -, rfl⟩ | ⟨hm, -⟩
      · exact absurd hm hexpanded
      · rfl
      · simp only [List.mem_cons, List.not_mem_nil, or_false] at hm'
        rcases hm' with rfl | rfl | rfl <;> simp at hm
    · have hitem : m ∉ [some .sql, some .expand, some .assign, some .values, some .rows] := by
        simp only [List.mem_cons, List.not_mem_nil, or_false, exists_eq_or_imp, exists_eq_left, not_or]
          at hexpanded hrefused ⊢
        exact ⟨hexpanded.1, hexpanded.2, hrefused⟩
      have hr : render ctx m (.list items) = closeItems m <$> renderItems ctx m items := by
        rw [render] <;> rintro rfl <;> exact hitem (by simp)
      rw [hr]
      apply ((notes_renderItems h m hn fun v hv => hs.of_runs (.part (.item hitem hv) rfl)).map _).mono
      intro i hi
      rcases meets_list hi with ⟨hm, -⟩ | ⟨m', rfl, hm, -⟩ | ⟨-, hi⟩
      · exact absurd hm hexpanded
      · exact absurd ⟨m', hm, rfl⟩ hrefused
      · exact hi

section Mappings

variable {entries : List (String × Value)} {listAs : Modifier} {m : Option Modifier}

/-- The values of a mapping that are written one by one succeed with it. -/
theorem succeeds_entries (hm : (m, listAs) ∈ entryModes) (hrows : m ≠ some .rows)
    (hs : (Work.value m (.map entries)).Succeeds ctx) {e : String × Value} (he : e ∈ entries) {m' : Option Modifier}
    (h : entryModifier listAs e.1 e.2 = .ok m') : (Work.value m' e.2).Succeeds ctx := by
  exact hs.of_runs (.part (.entry hm he h) (decide_eq_false hrows))

theorem notes_cells (hd : ctx.dialect.WritesAll) (h : NotesBelow ctx n) (hm : (m, listAs) ∈ entryModes)
    (hn : entryNodes entries < n) (hs : (Work.value m (.map entries)).Succeeds ctx) :
    (renderCells ctx listAs entries).Notes ((Work.value m (.map entries)).Meets ctx) := by
  have hrows : m ≠ some .rows := by
    rintro rfl
    simp [entryModes] at hm
  apply (notes_renderCells hd h listAs hn fun e he m' hm' => succeeds_entries hm hrows hs he hm').mono
  intro i hi
  obtain ⟨e, he, ⟨-, hi⟩ | hi⟩ := meets_entries hm hi
  · exact ⟨e, he, .inl hi⟩
  · exact ⟨e, he, .inr hi⟩

/-- A clause that is made of the cells of a mapping. -/
theorem notes_clause (hd : ctx.dialect.WritesAll) (h : NotesBelow ctx n) (hm : (m, listAs) ∈ entryModes)
    (hn : entryNodes entries < n) (hs : (Work.value m (.map entries)).Succeeds ctx)
    (clause : List (String × String) → String) :
    (do
      let cells ← renderCells ctx listAs entries
      pure (clause cells)).Notes ((Work.value m (.map entries)).Meets ctx) := by
  apply ((notes_cells hd h hm hn hs).bind fun cells _ _ _ => .quiet (clause cells)).mono
  intro i hi
  exact .inl hi

theorem notes_tuple (h : NotesBelow ctx n) (hm : (m, .expand) ∈ entryModes) (hcolumn : m ∉ columnModes)
    (m' : Modifier) (hn : entryNodes entries < n) (hs : (Work.value m (.map entries)).Succeeds ctx) :
    (tupleFor m' <$> renderValues ctx entries).Notes ((Work.value m (.map entries)).Meets ctx) := by
  have hrows : m ≠ some .rows := by
    rintro rfl
    simp [entryModes] at hm
  apply ((notes_renderValues h hn fun e he m' hm' => succeeds_entries hm hrows hs he hm').map _).mono
  intro i hi
  obtain ⟨e, he, ⟨hmode, -⟩ | hi⟩ := meets_entries hm hi
  · exact absurd hmode hcolumn
  · exact ⟨e, he, hi⟩

theorem notes_rows (hd : ctx.dialect.WritesAll) (h : NotesBelow ctx n) (hn : entryNodes entries < n)
    (hs : (Work.value (some .rows) (.map entries)).Succeeds ctx) :
    (render ctx (some .rows) (.map entries)).Notes ((Work.value (some .rows) (.map entries)).Meets ctx) := by
  rw [render]
  have hcolumns := notes_renderColumns hd h none hn fun _ _ _ hr fits _ hv _ hm => hs.of_runs (.cell hr fits hv hm)
  apply (hcolumns.bind fun columns _ _ hdone => notes_closeColumns hdone).mono
  intro i hi
  exact meets_rows hi

theorem notes_map (hd : ctx.dialect.WritesAll) (h : NotesBelow ctx n) (m : Option Modifier)
    (hn : entryNodes entries < n) (hs : (Work.value m (.map entries)).Succeeds ctx) :
    (render ctx m (.map entries)).Notes ((Work.value m (.map entries)).Meets ctx) := by
  cases m with
  | none =>
    rw [render]
    exact notes_clause hd h (by simp [entryModes]) hn hs _
  | some m =>
    cases m with
    | assign =>
      rw [render]
      exact notes_clause hd h (by simp [entryModes]) hn hs _
    | values =>
      rw [render]
      exact (notes_cells hd h (by simp [entryModes]) hn hs).map _
    | list =>
      rw [render]
      exact notes_tuple h (by simp [entryModes]) (by simp [columnModes]) .list hn hs
    | inList =>
      rw [render]
      exact notes_tuple h (by simp [entryModes]) (by simp [columnModes]) .inList hn hs
    | allOf =>
      rw [render]
      exact notes_clause hd h (by simp [entryModes]) hn hs _
    | anyOf =>
      rw [render]
      exact notes_clause hd h (by simp [entryModes]) hn hs _
    | identifier =>
      rw [render]
      apply ((Notes.mapM fun e _ => notes_alias hd e).map _).mono
      exact fun i hi => meets_names hi
    | orderBy =>
      rw [render]
      apply ((notes_renderOrder hd h hn fun e he hv => hs.of_runs (.part (.order he hv) rfl)).map _).mono
      exact fun i hi => meets_order hi
    | rows => exact notes_rows hd h hn hs
    | _ =>
      rw [render]
      · apply (notes_mismatch "map" _).mono
        intro i hi
        exact meets_refused (by simp [mapModifiers]) hi
      all_goals rintro ⟨⟩

end Mappings

/-- Every value has a text, and the faults that it meets are noted. -/
theorem notesBelow (hd : ctx.dialect.WritesAll) (n : Nat) : NotesBelow ctx n := by
  induction n with
  | zero =>
    intro m v hv
    omega
  | succ n ih =>
    intro m v hv hs
    cases v with
    | scalar a =>
      rw [render]
      exact (Context.notes_scalar hd m a).mono fun i hi => meets_scalar hi
    | expression e =>
      rw [render]
      apply (Notes.ofDialect (hs m e .refl)).mono
      exact fun i hi => not_meets_expression hi
    | fragment ts =>
      rw [Value.nodes] at hv
      exact notes_fragment hd ih m (by omega) hs
    | list items =>
      rw [Value.nodes] at hv
      exact notes_list hd ih m (by omega) hs
    | map entries =>
      rw [Value.nodes] at hv
      exact notes_map hd ih m (by omega) hs

/-! ## Statements -/

/-- A stream always gives a statement in a known dialect, if the expressions that are asked for write themselves. Every
fault that is met is an issue of the statement: a value that does not fit its modifier, a code that is not known, what
is no number or date, a name that is not resolved, a keyword of a block where none is open, and a marker or placeholder
without a token. -/
theorem compose_total {k : Dialect.Kind} (hd : ctx.dialect = k.dialect) {ts : List Token}
    (hs : (Work.pass (.start ts)).Succeeds ctx) :
    ∃ statement, ctx.compose ts = .ok statement ∧
      ∀ i, (Work.pass (.start ts)).Meets ctx i → i ∈ statement.issues := by
  have hwrites : ctx.dialect.WritesAll := by
    rw [hd]
    exact k.writesAll
  obtain ⟨sql, issues, masked, hrun, hnoted⟩ :=
    notes_run hwrites (notesBelow hwrites (tokenNodes ts + 1)) (Nat.lt_succ_self (Pass.start ts).nodes) hs
  refine ⟨⟨sql, issues, masked⟩, ?_, hnoted⟩
  rw [Context.compose, hrun]

/-- A text that is no number, in front of an expression. -/
theorem compose_total_text :
    let ctx : Context := .leapDay .generic
    let ts : List Token := [.modifier "i", .value (.scalar (.text "x")), .value (.expression ⟨0, fun _ _ => .ok "now()"⟩)]
    (Work.pass (.start ts)).Succeeds ctx ∧ (Work.pass (.start ts)).Meets ctx (.expectedNumber "x") ∧
      ∃ statement, ctx.compose ts = .ok statement ∧ .expectedNumber "x" ∈ statement.issues := by
  intro ctx ts
  have hs : (Work.pass (.start ts)).Succeeds ctx := by
    apply succeeds_of_renders
    intro t ht
    simp only [ts, List.mem_cons, List.not_mem_nil, or_false] at ht
    rcases ht with rfl | rfl | rfl
    · exact .scalar _
    · exact .scalar _
    · exact .expression fun _ => ⟨_, rfl⟩
  have hmeets : (Work.pass (.start ts)).Meets ctx (.expectedNumber "x") := by
    refine ⟨.value (some .int) (.scalar (.text "x")), .single (.part (.asked rfl) rfl), .value (.scalar ?_)⟩
    exact .integer List.mem_cons_self nofun (by decide)
  obtain ⟨statement, hstatement, hnoted⟩ := compose_total (k := .generic) rfl hs
  exact ⟨hs, hmeets, statement, hstatement, hnoted _ hmeets⟩

end SqlComposer
