import SqlComposer.Proofs.Pass.Carried
import SqlComposer.Proofs.Pass.Overlooked
import SqlComposer.Proofs.Render.Parts
import SqlComposer.Proofs.Render.Scalars

/-!
# Issues are shown

* `Work`, `Work.Part` : the passes and values of a composition, and what each is made of;
* `Render.GivesWay`, `Lost` : an issue of which only the mark of another is left, in two of the clauses for mappings;
* `Hidden` : somewhere in the work an issue is lost, or found where the output is left out;
* `keeps_run`, `keepsBelow` : passes and values show every issue that is not hidden in them;
* `noBlock_of_reaches` : without a keyword of a block nothing is left out;
* `issues_shown` : then every issue of a statement is shown in it, unless it is lost.
-/

namespace SqlComposer

/-! ## The parts of a composition -/

/-- A pass, or a value that is written under a modifier. -/
inductive Work
  | pass (s : Pass)
  | value (m : Option Modifier) (v : Value)

/-- The modifiers under which the values of a mapping are written one by one, each with the modifier for lists. -/
def entryModes : List (Option Modifier × Modifier) :=
  [(none, .expand), (some .assign, .expand), (some .values, .expand), (some .list, .expand), (some .inList, .expand),
    (some .allOf, .inList), (some .anyOf, .inList)]

/-- What is done directly in the course of a pass or of the writing of a value. -/
inductive Work.Part (ctx : Context) : Work → Work → Prop
  | step {s t : Pass} (h : s.Step ctx.placeholders t) : Part ctx (.pass s) (.pass t)
  | asked {s t : Pass} {m : Option Modifier} {v : Value} (h : s.next ctx.placeholders = .value v m t) :
      Part ctx (.pass s) (.value m v)
  | fragment {m : Option Modifier} (hm : m ∈ [none, some .sql, some .expand]) (ts : List Token) :
      Part ctx (.value m (.fragment ts)) (.pass (.start ts))
  | elements {m : Option Modifier} (hm : m ∈ [some .sql, some .expand]) (items : List Value) :
      Part ctx (.value m (.list items)) (.pass (.start (items.map Token.ofElement)))
  | item {m : Option Modifier} (hm : m ∉ [some .sql, some .expand, some .assign, some .values, some .rows])
      {items : List Value} {v : Value} (hv : v ∈ items) : Part ctx (.value m (.list items)) (.value (itemModifier m v) v)
  | entry {m m' : Option Modifier} {listAs : Modifier} (hm : (m, listAs) ∈ entryModes)
      {entries : List (String × Value)} {e : String × Value} (he : e ∈ entries)
      (h : entryModifier listAs e.1 e.2 = .ok m') : Part ctx (.value m (.map entries)) (.value m' e.2)
  | order {entries : List (String × Value)} {e : String × Value} (he : e ∈ entries) (hv : e.2.isList = true) :
      Part ctx (.value (some .orderBy) (.map entries)) (.value (some .expand) e.2)
  | cell {entries : List (String × Value)} {key : String} {items : List Value} (he : (key, .list items) ∈ entries)
      {v : Value} (hv : v ∈ items) {m : Option Modifier} (h : entryModifier .expand key v = .ok m) :
      Part ctx (.value (some .rows) (.map entries)) (.value m v)

/-- The issue was found, but nothing is written except the mark of another one. -/
def Render.GivesWay (r : Render String) (i : Issue) : Prop :=
  ∃ (j : Issue) (issues : List Issue) (n : Nat), r = .done j.mark issues n ∧ i ∈ issues ∧ ¬Shows j.mark i

/-- The value is no name of a column, nor the absence of one. -/
structure Value.IsNameless (v : Value) : Prop where
  null : v ≠ .scalar .null
  text : ∀ name, v ≠ .scalar (.text name)

/-- The issue gives way in a mapping: in a column that something else than its other name stands with, or in columns
with rows. -/
inductive Lost (ctx : Context) (i : Issue) : Option Modifier → Value → Prop
  | column {entries : List (String × Value)} {e : String × Value} (he : e ∈ entries) (hv : e.2.IsNameless)
      (h : (ctx.alias e).GivesWay i) : Lost ctx i (some .identifier) (.map entries)
  | rows {entries : List (String × Value)} (h : (render ctx (some .rows) (.map entries)).GivesWay i) :
      Lost ctx i (some .rows) (.map entries)

/-- The work finds an issue that it does not show: one that gives way, or one found where the output is left out. -/
inductive Work.Hides (ctx : Context) (i : Issue) : Work → Prop
  | lost {m : Option Modifier} {v : Value} (h : Lost ctx i m v) : Hides ctx i (.value m v)
  | leftOut {s t : Pass} {found : List Issue} (masked : s.isMasked = true)
      (next : s.next ctx.placeholders = .moved found t) (hi : i ∈ found) : Hides ctx i (.pass s)

/-- The issue is hidden in the course of the work. -/
def Hidden (ctx : Context) (w : Work) (i : Issue) : Prop :=
  ∃ w', Relation.ReflTransGen (Work.Part ctx) w w' ∧ w'.Hides ctx i

theorem Hidden.of_part {ctx : Context} {w w' : Work} {i : Issue} (h : Hidden ctx w' i) (hp : w.Part ctx w') :
    Hidden ctx w i := by
  obtain ⟨w'', hreach, hhides⟩ := h
  exact ⟨w'', hreach.head hp, hhides⟩

theorem Work.Hides.hidden {ctx : Context} {w : Work} {i : Issue} (h : w.Hides ctx i) : Hidden ctx w i :=
  ⟨w, .refl, h⟩

open Render (Keeps nothing)

variable {ctx : Context} {lost : Issue → Prop}

/-! ## Parts of lists and mappings -/

/-- Values of fewer nodes show their issues, but for what is hidden in them. -/
def KeepsBelow (ctx : Context) (n : Nat) : Prop :=
  ∀ (m : Option Modifier) (v : Value), v.nodes < n → (render ctx m v).Keeps (Hidden ctx (.value m v)) nothing Shows

theorem Render.Keeps.of_lost {r : Render String} {part : Issue → Prop} (h : r.Keeps part nothing Shows)
    (hlost : ∀ i, part i → lost i) : r.Keeps lost nothing Shows :=
  h.mono (fun _ hi => hi) (fun _ _ hi => hi) hlost

section Parts

variable {n : Nat} {entries : List (String × Value)} {items : List Value}

theorem keeps_renderItems (h : KeepsBelow ctx n) (m : Option Modifier) (hn : itemNodes items < n)
    (hlost : ∀ v ∈ items, ∀ i, Hidden ctx (.value (itemModifier m v) v) i → lost i) :
    (renderItems ctx m items).Keeps lost nothing fun texts i => ∃ text ∈ texts, Shows text i := by
  rw [renderItems_eq_mapM]
  apply Keeps.mapM
  intro v hv
  have hnodes := nodes_le_of_mem hv
  exact (h _ v (by omega)).of_lost (hlost v hv)

theorem keeps_entryText (h : KeepsBelow ctx n) (listAs : Modifier) {e : String × Value} (hn : e.2.nodes < n)
    (hlost : ∀ m, entryModifier listAs e.1 e.2 = .ok m → ∀ i, Hidden ctx (.value m e.2) i → lost i) :
    (ctx.entryText listAs e).Keeps lost nothing Shows := by
  unfold Context.entryText
  split
  · exact keeps_note _
  · next m hm => exact (h m e.2 hn).of_lost (hlost m hm)

theorem keeps_renderValues (h : KeepsBelow ctx n) (hn : entryNodes entries < n)
    (hlost : ∀ e ∈ entries, ∀ m, entryModifier .expand e.1 e.2 = .ok m → ∀ i, Hidden ctx (.value m e.2) i → lost i) :
    (renderValues ctx entries).Keeps lost nothing fun texts i => ∃ text ∈ texts, Shows text i := by
  rw [renderValues_eq_mapM]
  apply Keeps.mapM
  intro e he
  have hnodes := nodes_le_of_mem_entries he
  exact keeps_entryText h .expand (by omega) (hlost e he)

theorem keeps_renderCells (h : KeepsBelow ctx n) (listAs : Modifier) (hn : entryNodes entries < n)
    (hlost : ∀ e ∈ entries, ∀ m, entryModifier listAs e.1 e.2 = .ok m → ∀ i, Hidden ctx (.value m e.2) i → lost i) :
    (renderCells ctx listAs entries).Keeps lost nothing fun cells i => ∃ cell ∈ cells, ShowsInCell cell i := by
  rw [renderCells_eq_mapM]
  apply Keeps.mapM
  intro e he
  have hnodes := nodes_le_of_mem_entries he
  unfold Context.entryCell
  apply (Context.keeps_identifier _).bind
  intro column _ _ _
  apply ((keeps_entryText h listAs (by omega) (hlost e he)).frame _).bind
  intro text _ _ _
  exact .pure fun i hi => hi

theorem keeps_renderOrder (h : KeepsBelow ctx n) (hn : entryNodes entries < n)
    (hlost : ∀ e ∈ entries, e.2.isList = true → ∀ i, Hidden ctx (.value (some .expand) e.2) i → lost i) :
    (renderOrder ctx entries).Keeps lost nothing fun texts i => ∃ text ∈ texts, Shows text i := by
  rw [renderOrder_eq_mapM]
  apply Keeps.mapM
  intro e he
  have hnodes := nodes_le_of_mem_entries he
  unfold Context.orderText
  split
  · next hlist => exact (h _ e.2 (by omega)).of_lost (hlost e he hlist)
  · apply (Context.keeps_identifier _).bind
    intro column _ _ _
    apply Keeps.pure
    intro i hi
    exact hi.of_holds (holds_append_right (holds_append_right (.refl _) _) _)

end Parts

/-! ## Where one mark stands for all -/

/-- Some mark stands alone. -/
def ShowsOrMarks (text : String) (i : Issue) : Prop :=
  Shows text i ∨ ∃ j : Issue, text = j.mark

/-- What is not shown gives way. -/
theorem Render.Keeps.of_givesWay {r : Render String} (h : r.Keeps lost nothing ShowsOrMarks)
    (hlost : ∀ i, r.GivesWay i → lost i) : r.Keeps lost nothing Shows := by
  intro text issues n hr i hi
  rcases h text issues n hr i hi with (hshown | ⟨j, rfl⟩) | hi'
  · exact .inl hshown
  · by_cases hshown : Shows j.mark i
    · exact .inl hshown
    · have hmem : i ∈ issues := hi.resolve_left id
      exact .inr (hlost i ⟨j, issues, n, hr, hmem, hshown⟩)
  · exact .inr hi'

theorem keeps_mismatch_mark (kind : String) (m : Modifier) (before : Issue → Prop) :
    (mismatch kind m).Keeps lost before ShowsOrMarks := by
  intro text issues n hr i _
  cases hr
  exact .inl (.inr ⟨_, rfl⟩)

theorem keeps_alias (e : String × Value) (hlost : e.2.IsNameless → ∀ i, (ctx.alias e).GivesWay i → lost i) :
    (ctx.alias e).Keeps lost nothing Shows := by
  by_cases hv : e.2.IsNameless
  · refine Render.Keeps.of_givesWay ?_ (hlost hv)
    unfold Context.alias
    apply (Context.keeps_identifier _).bind
    intro column _ _ _
    split
    · next hnull => exact absurd hnull hv.null
    · next htext => exact absurd htext (hv.text _)
    · exact keeps_mismatch_mark _ _ _
  · unfold Context.alias
    apply (Context.keeps_identifier _).bind
    intro column _ _ _
    split
    · exact .pure fun _ hi => hi
    · split
      · exact .pure fun _ hi => hi
      · next name _ _ =>
        have hname : (Render.ofDialect (ctx.dialect.identifier name)).Keeps lost nothing Shows := .ofDialect _
        apply (hname.frame _).bind
        intro name _ _ _
        apply Keeps.pure
        rintro i (hi | hi)
        · exact hi.of_holds (holds_append_right (holds_append_right (.refl _) _) _)
        · exact hi.of_holds (holds_append_left (.refl _) _)
    · next hnull htext => exact absurd ⟨hnull, htext⟩ hv

/-! ## Columns with rows -/

/-- The columns show an issue; a mark in their place shows what it shows. -/
def ShowsInColumns : Except String (List (String × List String)) → Issue → Prop
  | .error _, _ => True
  | .ok columns, i => ∃ c ∈ columns, Shows c.1 i ∨ ∃ text ∈ c.2, Shows text i

theorem keeps_renderColumns {n : Nat} (h : KeepsBelow ctx n) {entries : List (String × Value)} (height : Option Nat)
    (hn : entryNodes entries < n)
    (hlost : ∀ key items, (key, Value.list items) ∈ entries → ∀ v ∈ items, ∀ m, entryModifier .expand key v = .ok m →
      ∀ i, Hidden ctx (.value m v) i → lost i) :
    (renderColumns ctx height entries).Keeps lost nothing ShowsInColumns := by
  induction entries generalizing height with
  | nil =>
    rw [renderColumns]
    exact .quiet _
  | cons e es ih =>
    obtain ⟨key, v⟩ := e
    rw [renderColumns]
    apply (Context.keeps_identifier _).bind
    intro column _ _ _
    rw [entryNodes] at hn
    split
    · next items =>
      split
      · apply ((keeps_note _).frame _).map
        rintro mark _ _ - i -
        trivial
      · rw [Value.nodes] at hn
        have hvalues : (renderValues ctx (items.map (Prod.mk key))).Keeps lost nothing
            fun texts i => ∃ text ∈ texts, Shows text i := by
          apply keeps_renderValues h
          · rw [entryNodes_map_mk]
            omega
          · intro e he m hm i
            obtain ⟨v, hv, rfl⟩ := List.mem_map.1 he
            exact hlost key items List.mem_cons_self v hv m hm i
        apply (hvalues.frame _).bind
        intro texts _ _ _
        have hrest := ih (some items.length) (by omega) fun key items he => hlost key items (List.mem_cons_of_mem _ he)
        apply (hrest.frame _).bind
        intro rest _ _ _
        apply Keeps.pure
        cases rest with
        | error mark =>
          intro i _
          trivial
        | ok rest =>
          rintro i ((hi | hi) | ⟨c, hc, hi⟩)
          · exact ⟨(column, texts), List.mem_cons_self, .inl hi⟩
          · exact ⟨(column, texts), List.mem_cons_self, .inr hi⟩
          · exact ⟨c, List.mem_cons_of_mem _ hc, hi⟩
    · apply ((keeps_mismatch _ _).frame _).map
      rintro mark _ _ - i -
      trivial

theorem keeps_closeColumns {height : Option Nat} {columns : Except String (List (String × List String))}
    (hw : WellShaped height columns) : (closeColumns columns).Keeps lost (ShowsInColumns columns) ShowsOrMarks := by
  cases columns with
  | error mark =>
    exact .pure fun i _ => .inr hw
  | ok columns =>
    cases columns with
    | nil => exact keeps_mismatch_mark _ _ _
    | cons c cs =>
      rw [closeColumns]
      split
      · exact keeps_mismatch_mark _ _ _
      · obtain ⟨n, -, hall⟩ := hw
        have hheight (d : String × List String) (hd : d ∈ c :: cs) : d.2.length = c.2.length :=
          (hall d hd).trans (hall c List.mem_cons_self).symm
        apply Keeps.pure
        rintro i ⟨d, hd, hi | ⟨text, hmem, hi⟩⟩
        · exact .inl (hi.of_holds (holds_rowsClause hd (hheight d hd) (.inl rfl)))
        · exact .inl (hi.of_holds (holds_rowsClause hd (hheight d hd) (.inr hmem)))

/-! ## Passes -/

variable {k : Dialect.Kind} {s : Pass} {n : Nat}

theorem keeps_finish (hd : ctx.dialect = k.dialect) (s : Pass) : (s.finish ctx).Keeps lost (Shows s.out.text) Shows := by
  intro text issues n hr i hi
  obtain ⟨later, m, hdone, rfl, -⟩ := Render.exists_of_after hr
  split at hdone
  · cases hdone
    rcases hi with hi | hi
    · exact .inl (Output.shows_finish hi)
    · cases hi
  · rw [hd] at hdone
    cases hdone
    rcases hi with hi | hi
    · refine .inl ?_
      rw [Shows, Holds, String.toList_ofList]
      exact List.IsInfix.trans (Output.shows_finish hi) (infix_bounded k s.bounds _)
    · cases hi

/-- A pass shows its issues, if the values in it do, but for those that it finds where the output is left out. -/
theorem keeps_run (hd : ctx.dialect = k.dialect) (h : KeepsBelow ctx n) (hn : s.nodes < n) :
    (run ctx s).Keeps (Hidden ctx (.pass s)) (Shows s.out.text) Shows := by
  induction s using Pass.induction ctx.placeholders with
  | step s ih =>
    have hcarried := s.carried_next ctx.placeholders
    have hprogress (t : Pass) (ht : (s.next ctx.placeholders).state? = some t) : t.nodes < n := by
      have := Pass.progress ht
      omega
    have hstep (t : Pass) (ht : (s.next ctx.placeholders).state? = some t) (text : String) (i : Issue)
        (hi : Hidden ctx (.pass (t.write text)) i) : Hidden ctx (.pass s) i := hi.of_part (.step ⟨t, ht, _, rfl⟩)
    have hrest (t : Pass) (ht : (s.next ctx.placeholders).state? = some t) (text : String) :
        (run ctx (t.write text)).Keeps (Hidden ctx (.pass s)) (fun i => Shows s.out.text i ∨ Shows text i) Shows := by
      refine (ih t ht text (hprogress t ht)).mono ?_ (fun _ _ hi => hi) (hstep t ht text)
      rintro i (hi | hi)
      · exact Output.holds_push _ _ ((hcarried t ht).text _ hi)
      · exact Output.shows_push hi _
    cases hnext : s.next ctx.placeholders with
    | finished =>
      rw [run_finished hnext]
      exact keeps_finish hd s
    | moved found t =>
      have ht : (s.next ctx.placeholders).state? = some t := by rw [hnext]; rfl
      have hfound := hcarried t ht
      have hwritten := ih t ht "" (hprogress t ht)
      rw [Pass.write_empty] at hwritten
      rw [run_moved hnext]
      apply Keeps.after
      intro text issues k hr i hi
      have hlater (hi : Shows t.out.text i ∨ i ∈ issues) : Shows text i ∨ Hidden ctx (.pass s) i :=
        (hwritten text issues k hr i hi).imp_right fun hi => hstep t ht "" i (by rwa [Pass.write_empty])
      rcases hi with (hi | hi) | hi
      · exact hlater (.inl (hfound.text _ hi))
      · cases hm : s.isMasked with
        | true => exact .inr (Work.Hides.leftOut hm hnext hi).hidden
        | false => exact hlater (.inl (hfound.marks hm i (by rwa [hnext])))
      · exact hlater (.inr hi)
    | lexeme l t =>
      rw [run_lexeme hnext]
      apply ((Context.keeps_lexeme l).frame _).bind
      intro text _ _ _
      exact hrest t (by rw [hnext]; rfl) text
    | value v m t =>
      have hv : v.nodes < n := by
        have hwithin := s.within_next ctx.placeholders
        rw [hnext, Pass.Within] at hwithin
        omega
      rw [run_value hnext]
      apply (((h m v hv).of_lost fun i hi => hi.of_part (.asked hnext)).frame _).bind
      intro text _ _ _
      exact hrest t (by rw [hnext]; rfl) text

/-! ## Values -/

/-- The stream inside a value is a part of it. -/
theorem keeps_run_start (hd : ctx.dialect = k.dialect) (h : KeepsBelow ctx n) {ts : List Token} {w : Work}
    (hn : tokenNodes ts < n) (hw : w.Part ctx (.pass (.start ts))) :
    (run ctx (.start ts)).Keeps (Hidden ctx w) nothing Shows := by
  have hstart : (Pass.start ts).nodes < n := hn
  exact (keeps_run hd h hstart).mono nofun (fun _ _ hi => hi) fun _ hi => hi.of_part hw

theorem keeps_fragment (hd : ctx.dialect = k.dialect) (h : KeepsBelow ctx n) (m : Option Modifier) {ts : List Token}
    (hn : tokenNodes ts < n) :
    (render ctx m (.fragment ts)).Keeps (Hidden ctx (.value m (.fragment ts))) nothing Shows := by
  by_cases hm : m ∈ [none, some .sql, some .expand]
  · have hr : render ctx m (.fragment ts) = run ctx (.start ts) := by
      simp only [List.mem_cons, List.not_mem_nil, or_false] at hm
      rcases hm with rfl | rfl | rfl <;> rw [render]
    rw [hr]
    exact keeps_run_start hd h hn (.fragment hm ts)
  · cases m with
    | none => exact absurd List.mem_cons_self hm
    | some m =>
      have hr : render ctx (some m) (.fragment ts) = mismatch "fragment" m := by
        rw [render] <;> rintro ⟨⟩ <;> exact hm (by simp)
      rw [hr]
      exact keeps_mismatch _ _

theorem keeps_list (hd : ctx.dialect = k.dialect) (h : KeepsBelow ctx n) (m : Option Modifier) {items : List Value}
    (hn : itemNodes items < n) :
    (render ctx m (.list items)).Keeps (Hidden ctx (.value m (.list items))) nothing Shows := by
  by_cases hm : m ∈ [some .sql, some .expand, some .assign, some .values, some .rows]
  · have hstart : tokenNodes (items.map Token.ofElement) < n := by rwa [tokenNodes_map_ofElement]
    simp only [List.mem_cons, List.not_mem_nil, or_false] at hm
    rcases hm with rfl | rfl | rfl | rfl | rfl
    · rw [render]
      exact keeps_run_start hd h hstart (.elements (by simp) items)
    · rw [render]
      exact keeps_run_start hd h hstart (.elements (by simp) items)
    · rw [render]
      exact keeps_mismatch _ _
    · rw [render]
      exact keeps_mismatch _ _
    · rw [render]
      exact keeps_mismatch _ _
  · have hr : render ctx m (.list items) = closeItems m <$> renderItems ctx m items := by
      rw [render] <;> rintro rfl <;> exact hm (by simp)
    rw [hr]
    apply (keeps_renderItems h m hn fun v hv i hi => hi.of_part (.item hm hv)).map
    rintro texts _ _ _ i ⟨text, hmem, hi⟩
    exact hi.of_holds (holds_closeItems m hmem)

/-- The cells of a mapping whose values are written one by one. -/
theorem keeps_cells (h : KeepsBelow ctx n) {m : Option Modifier} {listAs : Modifier} (hm : (m, listAs) ∈ entryModes)
    {entries : List (String × Value)} (hn : entryNodes entries < n) :
    (renderCells ctx listAs entries).Keeps (Hidden ctx (.value m (.map entries))) nothing
      fun cells i => ∃ cell ∈ cells, ShowsInCell cell i :=
  keeps_renderCells h listAs hn fun _ he _ hm' _ hi => hi.of_part (.entry hm he hm')

theorem keeps_tuple (h : KeepsBelow ctx n) {m : Option Modifier} (hm : (m, .expand) ∈ entryModes) (m' : Modifier)
    {entries : List (String × Value)} (hn : entryNodes entries < n) :
    (tupleFor m' <$> renderValues ctx entries).Keeps (Hidden ctx (.value m (.map entries))) nothing Shows := by
  apply (keeps_renderValues h hn fun _ he _ hm' _ hi => hi.of_part (.entry hm he hm')).map
  rintro texts _ _ _ i ⟨text, hmem, hi⟩
  exact hi.of_holds (holds_tupleFor m' hmem)

theorem keeps_assignments (h : KeepsBelow ctx n) {m : Option Modifier} (hm : (m, .expand) ∈ entryModes)
    {entries : List (String × Value)} (hn : entryNodes entries < n) :
    (do
      let cells ← renderCells ctx .expand entries
      pure (commaList (cells.map assignment))).Keeps (Hidden ctx (.value m (.map entries))) nothing Shows := by
  apply (keeps_cells h hm hn).bind
  intro cells _ _ _
  apply Keeps.pure
  rintro i ⟨cell, hmem, hi⟩
  exact (shows_assignment hi).of_holds (holds_commaList (List.mem_map_of_mem hmem))

theorem keeps_comparisons (h : KeepsBelow ctx n) {m : Option Modifier} (hm : (m, .inList) ∈ entryModes) (word : String)
    {entries : List (String × Value)} (hn : entryNodes entries < n) :
    (do
      let cells ← renderCells ctx .inList entries
      pure (conditions word (entries.zipWith comparison cells))).Keeps (Hidden ctx (.value m (.map entries))) nothing
        Shows := by
  apply (keeps_cells h hm hn).bind
  intro cells _ _ hcells
  have hlength : cells.length = entries.length := by
    rw [renderCells_eq_mapM] at hcells
    exact Render.length_of_mapM hcells
  apply Keeps.pure
  rintro i ⟨cell, hmem, hi⟩
  obtain ⟨j, hj, rfl⟩ := List.getElem_of_mem hmem
  have hentry : j < entries.length := by omega
  have hzip : j < (entries.zipWith comparison cells).length := by
    rw [List.length_zipWith]
    omega
  have hcomparison : comparison entries[j] cells[j] ∈ entries.zipWith comparison cells := by
    rw [← List.getElem_zipWith (h := hzip)]
    exact List.getElem_mem hzip
  exact (shows_comparison hi _).of_holds (holds_conditions word hcomparison)

theorem keeps_map (h : KeepsBelow ctx n) (m : Option Modifier) {entries : List (String × Value)}
    (hn : entryNodes entries < n) :
    (render ctx m (.map entries)).Keeps (Hidden ctx (.value m (.map entries))) nothing Shows := by
  cases m with
  | none =>
    rw [render]
    exact keeps_assignments h (by simp [entryModes]) hn
  | some m =>
    cases m with
    | assign =>
      rw [render]
      exact keeps_assignments h (by simp [entryModes]) hn
    | values =>
      rw [render]
      apply (keeps_cells h (by simp [entryModes]) hn).map
      rintro cells _ _ _ i ⟨cell, hmem, hi⟩
      exact shows_valuesClause hmem hi
    | list =>
      rw [render]
      exact keeps_tuple h (by simp [entryModes]) .list hn
    | inList =>
      rw [render]
      exact keeps_tuple h (by simp [entryModes]) .inList hn
    | allOf =>
      rw [render]
      exact keeps_comparisons h (by simp [entryModes]) "AND" hn
    | anyOf =>
      rw [render]
      exact keeps_comparisons h (by simp [entryModes]) "OR" hn
    | identifier =>
      rw [render]
      have halias (e : String × Value) (he : e ∈ entries) :
          (ctx.alias e).Keeps (Hidden ctx (.value (some .identifier) (.map entries))) nothing Shows :=
        keeps_alias e fun hv i hi => (Work.Hides.lost (.column he hv hi)).hidden
      apply (Keeps.mapM halias).map
      rintro texts _ _ _ i ⟨text, hmem, hi⟩
      exact hi.of_holds (holds_commaList hmem)
    | orderBy =>
      rw [render]
      apply (keeps_renderOrder h hn fun _ he hlist _ hi => hi.of_part (.order he hlist)).map
      rintro texts _ _ _ i ⟨text, hmem, hi⟩
      exact hi.of_holds (holds_commaList hmem)
    | rows =>
      refine Keeps.of_givesWay ?_ fun i hi => (Work.Hides.lost (.rows hi)).hidden
      rw [render]
      apply (keeps_renderColumns h none hn fun _ _ he _ hv _ hm _ hi => hi.of_part (.cell he hv hm)).bind
      intro columns _ _ hcolumns
      exact keeps_closeColumns (wellShaped_renderColumns hcolumns)
    | _ =>
      rw [render]
      · exact keeps_mismatch _ _
      all_goals rintro ⟨⟩

/-- Every value shows its issues, but for what is hidden in it. -/
theorem keepsBelow (hd : ctx.dialect = k.dialect) (n : Nat) : KeepsBelow ctx n := by
  induction n with
  | zero =>
    intro m v hv
    omega
  | succ n ih =>
    intro m v hv
    cases v with
    | scalar a =>
      rw [render]
      exact Context.keeps_scalar m a
    | expression e =>
      rw [render]
      exact .ofDialect _
    | fragment ts =>
      rw [Value.nodes] at hv
      exact keeps_fragment hd ih m (by omega)
    | list items =>
      rw [Value.nodes] at hv
      exact keeps_list hd ih m (by omega)
    | map entries =>
      rw [Value.nodes] at hv
      exact keeps_map ih m (by omega)

/-! ## Mappings to names -/

/-- The course of a mapping to names: its stream, the mapping, and the end. -/
def Work.OnNames (entries : List (String × Value)) : Work → Prop
  | .pass s => s.lexemes = [] ∧ (s.queue = [.modifier "n", .value (.map entries)] ∨ s.queue = [])
  | .value m v => m = some .identifier ∧ v = .map entries

variable {entries : List (String × Value)}

theorem Work.OnNames.next (hs : Work.OnNames entries (.pass s)) (placeholders : Bool) :
    s.next placeholders = .finished ∨ s.next placeholders = .moved [] (s.enter [] []) ∨
      s.next placeholders = .value (.map entries) (some .identifier) (s.enter [] []) := by
  obtain ⟨hl, hq | hq⟩ := hs
  · have htakes : TakesToken "n" [] := by
      show Modifier.identifier ≠ .expand
      decide
    rw [s.next_modifier placeholders hl hq htakes]
    split
    · exact .inr (.inl rfl)
    · exact .inr (.inr rfl)
  · left
    rw [Pass.next, hl, hq]

theorem Work.OnNames.part {w w' : Work} (hw : w.OnNames entries) (hp : w.Part ctx w') : w'.OnNames entries := by
  cases hp with
  | @step s u hu =>
    obtain ⟨t, ht, out, rfl⟩ := hu
    rcases hw.next ctx.placeholders with hnext | hnext | hnext <;> rw [hnext] at ht <;> cases ht
    · exact ⟨rfl, .inr rfl⟩
    · exact ⟨rfl, .inr rfl⟩
  | asked hv =>
    rcases hw.next ctx.placeholders with hnext | hnext | hnext <;> rw [hnext] at hv <;> cases hv
    exact ⟨rfl, rfl⟩
  | fragment _ _ => cases hw.2
  | elements _ _ => cases hw.2
  | item _ _ => cases hw.2
  | entry hm _ _ =>
    obtain ⟨rfl, -⟩ := hw
    simp [entryModes] at hm
  | order _ _ => cases hw.1
  | cell _ _ _ => cases hw.1

/-- A mapping to names holds no SQL text, and so no keyword of a block. -/
theorem names_not_atBlock (h : Relation.ReflTransGen (Work.Part ctx)
    (.pass (.start [.modifier "n", .value (.map entries)])) (.pass s)) : ¬s.AtBlock := by
  have hnames (w : Work) (hreach : Relation.ReflTransGen (Work.Part ctx)
      (.pass (.start [.modifier "n", .value (.map entries)])) w) : w.OnNames entries := by
    induction hreach with
    | refl => exact ⟨rfl, .inl rfl⟩
    | tail _ hp ih => exact ih.part hp
  rintro ⟨k, behind, -, hl⟩
  rw [(hnames _ h).1] at hl
  cases hl

/-! ## Statements -/

/-- Whether no block is open in the pass. -/
def Work.NoBlock : Work → Prop
  | .pass s => s.branches = .empty
  | .value _ _ => True

theorem Work.Part.noBlock {w w' : Work} (hp : w.Part ctx w') (h : w.NoBlock) (hw : ∀ s, w = .pass s → ¬s.AtBlock) :
    w'.NoBlock := by
  cases hp with
  | @step s u hstep =>
    obtain ⟨t, ht, out, rfl⟩ := hstep
    have hbranches := (s.carried_next ctx.placeholders t ht).branches
    show t.branches = .empty
    rw [hbranches.resolve_left (hw s rfl)]
    exact h
  | fragment _ _ => rfl
  | elements _ _ => rfl
  | _ => trivial

/-- Where nothing comes to a keyword of a block, no block is ever open. -/
theorem noBlock_of_reaches {w w' : Work} (hreach : Relation.ReflTransGen (Work.Part ctx) w w') (h : w.NoBlock)
    (hw : ∀ s, Relation.ReflTransGen (Work.Part ctx) w (.pass s) → ¬s.AtBlock) : w'.NoBlock := by
  induction hreach with
  | refl => exact h
  | tail hreach hpart ih =>
    apply hpart.noBlock ih
    rintro s rfl
    exact hw s hreach

/-- Every issue of a statement is shown in it, or hidden. -/
theorem shown_or_hidden (hd : ctx.dialect = k.dialect) {ts : List Token} {statement : Statement}
    (h : ctx.compose ts = .ok statement) {i : Issue} (hi : i ∈ statement.issues) :
    Shows statement.sql i ∨ Hidden ctx (.pass (.start ts)) i := by
  have hrun := run_of_compose h
  have hkeeps := keeps_run hd (keepsBelow hd (tokenNodes ts + 1)) (Nat.lt_succ_self (Pass.start ts).nodes)
  exact hkeeps _ _ _ hrun i (.inr hi)

/-- Where nothing comes to a keyword of a block, every issue of a statement is shown in it, unless it gives way to
the mark of another issue: in a mapping to names, where a column stands with something that is no name, or in a mapping
to rows that gives none. -/
theorem issues_shown (hd : ctx.dialect = k.dialect) {ts : List Token} {statement : Statement}
    (h : ctx.compose ts = .ok statement)
    (hblock : ∀ s, Relation.ReflTransGen (Work.Part ctx) (.pass (.start ts)) (.pass s) → ¬s.AtBlock) :
    ∀ i ∈ statement.issues, Shows statement.sql i ∨
      ∃ m v, Relation.ReflTransGen (Work.Part ctx) (.pass (.start ts)) (.value m v) ∧ Lost ctx i m v := by
  intro i hi
  rcases shown_or_hidden hd h hi with hshown | ⟨w, hreach, hhides⟩
  · exact .inl hshown
  · cases hhides with
    | lost hlost => exact .inr ⟨_, _, hreach, hlost⟩
    | leftOut masked _ _ =>
      have hempty : Work.NoBlock (.pass _) := noBlock_of_reaches hreach rfl hblock
      rw [Pass.isMasked, hempty] at masked
      cases masked

/-- A name between colons stands for its text. -/
theorem substitute_name (subs : Substitutions) {cs name : List Char} (h : nameAt? cs = some (name, [])) :
    subs.substitute (String.ofList (':' :: cs)) = subs.resolve (String.ofList name) := by
  rw [Substitutions.substitute, String.toList_ofList, Substitutions.substituteChars, if_pos rfl]
  split
  · next hname =>
    rw [h] at hname
    cases hname
    rw [Substitutions.substituteChars]
    cases subs.resolve (String.ofList name) with
    | error i => rfl
    | ok text =>
      show Except.ok (String.ofList (text.toList ++ [])) = _
      rw [List.append_nil, String.ofList_toList]
  · next hname =>
    rw [h] at hname
    cases hname

/-- A column whose name is not known, with a number in place of its other name. -/
theorem compose_nameless :
    let ctx : Context := .leapDay .generic
    let nameless : Issue := .invalidCombination "int" "n"
    ctx.compose [.modifier "n", .value (.map [(":x:", .scalar (.int 5))])] =
      .ok ⟨nameless.mark, [.unresolvedSubstitution "x", nameless], 0⟩ := by
  intro ctx nameless
  let entries : List (String × Value) := [(":x:", .scalar (.int 5))]
  let s := Pass.start [.modifier "n", .value (.map entries)]
  have hnext : s.next ctx.placeholders = .value (.map entries) (some .identifier) (s.enter [] []) := rfl
  have hname : nameAt? ['x', ':'] = some (['x'], []) := by decide
  have hsubstitute : ctx.substitutions.substitute ":x:" = .error (.unresolvedSubstitution "x") :=
    substitute_name ctx.substitutions hname
  have halias : ctx.alias (":x:", .scalar (.int 5)) = .done nameless.mark [.unresolvedSubstitution "x", nameless] 0 := by
    rw [Context.alias, Context.identifier, hsubstitute]
    rfl
  have hrender : render ctx (some .identifier) (.map entries) =
      .done nameless.mark [.unresolvedSubstitution "x", nameless] 0 := by
    rw [render, List.mapM_cons, List.mapM_nil, halias]
    rfl
  have hfinish : ((s.enter [] []).write nameless.mark).finish ctx = .done nameless.mark [] 0 := by
    have hout : ((s.enter [] []).write nameless.mark).out.finish = nameless.mark := by decide +kernel
    show Render.after [] 0 (pure ((s.enter [] []).write nameless.mark).out.finish) = _
    rw [hout]
    rfl
  have hrun : run ctx s = .done nameless.mark [.unresolvedSubstitution "x", nameless] 0 := by
    rw [run_value hnext, hrender, Render.done_bind, run_finished rfl, hfinish]
    rfl
  rw [Context.compose, hrun]

/-- One of its issues is shown, and the other gives way to it. -/
theorem issues_shown_nameless :
    let ctx : Context := .leapDay .generic
    let ts : List Token := [.modifier "n", .value (.map [(":x:", .scalar (.int 5))])]
    ∃ statement, ctx.compose ts = .ok statement ∧
      (∀ s, Relation.ReflTransGen (Work.Part ctx) (.pass (.start ts)) (.pass s) → ¬s.AtBlock) ∧
      ∀ i ∈ statement.issues, Shows statement.sql i ∨
        ∃ m v, Relation.ReflTransGen (Work.Part ctx) (.pass (.start ts)) (.value m v) ∧ Lost ctx i m v := by
  intro ctx ts
  have hblock (s : Pass) (hs : Relation.ReflTransGen (Work.Part ctx) (.pass (.start ts)) (.pass s)) : ¬s.AtBlock :=
    names_not_atBlock hs
  have hd : ctx.dialect = Dialect.Kind.generic.dialect := rfl
  exact ⟨_, compose_nameless, hblock, issues_shown hd compose_nameless hblock⟩

/-- The mark of a name that is not known is missing, though no block is near. -/
theorem mark_missing_nameless :
    let ctx : Context := .leapDay .generic
    let ts : List Token := [.modifier "n", .value (.map [(":x:", .scalar (.int 5))])]
    (∀ s, Relation.ReflTransGen (Work.Part ctx) (.pass (.start ts)) (.pass s) → ¬s.AtBlock) ∧
    ∃ statement, ctx.compose ts = .ok statement ∧ statement.masked = 0 ∧
      .unresolvedSubstitution "x" ∈ statement.issues ∧ ¬Shows statement.sql (.unresolvedSubstitution "x") := by
  intro ctx ts
  have hmissing : ¬Shows (Issue.invalidCombination "int" "n").mark (.unresolvedSubstitution "x") := by
    rw [Shows, Holds]
    decide +kernel
  exact ⟨fun s hs => names_not_atBlock hs, _, compose_nameless, rfl, List.mem_cons_self, hmissing⟩

end SqlComposer
