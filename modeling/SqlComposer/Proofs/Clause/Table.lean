import SqlComposer.Proofs.Pass.Rows
import SqlComposer.Proofs.Pass.Total
import SqlComposer.Proofs.Render.Tally

/-!
# Tables of values

Many rows can be inserted as a mapping for each row, or as one mapping with a list for each column.

* `Table` : values in rows and columns; `Table.row`, `Table.columns` : the two ways of giving them;
* `Table.Written` : what the columns and the values are written as, and what is noted on the way;
* `rowsClause_ofFn` : the clause of columns, row by row;
* `compose_rows` : both ways give the same statement, with the same issues but for their order.
-/

namespace SqlComposer

open Render (Gives)

/-- Values in rows and columns, with a key for each column. -/
structure Table (n m : Nat) where
  key : Fin m → String
  cell : Fin n → Fin m → Value

namespace Table

variable {n m : Nat}

/-- A row as a mapping. -/
def row (t : Table n m) (i : Fin n) : List (String × Value) :=
  List.ofFn fun j => (t.key j, t.cell i j)

/-- All rows as one mapping, with the list of its values for each column. -/
def columns (t : Table n m) : List (String × Value) :=
  List.ofFn fun j => (t.key j, .list (List.ofFn fun i => t.cell i j))

/-- What the parts of a table are written as. -/
structure Written (ctx : Context) (t : Table n m) where
  name : Fin m → String
  nameTally : Fin m → Tally
  text : Fin n → Fin m → String
  tally : Fin n → Fin m → Tally
  names : ∀ j, (ctx.identifier (splitKey (t.key j)).1).Gives (name j) (nameTally j)
  texts : ∀ i j, (ctx.entryText .expand (t.key j, t.cell i j)).Gives (text i j) (tally i j)

variable {ctx : Context} {t : Table n m}

/-- In a dialect that never fails a table is written, if its expressions write themselves. -/
theorem exists_written (hd : ctx.dialect.WritesAll) (hcells : ∀ i j, (t.cell i j).Renders ctx.dialect) :
    Nonempty (t.Written ctx) := by
  have hname (j : Fin m) := Gives.exists_of_notes (Context.notes_identifier hd (splitKey (t.key j)).1)
  have htext (i : Fin n) (j : Fin m) : ∃ a u, (ctx.entryText .expand (t.key j, t.cell i j)).Gives a u := by
    apply Gives.exists_of_notes
    apply notes_entryText (notesBelow hd _) .expand (Nat.lt_succ_self _)
    intro m' _
    exact Work.Of.succeeds (w := .value m' (t.cell i j)) (hcells i j)
  choose name nameTally names using hname
  choose text tally texts using htext
  exact ⟨name, nameTally, text, tally, names, texts⟩

namespace Written

/-! ## Rows -/

theorem gives_cells (w : t.Written ctx) (i : Fin n) :
    (renderCells ctx .expand (t.row i)).Gives (List.ofFn fun j => (w.name j, w.text i j))
      (∑ j, (w.nameTally j + w.tally i j)) := by
  rw [renderCells_eq_mapM]
  apply Gives.mapM_ofFn
  intro j
  unfold Context.entryCell
  exact (w.names j).bind (w.texts i j).bind_pure

theorem gives_values (w : t.Written ctx) (i : Fin n) :
    (renderValues ctx (t.row i)).Gives (List.ofFn (w.text i)) (∑ j, w.tally i j) := by
  rw [renderValues_eq_mapM]
  exact Gives.mapM_ofFn (w.texts i)

end Written

end Table

/-! ## Columns -/

theorem map_range_eq_ofFn {α : Type} (f : Nat → α) (n : Nat) :
    (List.range n).map f = List.ofFn fun i : Fin n => f i := by
  apply List.ext_getElem
  · simp
  · simp

/-- The clause of columns with as many values each, row by row. -/
theorem rowsClause_ofFn {n m : Nat} (name : Fin m → String) (text : Fin n → Fin m → String) :
    rowsClause n (List.ofFn fun j => (name j, List.ofFn fun i => text i j)) =
      tuple (List.ofFn name) ++ " VALUES " ++ commaList (List.ofFn fun i => tuple (List.ofFn (text i))) := by
  let columns := List.ofFn fun j => (name j, List.ofFn fun i => text i j)
  have hnames : columns.map Prod.fst = List.ofFn name := List.map_ofFn
  have hrow (i : Fin n) : columns.filterMap (fun c => c.2[(i : Nat)]?) = List.ofFn (text i) := by
    have hcell (j : Fin m) : (List.ofFn fun i => text i j)[(i : Nat)]? = some (text i j) := by simp
    show (List.ofFn fun j => (name j, List.ofFn fun i => text i j)).filterMap (fun c => c.2[(i : Nat)]?) = _
    rw [List.ofFn_eq_map, List.ofFn_eq_map, List.filterMap_map, ← List.filterMap_eq_map]
    exact List.filterMap_congr fun j _ => hcell j
  show rowsClause n columns = _
  rw [rowsClause, hnames, map_range_eq_ofFn]
  simp only [hrow]

/-- A column as high as it should be. -/
theorem renderColumns_list {ctx : Context} {height : Option Nat} {key : String} {items : List Value}
    (hfits : height.any (· != items.length) = false) (entries : List (String × Value)) :
    renderColumns ctx height ((key, .list items) :: entries) = (do
      let column ← ctx.identifier (splitKey key).1
      let texts ← renderValues ctx (items.map (Prod.mk key))
      let columns ← renderColumns ctx (some items.length) entries
      pure (columns.map ((column, texts) :: ·))) := by
  rw [renderColumns]
  simp only [hfits, Bool.false_eq_true, if_false]

namespace Table

variable {n m : Nat} {ctx : Context}

/-- The columns behind the first. -/
def tail (t : Table n (m + 1)) : Table n m :=
  ⟨fun j => t.key j.succ, fun i j => t.cell i j.succ⟩

def Written.tail {t : Table n (m + 1)} (w : t.Written ctx) : t.tail.Written ctx where
  name j := w.name j.succ
  nameTally j := w.nameTally j.succ
  text i j := w.text i j.succ
  tally i j := w.tally i j.succ
  names j := w.names j.succ
  texts i j := w.texts i j.succ

theorem columns_succ (t : Table n (m + 1)) :
    t.columns = (t.key 0, .list (List.ofFn fun i => t.cell i 0)) :: t.tail.columns :=
  List.ofFn_succ

/-- Columns of the same height are written one by one. -/
theorem Written.gives_columns {t : Table n m} (w : t.Written ctx) {height : Option Nat}
    (hheight : height = none ∨ height = some n) :
    (renderColumns ctx height t.columns).Gives (.ok (List.ofFn fun j => (w.name j, List.ofFn fun i => w.text i j)))
      (∑ j, (w.nameTally j + ∑ i, w.tally i j)) := by
  -- the first column sets the height, and the induction goes on with it
  induction m generalizing height with
  | zero =>
    have hnil : t.columns = [] := List.ofFn_zero
    rw [hnil, renderColumns]
    exact .pure _
  | succ m ih =>
    have hlength : (List.ofFn fun i => t.cell i 0).length = n := List.length_ofFn
    have hfits : height.any (· != (List.ofFn fun i => t.cell i 0).length) = false := by
      rcases hheight with rfl | rfl <;> simp
    have hvalues : (renderValues ctx ((List.ofFn fun i => t.cell i 0).map (Prod.mk (t.key 0)))).Gives
        (List.ofFn fun i => w.text i 0) (∑ i, w.tally i 0) := by
      rw [renderValues_eq_mapM, List.map_ofFn]
      exact Gives.mapM_ofFn fun i => w.texts i 0
    have hrest := ih w.tail (.inr rfl)
    rw [columns_succ, renderColumns_list hfits, hlength, Fin.sum_univ_succ, List.ofFn_succ, add_assoc]
    exact (w.names 0).bind (hvalues.bind hrest.bind_pure)

/-- The clause of a table. -/
def Written.clause {t : Table n m} (w : t.Written ctx) : String :=
  tuple (List.ofFn w.name) ++ " VALUES " ++ commaList (List.ofFn fun i => tuple (List.ofFn (w.text i)))

/-- What is noted in a table. -/
def Written.sum {t : Table n m} (w : t.Written ctx) : Tally :=
  ∑ j, (w.nameTally j + ∑ i, w.tally i j)

theorem Written.gives_rows {t : Table (n + 1) (m + 1)} (w : t.Written ctx) :
    (render ctx (some .rows) (.map t.columns)).Gives w.clause w.sum := by
  have hclosed : closeColumns (.ok (List.ofFn fun j => (w.name j, List.ofFn fun i => w.text i j))) =
      pure (rowsClause (n + 1) (List.ofFn fun j => (w.name j, List.ofFn fun i => w.text i j))) := by
    rw [List.ofFn_succ, closeColumns]
    simp
  rw [render, Written.clause, ← rowsClause_ofFn, ← add_zero w.sum]
  refine (w.gives_columns (.inl rfl)).bind ?_
  rw [hclosed]
  exact .pure _

end Table

/-! ## Statements -/

namespace Table.Written

variable {n m : Nat} {ctx : Context} {t : Table (n + 1) (m + 1)} {first : String}

/-- The clause is the first row with its columns, and the other rows behind commas. -/
theorem clause_eq (w : t.Written ctx) :
    w.clause = valuesClause (List.ofFn fun j => (w.name j, w.text 0 j)) ++
      concat ((List.ofFn fun i : Fin n => List.ofFn (w.text i.succ)).map fun texts => ", " ++ tuple texts) := by
  have hnames : (List.ofFn fun j => (w.name j, w.text 0 j)).map Prod.fst = List.ofFn w.name := List.map_ofFn
  have htexts : (List.ofFn fun j => (w.name j, w.text 0 j)).map Prod.snd = List.ofFn (w.text 0) := List.map_ofFn
  have hrows : (List.ofFn fun i => tuple (List.ofFn (w.text i))) =
      tuple (List.ofFn (w.text 0)) :: List.ofFn fun i : Fin n => tuple (List.ofFn (w.text i.succ)) := List.ofFn_succ
  rw [clause, hrows, commaList_cons, valuesClause, hnames, htexts, List.map_ofFn, List.map_ofFn, String.append_assoc,
    String.append_assoc, String.append_assoc]
  rfl

/-- The notes of the rows, one after the other, are those of the columns. -/
theorem sum_eq (w : t.Written ctx) :
    ∑ j, (w.nameTally j + w.tally 0 j) + ∑ i : Fin n, ∑ j, w.tally i.succ j = w.sum := by
  rw [sum, Finset.sum_comm, ← Finset.sum_add_distrib]
  refine Finset.sum_congr rfl fun j _ => ?_
  rw [Fin.sum_univ_succ, add_assoc]

/-- Adjacent rows behind the first text. -/
theorem gives_adjacent (w : t.Written ctx) (hi : isInsertCommand first = true) (text : String) :
    (run ctx (.behindFront first text (List.ofFn fun i => .value (.map (t.row i))))).Gives
      (Output.finish ⟨Output.opening text w.clause, false⟩) w.sum := by
  have hrows : (List.ofFn fun i : Fin n => Token.value (.map (t.row i.succ))) =
      (List.ofFn fun i : Fin n => t.row i.succ).map fun entries => .value (.map entries) := by
    rw [List.map_ofFn]
    rfl
  let firstRow := valuesClause (List.ofFn fun j => (w.name j, w.text 0 j))
  have hlast : (Output.opening text firstRow).toList.getLast? = some ')' :=
    Output.getLast?_opening (head?_valuesClause _) (by decide) (getLast?_valuesClause _)
  rw [List.ofFn_succ, run_firstRow hi, hrows, ← w.sum_eq, w.clause_eq,
    Output.opening_append (head?_valuesClause _) (by decide)]
  refine (w.gives_cells 0).bind ?_
  rw [run_rows rfl (inserting_behindFront _ _ _ |>.trans hi) hlast, ← add_zero (∑ i : Fin n, _)]
  refine (Gives.mapM_ofFn fun i => w.gives_values i.succ).bind ?_
  rw [run_atRow_nil rfl rfl]
  exact .pure _

/-- All columns as the last token. -/
theorem gives_asColumns (w : t.Written ctx) (text : String) :
    (run ctx (.behindFront first text [.modifier Modifier.rows.code, .value (.map t.columns)])).Gives
      (Output.finish ⟨Output.opening text w.clause, false⟩) w.sum := by
  rw [run_lastModifier (Marker.ofCode?_modifier_code .rows) (by decide)]
  exact w.gives_rows.bind_pure

end Table.Written

/-- Both ways of inserting the rows of a table, a mapping for each row and one mapping with the columns, give the same
statement with the same issues but for their order. -/
theorem compose_rows {k : Dialect.Kind} {ctx : Context} (hd : ctx.dialect = k.dialect) {first : String}
    (hi : isInsertCommand first = true) (hfirst : ∀ l ∈ scan (.fragment ctx.placeholders) first, l.IsPassive)
    {n m : Nat} (hn : 0 < n) (hm : 0 < m) (t : Table n m) (hcells : ∀ i j, (t.cell i j).Renders ctx.dialect) :
    ∃ sql issues issues' masked,
      ctx.compose (.sql first :: List.ofFn fun i => .value (.map (t.row i))) = .ok ⟨sql, issues, masked⟩ ∧
      ctx.compose [.sql first, .modifier Modifier.rows.code, .value (.map t.columns)] = .ok ⟨sql, issues', masked⟩ ∧
      issues.Perm issues' := by
  have hwrites : ctx.dialect.WritesAll := by
    rw [hd]
    exact k.writesAll
  obtain ⟨n, rfl⟩ := Nat.exists_eq_add_one.2 hn
  obtain ⟨m, rfl⟩ := Nat.exists_eq_add_one.2 hm
  obtain ⟨w⟩ := Table.exists_written hwrites hcells
  obtain ⟨texts, front, hfront⟩ := Gives.exists_of_notes
    (Render.Notes.mapM fun l (_ : l ∈ scan (.fragment ctx.placeholders) first) => Context.notes_lexeme hwrites l)
  have hrows : (run ctx (.start (.sql first :: List.ofFn fun i => .value (.map (t.row i))))).Gives
      (Output.finish ⟨Output.opening (concat texts) w.clause, false⟩) (front + w.sum) := by
    rw [run_front hfirst]
    exact hfront.bind (w.gives_adjacent hi (concat texts))
  have hcolumns : (run ctx (.start [.sql first, .modifier Modifier.rows.code, .value (.map t.columns)])).Gives
      (Output.finish ⟨Output.opening (concat texts) w.clause, false⟩) (front + w.sum) := by
    rw [run_front hfirst]
    exact hfront.bind (w.gives_asColumns (concat texts))
  obtain ⟨issues, issues', masked, hr, hc, hperm⟩ := hrows.perm hcolumns
  refine ⟨Output.finish ⟨Output.opening (concat texts) w.clause, false⟩, issues, issues', masked, ?_, ?_, hperm⟩
  · rw [Context.compose, hr]
  · rw [Context.compose, hc]

/-- Two rows, with a suffix at a key, a text that is no number and a list. -/
def sampleTable : Table 2 2 where
  key := ![":x:%i", "b"]
  cell := ![![.scalar (.text "one"), .scalar .null], ![.scalar (.int 2), .list [.scalar (.text "NOW()")]]]

theorem compose_rows_sample :
    let ctx : Context := .leapDay .generic
    isInsertCommand " replace INTO t" = true ∧
      (∀ l ∈ scan (.fragment ctx.placeholders) " replace INTO t", l.IsPassive) ∧
      (∀ i j, (sampleTable.cell i j).Renders ctx.dialect) ∧
      ∃ sql issues issues' masked,
        ctx.compose [.sql " replace INTO t", .value (.map (sampleTable.row 0)), .value (.map (sampleTable.row 1))] =
          .ok ⟨sql, issues, masked⟩ ∧
        ctx.compose [.sql " replace INTO t", .modifier "m", .value (.map sampleTable.columns)] =
          .ok ⟨sql, issues', masked⟩ ∧
        issues.Perm issues' := by
  intro ctx
  have hi : isInsertCommand " replace INTO t" = true := by decide +kernel
  have hscan : scan (.fragment true) " replace INTO t" = [.text " replace INTO t"] := by decide +kernel
  have hfirst : ∀ l ∈ scan (.fragment ctx.placeholders) " replace INTO t", l.IsPassive := by
    show ∀ l ∈ scan (.fragment true) " replace INTO t", l.IsPassive
    rw [hscan]
    rintro l hl
    obtain rfl := List.mem_singleton.1 hl
    trivial
  have hcells : ∀ i j, (sampleTable.cell i j).Renders ctx.dialect := by
    refine Fin.forall_fin_two.2 ⟨Fin.forall_fin_two.2 ⟨.scalar _, .scalar _⟩, ?_⟩
    refine Fin.forall_fin_two.2 ⟨.scalar _, .list ?_⟩
    intro v hv
    obtain rfl := List.mem_singleton.1 hv
    exact .scalar _
  exact ⟨hi, hfirst, hcells, compose_rows rfl hi hfirst (by decide) (by decide) sampleTable hcells⟩

end SqlComposer
