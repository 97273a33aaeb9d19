import SqlComposer.Proofs.Pass.Slot

/-!
# Placeholders and bare values

* `unspacedOutcome_bare`, `unspacedOutcome_row` : a value without modifier between plain texts;
* `unspaced_assignments_ne` : assignments are no row of values;
* `placeholder_written` : a placeholder writes what a bare token writes, but for the first row of a statement that
  inserts rows.
-/

namespace SqlComposer

variable {ctx : Context} {s : Pass} {q : List Token} {before after : String}

/-! ## Bare values -/

theorem render_bareModifier (ctx : Context) (v : Value) : render ctx (Pass.bareModifier v) v = render ctx none v := by
  cases v with
  | map entries => simp only [Pass.bareModifier, render]
  | _ => rfl

/-- Between two texts a bare value is written by its own kind, unless it is the first row of a statement that
inserts rows. -/
theorem unspacedOutcome_bare (hb : isPlain ctx.placeholders before.toList = true)
    (ha : isPlain ctx.placeholders after.toList = true) {v : Value}
    (hi : isInsertCommand before = false ∨ Pass.bareModifier v = none) :
    ctx.unspacedOutcome [.sql before, .value v, .sql after] = (render ctx none v).between before after := by
  have h := before_behind before [.value v, .sql after]
  rw [← inserting_behind before [.value v, .sql after]] at hi
  obtain ⟨r, hn⟩ := (Pass.behind before _).next_value ctx.placeholders h.lexemes h.queue h.shown hi
  rw [unspacedOutcome_value hb ha hn ⟨rfl, rfl, h.shown, h.bounds⟩ rfl, render_bareModifier]

theorem Pass.mapping_firstRow (entries : List (String × Value)) (hi : s.inserting = true) (hr : s.lastRow = .none) :
    s.mapping entries = .value (.map entries) (some .values) { s with lastRow := .adjacent } := by
  rw [mapping, hi, hr]
  rfl

theorem Pass.next_firstRow (placeholders : Bool) {entries : List (String × Value)} (hl : s.lexemes = [])
    (hq : s.queue = .value (.map entries) :: q) (hm : s.isMasked = false) (hi : s.inserting = true)
    (hr : s.lastRow = .none) :
    s.next placeholders = .value (.map entries) (some .values) { s.enter [] q with lastRow := .adjacent } := by
  have hn : ¬s.isMasked = true := by rw [hm]; decide
  rw [next, hl, hq]
  exact (if_neg hn).trans (mapping_firstRow (s := { s with lexemes := [], queue := q }.endToken) entries hi hr)

/-- The first row of a statement that inserts rows. -/
theorem unspacedOutcome_row (hb : isPlain ctx.placeholders before.toList = true)
    (ha : isPlain ctx.placeholders after.toList = true) (entries : List (String × Value))
    (hi : isInsertCommand before = true) :
    ctx.unspacedOutcome [.sql before, .value (.map entries), .sql after] =
      (render ctx (some .values) (.map entries)).between before after := by
  have h := before_behind before [.value (.map entries), .sql after]
  rw [← inserting_behind before [.value (.map entries), .sql after]] at hi
  have hn := Pass.next_firstRow ctx.placeholders h.lexemes h.queue h.shown hi rfl
  exact unspacedOutcome_value hb ha hn ⟨rfl, rfl, h.shown, h.bounds⟩ rfl

/-! ## Assignments and rows -/

/-- A list of texts has a comma less than texts. -/
theorem unspaced_commaList_length (texts : List String) :
    (Text.unspaced (commaList texts).toList).length =
      (texts.flatMap fun text => Text.unspaced text.toList).length + (texts.length - 1) := by
  rw [commaList, String.toList_intercalate]
  induction texts with
  | nil => rfl
  | cons text texts ih =>
    cases texts with
    | nil => simp
    | cons other texts =>
      have hcomma : Text.unspaced ", ".toList = [','] := by decide
      rw [List.map_cons, List.map_cons, List.intercalate_cons_cons, ← List.map_cons, Text.unspaced_append,
        Text.unspaced_append, hcomma, List.length_append, List.length_append, ih]
      simp only [List.flatMap_cons, List.length_append, List.length_cons, List.length_nil]
      omega

theorem assignments_length (cells : List (String × String)) :
    ((cells.map assignment).flatMap fun text => Text.unspaced text.toList).length =
      ((cells.map Prod.fst).flatMap fun text => Text.unspaced text.toList).length +
        ((cells.map Prod.snd).flatMap fun text => Text.unspaced text.toList).length + cells.length := by
  induction cells with
  | nil => rfl
  | cons cell cells ih =>
    have hequals : Text.unspaced " = ".toList = ['='] := by decide
    have hcell : (Text.unspaced (assignment cell).toList).length =
        (Text.unspaced cell.1.toList).length + 1 + (Text.unspaced cell.2.toList).length := by
      simp only [assignment, String.toList_append, Text.unspaced_append, List.length_append, hequals, List.length_cons,
        List.length_nil, Nat.zero_add]
    simp only [List.map_cons, List.flatMap_cons, List.length_append, List.length_cons, ih, hcell]
    omega

/-- Assignments are no row, whatever the columns and values: they are too short. -/
theorem unspaced_assignments_ne (cells : List (String × String)) :
    Text.unspaced (commaList (cells.map assignment)).toList ≠ Text.unspaced (valuesClause cells).toList := by
  intro h
  have hlength := congrArg List.length h
  have hopen : Text.unspaced "(".toList = ['('] := by decide
  have hclose : Text.unspaced ")".toList = [')'] := by decide
  have hword : Text.unspaced " VALUES ".toList = ['V', 'A', 'L', 'U', 'E', 'S'] := by decide
  simp only [valuesClause, tuple, String.toList_append, Text.unspaced_append, List.length_append, hopen, hclose, hword,
    unspaced_commaList_length, assignments_length, List.length_map, List.length_cons, List.length_nil] at hlength
  omega

/-- Both ways of writing a mapping write its columns and values, and find the same. -/
theorem issues_values (ctx : Context) (entries : List (String × Value)) (before after : String) :
    ((render ctx none (.map entries)).between before after).map Prod.snd =
      ((render ctx (some .values) (.map entries)).between before after).map Prod.snd := by
  simp only [render]
  cases renderCells ctx .expand entries <;> rfl

/-- Assignments take the place of a row only where the dialect fails. -/
theorem between_values_eq_iff (ctx : Context) (entries : List (String × Value)) (before after : String) :
    (render ctx none (.map entries)).between before after =
        (render ctx (some .values) (.map entries)).between before after ↔
      ∃ e, (render ctx (some .values) (.map entries)).between before after = .error e := by
  simp only [render]
  cases renderCells ctx .expand entries with
  | failed e => exact ⟨fun _ => ⟨e, rfl⟩, fun _ => rfl⟩
  | done cells issues n =>
    constructor
    · intro h
      have htext := congrArg Prod.fst (Except.ok.inj h)
      have hne := unspaced_assignments_ne cells
      exact absurd (List.append_cancel_left (List.append_cancel_right htext)) hne
    · rintro ⟨e, h⟩
      cases h

/-! ## Placeholders -/

/-- A placeholder and a bare token find the same and, where no rows are inserted, write the same. The first row of
a statement that inserts rows is written as assignments by a placeholder. -/
theorem placeholder_written (hp : ctx.placeholders = true) (hb : isPlain ctx.placeholders before.toList = true)
    (ha : isPlain ctx.placeholders after.toList = true) (v : Value) :
    let slot := ctx.unspacedOutcome [.sql (before ++ "?" ++ after), .value v]
    let bare := ctx.unspacedOutcome [.sql before, .value v, .sql after]
    slot.map Prod.snd = bare.map Prod.snd ∧
      (slot = bare ↔ isInsertCommand before = false ∨ (∀ entries, v ≠ .map entries) ∨ ∃ e, bare = .error e) ∧
      ∀ entries, v = .map entries →
        slot = ctx.unspacedOutcome [.sql before, .modifier Modifier.assign.code, .value v, .sql after] := by
  have hslot : ctx.unspacedOutcome [.sql (before ++ "?" ++ after), .value v] =
      (render ctx none v).between before after :=
    @unspacedOutcome_slot ctx before after .placeholder none hb ha hp .placeholder (.value v)
  intro slot bare
  have hassign : ∀ entries, v = .map entries →
      slot = ctx.unspacedOutcome [.sql before, .modifier Modifier.assign.code, .value v, .sql after] := by
    rintro entries rfl
    rw [unspacedOutcome_modifier hb ha (Marker.ofCode?_modifier_code .assign) (by decide)]
    exact hslot.trans (congrArg (Render.between before after) (render_bareModifier ctx (.map entries)).symm)
  -- a mapping behind the start of an inserting statement is the one value that is not written alike
  by_cases h : isInsertCommand before = false ∨ Pass.bareModifier v = none
  · have hbare : slot = bare := hslot.trans (unspacedOutcome_bare hb ha h).symm
    refine ⟨by rw [hbare], iff_of_true hbare (h.imp_right fun hv => .inl ?_), hassign⟩
    rintro entries rfl
    cases hv
  · rw [not_or, Bool.not_eq_false] at h
    obtain ⟨hi, hv⟩ := h
    cases v with
    | map entries =>
      have hbare : bare = (render ctx (some .values) (.map entries)).between before after :=
        unspacedOutcome_row hb ha entries hi
      refine ⟨?_, ?_, hassign⟩
      · rw [hbare, ← issues_values]
        exact congrArg _ hslot
      · rw [hbare, hi]
        refine (iff_of_eq (congrArg (· = _) hslot)).trans ((between_values_eq_iff ctx entries before after).trans ?_)
        simp
    | _ => exact absurd rfl hv

/-- A list in the statement that a placeholder stands in. -/
theorem placeholder_written_list :
    let ctx : Context := .leapDay .sqlserver
    let v : Value := .list [.scalar (.int 1), .scalar (.text "x?")]
    ctx.placeholders = true ∧ isPlain ctx.placeholders "REPLACE INTO t VALUES (".toList = true ∧
      isPlain ctx.placeholders ")".toList = true ∧
      ctx.unspacedOutcome [.sql ("REPLACE INTO t VALUES (" ++ "?" ++ ")"), .value v] =
        ctx.unspacedOutcome [.sql "REPLACE INTO t VALUES (", .value v, .sql ")"] := by
  intro ctx v
  have hb : isPlain true "REPLACE INTO t VALUES (".toList = true := by decide +kernel
  have ha : isPlain true ")".toList = true := by decide
  refine ⟨rfl, hb, ha, ?_⟩
  have hv : ∀ entries, v ≠ .map entries := by
    intro entries
    exact Value.noConfusion
  have h := @placeholder_written ctx _ _ rfl hb ha v
  exact h.2.1.2 (.inr (.inl hv))

/-- The first row of a statement that inserts rows, by a placeholder and bare. -/
theorem placeholder_writes_no_row :
    let ctx : Context := .leapDay .generic
    let row : Value := .map [("a", .scalar (.int 1))]
    let slot := ctx.unspacedOutcome [.sql ("INSERT INTO t " ++ "?" ++ ""), .value row]
    let bare := ctx.unspacedOutcome [.sql "INSERT INTO t ", .value row, .sql ""]
    slot = .ok ("INSERTINTOt\"a\"=1".toList, []) ∧ bare = .ok ("INSERTINTOt(\"a\")VALUES(1)".toList, []) ∧
      slot ≠ bare := by
  intro ctx row slot bare
  have hb : isPlain true "INSERT INTO t ".toList = true := by decide +kernel
  have hi : isInsertCommand "INSERT INTO t " = true := by decide +kernel
  have hcells : renderCells ctx .expand [("a", .scalar (.int 1))] = .done [("\"a\"", "1")] [] 0 := by
    have hname : ctx.substitutions.substitute "a" = .ok "a" := by
      show (ctx.substitutions.substituteChars ['a']).map String.ofList = .ok "a"
      rw [Substitutions.substituteChars, if_neg (by decide), Substitutions.substituteChars]
      rfl
    have hcolumn : ctx.identifier "a" = .done "\"a\"" [] 0 := by
      rw [Context.identifier, hname]
      rfl
    have hvalue : render ctx none (.scalar (.int 1)) = .done "1" [] 0 := by
      rw [render]
      rfl
    have hkey : splitKey "a" = ("a", none) := by decide
    rw [renderCells, renderCells, entryModifier, hkey, hcolumn]
    simp [Value.isList, hvalue, Render.pure_eq]
  have hslot : slot = .ok ("INSERTINTOt\"a\"=1".toList, []) := by
    have h := @unspacedOutcome_slot ctx "INSERT INTO t " "" .placeholder none hb rfl rfl .placeholder (.value row)
    refine h.trans ?_
    rw [Token.toValue, render, hcells]
    refine congrArg (fun text => Except.ok (text, [])) ?_
    decide +kernel
  have hbare : bare = .ok ("INSERTINTOt(\"a\")VALUES(1)".toList, []) := by
    have h := @unspacedOutcome_row ctx "INSERT INTO t " "" hb rfl [("a", .scalar (.int 1))] hi
    refine h.trans ?_
    rw [render, hcells]
    refine congrArg (fun text => Except.ok (text, [])) ?_
    decide +kernel
  refine ⟨hslot, hbare, ?_⟩
  rw [hslot, hbare]
  intro h
  have htext := congrArg Prod.fst (Except.ok.inj h)
  revert htext
  decide +kernel

end SqlComposer
