import SqlComposer.Proofs.Pass.Slot

/-!
# Tokens in place of a token

* `Value.spliced?` : the tokens that come in place of a value; `Pass.next_splice`, `Pass.next_spliceMarker` : the step;
* `run_spliceMarker` : a marker in plain text lets them come behind the whole text;
* `WritesAnywhere` : tokens that are written alike wherever they stand; `exists_writesAnywhere_elements` : the
  elements of a list;
* `expand_written` : where a list is written by a marker in the text, and by an explicit modifier.
-/

namespace SqlComposer

variable {ctx : Context} {s : Pass} {q ts : List Token} {ls : List Lexeme} {before after : String} {v : Value}

/-! ## The step -/

/-- The tokens that come in place of a value. -/
def Value.spliced? : Value → Option (List Token)
  | .list items => some (items.map Token.ofElement)
  | .fragment tokens => some tokens
  | _ => none

namespace Pass

theorem expand_eq (hq : s.queue = .value v :: q) (hv : v.spliced? = some ts) (hm : s.isMasked = false) :
    s.expand = .moved [] { s with queue := ts ++ q } := by
  have hn : ¬s.isMasked = true := by rw [hm]; decide
  rw [expand, take, hq]
  refine (if_neg hn).trans ?_
  cases v with
  | list items =>
    obtain rfl := Option.some.inj hv
    rfl
  | fragment tokens =>
    obtain rfl := Option.some.inj hv
    rfl
  | _ => cases hv

theorem next_spliceMarker (placeholders : Bool) (hl : s.lexemes = .marker Modifier.expand.code :: ls)
    (hq : s.queue = .value v :: q) (hv : v.spliced? = some ts) (hm : s.isMasked = false) :
    s.next placeholders = .moved [] (s.moveTo ls (ts ++ q)) := by
  rw [next, hl]
  exact expand_eq (s := { s with lexemes := ls }) hq hv hm

theorem next_splice (placeholders : Bool) (hl : s.lexemes = [])
    (hq : s.queue = .modifier Modifier.expand.code :: .value v :: q) (hv : v.spliced? = some ts)
    (hm : s.isMasked = false) : s.next placeholders = .moved [] (s.enter [] (ts ++ q)) := by
  rw [next, hl, hq]
  exact expand_eq (s := s.enter [] (.value v :: q)) rfl hv hm

end Pass

/-- A marker in plain text lets the tokens come behind the whole text, not in its own place. -/
theorem run_spliceMarker (hb : isPlain ctx.placeholders before.toList = true)
    (ha : isPlain ctx.placeholders after.toList = true) (hm : after.toList.head?.any isMarkerChar = false)
    (hv : v.spliced? = some ts)
    (h : s.Before (.sql (before ++ (Slot.marker Modifier.expand.code).text ++ after) :: .value v :: q)) :
    run ctx s = run ctx ((s.enter [] (ts ++ q)).write (before ++ after)) := by
  let u := (s.enter (.marker Modifier.expand.code :: plainLexemes after.toList) (.value v :: q)).write before
  have hnext : u.next ctx.placeholders = .moved [] (u.moveTo (plainLexemes after.toList) (ts ++ q)) :=
    u.next_spliceMarker ctx.placeholders rfl rfl hv h.shown
  have hrest : run ctx (u.moveTo (plainLexemes after.toList) (ts ++ q)) =
      run ctx ((s.enter [] (ts ++ q)).write (before ++ after)) := by
    have hu : u.isMasked = false := h.shown
    rw [← Pass.write_write]
    exact run_rest hu after (ts ++ q)
  have hr : (Slot.marker Modifier.expand.code).IsRead ctx.placeholders after.toList := ⟨rfl, hm⟩
  rw [run_toSlot hb ha hr h]
  exact (run_silent hnext).trans hrest

/-! ## Closed tokens -/

/-- The tokens are written as `w` wherever they stand. -/
def WritesAnywhere (ctx : Context) (ts : List Token) (w : Written) : Prop :=
  ∀ q w', WritesOn ctx q w' → WritesOn ctx (ts ++ q) (w.followedBy w')

theorem writesAnywhere_nil (ctx : Context) : WritesAnywhere ctx [] (.ok ([], [])) := by
  intro q w h s hs
  rw [h s hs]
  cases w <;> rfl

theorem WritesAnywhere.append {w w' : Written} {ts' : List Token} (h : WritesAnywhere ctx ts w)
    (h' : WritesAnywhere ctx ts' w') : WritesAnywhere ctx (ts ++ ts') (w.followedBy w') := by
  intro q r hr
  rw [List.append_assoc, Written.followedBy_assoc]
  exact h _ _ (h' _ _ hr)

theorem WritesAnywhere.unspaced_run {w : Written} (h : WritesAnywhere ctx ts w) :
    (run ctx (.start ts)).unspaced = w := by
  have hs : (Pass.start ts).Before (ts ++ []) := by
    rw [List.append_nil]
    exact before_start ts
  rw [h _ _ (writesOn_nil ctx) _ hs]
  cases w with
  | error e => rfl
  | ok p => simp [Written.followedBy, Written.behind, Except.map, Except.bind, Pass.start, Output.empty]

/-- A text element that takes no tokens; other scalars take none. -/
def Scalar.IsClosed (placeholders : Bool) : Scalar → Prop
  | .text s => ∀ l ∈ scan (.fragment placeholders) s, l.IsPassive
  | _ => True

theorem writesAnywhere_passive {text : String} (h : ∀ l ∈ scan (.fragment ctx.placeholders) text, l.IsPassive) :
    WritesAnywhere ctx [.sql text] (concat <$> (scan (.fragment ctx.placeholders) text).mapM ctx.lexeme).unspaced := by
  intro q w hw s hs
  let u := s.enter (scan (.fragment ctx.placeholders) text) q
  have hu := @run_passive ctx u [] _ h (List.append_nil _).symm hs.shown
  have hconcat := bind_map_left concat ((scan (.fragment ctx.placeholders) text).mapM ctx.lexeme)
    fun out => run ctx ((s.enter [] q).write out)
  rw [run_silent (s.next_sql _ hs.lexemes hs.queue)]
  refine (congrArg Render.unspaced (hu.trans hconcat.symm)).trans ?_
  refine Render.unspaced_bind _ fun out => ?_
  rw [hw _ (hs.write_enter q out), Pass.write, Output.unspaced_push]
  rfl

theorem writesAnywhere_scalar (a : Scalar) : WritesAnywhere ctx [.value (.scalar a)] (ctx.scalar none a).unspaced := by
  intro q w hw s hs
  obtain ⟨r, hn⟩ := s.next_value ctx.placeholders hs.lexemes hs.queue hs.shown (.inr rfl)
  rw [hw.value hn ⟨rfl, rfl, hs.shown, hs.bounds⟩ rfl, render]
  rfl

theorem exists_writesAnywhere_elements {items : List Scalar} (h : ∀ a ∈ items, a.IsClosed ctx.placeholders) :
    ∃ w, WritesAnywhere ctx ((items.map Value.scalar).map Token.ofElement) w := by
  induction items with
  | nil => exact ⟨_, writesAnywhere_nil ctx⟩
  | cons a items ih =>
    obtain ⟨ws, hws⟩ := ih fun b hb => h b (List.mem_cons_of_mem a hb)
    have ha : ∃ w, WritesAnywhere ctx [.ofElement (.scalar a)] w := by
      have hclosed := h a List.mem_cons_self
      cases a with
      | text s => exact ⟨_, writesAnywhere_passive hclosed⟩
      | _ => exact ⟨_, writesAnywhere_scalar _⟩
    obtain ⟨w, hw⟩ := ha
    exact ⟨_, hw.append hws⟩

theorem unspacedOutcome_spliceMarker {w : Written} (hw : WritesAnywhere ctx ts w) (hv : v.spliced? = some ts)
    (hb : isPlain ctx.placeholders before.toList = true) (ha : isPlain ctx.placeholders after.toList = true)
    (hm : after.toList.head?.any isMarkerChar = false) :
    ctx.unspacedOutcome [.sql (before ++ "%ex" ++ after), .value v] =
      (w.followedBy (.ok ([], []))).behind (Text.unspaced (before ++ after).toList) := by
  have htext : "%ex" = (Slot.marker Modifier.expand.code).text := by decide
  have hs := before_start [.sql (before ++ (Slot.marker Modifier.expand.code).text ++ after), .value v]
  have hend := hw _ _ (writesOn_nil ctx) _ (hs.write_enter (ts ++ []) (before ++ after))
  rw [htext, unspacedOutcome_eq, run_spliceMarker hb ha hm hv hs, hend, Pass.write, Output.unspaced_push]
  rfl

theorem unspacedOutcome_splice {w : Written} (hw : WritesAnywhere ctx ts w) (hv : v.spliced? = some ts)
    (hb : isPlain ctx.placeholders before.toList = true) (ha : isPlain ctx.placeholders after.toList = true) :
    ctx.unspacedOutcome [.sql before, .modifier Modifier.expand.code, .value v, .sql after] =
      (w.followedBy (.ok (Text.unspaced after.toList, []))).behind (Text.unspaced before.toList) := by
  let s := Pass.behind before [.modifier Modifier.expand.code, .value v, .sql after]
  have h := before_behind before [.modifier Modifier.expand.code, .value v, .sql after]
  have hn : s.next ctx.placeholders = .moved [] (s.enter [] (ts ++ [.sql after])) :=
    s.next_splice ctx.placeholders h.lexemes h.queue hv h.shown
  have hs : (s.enter [] (ts ++ [.sql after])).Before (ts ++ [.sql after]) := ⟨rfl, rfl, h.shown, h.bounds⟩
  have hend := hw _ _ ((writesOn_nil ctx).sql ha) _ hs
  rw [Written.behind_ok, List.append_nil] at hend
  rw [unspacedOutcome_behind hb, run_silent hn, hend, ← unspaced_behind before]
  rfl

/-! ## Lists -/

/-- The elements of a list come behind the text that a marker stands in, and between the texts around an explicit
modifier. The two agree only where the elements and the text behind the marker may change places. -/
theorem expand_written (hb : isPlain ctx.placeholders before.toList = true)
    (ha : isPlain ctx.placeholders after.toList = true) (hm : after.toList.head?.any isMarkerChar = false)
    {items : List Scalar} (hi : ∀ a ∈ items, a.IsClosed ctx.placeholders) :
    let list := Value.list (items.map .scalar)
    let elements := render ctx (some .expand) list
    let inside := ctx.unspacedOutcome [.sql (before ++ "%ex" ++ after), .value list]
    let apart := ctx.unspacedOutcome [.sql before, .modifier Modifier.expand.code, .value list, .sql after]
    inside = elements.between (before ++ after) "" ∧ apart = elements.between before after ∧
      (inside = apart ↔ ∀ text issues, elements.content = .ok (text, issues) →
        Text.unspaced after.toList ++ Text.unspaced text.toList =
          Text.unspaced text.toList ++ Text.unspaced after.toList) := by
  intro list elements inside apart
  obtain ⟨w, hw⟩ := exists_writesAnywhere_elements hi
  have helements : elements.unspaced = w := by
    show (render ctx (some .expand) (.list (items.map .scalar))).unspaced = w
    rw [render, hw.unspaced_run]
  have hinside : inside = elements.between (before ++ after) "" := by
    rw [Render.between_eq, helements]
    exact unspacedOutcome_spliceMarker hw rfl hb ha hm
  have hapart : apart = elements.between before after := by
    rw [Render.between_eq, helements]
    exact unspacedOutcome_splice hw rfl hb ha
  refine ⟨hinside, hapart, ?_⟩
  rw [hinside, hapart]
  cases elements with
  | failed e =>
    refine iff_of_true rfl ?_
    intro text issues h
    cases h
  | done text issues n => simp [Render.between, Render.content, Except.map]

/-- A quoted column and a number, both behind the text. -/
theorem expand_written_columns :
    let ctx : Context := .leapDay .mysql
    let items : List Scalar := [.text "[a.b],", .int (-1)]
    isPlain ctx.placeholders "SELECT ".toList = true ∧ isPlain ctx.placeholders " FROM t".toList = true ∧
      " FROM t".toList.head?.any isMarkerChar = false ∧ (∀ a ∈ items, a.IsClosed ctx.placeholders) ∧
      ctx.unspacedOutcome [.sql ("SELECT " ++ "%ex" ++ " FROM t"), .value (.list (items.map .scalar))] =
        (render ctx (some .expand) (.list (items.map .scalar))).between ("SELECT " ++ " FROM t") "" := by
  intro ctx items
  have hb : isPlain true "SELECT ".toList = true := by decide +kernel
  have ha : isPlain true " FROM t".toList = true := by decide +kernel
  have hm : " FROM t".toList.head?.any isMarkerChar = false := by decide +kernel
  have hi : ∀ a ∈ items, a.IsClosed ctx.placeholders := by
    have htext : scan (.fragment ctx.placeholders) "[a.b]," = [.identifier "a.b", .text ","] := by decide +kernel
    have hclosed : Scalar.IsClosed ctx.placeholders (.text "[a.b],") := by
      rw [Scalar.IsClosed, htext]
      simp [Lexeme.IsPassive]
    intro a ha
    rcases List.mem_cons.1 ha with rfl | ha
    · exact hclosed
    · obtain rfl := List.mem_singleton.1 ha
      trivial
  obtain ⟨hinside, -, -⟩ := @expand_written ctx _ _ hb ha hm items hi
  exact ⟨hb, ha, hm, hi, hinside⟩

/-- A column by a marker in the text, and by an explicit modifier. -/
theorem expand_moves_column :
    let ctx : Context := .leapDay .generic
    let list : Value := .list [.scalar (.text "a")]
    let inside := ctx.unspacedOutcome [.sql ("SELECT " ++ "%ex" ++ " FROM t"), .value list]
    let apart := ctx.unspacedOutcome [.sql "SELECT ", .modifier Modifier.expand.code, .value list, .sql " FROM t"]
    inside = .ok ("SELECTFROMta".toList, []) ∧ apart = .ok ("SELECTaFROMt".toList, []) ∧ inside ≠ apart := by
  intro ctx list inside apart
  have hb : isPlain true "SELECT ".toList = true := by decide +kernel
  have ha : isPlain true " FROM t".toList = true := by decide +kernel
  have hm : " FROM t".toList.head?.any isMarkerChar = false := by decide +kernel
  have hcolumn : WritesAnywhere ctx [.sql "a"] (.ok (['a'], [])) := by
    have hscan : scan (.fragment ctx.placeholders) "a" = [.text "a"] := by decide +kernel
    have hw : WritesAnywhere ctx [.sql "a"] _ := writesAnywhere_passive (by simp [hscan, Lexeme.IsPassive])
    rw [hscan] at hw
    exact hw
  have hinside : inside = .ok ("SELECTFROMta".toList, []) := by
    refine (unspacedOutcome_spliceMarker hcolumn rfl hb ha hm).trans ?_
    refine congrArg (fun text => Except.ok (text, [])) ?_
    decide +kernel
  have hapart : apart = .ok ("SELECTaFROMt".toList, []) := by
    refine (unspacedOutcome_splice hcolumn rfl hb ha).trans ?_
    refine congrArg (fun text => Except.ok (text, [])) ?_
    decide +kernel
  refine ⟨hinside, hapart, ?_⟩
  rw [hinside, hapart]
  intro h
  have htext := congrArg Prod.fst (Except.ok.inj h)
  revert htext
  decide +kernel

end SqlComposer
