import SqlComposer.Proofs.Lexeme.Seam
import SqlComposer.Proofs.Pass.Parallel
import SqlComposer.Proofs.Pass.Slot

/-!
# Markers in a text and markers as tokens

* `Render.tight`, `Context.tightOutcome` : what is composed, but for white space;
* `Spaced`, `tight_run` : passes whose outputs differ in white space alone go on alike;
* `isInsertCommand_append_marker` : a marker does not change which command a text starts with;
* `tightOutcome_marker` : a marker in a text and a marker as a token write the same, whatever text stands behind the
  marker and whatever tokens follow.
-/

namespace SqlComposer

/-! ## But for white space -/

/-- The text without white space, with all that was noted. -/
def Render.tight (r : Render String) : Render (List Char) :=
  (fun text => Text.unspaced text.toList) <$> r

theorem Render.tight_after (r : Render String) (issues : List Issue) (n : Nat) :
    (r.after issues n).tight = r.tight.after issues n := by
  cases r <;> simp [tight, Functor.map]

theorem Render.congruence_tight : Render.Congruence fun x y => x.tight = y.tight where
  after found h := by rw [tight_after, tight_after, h]
  bind x f g h := by
    cases x with
    | failed e => rfl
    | done text issues n => rw [done_bind, done_bind, tight_after, tight_after, h]

/-- The statement of a stream without white space, its issues and the number of branches left out. -/
def Context.tightOutcome (ctx : Context) (tokens : List Token) :
    Except DialectError (List Char × List Issue × Nat) :=
  (ctx.compose tokens).map fun statement =>
    (Text.unspaced statement.sql.toList, statement.issues, statement.masked)

theorem tightOutcome_congr {ctx : Context} {ts ts' : List Token}
    (h : (run ctx (.start ts)).tight = (run ctx (.start ts')).tight) : ctx.tightOutcome ts = ctx.tightOutcome ts' := by
  unfold Context.tightOutcome Context.compose
  generalize run ctx (.start ts) = x at h
  generalize run ctx (.start ts') = y at h
  cases x <;> cases y <;> simp_all [Render.tight, Functor.map, Except.map]

/-- The outputs differ in white space alone. -/
def Output.SameText (a b : Output) : Prop :=
  Text.unspaced a.text.toList = Text.unspaced b.text.toList

theorem congruence_sameText : Output.Congruence Output.SameText where
  push piece h := by
    unfold Output.SameText at h ⊢
    rw [Output.unspaced_push, Output.unspaced_push, h]
  endToken h := h

/-- The states differ in the white space of their outputs alone. -/
abbrev Spaced : Pass → Pass → Prop :=
  Parallel Output.SameText fun _ _ => False

theorem unspaced_bounded (k : Dialect.Kind) (b : RowBounds) {text text' : List Char}
    (h : Text.unspaced text = Text.unspaced text') :
    Text.unspaced (k.bounded b text) = Text.unspaced (k.bounded b text') := by
  cases k with
  | sqlserver =>
    obtain ⟨limit, offset⟩ := b
    cases limit <;> cases offset <;> simp only [Dialect.Kind.bounded, Text.unspaced_append, h]
  | _ => simp only [Dialect.Kind.bounded, Text.unspaced_append, h]

variable {ctx : Context} {k : Dialect.Kind} {s t : Pass}

/-- Row bounds are written around the statement. -/
theorem tight_bounded (k : Dialect.Kind) (b : RowBounds) {text text' : String}
    (h : Text.unspaced text.toList = Text.unspaced text'.toList) :
    (Render.ofDialect (k.dialect.bounded b text)).tight = (Render.ofDialect (k.dialect.bounded b text')).tight := by
  have hdone (text : String) : (Render.ofDialect (k.dialect.bounded b text)).tight =
      .done (Text.unspaced (k.bounded b text.toList)) [] 0 := by
    simp only [Dialect.Kind.dialect, Render.ofDialect, Render.tight, Render.map_done, String.toList_ofList]
  rw [hdone, hdone, unspaced_bounded k b h]

theorem tight_finish (hd : ctx.dialect = k.dialect) (h : Spaced s t) : (s.finish ctx).tight = (t.finish ctx).tight := by
  have hout : Text.unspaced s.out.finish.toList = Text.unspaced t.out.finish.toList := by
    rw [Output.unspaced_finish, Output.unspaced_finish]
    exact h.out
  simp only [Pass.finish, Render.tight_after, h.bounds, h.branches, hd]
  split
  · simp only [Render.tight, Render.pure_eq, Render.map_done, hout]
  · rw [tight_bounded k _ hout]

/-- Passes whose outputs differ in white space alone go on alike. -/
theorem tight_run (hd : ctx.dialect = k.dialect) (h : Spaced s t) : (run ctx s).tight = (run ctx t).tight := by
  refine run_related (R := Spaced) Render.congruence_tight ?_ h
  intro s t h
  rcases h.next congruence_sameText (fun _ _ _ => False.elim) ctx.placeholders with ⟨hs, ht⟩ | hnext
  · exact .inl ⟨hs, ht, tight_finish hd h⟩
  · exact .inr (hnext.mono fun u v huv text => huv.write congruence_sameText text)

/-! ## The leading command -/

theorem dropBlank_append_percent (text rest : List Char) :
    Text.dropBlank (text ++ '%' :: rest) = Text.dropBlank text ++ '%' :: rest := by
  by_cases h : Text.dropBlank text = []
  · rw [Text.dropBlank_append_blank h, h]
    rfl
  · exact Text.dropBlank_append h _

/-- No percent sign stands in the first six letters of a text that are a word. -/
theorem take_append_percent_iff {word : List Char} (hlength : word.length = 6) (hword : '%' ∉ word)
    (text rest : List Char) :
    ((text ++ '%' :: rest).take 6).map Char.toUpper = word ↔ (text.take 6).map Char.toUpper = word := by
  by_cases h : 6 ≤ text.length
  · rw [List.take_append_of_le_length h]
  · have hmem : '%' ∈ (text ++ '%' :: rest).take 6 := by
      have hsome : 6 - text.length = (5 - text.length) + 1 := by omega
      rw [List.take_append, hsome, List.take_succ_cons]
      exact List.mem_append_right _ List.mem_cons_self
    constructor
    · intro he
      exact absurd (he ▸ List.mem_map_of_mem hmem) hword
    · intro he
      have hshort := congrArg List.length he
      rw [List.length_map, List.length_take, hlength] at hshort
      omega

/-- A marker behind a text does not change which command the text starts with. -/
theorem isInsertCommand_append_marker (before code after : String) :
    isInsertCommand (before ++ (Slot.marker code).text ++ after) = isInsertCommand before := by
  have htext : (before ++ (Slot.marker code).text ++ after).toList =
      before.toList ++ '%' :: (code.toList ++ after.toList) := by simp [Slot.text]
  have hiff (word : String) (hlength : word.toList.length = 6) (hword : '%' ∉ word.toList) (text rest : List Char) :
      (String.ofList (((text ++ '%' :: rest).take 6).map Char.toUpper) == word) =
        (String.ofList ((text.take 6).map Char.toUpper) == word) := by
    rw [Bool.eq_iff_iff, beq_iff_eq, beq_iff_eq, ← String.toList_inj, ← String.toList_inj, String.toList_ofList,
      String.toList_ofList]
    exact take_append_percent_iff hlength hword text rest
  unfold isInsertCommand
  rw [htext, dropBlank_append_percent]
  simp only
  rw [hiff "INSERT" (by decide) (by decide), hiff "REPLAC" (by decide) (by decide)]

/-! ## The seam -/

/-- One state stands behind a marker in a text, the other behind the same marker as a token: the rest of the text is
read as lexemes to come by the one, and as the next token by the other. -/
structure Seam (placeholders : Bool) (after : String) (rest : List Token) (s t : Pass) : Prop where
  lexemes : t.lexemes = []
  queue : t.queue = .sql after :: rest
  spaced : Spaced s (t.enter (scan (.fragment placeholders) after) rest)

/-- Two states that differ in what is to come alone, and have seen no row. -/
theorem seam_of_eq {placeholders : Bool} {after : String} {rest : List Token} (hout : s.out = t.out)
    (hbranches : s.branches = t.branches) (hbounds : s.bounds = t.bounds) (hinserting : s.inserting = t.inserting)
    (hs : s.lastRow = .none) (ht : t.lastRow = .none) :
    Seam placeholders after rest (s.moveTo (scan (.fragment placeholders) after) rest)
      (t.enter [] (.sql after :: rest)) where
  lexemes := rfl
  queue := rfl
  spaced :=
    { queue := .refl _ rest
      lexemes := rfl
      out := by
        show Text.unspaced s.out.text.toList = Text.unspaced t.out.text.toList
        rw [hout]
      branches := hbranches
      bounds := hbounds
      inserting := hinserting
      lastRow := by simp only [Pass.moveTo, Pass.enter, hs, ht, LastRow.next] }

namespace Seam

variable {placeholders : Bool} {after : String} {rest : List Token}

theorem isMasked (h : Seam placeholders after rest s t) : t.isMasked = s.isMasked :=
  h.spaced.isMasked

theorem write (h : Seam placeholders after rest s t) (text : String) :
    Seam placeholders after rest (s.write text) (t.write text) :=
  ⟨h.lexemes, h.queue, { h.spaced with out := congruence_sameText.push text h.spaced.out }⟩

theorem fail (h : Seam placeholders after rest s t) (i : Issue) :
    Next.Related (Seam placeholders after rest) (s.fail i) (t.fail i) := by
  unfold Pass.fail Pass.marked
  rw [h.isMasked]
  split
  · exact .moved [i] h
  · exact .moved [i] (h.write i.mark)

theorem serve (h : Seam placeholders after rest s t) (code : String) (v : Value) :
    Next.Related (Seam placeholders after rest) (s.serve code v) (t.serve code v) := by
  unfold Pass.serve
  split
  · exact h.fail _
  · next k _ =>
    split
    · next count _ =>
      have hbounds : Pass.setBound k count s.bounds = Pass.setBound k count t.bounds :=
        congrArg (Pass.setBound k count) h.spaced.bounds
      exact .moved [] ⟨h.lexemes, h.queue, { h.spaced with bounds := hbounds }⟩
    · exact h.fail _
  · exact .value v _ h

theorem tight_run (hd : ctx.dialect = k.dialect) (h : Seam ctx.placeholders after rest s t) :
    (run ctx s).tight = (run ctx t).tight := by
  rw [run_silent (t.next_sql ctx.placeholders h.lexemes h.queue)]
  exact SqlComposer.tight_run hd h.spaced

end Seam

/-! ## Markers -/

theorem Lexeme.IsWhole.isPassive {l : Lexeme} (h : l.IsWhole) : l.IsPassive := by
  cases l with
  | marker code => exact h
  | placeholder => exact h
  | _ => trivial

/-- A known marker takes a token or does not, whatever stands behind it. -/
theorem TakesToken.of_known {code : String} {ls : List Lexeme} (h : TakesToken code ls)
    (hc : (Marker.ofCode? code).isSome = true) (ls' : List Lexeme) : TakesToken code ls' := by
  unfold TakesToken at h ⊢
  split at h
  · next hnone =>
    rw [hnone] at hc
    cases hc
  · exact h
  · exact h

theorem moveTo_enter (ls ls' : List Lexeme) (q q' : List Token) (s : Pass) :
    (s.enter ls q).moveTo ls' q' = s.enter ls' q' := rfl

theorem inserting_write (text : String) (s : Pass) : (s.write text).inserting = s.inserting := rfl

theorem inserting_enter (ls : List Lexeme) (q : List Token) (s : Pass) : (s.enter ls q).inserting = s.inserting := rfl

theorem inserting_start_sql (text : String) (ts : List Token) :
    (Pass.start (.sql text :: ts)).inserting = isInsertCommand text := by
  simp only [Pass.start, firstText?, Option.any_some]

variable {before code after : String}

/-- A text that starts with whole lexemes writes them first. -/
theorem run_whole {text : String} {ls : List Lexeme}
    (hb : ∀ l ∈ scan (.fragment ctx.placeholders) before, l.IsWhole)
    (hs : scan (.fragment ctx.placeholders) text = scan (.fragment ctx.placeholders) before ++ ls) (q : List Token) :
    run ctx (.start (.sql text :: q)) =
      concat <$> (scan (.fragment ctx.placeholders) before).mapM ctx.lexeme >>= fun written =>
        run ctx (((Pass.start (.sql text :: q)).enter ls q).write written) := by
  have hp : ∀ l ∈ scan (.fragment ctx.placeholders) before, l.IsPassive := fun l hl => (hb l hl).isPassive
  let s := Pass.start (.sql text :: q)
  have hpassive := @run_passive ctx (s.enter (scan (.fragment ctx.placeholders) text) q) _ _ hp hs rfl
  rw [moveTo_enter] at hpassive
  rw [run_silent (s.next_sql ctx.placeholders rfl rfl), bind_map_left]
  exact hpassive

/-- A marker in a text and the same marker as a token write the same but for white space, find the same issues and
leave out the same branches, whatever stands behind them. -/
theorem tightOutcome_marker (hd : ctx.dialect = k.dialect)
    (hb : ∀ l ∈ scan (.fragment ctx.placeholders) before, l.IsWhole) (hc : (Marker.ofCode? code).isSome = true)
    (ht : TakesToken code []) (ha : after.toList.head?.any isMarkerChar = false) (t : Token) (rest : List Token) :
    ctx.tightOutcome (.sql (before ++ (Slot.marker code).text ++ after) :: t :: rest) =
      ctx.tightOutcome (.sql before :: .modifier code :: t :: .sql after :: rest) := by
  let behind := scan (.fragment ctx.placeholders) after
  apply tightOutcome_congr
  rw [run_whole hb (scan_marker hb hc ha), run_whole hb (List.append_nil _).symm]
  apply Render.congruence_tight.bind
  intro written
  let s := ((Pass.start (.sql (before ++ (Slot.marker code).text ++ after) :: t :: rest)).enter
    (.marker code :: behind) (t :: rest)).write written
  let u := ((Pass.start (.sql before :: .modifier code :: t :: .sql after :: rest)).enter []
    (.modifier code :: t :: .sql after :: rest)).write written
  show (run ctx s).tight = (run ctx u).tight
  have hs : s.next ctx.placeholders = (s.moveTo behind rest).serve code t.toValue :=
    (s.next_marker ctx.placeholders rfl rfl (ht.of_known hc behind)).trans (if_neg Bool.false_ne_true)
  have hu : u.next ctx.placeholders = (u.enter [] (.sql after :: rest)).serve code t.toValue :=
    (u.next_modifier ctx.placeholders rfl rfl ht).trans (if_neg Bool.false_ne_true)
  have hinserting : s.inserting = u.inserting := by
    simp only [s, u, inserting_write, inserting_enter, inserting_start_sql, isInsertCommand_append_marker]
  have hseam : Seam ctx.placeholders after rest (s.moveTo behind rest) (u.enter [] (.sql after :: rest)) :=
    seam_of_eq rfl rfl rfl hinserting rfl rfl
  have hend (s u : Pass) (h : Seam ctx.placeholders after rest s u) (text : String) :
      (run ctx (s.write text)).tight = (run ctx (u.write text)).tight := (h.write text).tight_run hd
  apply run_of_related Render.congruence_tight hend
  rw [hs, hu]
  exact hseam.serve code t.toValue

/-- In front of the marker stand a quote, a bracket, a substitution and a percent sign in a string; behind it stand a
placeholder, a block and a marker for which there is no token. -/
theorem tightOutcome_marker_mixed :
    let ctx : Context := .leapDay .mysql
    let before := "SELECT 'it''s %i', [a?] FROM :t: WHERE b IN "
    let after := " AND c = ? %if AND d = %i %end %s"
    let rest : List Token := [.value (.scalar (.text "x")), .value (.scalar (.bool false)), .value (.map []), .sql "?"]
    ctx.dialect = Dialect.Kind.mysql.dialect ∧ (∀ l ∈ scan (.fragment ctx.placeholders) before, l.IsWhole) ∧
      (Marker.ofCode? "in").isSome = true ∧ TakesToken "in" [] ∧ after.toList.head?.any isMarkerChar = false ∧
      ctx.tightOutcome (.sql (before ++ (Slot.marker "in").text ++ after) :: .value (.list []) :: rest) =
        ctx.tightOutcome (.sql before :: .modifier "in" :: .value (.list []) :: .sql after :: rest) := by
  intro ctx before after rest
  have hscan : scan (.fragment true) before = [.text "SELECT ", .string "it's %i", .text ", ", .identifier "a?",
      .text " FROM ", .substitution "t" false, .text " WHERE b IN "] := by decide +kernel
  have hb : ∀ l ∈ scan (.fragment ctx.placeholders) before, l.IsWhole := by
    show ∀ l ∈ scan (.fragment true) before, l.IsWhole
    rw [hscan]
    simp [Lexeme.IsWhole]
  have ht : TakesToken "in" [] := by
    rw [TakesToken, show Marker.ofCode? "in" = some (.modifier .inList) from rfl]
    decide
  have ha : after.toList.head?.any isMarkerChar = false := by decide
  exact ⟨rfl, hb, rfl, ht, ha, tightOutcome_marker (k := .mysql) rfl hb rfl ht ha _ rest⟩

end SqlComposer
