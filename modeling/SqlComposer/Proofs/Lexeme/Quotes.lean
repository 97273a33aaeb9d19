import SqlComposer.Proofs.Lexeme.Tiling
import SqlComposer.Proofs.Pass.Slot

/-!
# Quoted text is read back

* `string_read_back` : between string quotes a text with its quotes doubled is read back, whatever the text, a quote
  stands alone only where no such text stands behind it, and as a statement the string is the literal of the dialect;
* `identifier_read_back_iff` : between identifier quotes a name ends at the first closing quote, doubled or not.
-/

namespace SqlComposer

variable {rest : List Char}

/-! ## Strings -/

section strings

variable {q : Char}

namespace Cursor

theorem next?_string (hq : q ∈ stringQuotes) (mode : ScanMode) (before : Option Char) (cs : List Char) :
    next? mode ⟨before, q :: cs⟩ = some (readString q cs) := by
  refine next?_special ?_
  simp only [stringQuotes, List.mem_cons, List.not_mem_nil, or_false] at hq
  rcases hq with rfl | rfl <;> rfl

theorem next?_enclosed_string (hq : q ∈ stringQuotes) (mode : ScanMode) (before : Option Char) (s : String)
    (h : rest.head? ≠ some q) :
    next? mode ⟨before, Text.enclosed q q s.toList ++ rest⟩ = some (.string s, ⟨some q, rest⟩) := by
  have htext : Text.enclosed q q s.toList ++ rest = q :: (Text.doubled q s.toList ++ q :: rest) := by
    simp [Text.enclosed]
  rw [htext, next?_string hq, readString_closed h, String.ofList_toList]

theorem next?_aloneQuote_iff (hq : q ∈ stringQuotes) (mode : ScanMode) (before : Option Char) (cs : List Char)
    (c : Cursor) : next? mode ⟨before, q :: cs⟩ = some (.aloneQuote, c) ↔
      c = ⟨some q, cs⟩ ∧ ¬∃ s rest, cs = Text.doubled q s ++ q :: rest ∧ rest.head? ≠ some q := by
  rw [next?_string hq, Option.some_inj]
  obtain ⟨s, rest, rfl, closed⟩ | alone := closed_or_alone q cs
  · rw [readString_closed closed]
    constructor
    · intro h
      cases h
    · intro h
      exact absurd ⟨s, rest, rfl, closed⟩ h.2
  · rw [readString_alone alone, Prod.mk.injEq]
    constructor
    · rintro ⟨-, rfl⟩
      exact ⟨rfl, fun ⟨s, rest, hcs, closed⟩ => closed (alone s rest hcs)⟩
    · rintro ⟨rfl, -⟩
      exact ⟨rfl, rfl⟩

end Cursor

theorem scan_enclosed_string (hq : q ∈ stringQuotes) (mode : ScanMode) (s : String) :
    scan mode (String.ofList (Text.enclosed q q s.toList)) = [.string s] := by
  have hnext := @Cursor.next?_enclosed_string [] q hq mode none s (by simp)
  rw [List.append_nil] at hnext
  rw [scan, Cursor.ofText, String.toList_ofList, Cursor.lexemes_cons hnext, Cursor.lexemes_nil]

/-- A literal of a text starts and ends with what is no white space. -/
theorem Dialect.Kind.isTrimmed_text (k : Kind) (s : List Char) : Text.IsTrimmed (k.text s) := by
  have hquote (t : List Char) : Text.IsTrimmed (['\''] ++ (t ++ ['\''])) :=
    Text.IsTrimmed.append_append (by decide) (by decide) (by simp) (by simp) t
  have hletter (t : List Char) : Text.IsTrimmed (['N'] ++ (t ++ ['\''])) :=
    Text.IsTrimmed.append_append (by decide) (by decide) (by simp) (by simp) t
  cases k with
  | mysql => exact hquote _
  | sqlserver => exact hletter ('\'' :: Text.doubled '\'' s)
  | generic | sqlite | postgres => exact hquote _

theorem compose_enclosed_string (hq : q ∈ stringQuotes) {k : Dialect.Kind} {ctx : Context} (hk : ctx.dialect = k.dialect)
    (s : String) : ctx.compose [.sql (String.ofList (Text.enclosed q q s.toList))] =
      .ok ⟨String.ofList (k.text s.toList), [], 0⟩ := by
  have hscan := scan_enclosed_string hq (.fragment ctx.placeholders) s
  have hpassive : ∀ l ∈ scan (.fragment ctx.placeholders) (String.ofList (Text.enclosed q q s.toList)),
      l.IsPassive := by
    rw [hscan]
    simp [Lexeme.IsPassive]
  have hlexeme : ctx.lexeme (.string s) = pure (String.ofList (k.text s.toList)) := by
    rw [Context.lexeme, hk]
    rfl
  have hconcat : concat [String.ofList (k.text s.toList)] = String.ofList (k.text s.toList) := by simp [concat]
  have hrun : run ctx (.start [.sql (String.ofList (Text.enclosed q q s.toList))]) =
      .done (String.ofList (k.text s.toList)) [] 0 := by
    rw [run_passive_sql hpassive, hscan, List.mapM_cons, List.mapM_nil, hlexeme]
    simp only [pure_bind, hconcat, String.toList_ofList, (k.isTrimmed_text s.toList).strip_eq]
  rw [Context.compose, hrun]

end strings

/-- Between string quotes a text with its quotes doubled is read back, and reading goes on behind the closing quote. A
quote stands alone where no such text stands behind it, and only there. As the SQL text of a statement a quoted string
comes to the literal of the dialect, with no issue. -/
theorem string_read_back {q : Char} (hq : q ∈ stringQuotes) :
    (∀ (mode : ScanMode) (before : Option Char) (s : String) (rest : List Char), rest.head? ≠ some q →
      Cursor.next? mode ⟨before, Text.enclosed q q s.toList ++ rest⟩ = some (.string s, ⟨some q, rest⟩)) ∧
    (∀ (mode : ScanMode) (before : Option Char) (cs : List Char) (c : Cursor),
      Cursor.next? mode ⟨before, q :: cs⟩ = some (.aloneQuote, c) ↔
        c = ⟨some q, cs⟩ ∧ ¬∃ s rest, cs = Text.doubled q s ++ q :: rest ∧ rest.head? ≠ some q) ∧
    ∀ (k : Dialect.Kind) (ctx : Context) (s : String), ctx.dialect = k.dialect →
      ∃ literal, k.dialect.text s = .ok literal ∧
        ctx.compose [.sql (String.ofList (Text.enclosed q q s.toList))] = .ok ⟨literal, [], 0⟩ :=
  ⟨fun mode before s _ h => Cursor.next?_enclosed_string hq mode before s h,
    fun mode before cs c => Cursor.next?_aloneQuote_iff hq mode before cs c,
    fun _ _ s hk => ⟨_, rfl, compose_enclosed_string hq hk s⟩⟩

/-- Quotes at the end of the text and behind it, a quote without a partner, and a backslash for a dialect that escapes with
it. -/
theorem string_read_back_runs :
    '\'' ∈ stringQuotes ∧ " '".toList.head? ≠ some '\'' ∧
      Cursor.next? .plain ⟨some 'x', "'it''s''' '".toList⟩ = some (.string "it's'", ⟨some '\'', " '".toList⟩) ∧
      (¬∃ s rest, "it''".toList = Text.doubled '\'' s ++ '\'' :: rest ∧ rest.head? ≠ some '\'') ∧
      ∃ literal, Dialect.Kind.mysql.dialect.text "it's \\ here" = .ok literal ∧
        Context.compose (.leapDay .mysql) [.sql "'it''s \\ here'"] = .ok ⟨literal, [], 0⟩ := by
  have hq : '\'' ∈ stringQuotes := by decide
  have hrest : " '".toList.head? ≠ some '\'' := by decide
  obtain ⟨read, alone, composed⟩ := string_read_back hq
  have hnext : Cursor.next? .plain ⟨none, '\'' :: "it''".toList⟩ = some (.aloneQuote, ⟨some '\'', "it''".toList⟩) :=
    rfl
  exact ⟨hq, hrest, read .plain (some 'x') "it's'" " '".toList hrest, ((alone _ _ _ _).1 hnext).2,
    composed .mysql (.leapDay .mysql) "it's \\ here" rfl⟩

/-! ## Identifiers -/

section identifiers

variable {q : Char × Char} {name : List Char}

theorem Cursor.next?_identifier (hq : q ∈ identifierQuotes) (mode : ScanMode) (before : Option Char) (cs : List Char) :
    next? mode ⟨before, q.1 :: cs⟩ = some (readIdentifier q.1 q.2 cs) := by
  refine next?_special ?_
  simp only [identifierQuotes, List.mem_cons, List.not_mem_nil, or_false] at hq
  rcases hq with rfl | rfl <;> rfl

theorem Cursor.next?_enclosed_identifier (hq : q ∈ identifierQuotes) (mode : ScanMode) (before : Option Char)
    (ne : name ≠ []) (h : q.2 ∉ name) (rest : List Char) :
    next? mode ⟨before, Text.enclosed q.1 q.2 name ++ rest⟩ = some (.identifier (String.ofList name), ⟨some q.2, rest⟩) := by
  have htext : Text.enclosed q.1 q.2 name ++ rest = q.1 :: (name ++ q.2 :: rest) := by
    simp [Text.enclosed, Text.doubled_of_not_mem h]
  rw [htext, next?_identifier hq, readIdentifier_closed h, if_neg (by simpa using ne)]

/-- Of two closing quotes for one in a name the first is taken for the end of the name. -/
theorem Cursor.next?_cut_identifier (hq : q ∈ identifierQuotes) (mode : ScanMode) (before : Option Char)
    (h : q.2 ∉ name) (tail rest : List Char) :
    next? mode ⟨before, Text.enclosed q.1 q.2 (name ++ q.2 :: tail) ++ rest⟩ =
      some (if name = [] then .text (String.ofList [q.1, q.2]) else .identifier (String.ofList name),
        ⟨some q.2, q.2 :: (Text.doubled q.2 tail ++ q.2 :: rest)⟩) := by
  have htext : Text.enclosed q.1 q.2 (name ++ q.2 :: tail) ++ rest =
      q.1 :: (name ++ q.2 :: (q.2 :: (Text.doubled q.2 tail ++ q.2 :: rest))) := by
    simp [Text.enclosed, Text.doubled_append, Text.doubled, Text.doubled_of_not_mem h]
  rw [htext, next?_identifier hq, readIdentifier_closed h]
  simp only [List.isEmpty_iff]

end identifiers

/-- Between identifier quotes a name with its closing quotes doubled is read back where it has none of them. Where it has
some, it is cut in front of the first, and reading goes on at the second of the pair. -/
theorem identifier_read_back_iff {q : Char × Char} (hq : q ∈ identifierQuotes) (mode : ScanMode) (before : Option Char)
    {name : List Char} (ne : name ≠ []) (rest : List Char) :
    (Cursor.next? mode ⟨before, Text.enclosed q.1 q.2 name ++ rest⟩ =
      some (.identifier (String.ofList name), ⟨some q.2, rest⟩) ↔ q.2 ∉ name) ∧
    ∀ front tail, name = front ++ q.2 :: tail → q.2 ∉ front →
      Cursor.next? mode ⟨before, Text.enclosed q.1 q.2 name ++ rest⟩ =
        some (if front = [] then .text (String.ofList [q.1, q.2]) else .identifier (String.ofList front),
          ⟨some q.2, q.2 :: (Text.doubled q.2 tail ++ q.2 :: rest)⟩) := by
  refine ⟨⟨fun h hmem => ?_, fun h => Cursor.next?_enclosed_identifier hq mode before ne h rest⟩, ?_⟩
  · obtain ⟨front, tail, rfl, hfront⟩ := List.eq_append_cons_of_mem hmem
    rw [Cursor.next?_cut_identifier hq mode before hfront tail rest] at h
    have hlexeme := congrArg Prod.fst (Option.some.inj h)
    split at hlexeme
    · cases hlexeme
    · -- the name that is read is shorter than the one that was written
      have hlength := congrArg List.length (String.ofList_inj.1 (Lexeme.identifier.inj hlexeme))
      simp at hlength
  · rintro front tail rfl hfront
    exact Cursor.next?_cut_identifier hq mode before hfront tail rest

/-- A name that its brackets close early, as an identifier of SQL Server has it. -/
theorem identifier_read_back_iff_bracket :
    ('[', ']') ∈ identifierQuotes ∧ "a]b".toList ≠ [] ∧
      Cursor.next? .plain ⟨none, Dialect.Kind.sqlserver.identifier "a]b".toList ++ " FROM t".toList⟩ ≠
        some (.identifier "a]b", ⟨some ']', " FROM t".toList⟩) ∧
      Cursor.next? .plain ⟨none, Dialect.Kind.sqlserver.identifier "a]b".toList ++ " FROM t".toList⟩ =
        some (.identifier "a", ⟨some ']', "]b] FROM t".toList⟩) := by
  have hq : ('[', ']') ∈ identifierQuotes := by decide
  have ne : "a]b".toList ≠ [] := by decide
  obtain ⟨hiff, hcut⟩ := identifier_read_back_iff hq .plain none ne " FROM t".toList
  exact ⟨hq, ne, fun h => absurd (hiff.1 h) (by decide), hcut ['a'] ['b'] rfl (by decide)⟩

/-- A name with its closing quotes doubled is not always read back. -/
theorem identifier_not_read_back :
    ¬∀ q ∈ identifierQuotes, ∀ (mode : ScanMode) (before : Option Char) (name rest : List Char), name ≠ [] →
      rest.head? ≠ some q.2 → Cursor.next? mode ⟨before, Text.enclosed q.1 q.2 name ++ rest⟩ =
        some (.identifier (String.ofList name), ⟨some q.2, rest⟩) := by
  intro h
  have hread := h ('[', ']') (by decide) .plain none "a]b".toList [] (by decide) (by decide)
  exact absurd (congrArg (Option.map Prod.fst) hread) (by decide)

end SqlComposer
