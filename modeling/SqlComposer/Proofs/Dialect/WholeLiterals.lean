import Mathlib.Tactic.ByContra
import Mathlib.Tactic.SplitIfs
import SqlComposer.Dialect.Literal
import SqlComposer.Proofs.Dialect.Nesting
import SqlComposer.Proofs.Number.Figures
import SqlComposer.Proofs.Text.Hex

/-!
# Literals and identifiers are whole

Whatever text they hold, a reader comes over an identifier without meeting a comma or a space, and over a
literal without meeting a comma, and stands outside all quotes and parentheses behind them.

* `Kind.whole_identifier`;
* `Kind.whole_text`, `Kind.whole_binary`, `Kind.whole_bool`, `Kind.whole_date`, `Kind.whole_dateTime`,
  `Kind.whole_like`;
* `whole_figures` : the same for numbers.
-/

namespace SqlComposer.Dialect

variable {k : Kind}

/-! ## Numbers -/

theorem isInert_of_isFigure {c : Char} (h : isFigure c = true) : isInert [','] c = true := by
  have hmark : isMark c = false := by
    by_contra hm
    rw [Bool.not_eq_false, isMark, List.contains_iff_mem] at hm
    simp only [List.mem_cons, List.not_mem_nil, or_false] at hm
    rcases hm with rfl | rfl | rfl | rfl | rfl | rfl | rfl <;> exact absurd h (by decide)
  refine isInert_iff.2 ⟨hmark, fun hc => ?_⟩
  obtain rfl := List.mem_singleton.1 hc
  exact absurd h (by decide)

theorem whole_figures {a : List Char} (h : Figures a) : k.Whole [','] a :=
  whole_of_isInert (List.all_eq_true.2 fun c hc => isInert_of_isFigure (h c hc))

/-! ## Identifiers -/

namespace Kind

theorem whole_identifier (k : Kind) (name : List Char) : k.Whole [',', ' '] (k.identifier name) := by
  have hs : [',', ' '].any isMark = false := by decide
  cases k with
  | mysql => exact whole_quoted (q := .grave) hs rfl (reads_doubled hs rfl rfl name)
  | sqlserver => exact whole_quoted (q := .bracket) hs rfl (reads_doubled hs rfl rfl name)
  | generic => exact whole_quoted (q := .double) hs rfl (reads_doubled hs rfl rfl name)
  | sqlite => exact whole_quoted (q := .double) hs rfl (reads_doubled hs rfl rfl name)
  | postgres => exact whole_quoted (q := .double) hs rfl (reads_doubled hs rfl rfl name)

/-! ## Literals -/

theorem isMark_comma : [','].any isMark = false := by decide

/-- An escaped character is two steps, any other one is one. -/
theorem reads_backslashed (c : Char) :
    mysql.Reads [','] ⟨0, .inside .single⟩ (backslashed c) ⟨0, .inside .single⟩ := by
  have pair (d : Char) : mysql.Reads [','] ⟨0, .inside .single⟩ ['\\', d] ⟨0, .inside .single⟩ :=
    .hidden rfl rfl (.hidden rfl rfl (.done _))
  unfold backslashed
  split_ifs with h0 hn hr hz hq
  · exact pair '0'
  · exact pair 'n'
  · exact pair 'r'
  · exact pair 'Z'
  · exact pair c
  · rw [not_or, not_or] at hq
    exact .hidden rfl (step_inside 0 hq.2.1 fun _ => hq.1) (.done _)

theorem reads_flatMap_backslashed (s : List Char) :
    mysql.Reads [','] ⟨0, .inside .single⟩ (s.flatMap backslashed) ⟨0, .inside .single⟩ := by
  induction s with
  | nil => exact .done _
  | cons c s ih =>
    rw [List.flatMap_cons]
    exact (reads_backslashed c).append ih

/-- Between single quotes, a text without quotes and backslashes. -/
theorem whole_single {a : List Char} (h : ∀ c ∈ a, c ≠ '\'' ∧ (k.escapes .single = true → c ≠ '\\')) :
    k.Whole [','] ('\'' :: (a ++ ['\''])) :=
  whole_quoted (q := .single) isMark_comma rfl (reads_inside h)

theorem whole_text (k : Kind) (s : List Char) : k.Whole [','] (k.text s) := by
  have hn : ['N'].all (isInert [',']) = true := by decide
  cases k with
  | mysql => exact whole_quoted (q := .single) isMark_comma rfl (reads_flatMap_backslashed s)
  | sqlserver =>
    exact .append_isInert hn (whole_quoted (q := .single) isMark_comma rfl (reads_doubled isMark_comma rfl rfl s))
  | generic => exact whole_quoted (q := .single) isMark_comma rfl (reads_doubled isMark_comma rfl rfl s)
  | sqlite => exact whole_quoted (q := .single) isMark_comma rfl (reads_doubled isMark_comma rfl rfl s)
  | postgres => exact whole_quoted (q := .single) isMark_comma rfl (reads_doubled isMark_comma rfl rfl s)

theorem whole_like (k : Kind) (anchor : Anchor) (s : List Char) : k.Whole [','] (k.like anchor s) := by
  have hspace : isInert [','] ' ' = true := by decide
  have hescape : "ESCAPE ".toList.all (isInert [',']) = true := by decide
  have hclause {k : Kind} (he : k.escapes .single = false) : k.Whole [','] "ESCAPE '\\'".toList := by
    refine .append_isInert hescape (whole_single (a := ['\\']) fun c hc => ?_)
    obtain rfl := List.mem_singleton.1 hc
    exact ⟨by decide, by simp [he]⟩
  cases k with
  | generic => exact (whole_text _ _).glue hspace (hclause rfl)
  | sqlite => exact (whole_text _ _).glue hspace (hclause rfl)
  | postgres => exact whole_text _ _
  | mysql => exact whole_text _ _
  | sqlserver => exact whole_text _ _

theorem whole_bool (k : Kind) (b : Bool) : k.Whole [','] (k.bool b) := by
  refine whole_of_isInert ?_
  cases k <;> cases b <;> decide

/-- Between single quotes, figures. -/
theorem whole_quoted_figures {a : List Char} (h : Figures a) : k.Whole [','] ('\'' :: (a ++ ['\''])) := by
  refine whole_single fun c hc => ⟨?_, fun _ => ?_⟩
  · rintro rfl
    exact absurd (h _ hc) (by decide)
  · rintro rfl
    exact absurd (h _ hc) (by decide)

/-- Figures between single quotes, behind a word. -/
theorem whole_behind_word {a : List Char} (word : List Char) (h : Figures a) (hw : word.all (isInert [',']) = true) :
    k.Whole [','] (word ++ ['\''] ++ a ++ ['\'']) := by
  rw [List.append_assoc, List.append_assoc]
  exact .append_isInert hw (whole_quoted_figures h)

/-- Figures between single quotes, cast to a type. -/
theorem whole_cast {a : List Char} (name : List Char) (h : Figures a) (hn : name.all (isInert []) = true) :
    k.Whole [','] ("CAST('".toList ++ a ++ '\'' :: ' ' :: (name ++ [')'])) := by
  have hcast : "CAST".toList.all (isInert [',']) = true := by decide
  have hquoted : k.Whole [] ('\'' :: (a ++ ['\''])) := (whole_quoted_figures h).mono (by simp)
  have he : "CAST('".toList ++ a ++ '\'' :: ' ' :: (name ++ [')']) =
      "CAST".toList ++ '(' :: ('\'' :: (a ++ ['\'']) ++ ' ' :: name ++ [')']) := by
    simp
  rw [he]
  exact .append_isInert hcast ((hquoted.glue (by decide) (whole_of_isInert hn)).inParentheses isMark_comma)

theorem whole_date (k : Kind) (d : Date) : k.Whole [','] (k.date d) := by
  have hf := figures_dateIso d
  cases k with
  | generic => exact whole_behind_word "DATE ".toList hf (by decide)
  | sqlserver => exact whole_cast "AS DATE".toList hf (by decide)
  | sqlite => exact whole_quoted_figures hf
  | postgres => exact whole_quoted_figures hf
  | mysql => exact whole_quoted_figures hf

theorem whole_dateTime (k : Kind) (t : DateTime) : k.Whole [','] (k.dateTime t) := by
  have hf := figures_dateTimeIso t
  cases k with
  | generic => exact whole_behind_word "TIMESTAMP ".toList hf (by decide)
  | sqlserver => exact whole_cast "AS DATETIME2".toList hf (by decide)
  | sqlite => exact whole_quoted_figures hf
  | postgres => exact whole_quoted_figures hf
  | mysql => exact whole_quoted_figures hf

/-- A hexadecimal digit is inert. -/
theorem isInert_of_isSome_digitValue? {c : Char} (h : (Text.Hex.digitValue? c).isSome = true) :
    isInert [','] c = true ∧ c ≠ '\\' := by
  have hn (d : Char) (hd : (Text.Hex.digitValue? d).isSome = false) : c ≠ d := by
    rintro rfl
    rw [hd] at h
    cases h
  refine ⟨isInert_iff.2 ⟨?_, ?_⟩, hn '\\' (by decide)⟩
  · by_contra hm
    rw [Bool.not_eq_false, isMark, List.contains_iff_mem] at hm
    simp only [List.mem_cons, List.not_mem_nil, or_false] at hm
    rcases hm with rfl | rfl | rfl | rfl | rfl | rfl | rfl <;> exact absurd h (by decide)
  · intro hc
    exact hn ',' (by decide) (List.mem_singleton.1 hc)

theorem whole_binary (k : Kind) (bytes : List UInt8) : k.Whole [','] (k.binary bytes) := by
  have inert {digit : Nat → Char} (hd : Text.Hex.Digits digit) :
      ∀ c ∈ Text.Hex.ofBytes digit bytes, isInert [','] c = true ∧ c ≠ '\\' :=
    fun c hc => isInert_of_isSome_digitValue? (Text.Hex.isSome_digitValue?_of_mem_ofBytes hd hc)
  have hne {c : Char} (h : isInert [','] c = true) : c ≠ '\'' := by
    rintro rfl
    cases h
  have hquoted (k : Kind) :
      k.Whole [','] (['X'] ++ ['\''] ++ Text.Hex.ofBytes Text.Hex.upperDigit bytes ++ ['\'']) := by
    rw [List.append_assoc, List.append_assoc]
    refine .append_isInert (by decide) (whole_single fun c hc => ?_)
    obtain ⟨hi, hb⟩ := inert Text.Hex.digits_upperDigit c hc
    exact ⟨hne hi, fun _ => hb⟩
  cases k with
  | generic => exact hquoted _
  | sqlite => exact hquoted _
  | mysql => exact hquoted _
  | sqlserver =>
    have hupper := List.all_eq_true.2 fun c hc => (inert Text.Hex.digits_upperDigit c hc).1
    exact .append_isInert (by decide) (whole_of_isInert hupper)
  | postgres =>
    -- here a backslash is a character like any other
    have he : postgres.binary bytes =
        '\'' :: ('\\' :: 'x' :: Text.Hex.ofBytes Text.Hex.lowerDigit bytes ++ ['\'']) ++ ':' :: ":bytea".toList := by
      simp [Kind.binary]
    rw [he]
    have hcast : postgres.Whole [','] ":bytea".toList := whole_of_isInert (by decide)
    refine (whole_single fun c hc => ⟨?_, fun h => absurd h (by decide)⟩).glue (by decide) hcast
    rcases List.mem_cons.1 hc with rfl | hc
    · decide
    rcases List.mem_cons.1 hc with rfl | hc
    · decide
    · exact hne (inert Text.Hex.digits_lowerDigit c hc).1

end Kind

end SqlComposer.Dialect
