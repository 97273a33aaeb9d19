import SqlComposer.Modifier
import SqlComposer.Substitution
import SqlComposer.Text.Blank
import SqlComposer.Text.Quoted

/-!
# Lexemes of SQL text

* `Lexeme` : plain text, quoted strings and identifiers, substitutions, markers and placeholders;
* `Cursor` : a place in a text; `Cursor.next?` reads one lexeme (`Cursor.length_lt_of_next?`);
* `Cursor.lexemes`, `scan` : all lexemes of a text;
* `dropElseIf?` : the lexemes behind an `if` marker that continues an `else`.

Reading never fails: a quote or bracket without a partner is a lexeme of its own, and what follows it is
read on.
-/

namespace SqlComposer

/-- A part of SQL text. -/
inductive Lexeme
  /-- Text that is written as it is. -/
  | text (s : String)
  /-- The content of a quoted identifier. -/
  | identifier (name : String)
  /-- The content of a string literal. -/
  | string (s : String)
  /-- A string quote without a partner. -/
  | aloneQuote
  /-- An identifier quote without a partner. -/
  | unterminatedIdentifier
  /-- A name between colons; it is joined if a name or a dot continues it. -/
  | substitution (name : String) (joined : Bool)
  | marker (code : String)
  | placeholder
  deriving DecidableEq

/-- Whether markers and placeholders are read, or are plain text. -/
structure ScanMode where
  markers : Bool
  placeholders : Bool

namespace ScanMode

/-- The mode in which neither markers nor placeholders are read. -/
def plain : ScanMode :=
  ⟨false, false⟩

/-- The mode of a stream's SQL text. -/
def fragment (placeholders : Bool) : ScanMode :=
  ⟨true, placeholders⟩

end ScanMode

/-- The characters that a marker code may start with: ASCII letters and the tilde. -/
def isMarkerStart (c : Char) : Bool :=
  c.isAlpha || c == '~'

/-- The characters of a marker code: those of its start and the digits. -/
def isMarkerChar (c : Char) : Bool :=
  c.isAlphanum || c == '~'

/-- The most characters that a marker code has. -/
def maxMarkerLength : Nat :=
  6

/-- A place in a text: the character before it, if any, and the text after it. -/
structure Cursor where
  before : Option Char
  rest : List Char

namespace Cursor

/-- The start of a text. -/
def ofText (text : String) : Cursor :=
  ⟨none, text.toList⟩

/-! ## One lexeme -/

/-- Reads an identifier behind its opening quote. There is no way to write the closing quote inside,
and an empty pair of quotes is plain text. -/
def readIdentifier (opening closing : Char) (cs : List Char) : Lexeme × Cursor :=
  let name := cs.takeWhile (· != closing)
  match cs.dropWhile (· != closing) with
  | [] => (.unterminatedIdentifier, ⟨some opening, cs⟩)
  | _ :: rest =>
    (if name.isEmpty then .text (String.ofList [opening, closing]) else .identifier (String.ofList name),
      ⟨some closing, rest⟩)

/-- Reads a string behind its opening quote. -/
def readString (quote : Char) (cs : List Char) : Lexeme × Cursor :=
  match Text.readQuoted quote cs with
  | some (s, rest) => (.string (String.ofList s), ⟨some quote, rest⟩)
  | none => (.aloneQuote, ⟨some quote, cs⟩)

/-- Reads a marker code behind the percent sign. -/
def readMarker (cs : List Char) : Lexeme × Cursor :=
  let code := (cs.take maxMarkerLength).takeWhile isMarkerChar
  (.marker (String.ofList code), ⟨code.getLast?, cs.drop code.length⟩)

/-- Reads a substitution behind its first colon. A colon next to either colon makes it plain text. -/
def readSubstitution? (before : Option Char) (cs : List Char) : Option (Lexeme × Cursor) :=
  if before = some ':' then none
  else
    match nameAt? cs with
    | none => none
    | some (name, rest) =>
      if rest.head? = some ':' then none
      else
        let joined := rest.head?.any fun c => isNameChar c || c == '.'
        some (.substitution (String.ofList name) joined, ⟨some ':', rest⟩)

/-- Reads the lexeme that starts with a special character. -/
def readSpecial? (mode : ScanMode) (before : Option Char) : List Char → Option (Lexeme × Cursor)
  | [] => none
  | c :: cs =>
    if c = '\x60' then some (readIdentifier '\x60' '\x60' cs)
    else if c = '[' then some (readIdentifier '[' ']' cs)
    else if c = '\'' ∨ c = '"' then some (readString c cs)
    else if c = '%' then
      if mode.markers && cs.head?.any isMarkerStart then some (readMarker cs) else none
    else if c = ':' then readSubstitution? before cs
    else if c = '?' then if mode.placeholders then some (.placeholder, ⟨some '?', cs⟩) else none
    else none

/-- Reads plain text up to the next special character. -/
def readText (mode : ScanMode) (before : Option Char) : List Char → List Char × Cursor
  | [] => ([], ⟨before, []⟩)
  | c :: cs =>
    if (readSpecial? mode before (c :: cs)).isSome then ([], ⟨before, c :: cs⟩)
    else
      let r := readText mode (some c) cs
      (c :: r.1, r.2)

/-- Reads the next lexeme. -/
def next? (mode : ScanMode) (c : Cursor) : Option (Lexeme × Cursor) :=
  match c.rest with
  | [] => none
  | d :: cs =>
    match readSpecial? mode c.before (d :: cs) with
    | some r => some r
    | none =>
      let r := readText mode (some d) cs
      some (.text (String.ofList (d :: r.1)), r.2)

/-! ## Progress -/

theorem length_readIdentifier (opening closing : Char) (cs : List Char) :
    (readIdentifier opening closing cs).2.rest.length ≤ cs.length := by
  unfold readIdentifier
  split
  · exact Nat.le_refl _
  · next h =>
    have := (List.dropWhile_sublist (fun c => c != closing) (l := cs)).length_le
    rw [h, List.length_cons] at this
    show _ ≤ _
    simp only
    omega

theorem length_readString (quote : Char) (cs : List Char) :
    (readString quote cs).2.rest.length ≤ cs.length := by
  unfold readString
  split
  · next h => exact Nat.le_of_lt (Text.length_lt_of_readQuoted h)
  · exact Nat.le_refl _

theorem length_readMarker (cs : List Char) : (readMarker cs).2.rest.length ≤ cs.length := by
  simp [readMarker]

theorem length_of_readSubstitution? {before : Option Char} {cs : List Char} {l : Lexeme} {c : Cursor}
    (h : readSubstitution? before cs = some (l, c)) : c.rest.length ≤ cs.length := by
  unfold readSubstitution? at h
  split at h
  · cases h
  · split at h
    · cases h
    · next hn =>
      split at h
      · cases h
      · cases h
        exact Nat.le_of_lt (length_lt_of_nameAt? hn)

theorem length_lt_of_readSpecial? {mode : ScanMode} {before : Option Char} {cs : List Char} {l : Lexeme}
    {c : Cursor} (h : readSpecial? mode before cs = some (l, c)) : c.rest.length < cs.length := by
  cases cs with
  | nil => cases h
  | cons d cs =>
    rw [List.length_cons, Nat.lt_succ_iff]
    simp only [readSpecial?] at h
    split at h
    · have := length_readIdentifier '\x60' '\x60' cs
      rw [Option.some.inj h] at this
      exact this
    split at h
    · have := length_readIdentifier '[' ']' cs
      rw [Option.some.inj h] at this
      exact this
    split at h
    · have := length_readString d cs
      rw [Option.some.inj h] at this
      exact this
    split at h
    · split at h
      · have := length_readMarker cs
        rw [Option.some.inj h] at this
        exact this
      · cases h
    split at h
    · exact length_of_readSubstitution? h
    split at h
    · split at h
      · cases h; exact Nat.le_refl _
      · cases h
    · cases h

theorem length_readText (mode : ScanMode) (before : Option Char) (cs : List Char) :
    (readText mode before cs).2.rest.length ≤ cs.length := by
  induction cs generalizing before with
  | nil => exact Nat.le_refl _
  | cons c cs ih =>
    unfold readText
    split
    · exact Nat.le_refl _
    · exact Nat.le_succ_of_le (ih _)

/-- A lexeme takes at least one character. -/
theorem length_lt_of_next? {mode : ScanMode} {c d : Cursor} {l : Lexeme}
    (h : c.next? mode = some (l, d)) : d.rest.length < c.rest.length := by
  unfold next? at h
  split at h
  · cases h
  · next hc =>
    rw [hc]
    split at h
    · next hs => cases h; exact length_lt_of_readSpecial? hs
    · cases h; exact Nat.lt_succ_of_le (length_readText _ _ _)

/-! ## All lexemes -/

/-- The lexemes from a place to the end of the text. -/
def lexemes (mode : ScanMode) (c : Cursor) : List Lexeme :=
  match _h : c.next? mode with
  | none => []
  | some (l, d) => l :: lexemes mode d
  termination_by c.rest.length
  decreasing_by exact length_lt_of_next? _h

end Cursor

/-- The lexemes of a text. -/
def scan (mode : ScanMode) (text : String) : List Lexeme :=
  (Cursor.ofText text).lexemes mode

/-- Behind an `else` marker: the lexemes after an `if` marker that follows at once or behind white
space. -/
def dropElseIf? : List Lexeme → Option (List Lexeme)
  | .marker code :: ls => if code = "if" then some ls else none
  | .text s :: .marker code :: ls =>
    if s.toList.all Text.isBlank && code = "if" then some ls else none
  | _ => none

end SqlComposer
