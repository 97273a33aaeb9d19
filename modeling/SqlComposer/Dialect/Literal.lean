import SqlComposer.Calendar.Iso
import SqlComposer.Dialect.Kind
import SqlComposer.Modifier
import SqlComposer.Text.Hex
import SqlComposer.Text.Quoted

/-!
# Literals and identifiers of the known dialects

* `Kind.quotes`, `Kind.identifier` : identifiers; the closing quote is doubled inside;
* `Kind.text`, `Kind.binary`, `Kind.bool`, `Kind.date`, `Kind.dateTime` : literals;
* `Anchor.wrap`, `escapeWildcards`, `Kind.like` : patterns that match a text as it stands.
-/

namespace SqlComposer

/-- The pattern with a wildcard on each side that is not anchored. -/
def Anchor.wrap (a : Anchor) (pattern : List Char) : List Char :=
  match a with
  | start => pattern ++ ['%']
  | finish => '%' :: pattern
  | anywhere => '%' :: (pattern ++ ['%'])

namespace Dialect

/-- The text with the escape character before every wildcard and before itself. -/
def escapeWildcards (escape : Char) : List Char → List Char
  | [] => []
  | c :: s =>
    if c = '%' ∨ c = '_' ∨ c = escape then escape :: c :: escapeWildcards escape s
    else c :: escapeWildcards escape s

/-- The text with every wildcard, and every bracket that opens a class, in a class of its own. -/
def classifyWildcards : List Char → List Char
  | [] => []
  | c :: s =>
    if c = '%' ∨ c = '_' ∨ c = '[' then '[' :: c :: ']' :: classifyWildcards s
    else c :: classifyWildcards s

/-- A character inside a literal in which the backslash escapes. -/
def backslashed (c : Char) : List Char :=
  if c = '\x00' then ['\\', '0']
  else if c = '\n' then ['\\', 'n']
  else if c = '\r' then ['\\', 'r']
  else if c = '\x1a' then ['\\', 'Z']
  else if c = '\\' ∨ c = '\'' ∨ c = '"' then ['\\', c]
  else [c]

namespace Kind

/-- The quotes around an identifier. -/
def quotes : Kind → Char × Char
  | mysql => ('\x60', '\x60')
  | sqlserver => ('[', ']')
  | _ => ('"', '"')

/-- A quoted identifier. -/
def identifier (k : Kind) (name : List Char) : List Char :=
  Text.enclosed k.quotes.1 k.quotes.2 name

/-- A text literal. -/
def text (k : Kind) (s : List Char) : List Char :=
  match k with
  | mysql => '\'' :: (s.flatMap backslashed ++ ['\''])
  | sqlserver => 'N' :: Text.enclosed '\'' '\'' s
  | _ => Text.enclosed '\'' '\'' s

/-- A binary literal. -/
def binary (k : Kind) (bytes : List UInt8) : List Char :=
  match k with
  | postgres => "'\\x".toList ++ Text.Hex.ofBytes Text.Hex.lowerDigit bytes ++ "'::bytea".toList
  | sqlserver => "0x".toList ++ Text.Hex.ofBytes Text.Hex.upperDigit bytes
  | _ => "X'".toList ++ Text.Hex.ofBytes Text.Hex.upperDigit bytes ++ ['\'']

/-- A truth value. -/
def bool (k : Kind) (b : Bool) : List Char :=
  match k with
  | generic | postgres => if b then "TRUE".toList else "FALSE".toList
  | _ => if b then ['1'] else ['0']

/-- A date literal. -/
def date (k : Kind) (d : Date) : List Char :=
  match k with
  | generic => "DATE '".toList ++ d.iso ++ ['\'']
  | sqlserver => "CAST('".toList ++ d.iso ++ "' AS DATE)".toList
  | _ => '\'' :: (d.iso ++ ['\''])

/-- A literal of a date with a time. -/
def dateTime (k : Kind) (t : DateTime) : List Char :=
  match k with
  | generic => "TIMESTAMP '".toList ++ t.iso ++ ['\'']
  | sqlserver => "CAST('".toList ++ t.iso ++ "' AS DATETIME2)".toList
  | _ => '\'' :: (t.iso ++ ['\''])

/-- The operand of `LIKE` that matches the text as it stands at the anchor. -/
def like (k : Kind) (a : Anchor) (s : List Char) : List Char :=
  match k with
  | sqlserver => k.text (a.wrap (classifyWildcards s))
  | postgres | mysql => k.text (a.wrap (escapeWildcards '\\' s))
  | generic | sqlite => k.text (a.wrap (escapeWildcards '\\' s)) ++ " ESCAPE '\\'".toList

end Kind

end Dialect

end SqlComposer
