import SqlComposer.Context
import SqlComposer.Json.Text
import SqlComposer.Text.Invisible

/-!
# Composers in words

* `describeText` : a text between double quotes, with escapes for what would not show;
* `Composer.describe` : a composer with its table of substitutions.
-/

namespace SqlComposer

/-- A character inside a described text. -/
def describeChar (c : Char) : List Char :=
  if c = '\x00' then ['\\', '0']
  else if c = '\t' then ['\\', 't']
  else if c = '\n' then ['\\', 'n']
  else if c = '\r' then ['\\', 'r']
  else if c = '"' ∨ c = '\\' then ['\\', c]
  else if Text.isInvisible c then "\\u\x7b".toList ++ Nat.toDigits 16 c.toNat ++ "\x7d".toList
  else [c]

/-- A text between double quotes. -/
def describeText (s : String) : String :=
  String.ofList ('"' :: (s.toList.flatMap describeChar ++ ['"']))

/-- A value with named fields. -/
def describeFields (name : String) (fields : List (String × String)) : String :=
  name ++ " \x7b " ++ ", ".intercalate (fields.map fun f => f.1 ++ ": " ++ f.2) ++ " \x7d"

/-- The entries in the order of the table. -/
def Substitutions.describe (s : Substitutions) : String :=
  describeFields "Substitutions"
    [("entries",
        "\x7b" ++ ", ".intercalate (s.entries.map fun e => describeText e.1 ++ ": " ++ describeText e.2) ++
          "\x7d"),
      ("fallback", Json.boolText s.fallback.isSome)]

/-- The dialect, the substitutions and whether placeholders are read. -/
def Composer.describe (c : Composer) : String :=
  describeFields "Translator"
    [("engine", describeText c.dialect.name), ("substitutions", c.substitutions.describe),
      ("placeholders", Json.boolText c.placeholders)]

end SqlComposer
