import SqlComposer.Text.Hex

/-!
# JSON text

* `Json.quote` : a string literal; control characters, quotes and backslashes are escaped;
* `Json.inline` : an object on one line; `Json.indented` : an object with a member on each line.
-/

namespace SqlComposer.Json

/-- A character inside a string literal. -/
def escaped (c : Char) : List Char :=
  if c = '"' then ['\\', '"']
  else if c = '\\' then ['\\', '\\']
  else if c = '\x08' then ['\\', 'b']
  else if c = '\x0c' then ['\\', 'f']
  else if c = '\n' then ['\\', 'n']
  else if c = '\r' then ['\\', 'r']
  else if c = '\t' then ['\\', 't']
  else if c.toNat < 32 then
    ['\\', 'u', '0', '0', Text.Hex.lowerDigit (c.toNat / 16), Text.Hex.lowerDigit (c.toNat % 16)]
  else [c]

/-- A string literal. -/
def quote (s : String) : String :=
  String.ofList ('"' :: (s.toList.flatMap escaped ++ ['"']))

/-- A truth value. -/
def boolText (b : Bool) : String :=
  if b then "true" else "false"

/-- An object on one line, from names and the texts of their values. -/
def inline (members : List (String × String)) : String :=
  "\x7b" ++ ",".intercalate (members.map fun m => quote m.1 ++ ":" ++ m.2) ++ "\x7d"

/-- The lines between an opening and a closing line, each after `indent` and two spaces. -/
def block (indent opening closing : String) (lines : List String) : String :=
  if lines.isEmpty then opening ++ closing
  else
    opening ++ "\n" ++ ",\n".intercalate (lines.map fun l => indent ++ "  " ++ l) ++ "\n" ++ indent ++ closing

/-- An object with a member on each line, from names and the texts of their values. -/
def indented (members : List (String × String)) : String :=
  block "" "\x7b" "\x7d" (members.map fun m => quote m.1 ++ ": " ++ m.2)

/-- An array of strings with an element on each line, inside an object. -/
def indentedStrings (items : List String) : String :=
  block "  " "[" "]" (items.map quote)

end SqlComposer.Json
