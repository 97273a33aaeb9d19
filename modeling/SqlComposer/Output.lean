import SqlComposer.Text.Blank

/-!
# Joining the pieces of a statement

Pieces of one token follow each other as they are. Between tokens stands one space, unless the text
before or the piece after makes it needless.

* `Output` : the text so far and whether a token has ended;
* `Output.endToken`, `Output.push`, `Output.finish`.
-/

namespace SqlComposer

/-- The text so far. -/
structure Output where
  text : String
  /-- A token has ended, and nothing but white space has come since. -/
  tokenEnded : Bool
  deriving DecidableEq

namespace Output

def empty : Output :=
  ⟨"", false⟩

/-- No space is put after these characters. -/
def opens (c : Char) : Bool :=
  c == '(' || c == '=' || c == '<' || c == '>' || c == '.'

/-- No space is put before these characters. -/
def closes (c : Char) : Bool :=
  c == ')' || c == ',' || c == '.' || c == ';'

/-- Whether a piece can follow a text without a space. -/
def joins (text piece : List Char) : Bool :=
  text.getLast?.all (fun c => Text.isBlank c || opens c) || piece.head?.any closes

/-- Marks the end of a token. -/
def endToken (o : Output) : Output :=
  { o with tokenEnded := true }

/-- Adds a piece. After the end of a token the white space before it goes, and a space is put where it
is needed; a piece of white space alone then adds nothing. -/
def push (piece : String) (o : Output) : Output :=
  if o.tokenEnded then
    let shown := Text.dropBlank piece.toList
    if shown.isEmpty then o
    else if joins o.text.toList shown then ⟨o.text ++ String.ofList shown, false⟩
    else ⟨o.text ++ " " ++ String.ofList shown, false⟩
  else ⟨o.text ++ piece, false⟩

/-- The text without the white space around it. -/
def finish (o : Output) : String :=
  String.ofList (Text.strip o.text.toList)

/-! ## Laws -/

@[simp] theorem push_empty (o : Output) : o.push "" = o := by
  obtain ⟨t, e⟩ := o
  cases e <;> simp [push]

@[simp] theorem endToken_endToken (o : Output) : o.endToken.endToken = o.endToken := rfl

end Output

end SqlComposer
