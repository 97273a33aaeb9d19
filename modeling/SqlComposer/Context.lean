import SqlComposer.Lexeme
import SqlComposer.Render
import SqlComposer.Text.Parts
import SqlComposer.Value

/-!
# Writing the parts of SQL text

* `Composer` : what stays the same from statement to statement; `Context` adds the current time; `Context.leapDay` : a
  fixed one for each known dialect;
* `Context.identifier` : an identifier in parts; `Context.lexeme` : a lexeme;
* `Context.rawSql` : a text scanned for quotes, identifiers and substitutions.
-/

namespace SqlComposer

/-- A dialect with substitutions; placeholders in SQL text may be switched off. -/
structure Composer where
  dialect : Dialect
  substitutions : Substitutions
  placeholders : Bool

/-- A composer for a dialect without substitutions. -/
def Composer.ofDialect (d : Dialect) : Composer :=
  ⟨d, .empty, true⟩

/-- A composer at a point in time. -/
structure Context extends Composer where
  now : DateTime

/-- A known dialect without substitutions, on a leap day: the context of statements about fixed streams. -/
def Context.leapDay (k : Dialect.Kind) : Context :=
  ⟨.ofDialect k.dialect, .ofDate ⟨2024, 2, 29, by decide⟩⟩

/-- Texts one after the other. -/
def concat (texts : List String) : String :=
  String.ofList (texts.flatMap String.toList)

/-- Texts with a comma between neighbours. -/
def commaList (texts : List String) : String :=
  ", ".intercalate texts

namespace Context

/-- One part of an identifier. A star stays bare. -/
def identifierPart (ctx : Context) (part : List Char) : Render String :=
  if part = ['*'] then pure "*" else .ofDialect (ctx.dialect.identifier (String.ofList part))

/-- An identifier: after substitution, each part between dots is quoted on its own. -/
def identifier (ctx : Context) (name : String) : Render String :=
  match ctx.substitutions.substitute name with
  | .error i => .note i
  | .ok name => do
    let parts ← (Text.parts '.' name.toList).mapM ctx.identifierPart
    pure (".".intercalate parts)

/-- A substitution: as it is if something joins it, as a text literal otherwise. -/
def substitution (ctx : Context) (name : String) (joined : Bool) : Render String :=
  match ctx.substitutions.resolve name with
  | .error i => .note i
  | .ok text => if joined then pure text else .ofDialect (ctx.dialect.text text)

/-- A lexeme that takes nothing from the stream. -/
def lexeme (ctx : Context) : Lexeme → Render String
  | .text s => pure s
  | .identifier name => ctx.identifier name
  | .string s => .ofDialect (ctx.dialect.text s)
  | .aloneQuote => .note .aloneQuote
  | .unterminatedIdentifier => .note .unterminatedIdentifier
  | .substitution name joined => ctx.substitution name joined
  | .marker code => pure ("%" ++ code)
  | .placeholder => pure "?"

/-- A text scanned for quotes, identifiers and substitutions. -/
def rawSql (ctx : Context) (text : String) : Render String := do
  let texts ← (scan .plain text).mapM ctx.lexeme
  pure (concat texts)

end Context

end SqlComposer
