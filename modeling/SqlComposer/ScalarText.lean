import SqlComposer.Calendar.Reading
import SqlComposer.Context

/-!
# Writing scalars

* `Context.plainScalar` : a scalar by its own kind;
* `Context.scalarAs` : a scalar under a modifier;
* `Modifier.takesNull` : the modifiers under which null is written as `NULL`.
-/

namespace SqlComposer

/-- Notes that a value of a kind cannot be written under a modifier. -/
def mismatch (kind : String) (m : Modifier) : Render String :=
  .note (.invalidCombination kind m.code)

/-- The modifiers of plain data, under which null is written as `NULL`. -/
def Modifier.takesNull : Modifier → Bool
  | text | textOrNull | binary | bool | int | unsigned | intOrNull | float | date | dateTime | like _ =>
    true
  | _ => false

/-- A whole number in decimal digits. -/
def intText (n : Int) : String :=
  String.ofList (Decimal.intText n)

/-- A truth value as a digit. -/
def bitText (b : Bool) : String :=
  if b then "1" else "0"

/-- The bytes of a text. -/
def textBytes (s : String) : List UInt8 :=
  s.toList.flatMap String.utf8EncodeChar

/-- Text, or the issue that a number was expected. -/
def numberOr (given : String) (text : Option (List Char)) : Except Issue String :=
  match text with
  | some cs => .ok (String.ofList cs)
  | none => .error (.expectedNumber given)

/-- A floating point number without exponent. -/
def floatText (x : Binary64) : Except Issue String :=
  numberOr (String.ofList (Decimal.specialText x)) (Decimal.plainText? x)

/-- The whole part of a floating point number. -/
def wholeText (x : Binary64) : Except Issue String :=
  numberOr (String.ofList (Decimal.specialText x)) (if x.isFinite then some (Decimal.wholeText x) else none)

namespace Context

/-- A text literal that holds a text, or the mark of the issue that stands in its place. -/
def textOrNote (ctx : Context) (text : Except Issue String) : Render String :=
  match text with
  | .error i => .note i
  | .ok s => .ofDialect (ctx.dialect.text s)

/-- A scalar by its own kind. -/
def plainScalar (ctx : Context) : Scalar → Render String
  | .null => pure "NULL"
  | .bool b => pure (ctx.dialect.bool b)
  | .int n => pure (intText n)
  | .float x => .orNote (floatText x)
  | .text s => .ofDialect (ctx.dialect.text s)
  | .binary bytes => .ofDialect (ctx.dialect.binary bytes)
  | .date d => .ofDialect (ctx.dialect.date d)
  | .dateTime t => .ofDialect (ctx.dialect.dateTime t)
  | .literal sql => pure sql

/-- A text literal. -/
def textScalar (ctx : Context) (m : Modifier) : Scalar → Render String
  | .text s => .ofDialect (ctx.dialect.text s)
  | .int n => .ofDialect (ctx.dialect.text (intText n))
  | .float x => ctx.textOrNote (floatText x)
  | .bool b => .ofDialect (ctx.dialect.text (bitText b))
  | s => mismatch s.kind m

/-- A whole number. -/
def intScalar (m : Modifier) : Scalar → Render String
  | .int n => pure (intText n)
  | .bool b => pure (bitText b)
  | .float x => .orNote (wholeText x)
  | .text s => .orNote (numberOr s (Decimal.integerText? s.toList))
  | s => mismatch s.kind m

/-- A number. -/
def floatScalar (m : Modifier) : Scalar → Render String
  | .float x => .orNote (floatText x)
  | .int n => pure (intText n)
  | .bool b => pure (bitText b)
  | .text s => .orNote (numberOr s (Decimal.numericText? s.toList))
  | s => mismatch s.kind m

/-- The moment that a scalar names; a date alone names its start. -/
def moment (ctx : Context) (m : Modifier) : Scalar → Except Issue DateTime
  | .date d => .ok (.ofDate d)
  | .dateTime t => .ok t
  | .int n =>
    match DateTime.ofUnix? n with
    | some t => .ok t
    | none => .error (.invalidDate (intText n))
  | .text s =>
    match Moment.read? ctx.now s.toList with
    | some t => .ok t
    | none => .error (.invalidDate s)
  | s => .error (.invalidCombination s.kind m.code)

/-- A date. -/
def dateScalar (ctx : Context) (s : Scalar) : Render String :=
  match ctx.moment .date s with
  | .error i => .note i
  | .ok t => .ofDialect (ctx.dialect.date t.date)

/-- A date with a time. -/
def dateTimeScalar (ctx : Context) (s : Scalar) : Render String :=
  match ctx.moment .dateTime s with
  | .error i => .note i
  | .ok t => .ofDialect (ctx.dialect.dateTime t)

/-- A scalar that is not null under a modifier. -/
def givenScalar (ctx : Context) (m : Modifier) (s : Scalar) : Render String :=
  match m with
  | .text => ctx.textScalar m s
  | .textOrNull => if s = .text "" then pure "NULL" else ctx.textScalar m s
  | .binary =>
    match s with
    | .binary bytes => .ofDialect (ctx.dialect.binary bytes)
    | .text s => .ofDialect (ctx.dialect.binary (textBytes s))
    | s => mismatch s.kind m
  | .bool =>
    match s with
    | .bool _ | .int _ | .float _ | .text _ => pure (ctx.dialect.bool s.isTruthy)
    | s => mismatch s.kind m
  | .int | .unsigned => intScalar m s
  | .intOrNull =>
    match s with
    | .text t => if t.toList.all Text.isBlank then pure "NULL" else intScalar m s
    | s => intScalar m s
  | .float => floatScalar m s
  | .date => ctx.dateScalar s
  | .dateTime => ctx.dateTimeScalar s
  | .identifier | .orderBy =>
    match s with
    | .text name => ctx.identifier name
    | s => mismatch s.kind m
  | .rawIdentifier =>
    match s with
    | .text name => .ofDialect (ctx.dialect.identifier name)
    | s => mismatch s.kind m
  | .sql | .expand =>
    match s with
    | .text text => ctx.rawSql text
    | .literal sql => pure sql
    | s => mismatch s.kind m
  | .like a =>
    match s with
    | .text s => .ofDialect (ctx.dialect.like a s)
    | .int n => .ofDialect (ctx.dialect.like a (intText n))
    | s => mismatch s.kind m
  | .assign | .list | .inList | .values | .rows | .allOf | .anyOf => mismatch s.kind m

/-- A scalar under a modifier. -/
def scalarAs (ctx : Context) (m : Modifier) (s : Scalar) : Render String :=
  if s = .null ∧ m.takesNull then pure "NULL" else ctx.givenScalar m s

/-- A scalar under a modifier, if there is one. -/
def scalar (ctx : Context) (m : Option Modifier) (s : Scalar) : Render String :=
  match m with
  | none => ctx.plainScalar s
  | some m => ctx.scalarAs m s

end Context

end SqlComposer
