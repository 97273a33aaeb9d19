import SqlComposer.ScalarText

/-!
# What a scalar can come to

* `Context.Outcome` : a text, a mark, what the dialect writes, or SQL text in parts;
* `Context.outcome_scalar` : a scalar comes to one of these under any modifier.

What holds of all of these holds of every scalar.
-/

namespace SqlComposer.Context

variable {ctx : Context}

/-- What a scalar can come to. -/
inductive Outcome (ctx : Context) : Render String → Prop
  | text (s : String) : Outcome ctx (pure s)
  | note (i : Issue) : Outcome ctx (.note i)
  | name (s : String) : Outcome ctx (.ofDialect (ctx.dialect.identifier s))
  | literal (s : String) : Outcome ctx (.ofDialect (ctx.dialect.text s))
  | binary (bytes : List UInt8) : Outcome ctx (.ofDialect (ctx.dialect.binary bytes))
  | date (d : Date) : Outcome ctx (.ofDialect (ctx.dialect.date d))
  | dateTime (t : DateTime) : Outcome ctx (.ofDialect (ctx.dialect.dateTime t))
  | like (a : Anchor) (s : String) : Outcome ctx (.ofDialect (ctx.dialect.like a s))
  | identifier (s : String) : Outcome ctx (ctx.identifier s)
  | rawSql (s : String) : Outcome ctx (ctx.rawSql s)

theorem outcome_mismatch (kind : String) (m : Modifier) : ctx.Outcome (mismatch kind m) :=
  .note _

theorem outcome_orNote (text : Except Issue String) : ctx.Outcome (.orNote text) := by
  cases text with
  | error i => exact .note i
  | ok s => exact .text s

theorem outcome_textOrNote (text : Except Issue String) : ctx.Outcome (ctx.textOrNote text) := by
  cases text with
  | error i => exact .note i
  | ok s => exact .literal s

theorem outcome_plainScalar (a : Scalar) : ctx.Outcome (ctx.plainScalar a) := by
  cases a with
  | float x => exact outcome_orNote _
  | text s => exact .literal s
  | binary bytes => exact .binary bytes
  | date d => exact .date d
  | dateTime t => exact .dateTime t
  | _ => exact .text _

theorem outcome_textScalar (m : Modifier) (a : Scalar) : ctx.Outcome (ctx.textScalar m a) := by
  cases a with
  | text s => exact .literal s
  | int n => exact .literal _
  | bool b => exact .literal _
  | float x => exact outcome_textOrNote _
  | _ => exact outcome_mismatch _ _

theorem outcome_intScalar (m : Modifier) (a : Scalar) : ctx.Outcome (intScalar m a) := by
  cases a with
  | int n => exact .text _
  | bool b => exact .text _
  | float x => exact outcome_orNote _
  | text s => exact outcome_orNote _
  | _ => exact outcome_mismatch _ _

theorem outcome_floatScalar (m : Modifier) (a : Scalar) : ctx.Outcome (floatScalar m a) := by
  cases a with
  | int n => exact .text _
  | bool b => exact .text _
  | float x => exact outcome_orNote _
  | text s => exact outcome_orNote _
  | _ => exact outcome_mismatch _ _

theorem outcome_dateScalar (a : Scalar) : ctx.Outcome (ctx.dateScalar a) := by
  unfold dateScalar
  split
  · exact .note _
  · exact .date _

theorem outcome_dateTimeScalar (a : Scalar) : ctx.Outcome (ctx.dateTimeScalar a) := by
  unfold dateTimeScalar
  split
  · exact .note _
  · exact .dateTime _

theorem outcome_givenScalar (m : Modifier) (a : Scalar) : ctx.Outcome (ctx.givenScalar m a) := by
  cases m with
  | text => exact outcome_textScalar _ a
  | textOrNull =>
    simp only [givenScalar]
    split
    · exact .text _
    · exact outcome_textScalar _ a
  | binary =>
    cases a with
    | binary bytes => exact .binary _
    | text s => exact .binary _
    | _ => exact outcome_mismatch _ _
  | bool =>
    cases a with
    | bool b => exact .text _
    | int n => exact .text _
    | float x => exact .text _
    | text s => exact .text _
    | _ => exact outcome_mismatch _ _
  | int => exact outcome_intScalar _ a
  | unsigned => exact outcome_intScalar _ a
  | intOrNull =>
    simp only [givenScalar]
    split
    · split
      · exact .text _
      · exact outcome_intScalar _ _
    · exact outcome_intScalar _ _
  | float => exact outcome_floatScalar _ a
  | date => exact outcome_dateScalar a
  | dateTime => exact outcome_dateTimeScalar a
  | identifier =>
    cases a with
    | text name => exact .identifier name
    | _ => exact outcome_mismatch _ _
  | orderBy =>
    cases a with
    | text name => exact .identifier name
    | _ => exact outcome_mismatch _ _
  | rawIdentifier =>
    cases a with
    | text name => exact .name name
    | _ => exact outcome_mismatch _ _
  | sql =>
    cases a with
    | text s => exact .rawSql s
    | literal sql => exact .text sql
    | _ => exact outcome_mismatch _ _
  | expand =>
    cases a with
    | text s => exact .rawSql s
    | literal sql => exact .text sql
    | _ => exact outcome_mismatch _ _
  | like anchor =>
    cases a with
    | text s => exact .like _ _
    | int n => exact .like _ _
    | _ => exact outcome_mismatch _ _
  | _ => exact outcome_mismatch _ _

theorem outcome_scalar (m : Option Modifier) (a : Scalar) : ctx.Outcome (ctx.scalar m a) := by
  cases m with
  | none => exact outcome_plainScalar a
  | some m =>
    show ctx.Outcome (ctx.scalarAs m a)
    unfold scalarAs
    split
    · exact .text _
    · exact outcome_givenScalar m a

end SqlComposer.Context
