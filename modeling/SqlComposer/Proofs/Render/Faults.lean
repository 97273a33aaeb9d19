import SqlComposer.Proofs.Render.Notes
import SqlComposer.Proofs.Render.Outcomes

/-!
# Faults of scalars and of SQL text

* `Dialect.WritesAll` : a dialect that never fails; `Kind.writesAll` : so are the known ones;
* `Modifier.kinds` : the kinds of scalars that a modifier is for;
* `Context.LexemeFault`, `Context.ScalarFault` : what can be wrong with a lexeme, and with a scalar under a modifier;
* `Context.notes_lexeme`, `Context.notes_rawSql`, `Context.notes_scalar` : each fault is noted, and there is a text.
-/

namespace SqlComposer

/-! ## Dialects -/

/-- The dialect writes whatever it is given. -/
structure Dialect.WritesAll (d : Dialect) : Prop where
  identifier : ∀ name, ∃ text, d.identifier name = .ok text
  text : ∀ s, ∃ text, d.text s = .ok text
  binary : ∀ bytes, ∃ text, d.binary bytes = .ok text
  date : ∀ date, ∃ text, d.date date = .ok text
  dateTime : ∀ t, ∃ text, d.dateTime t = .ok text
  like : ∀ a s, ∃ text, d.like a s = .ok text
  bounded : ∀ b sql, ∃ text, d.bounded b sql = .ok text

theorem Dialect.Kind.writesAll (k : Dialect.Kind) : k.dialect.WritesAll where
  identifier _ := ⟨_, rfl⟩
  text _ := ⟨_, rfl⟩
  binary _ := ⟨_, rfl⟩
  date _ := ⟨_, rfl⟩
  dateTime _ := ⟨_, rfl⟩
  like _ _ := ⟨_, rfl⟩
  bounded _ _ := ⟨_, rfl⟩

/-! ## Faults -/

/-- The kinds of scalars that can be written under a modifier. -/
def Modifier.kinds : Modifier → List String
  | text | textOrNull | bool | int | unsigned | intOrNull | float => ["null", "bool", "int", "float", "text"]
  | binary => ["null", "binary", "text"]
  | date | dateTime => ["null", "int", "text", "date", "datetime"]
  | identifier | rawIdentifier | orderBy => ["text"]
  | sql | expand => ["text", "literal"]
  | like _ => ["null", "int", "text"]
  | assign | list | inList | values | rows | allOf | anyOf => []

namespace Context

/-- The lexeme is a quote without a partner, or a name in it is not known. -/
inductive LexemeFault (ctx : Context) : Lexeme → Issue → Prop
  | aloneQuote : LexemeFault ctx .aloneQuote .aloneQuote
  | unterminatedIdentifier : LexemeFault ctx .unterminatedIdentifier .unterminatedIdentifier
  | identifier {name : String} {i : Issue} (h : ctx.substitutions.substitute name = .error i) :
      LexemeFault ctx (.identifier name) i
  | substitution {name : String} {joined : Bool} {i : Issue} (h : ctx.substitutions.resolve name = .error i) :
      LexemeFault ctx (.substitution name joined) i

/-- The scalar is not of the kind that the modifier is for, or it is no number, date, name or SQL text as the modifier
wants it. -/
inductive ScalarFault (ctx : Context) : Option Modifier → Scalar → Issue → Prop
  | kind {m : Modifier} {a : Scalar} (h : a.kind ∉ m.kinds) :
      ScalarFault ctx (some m) a (.invalidCombination a.kind m.code)
  | float {m : Option Modifier} (hm : m ∈ [none, some .text, some .textOrNull, some .int, some .unsigned,
      some .intOrNull, some .float]) {x : Binary64} (h : x.isFinite = false) :
      ScalarFault ctx m (.float x) (.expectedNumber (String.ofList (Decimal.specialText x)))
  | integer {m : Modifier} (hm : m ∈ [.int, .unsigned, .intOrNull]) {s : String}
      (blank : m = .intOrNull → s.toList.all Text.isBlank = false) (h : Decimal.integerText? s.toList = none) :
      ScalarFault ctx (some m) (.text s) (.expectedNumber s)
  | number {s : String} (h : Decimal.numericText? s.toList = none) :
      ScalarFault ctx (some .float) (.text s) (.expectedNumber s)
  | seconds {m : Modifier} (hm : m ∈ [.date, .dateTime]) {n : Int} (h : DateTime.ofUnix? n = none) :
      ScalarFault ctx (some m) (.int n) (.invalidDate (intText n))
  | moment {m : Modifier} (hm : m ∈ [.date, .dateTime]) {s : String} (h : Moment.read? ctx.now s.toList = none) :
      ScalarFault ctx (some m) (.text s) (.invalidDate s)
  | name {m : Modifier} (hm : m ∈ [.identifier, .orderBy]) {s : String} {i : Issue}
      (h : ctx.substitutions.substitute s = .error i) : ScalarFault ctx (some m) (.text s) i
  | sql {m : Modifier} (hm : m ∈ [.sql, .expand]) {s : String} {l : Lexeme} (hl : l ∈ scan .plain s) {i : Issue}
      (h : LexemeFault ctx l i) : ScalarFault ctx (some m) (.text s) i

end Context

/-! ## SQL text -/

open Render (Notes nothing)

theorem notes_mismatch (kind : String) (m : Modifier) : (mismatch kind m).Notes (· = .invalidCombination kind m.code) :=
  .note _

namespace Context

variable {ctx : Context}

theorem notes_identifier (hd : ctx.dialect.WritesAll) (name : String) :
    (ctx.identifier name).Notes (ctx.substitutions.substitute name = .error ·) := by
  have hpart (p : List Char) : (ctx.identifierPart p).Notes nothing := by
    unfold identifierPart
    split
    · exact .quiet _
    · exact .ofDialect (hd.identifier _)
  unfold identifier
  cases ctx.substitutions.substitute name with
  | error i =>
    apply (Notes.note i).mono
    rintro j ⟨⟩
    rfl
  | ok name =>
    apply ((Notes.mapM fun p _ => hpart p).bind fun parts _ _ _ => .quiet (".".intercalate parts)).mono
    nofun

theorem notes_lexeme (hd : ctx.dialect.WritesAll) (l : Lexeme) : (ctx.lexeme l).Notes (ctx.LexemeFault l) := by
  cases l with
  | text s => exact (Notes.quiet _).mono nofun
  | identifier name =>
    apply (notes_identifier hd name).mono
    rintro i ⟨⟩
    assumption
  | string s => exact (Notes.ofDialect (hd.text s)).mono nofun
  | aloneQuote =>
    apply (Notes.note .aloneQuote).mono
    rintro i ⟨⟩
    rfl
  | unterminatedIdentifier =>
    apply (Notes.note .unterminatedIdentifier).mono
    rintro i ⟨⟩
    rfl
  | substitution name joined =>
    show (ctx.substitution name joined).Notes _
    unfold substitution
    cases hr : ctx.substitutions.resolve name with
    | error i =>
      apply (Notes.note i).mono
      rintro j (⟨⟩ | ⟨⟩ | ⟨⟩ | ⟨h⟩)
      cases hr.symm.trans h
      rfl
    | ok text =>
      have hwritten : (if joined then pure text else Render.ofDialect (ctx.dialect.text text)).Notes nothing := by
        split
        · exact .quiet _
        · exact .ofDialect (hd.text _)
      apply hwritten.mono
      rintro j (⟨⟩ | ⟨⟩ | ⟨⟩ | ⟨h⟩)
      cases hr.symm.trans h
  | marker code => exact (Notes.quiet _).mono nofun
  | placeholder => exact (Notes.quiet _).mono nofun

theorem notes_rawSql (hd : ctx.dialect.WritesAll) (text : String) :
    (ctx.rawSql text).Notes fun i => ∃ l ∈ scan .plain text, ctx.LexemeFault l i := by
  unfold rawSql
  apply ((Notes.mapM fun l _ => notes_lexeme hd l).bind fun texts _ _ _ => .quiet (concat texts)).mono
  intro i hi
  exact .inl hi

/-! ## Scalars -/

/-- A scalar has a text under any modifier. -/
theorem writes_scalar (hd : ctx.dialect.WritesAll) (m : Option Modifier) (a : Scalar) :
    (ctx.scalar m a).Notes nothing := by
  have h := @outcome_scalar ctx m a
  generalize ctx.scalar m a = r at h
  cases h with
  | text s => exact .quiet s
  | note i => exact (Notes.note i).mono nofun
  | name s => exact .ofDialect (hd.identifier s)
  | literal s => exact .ofDialect (hd.text s)
  | binary bytes => exact .ofDialect (hd.binary bytes)
  | date d => exact .ofDialect (hd.date d)
  | dateTime t => exact .ofDialect (hd.dateTime t)
  | like a s => exact .ofDialect (hd.like a s)
  | identifier name => exact (notes_identifier hd name).mono nofun
  | rawSql s => exact (notes_rawSql hd s).mono nofun

/-- A modifier writes no scalar that it is not for. -/
theorem scalar_of_kind {m : Modifier} {a : Scalar} (h : a.kind ∉ m.kinds) : ctx.scalar (some m) a = mismatch a.kind m := by
  show ctx.scalarAs m a = _
  cases m <;> cases a <;> first | rfl | exact absurd (by simp [Modifier.kinds, Scalar.kind]) h

theorem orNote_numberOr {given : String} {text : Option (List Char)} (h : text = none) :
    Render.orNote (numberOr given text) = .note (.expectedNumber given) := by
  rw [h]
  rfl

theorem floatText_of_not_finite {x : Binary64} (h : x.isFinite = false) :
    floatText x = .error (.expectedNumber (String.ofList (Decimal.specialText x))) := by
  rw [floatText, Decimal.plainText?, h]
  rfl

theorem wholeText_of_not_finite {x : Binary64} (h : x.isFinite = false) :
    wholeText x = .error (.expectedNumber (String.ofList (Decimal.specialText x))) := by
  rw [wholeText, h]
  rfl

theorem scalar_of_not_finite {m : Option Modifier} (hm : m ∈ [none, some .text, some .textOrNull, some .int,
    some .unsigned, some .intOrNull, some .float]) {x : Binary64} (h : x.isFinite = false) :
    ctx.scalar m (.float x) = .note (.expectedNumber (String.ofList (Decimal.specialText x))) := by
  have hfloat := congrArg Render.orNote (floatText_of_not_finite h)
  have htext := congrArg ctx.textOrNote (floatText_of_not_finite h)
  have hwhole := congrArg Render.orNote (wholeText_of_not_finite h)
  simp only [List.mem_cons, List.not_mem_nil, or_false] at hm
  rcases hm with rfl | rfl | rfl | rfl | rfl | rfl | rfl
  · exact hfloat
  · exact htext
  · exact htext
  · exact hwhole
  · exact hwhole
  · exact hwhole
  · exact hfloat

theorem scalar_integer {m : Modifier} (hm : m ∈ [.int, .unsigned, .intOrNull]) {s : String}
    (blank : m = .intOrNull → s.toList.all Text.isBlank = false) :
    ctx.scalar (some m) (.text s) = .orNote (numberOr s (Decimal.integerText? s.toList)) := by
  simp only [List.mem_cons, List.not_mem_nil, or_false] at hm
  rcases hm with rfl | rfl | rfl
  · rfl
  · rfl
  · show (if s.toList.all Text.isBlank then pure "NULL" else intScalar .intOrNull (.text s)) = _
    rw [blank rfl]
    rfl

theorem scalar_of_moment {m : Modifier} (hm : m ∈ [.date, .dateTime]) {a : Scalar} (ha : a ≠ .null) {i : Issue}
    (h : ∀ m, ctx.moment m a = .error i) : ctx.scalar (some m) a = .note i := by
  show ctx.scalarAs m a = _
  rw [scalarAs, if_neg fun hnull => ha hnull.1]
  simp only [List.mem_cons, List.not_mem_nil, or_false] at hm
  rcases hm with rfl | rfl
  · show ctx.dateScalar a = _
    rw [dateScalar, h]
  · show ctx.dateTimeScalar a = _
    rw [dateTimeScalar, h]

/-- A scalar has a text under any modifier, and what is wrong with it is noted. -/
theorem notes_scalar (hd : ctx.dialect.WritesAll) (m : Option Modifier) (a : Scalar) :
    (ctx.scalar m a).Notes (ctx.ScalarFault m a) := by
  apply (writes_scalar hd m a).of_each
  intro i h
  cases h with
  | kind h =>
    rw [scalar_of_kind h]
    exact .note _
  | float hm h =>
    rw [scalar_of_not_finite hm h]
    exact .note _
  | integer hm blank h =>
    rw [scalar_integer hm blank, orNote_numberOr h]
    exact .note _
  | @number s h =>
    show (Render.orNote (numberOr s (Decimal.numericText? s.toList))).Notes _
    rw [orNote_numberOr h]
    exact .note _
  | @seconds _ hm n h =>
    have hmoment (m : Modifier) : ctx.moment m (.int n) = .error (.invalidDate (intText n)) := by rw [moment, h]
    rw [scalar_of_moment hm Scalar.noConfusion hmoment]
    exact .note _
  | @moment _ hm s h =>
    have hmoment (m : Modifier) : ctx.moment m (.text s) = .error (.invalidDate s) := by rw [moment, h]
    rw [scalar_of_moment hm Scalar.noConfusion hmoment]
    exact .note _
  | name hm h =>
    have hidentifier : (ctx.identifier _).Notes (· = i) := (notes_identifier hd _).mono (by rintro _ rfl; exact h)
    simp only [List.mem_cons, List.not_mem_nil, or_false] at hm
    rcases hm with rfl | rfl <;> exact hidentifier
  | sql hm hl h =>
    have hraw : (ctx.rawSql _).Notes (· = i) := (notes_rawSql hd _).mono (by rintro _ rfl; exact ⟨_, hl, h⟩)
    simp only [List.mem_cons, List.not_mem_nil, or_false] at hm
    rcases hm with rfl | rfl <;> exact hraw

end Context

end SqlComposer
