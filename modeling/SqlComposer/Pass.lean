import SqlComposer.Branches
import SqlComposer.Lexeme
import SqlComposer.Output
import SqlComposer.Value

/-!
# One pass over a stream

* `Pass` : the state of a pass: the tokens and lexemes to come, the text so far, the open blocks;
* `Pass.next` : the next step; `Next` : what it asks for;

The steps decide which tokens belong together and what is left out. They write no value themselves.
-/

namespace SqlComposer

/-- Where the last mapping without modifier stood. -/
inductive LastRow
  /-- There was none. -/
  | none
  /-- It was the token before the current one. -/
  | adjacent
  /-- Other tokens have come since. -/
  | apart
  deriving DecidableEq

/-- The state of a pass. -/
structure Pass where
  /-- The tokens to come. -/
  queue : List Token
  /-- The lexemes to come of the current SQL text. -/
  lexemes : List Lexeme
  out : Output
  branches : Branches
  bounds : RowBounds
  /-- Whether the statement inserts rows. -/
  inserting : Bool
  lastRow : LastRow

/-- What a step asks for. -/
inductive Next
  /-- The stream has ended. -/
  | finished
  /-- Nothing to write, but there may be an issue. -/
  | moved (found : List Issue) (s : Pass)
  /-- The lexeme is written. -/
  | lexeme (l : Lexeme) (s : Pass)
  /-- The value is written under the modifier. -/
  | value (v : Value) (m : Option Modifier) (s : Pass)

/-- Whether SQL text starts with a command that inserts rows. -/
def isInsertCommand (text : String) : Bool :=
  let head := String.ofList (((Text.dropBlank text.toList).take 6).map Char.toUpper)
  head == "INSERT" || head == "REPLAC"

/-- The first SQL text of a stream. -/
def firstText? : List Token → Option String
  | [] => none
  | .sql text :: _ => some text
  | _ :: ts => firstText? ts

/-- A mapping is a row before the next token comes. -/
def LastRow.next : LastRow → LastRow
  | .adjacent => .apart
  | r => r

namespace Pass

/-- The start of a stream. -/
def start (tokens : List Token) : Pass where
  queue := tokens
  lexemes := []
  out := .empty
  branches := .empty
  bounds := .unbounded
  inserting := (firstText? tokens).any isInsertCommand
  lastRow := .none

/-- Whether the output is left out. -/
def isMasked (s : Pass) : Bool :=
  s.branches.isMasked

/-- Adds a text to the output. -/
def write (text : String) (s : Pass) : Pass :=
  { s with out := s.out.push text }

/-- Marks the end of a token in the output. -/
def endToken (s : Pass) : Pass :=
  { s with out := s.out.endToken }

/-- The state after an issue, whose mark is shown unless the output is left out. -/
def marked (i : Issue) (s : Pass) : Pass :=
  if s.isMasked then s else s.write i.mark

/-- An issue. -/
def fail (i : Issue) (s : Pass) : Next :=
  .moved [i] (s.marked i)

/-- Takes the next token for a marker. -/
def take (code : String) (s : Pass) (f : Value → Pass → Next) : Next :=
  match s.queue with
  | [] => s.fail (.extraModifier code)
  | t :: queue => f t.toValue { s with queue := queue }

/-- The text around a branch is joined like separate tokens. -/
def endBranch : Next → Next
  | .moved found s => .moved found s.endToken
  | n => n

/-- The blocks after a step, or its issue. -/
def branched (s : Pass) : Except Issue Branches → Next
  | .ok branches => .moved [] { s with branches := branches }
  | .error i => s.fail i

/-- A keyword of a block. -/
def block (k : Keyword) (s : Pass) : Next :=
  match k with
  | .ifTrue => endBranch <| s.take k.code fun v s => s.branched (.ok (s.branches.openBlock v.isTruthy))
  | .otherwise =>
    match dropElseIf? s.lexemes with
    | some lexemes =>
      endBranch <| { s with lexemes := lexemes }.take Keyword.ifTrue.code fun v s =>
        s.branched (s.branches.otherwiseIf v.isTruthy)
    | none => endBranch (s.branched s.branches.otherwise)
  | _ => endBranch (s.branched s.branches.close)

/-- The count that a value gives, if it gives any: null takes the bound away. -/
def rowCount? : Value → Option (Option Nat)
  | .scalar .null => some none
  | .scalar (.int n) => if 0 ≤ n then some (some n.toNat) else none
  | .scalar (.text t) => (Decimal.unsigned? RowBounds.countLimit (Text.strip t.toList)).map some
  | _ => none

/-- Sets the bound that a keyword names. -/
def setBound (k : Keyword) (count : Option Nat) (b : RowBounds) : RowBounds :=
  if k = .limit then { b with limit := count } else { b with offset := count }

/-- A keyword for a row bound. -/
def bound (k : Keyword) (s : Pass) : Next :=
  s.take k.code fun v s =>
    if s.isMasked then .moved [] s
    else
      match rowCount? v with
      | some count => .moved [] { s with bounds := setBound k count s.bounds }
      | none => s.fail (.invalidCombination v.kind k.code)

/-- The elements of the next token come in its place. -/
def expand (s : Pass) : Next :=
  s.take Modifier.expand.code fun v s =>
    if s.isMasked then .moved [] s
    else
      match v with
      | .list items => .moved [] { s with queue := items.map Token.ofElement ++ s.queue }
      | .fragment tokens => .moved [] { s with queue := tokens ++ s.queue }
      | v => .value v (some .expand) s

/-- A code that is not known. It takes the next token if it is the last lexeme of its text, or stands
alone. -/
def unknown (code : String) (s : Pass) : Next :=
  let s := if s.lexemes.isEmpty then { s with queue := s.queue.tail } else s
  if s.isMasked then .moved [] s else s.fail (.unknownModifier code)

/-- A marker, in SQL text or as a token. Blocks are known in SQL text only. -/
def marker (code : String) (inText : Bool) (s : Pass) : Next :=
  match Marker.ofCode? code with
  | none => s.unknown code
  | some (.keyword k) =>
    if !k.isConditional then s.bound k
    else if inText then s.block k
    else s.fail (.unexpectedKeyword code)
  | some (.modifier .expand) => s.expand
  | some (.modifier m) =>
    s.take code fun v s => if s.isMasked then .moved [] s else .value v (some m) s

/-- A placeholder takes the next token. -/
def placeholder (s : Pass) : Next :=
  match s.queue with
  | [] => s.fail .extraPlaceholder
  | t :: queue =>
    let s := { s with queue := queue }
    if s.isMasked then .moved [] s else .value t.toValue none s

/-- The next lexeme of the current SQL text. -/
def onLexeme (l : Lexeme) (s : Pass) : Next :=
  match l with
  | .marker code => s.marker code true
  | .placeholder => s.placeholder
  | l => if s.isMasked then .moved [] s else .lexeme l s

/-- A mapping without modifier: the first row of an inserting statement, a further row, or
assignments. Rows that follow each other directly are separated by commas. -/
def mapping (entries : List (String × Value)) (s : Pass) : Next :=
  let s' := { s with lastRow := .adjacent }
  if !s.inserting then .value (.map entries) (some .assign) s'
  else
    match s.lastRow with
    | .none => .value (.map entries) (some .values) s'
    | .adjacent => .value (.map entries) (some .list) (s'.write ",").endToken
    | .apart => .value (.map entries) (some .list) s'

/-- A value without modifier. -/
def onValue (v : Value) (s : Pass) : Next :=
  if s.isMasked then .moved [] { s with lastRow := s.lastRow.next }
  else
    match v with
    | .map entries => s.mapping entries
    | v => .value v none { s with lastRow := s.lastRow.next }

/-- The next token of the stream. -/
def onToken (placeholders : Bool) (t : Token) (s : Pass) : Next :=
  match t with
  | .sql text =>
    .moved [] { s with lexemes := scan (.fragment placeholders) text, lastRow := s.lastRow.next }
  | .modifier code => { s with lastRow := s.lastRow.next }.marker code false
  | .value v => s.onValue v

/-- The next step: a lexeme of the current SQL text, or else the next token. -/
def next (placeholders : Bool) (s : Pass) : Next :=
  match s.lexemes with
  | l :: lexemes => { s with lexemes := lexemes }.onLexeme l
  | [] =>
    match s.queue with
    | [] => .finished
    | t :: queue => { s with queue := queue }.endToken.onToken placeholders t

end Pass

end SqlComposer
