import SqlComposer.Calendar.Reading
import SqlComposer.Json.Reader
import SqlComposer.Value

/-!
# Streams in JSON

A stream is an array. Its strings are SQL text; inside lists and mappings strings are text values. An object
with one member whose name starts with a dollar sign is a tagged value.

* `StreamError` : what keeps JSON from being a stream, with its wording;
* `Stream.ofJson?` : the tokens of a JSON value; `Stream.read?` : the tokens of a text.
-/

namespace SqlComposer

/-- What keeps a text from being a stream. The kinds are those of `Json.kind`. -/
inductive StreamError
  | notJson
  | notArray (kind : String)
  /-- The content of this tag is no string. -/
  | notText (tag kind : String)
  | notTokens (kind : String)
  | invalidDate (text : String)
  | invalidDateTime (text : String)
  | oddHex (text : String)
  | invalidHex (text : String)
  /-- A modifier inside a list or mapping. -/
  | misplacedModifier
  | unknownTag (tag : String)
  deriving DecidableEq

/-- The wording of a stream error. -/
def StreamError.message : StreamError → String
  | notJson => "input is not valid JSON"
  | notArray kind => "expected a JSON array of tokens, found " ++ kind
  | notText tag kind => tag ++ " expects a string, found " ++ kind
  | notTokens kind => "$fragment expects an array, found " ++ kind
  | invalidDate text => "invalid $date '" ++ text ++ "'"
  | invalidDateTime text => "invalid $datetime '" ++ text ++ "'"
  | oddHex text => "hex string '" ++ text ++ "' has an odd length"
  | invalidHex text => "invalid hex string '" ++ text ++ "'"
  | misplacedModifier => "$modifier is only allowed at the top level"
  | unknownTag tag => "unknown tag " ++ tag

namespace Stream

/-- The text inside a tag. -/
def text? (tag : String) : Json → Except StreamError String
  | .string s => .ok s
  | j => .error (.notText tag j.kind)

/-- The bytes that hexadecimal digits spell. The length is counted in bytes. -/
def bytes? (s : String) : Except StreamError (List UInt8) :=
  if s.utf8ByteSize % 2 = 1 then .error (.oddHex s)
  else
    match Text.Hex.toBytes? s.toList with
    | some bytes => .ok bytes
    | none => .error (.invalidHex s)

/-- The date that a text gives. -/
def date? (s : String) : Except StreamError Date :=
  match Date.read? Layout.isoDate s.toList with
  | some d => .ok d
  | none => .error (.invalidDate s)

/-- The date and time that a text gives. -/
def dateTime? (s : String) : Except StreamError DateTime :=
  match Layout.isoDateTimes.findSome? fun l => DateTime.read? l s.toList with
  | some t => .ok t
  | none => .error (.invalidDateTime s)

/-- The tag of a tagged object. -/
def isTag (name : String) : Bool :=
  name.toList.head? == some '$'

/-- The scalar that a tag makes of its content. -/
def scalarOfTag? (tag : String) (j : Json) : Except StreamError Scalar :=
  match tag with
  | "$text" => do let s ← text? tag j; pure (.text s)
  | "$literal" => do let s ← text? tag j; pure (.literal s)
  | "$date" => do let s ← text? tag j; let d ← date? s; pure (.date d)
  | "$datetime" => do let s ← text? tag j; let t ← dateTime? s; pure (.dateTime t)
  | "$binary" => do let s ← text? tag j; let bytes ← bytes? s; pure (.binary bytes)
  | "$modifier" => .error .misplacedModifier
  | tag => .error (.unknownTag tag)

mutual

/-- A value inside a list or mapping. -/
def value? : Json → Except StreamError Value
  | .null => .ok (.scalar .null)
  | .bool b => .ok (.scalar (.bool b))
  | .int n => .ok (.scalar (.int n))
  | .float x => .ok (.scalar (.float x))
  | .string s => .ok (.scalar (.text s))
  | .array items => do
    let values ← values? items
    pure (.list values)
  | .object [(name, j)] =>
    if isTag name then tagged? name j
    else do
      let v ← value? j
      pure (.map [(name, v)])
  | .object members => do
    let entries ← entries? members
    pure (.map entries)

/-- A tagged value. -/
def tagged? (tag : String) : Json → Except StreamError Value
  | .array items =>
    if tag = "$fragment" then do
      let tokens ← tokens? items
      pure (.fragment tokens)
    else .scalar <$> scalarOfTag? tag (.array items)
  | j => if tag = "$fragment" then .error (.notTokens j.kind) else .scalar <$> scalarOfTag? tag j

/-- The elements of a list. -/
def values? : List Json → Except StreamError (List Value)
  | [] => .ok []
  | j :: js => do
    let v ← value? j
    let vs ← values? js
    pure (v :: vs)

/-- The entries of a mapping. -/
def entries? : List (String × Json) → Except StreamError (List (String × Value))
  | [] => .ok []
  | (name, j) :: ms => do
    let v ← value? j
    let es ← entries? ms
    pure ((name, v) :: es)

/-- A token of a stream. -/
def token? : Json → Except StreamError Token
  | .string s => .ok (.sql s)
  | .object [(name, j)] =>
    if name = "$modifier" then .modifier <$> text? name j
    else if isTag name then .value <$> tagged? name j
    else do
      let v ← value? j
      pure (.value (.map [(name, v)]))
  | j => .value <$> value? j

/-- The tokens of a stream. -/
def tokens? : List Json → Except StreamError (List Token)
  | [] => .ok []
  | j :: js => do
    let t ← token? j
    let ts ← tokens? js
    pure (t :: ts)

end

/-- The tokens of a JSON value. -/
def ofJson? : Json → Except StreamError (List Token)
  | .array items => tokens? items
  | j => .error (.notArray j.kind)

/-- The tokens of a text. -/
def read? (text : String) : Except StreamError (List Token) :=
  match Json.read? text with
  | none => .error .notJson
  | some j => ofJson? j.distinct

end Stream

end SqlComposer
