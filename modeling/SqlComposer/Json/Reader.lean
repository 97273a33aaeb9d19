import SqlComposer.Json.Symbol

/-!
# JSON values from symbols

* `Json.Frame`, `Json.Reading` : the containers that are open, and what may come next;
* `Json.Reading.step?` : one symbol more;
* `Json.read?` : the value of a text, none if the text is not one JSON value or is nested too deeply.
-/

namespace SqlComposer.Json

/-- An open container with its parts so far, the last one first. -/
inductive Frame
  | array (items : List Json)
  /-- The value to come belongs to `name`. -/
  | object (members : List (String × Json)) (name : String)

/-- What may come next. -/
inductive Expected
  | value
  /-- A value, or the end of an array. -/
  | firstItem
  /-- A name, or the end of an object. -/
  | firstName
  | name
  | colon
  /-- A comma, or the end of the innermost container. -/
  | more
  /-- Nothing: the value is complete. -/
  | nothing (j : Json)

/-- The state of reading: the open containers, innermost first, and what may come next. -/
structure Reading where
  frames : List Frame
  expected : Expected

/-- The most containers that may be open at once. -/
def maxDepth : Nat :=
  127

namespace Reading

def start : Reading :=
  ⟨[], .value⟩

/-- Opens a container. -/
def opened? (f : Frame) (e : Expected) (r : Reading) : Option Reading :=
  if r.frames.length < maxDepth then some ⟨f :: r.frames, e⟩ else none

/-- Puts a complete value into the innermost container. -/
def put (j : Json) : List Frame → Reading
  | [] => ⟨[], .nothing j⟩
  | .array items :: outer => ⟨.array (j :: items) :: outer, .more⟩
  | .object members name :: outer => ⟨.object ((name, j) :: members) name :: outer, .more⟩

/-- A symbol where a value is expected. -/
def value? (s : Symbol) (r : Reading) : Option Reading :=
  match s with
  | .openArray => r.opened? (.array []) .firstItem
  | .openObject => r.opened? (.object [] "") .firstName
  | .scalar j => some (put j r.frames)
  | _ => none

/-- A symbol where a name is expected. -/
def name? (s : Symbol) (r : Reading) : Option Reading :=
  match s, r.frames with
  | .scalar (.string name), .object members _ :: outer => some ⟨.object members name :: outer, .colon⟩
  | _, _ => none

/-- A symbol that closes the innermost container. -/
def closed? (s : Symbol) (r : Reading) : Option Reading :=
  match s, r.frames with
  | .closeArray, .array items :: outer => some (put (.array items.reverse) outer)
  | .closeObject, .object members _ :: outer => some (put (.object members.reverse) outer)
  | _, _ => none

/-- One symbol more. -/
def step? (r : Reading) (s : Symbol) : Option Reading :=
  match r.expected with
  | .value => r.value? s
  | .firstItem => r.closed? s <|> r.value? s
  | .firstName => r.closed? s <|> r.name? s
  | .name => r.name? s
  | .colon =>
    match s with
    | .colon => some { r with expected := .value }
    | _ => none
  | .more =>
    match s, r.frames with
    | .comma, .array _ :: _ => some { r with expected := .value }
    | .comma, .object _ _ :: _ => some { r with expected := .name }
    | s, _ => r.closed? s
  | .nothing _ => none

end Reading

/-- The value of a text. -/
def read? (text : String) : Option Json := do
  let symbols ← symbols? text.toList
  let r ← symbols.foldlM Reading.step? .start
  match r.expected with
  | .nothing j => some j
  | _ => none

end SqlComposer.Json
