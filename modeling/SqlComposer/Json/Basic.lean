import SqlComposer.Number.Binary64

/-!
# JSON values

* `Json` : a value; an object keeps its members as they are written, repeated names included;
* `Json.kind` : how a kind of value is called;
* `Json.distinct` : the value with every name once in each object.
-/

namespace SqlComposer

/-- A JSON value. -/
inductive Json
  | null
  | bool (b : Bool)
  /-- A whole number of 64 bits. -/
  | int (n : Int)
  /-- Any other number. -/
  | float (x : Binary64)
  | string (s : String)
  | array (items : List Json)
  /-- The members in the order in which they are written. -/
  | object (members : List (String × Json))

namespace Json

/-- How a kind of value is called in a message. -/
def kind : Json → String
  | null => "null"
  | bool _ => "a boolean"
  | int _ | float _ => "a number"
  | string _ => "a string"
  | array _ => "an array"
  | object _ => "an object"

/-- The members with one set: in its old place if it has one, at the end otherwise. -/
def setMember (name : String) (j : Json) : List (String × Json) → List (String × Json)
  | [] => [(name, j)]
  | m :: ms => if m.1 = name then (name, j) :: ms else m :: setMember name j ms

/-- The members by name: a repeated name keeps its first place and takes its last value. -/
def byName (members : List (String × Json)) : List (String × Json) :=
  members.foldl (fun ms m => setMember m.1 m.2 ms) []

mutual

/-- The value with every name once in each of its objects. -/
def distinct : Json → Json
  | array items => array (distinctItems items)
  | object members => object (byName (distinctMembers members))
  | j => j

def distinctItems : List Json → List Json
  | [] => []
  | j :: js => j.distinct :: distinctItems js

def distinctMembers : List (String × Json) → List (String × Json)
  | [] => []
  | (name, j) :: ms => (name, j.distinct) :: distinctMembers ms

end

end Json

end SqlComposer
