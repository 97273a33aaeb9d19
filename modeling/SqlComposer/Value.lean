import SqlComposer.Dialect.Basic

/-!
# Tokens and values

A statement is given as a list of tokens: SQL text, values and explicit modifiers.

* `Scalar`, `Value`, `Token` : the data;
* `Scalar.isTruthy`, `Value.isTruthy` : what counts as true in a condition;
* `Value.sameValue` : equality of values, numbers being compared as numbers;
* `Token.ofElement` : a list element as a token; `Token.toValue` : a token as the value it stands for;
* `Value.nodes`, `Token.nodes` : the number of values and tokens in a value or token.
-/

namespace SqlComposer

/-- A value without parts. -/
inductive Scalar
  | null
  | bool (b : Bool)
  | int (n : Int)
  | float (x : Binary64)
  | text (s : String)
  | binary (bytes : List UInt8)
  | date (d : Date)
  | dateTime (t : DateTime)
  /-- SQL text that is written as it is. -/
  | literal (sql : String)
  deriving DecidableEq

/-- A value that writes itself. Its handle tells it from others. -/
structure Expression where
  handle : Nat
  render : Dialect → Option Modifier → Except DialectError String

mutual

/-- A typed value. -/
inductive Value
  | scalar (s : Scalar)
  | list (items : List Value)
  /-- Keys with values, in order. -/
  | map (entries : List (String × Value))
  /-- A stream inside a stream. -/
  | fragment (tokens : List Token)
  | expression (e : Expression)

/-- An element of a stream. -/
inductive Token
  /-- Text that is scanned as SQL. -/
  | sql (text : String)
  | value (v : Value)
  /-- The modifier of this code for the next token. -/
  | modifier (code : String)

end

namespace Scalar

/-- The name of the kind of a scalar. -/
def kind : Scalar → String
  | null => "null"
  | bool _ => "bool"
  | int _ => "int"
  | float _ => "float"
  | text _ => "text"
  | binary _ => "binary"
  | date _ => "date"
  | dateTime _ => "datetime"
  | literal _ => "literal"

/-- Zero and what is empty are false; a NaN is not zero. -/
def isTruthy : Scalar → Bool
  | null => false
  | bool b => b
  | int n => n != 0
  | float x => !x.isZero
  | text s | literal s => !s.isEmpty
  | binary bytes => !bytes.isEmpty
  | date _ | dateTime _ => true

/-- Equality of scalars, numbers being compared as numbers. -/
def sameScalar : Scalar → Scalar → Bool
  | float x, float y => x.sameNumber y
  | a, b => a == b

end Scalar

namespace Value

/-- The name of the kind of a value. -/
def kind : Value → String
  | scalar s => s.kind
  | list _ => "list"
  | map _ => "map"
  | fragment _ => "fragment"
  | expression _ => "expression"

def isNull : Value → Bool
  | scalar .null => true
  | _ => false

/-- What is empty is false. -/
def isTruthy : Value → Bool
  | scalar s => s.isTruthy
  | list items => !items.isEmpty
  | map entries => !entries.isEmpty
  | fragment tokens => !tokens.isEmpty
  | expression _ => true

def isList : Value → Bool
  | list _ => true
  | _ => false

end Value

/-! ## Equality -/

mutual

/-- Equality of values, numbers being compared as numbers and expressions by their handles. -/
def Value.sameValue : Value → Value → Bool
  | .scalar a, .scalar b => a.sameScalar b
  | .list a, .list b => sameItems a b
  | .map a, .map b => sameEntries a b
  | .fragment a, .fragment b => sameTokens a b
  | .expression a, .expression b => a.handle == b.handle
  | _, _ => false

def Token.sameToken : Token → Token → Bool
  | .sql a, .sql b => a == b
  | .value a, .value b => a.sameValue b
  | .modifier a, .modifier b => a == b
  | _, _ => false

def sameItems : List Value → List Value → Bool
  | [], [] => true
  | a :: as, b :: bs => a.sameValue b && sameItems as bs
  | _, _ => false

def sameEntries : List (String × Value) → List (String × Value) → Bool
  | [], [] => true
  | (k, a) :: as, (l, b) :: bs => k == l && a.sameValue b && sameEntries as bs
  | _, _ => false

def sameTokens : List Token → List Token → Bool
  | [], [] => true
  | a :: as, b :: bs => a.sameToken b && sameTokens as bs
  | _, _ => false

end

/-! ## Tokens and values -/

namespace Token

/-- A list element as a token: text is SQL. -/
def ofElement : Value → Token
  | .scalar (.text s) => sql s
  | v => value v

/-- The value that a token stands for: SQL text and a code are text. -/
def toValue : Token → Value
  | sql s | modifier s => .scalar (.text s)
  | value v => v

end Token

/-! ## Size -/

mutual

/-- The number of values and tokens in a value, itself included. -/
def Value.nodes : Value → Nat
  | .scalar _ | .expression _ => 1
  | .list items => 1 + itemNodes items
  | .map entries => 1 + entryNodes entries
  | .fragment tokens => 1 + tokenNodes tokens

/-- The number of values and tokens in a token. A token that holds a value counts as that value. -/
def Token.nodes : Token → Nat
  | .sql _ | .modifier _ => 1
  | .value v => v.nodes

def itemNodes : List Value → Nat
  | [] => 0
  | v :: vs => v.nodes + itemNodes vs

def entryNodes : List (String × Value) → Nat
  | [] => 0
  | (_, v) :: es => v.nodes + entryNodes es

def tokenNodes : List Token → Nat
  | [] => 0
  | t :: ts => t.nodes + tokenNodes ts

end

theorem Value.nodes_pos (v : Value) : 0 < v.nodes := by
  cases v <;> simp only [Value.nodes] <;> omega

theorem Token.nodes_pos (t : Token) : 0 < t.nodes := by
  cases t <;> simp [Token.nodes, Value.nodes_pos]

@[simp] theorem Token.nodes_ofElement (v : Value) : (Token.ofElement v).nodes = v.nodes := by
  unfold Token.ofElement
  split <;> simp [Token.nodes, Value.nodes]

@[simp] theorem Token.nodes_toValue (t : Token) : t.toValue.nodes = t.nodes := by
  cases t <;> simp [Token.toValue, Token.nodes, Value.nodes]

@[simp] theorem tokenNodes_append (a b : List Token) : tokenNodes (a ++ b) = tokenNodes a + tokenNodes b := by
  induction a with
  | nil => simp [tokenNodes]
  | cons t a ih => simp [tokenNodes, ih, Nat.add_assoc]

@[simp] theorem tokenNodes_map_ofElement (items : List Value) :
    tokenNodes (items.map Token.ofElement) = itemNodes items := by
  induction items with
  | nil => simp [tokenNodes, itemNodes]
  | cons v vs ih => simp [tokenNodes, itemNodes, ih]

@[simp] theorem entryNodes_map_mk (key : String) (items : List Value) :
    entryNodes (items.map (Prod.mk key)) = itemNodes items := by
  induction items with
  | nil => simp [entryNodes, itemNodes]
  | cons v vs ih => simp [entryNodes, itemNodes, ih]

end SqlComposer
