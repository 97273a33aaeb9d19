import SqlComposer.ScalarText

/-!
# Clauses

How written parts are put together, and under which modifier the parts of a list or mapping are written.

* `conditions`, `tuple`, `valuesClause`, `rowsClause` : clauses from written parts;
* `itemModifier`, `closeItems` : the elements of a list;
* `entryModifier` : the value of a mapping entry, by the suffix of its key;
* `comparison`, `direction`, `Context.alias` : one entry of a mapping.
-/

namespace SqlComposer

/-! ## Written parts -/

/-- Conditions joined by a word; no condition at all holds always. -/
def conditions (word : String) (texts : List String) : String :=
  if texts.isEmpty then "1=1" else "(" ++ (") " ++ word ++ " (").intercalate texts ++ ")"

/-- The word that joins conditions. -/
def Modifier.conditionWord (m : Modifier) : String :=
  if m = .anyOf then "OR" else "AND"

/-- Values in parentheses. -/
def tuple (texts : List String) : String :=
  "(" ++ commaList texts ++ ")"

/-- Values in parentheses. An empty `IN` list holds `NULL`, so that the statement stays valid. -/
def tupleFor (m : Modifier) (texts : List String) : String :=
  if texts.isEmpty && m = .inList then "(NULL)" else tuple texts

/-- Columns with one row of values. -/
def valuesClause (cells : List (String × String)) : String :=
  tuple (cells.map Prod.fst) ++ " VALUES " ++ tuple (cells.map Prod.snd)

/-- Columns, each with its values, as a list of columns and rows. -/
def rowsClause (height : Nat) (columns : List (String × List String)) : String :=
  tuple (columns.map Prod.fst) ++ " VALUES " ++
    commaList ((List.range height).map fun i => tuple (columns.filterMap fun c => c.2[i]?))

/-- A column with the value assigned to it. -/
def assignment (cell : String × String) : String :=
  cell.1 ++ " = " ++ cell.2

/-! ## Lists -/

/-- The modifier for an element of a list that has a modifier itself. -/
def itemModifier (m : Option Modifier) (item : Value) : Option Modifier :=
  match m with
  | some .allOf | some .anyOf => some .expand
  | some .list | some .inList => if item.isList then some .expand else none
  | some .orderBy => if item.isList then some .expand else some .identifier
  | m => m

/-- The clause made of the elements of a list. -/
def closeItems (m : Option Modifier) (texts : List String) : String :=
  match m with
  | some .allOf => conditions "AND" texts
  | some .anyOf => conditions "OR" texts
  | some .list => tupleFor .list texts
  | some .inList => tupleFor .inList texts
  | _ => commaList texts

/-! ## Mappings -/

/-- The modifier for the value of an entry: that of the key's suffix, or `listAs` for a list without. -/
def entryModifier (listAs : Modifier) (key : String) (v : Value) : Except Issue (Option Modifier) :=
  match (splitKey key).2 with
  | none => .ok (if v.isList then some listAs else none)
  | some code =>
    match Modifier.ofCode? code with
    | some m => .ok (some m)
    | none => .error (.unknownModifier code)

/-- The operator between a column and its value in a condition, nothing where the value brings its own. -/
def operator (m : Except Issue (Option Modifier)) (text : String) : String :=
  match m with
  | .error _ | .ok (some .expand) => " "
  | .ok (some .list) | .ok (some .inList) => " IN "
  | .ok (some (.like _)) => " LIKE "
  | .ok _ => if text = "NULL" then " IS " else " = "

/-- A condition on a column, from an entry and its written column and value. -/
def comparison (entry : String × Value) (cell : String × String) : String :=
  cell.1 ++ operator (entryModifier .inList entry.1 entry.2) cell.2 ++ cell.2

/-- Whether a direction is ascending: text that does not start with a `d`, true, and numbers above zero. -/
def isAscending : Value → Bool
  | .scalar (.text s) => !(Text.dropBlank s.toList).head?.any fun c => c == 'd' || c == 'D'
  | .scalar (.int n) => 0 < n
  | .scalar (.float x) => x.isPositive
  | .scalar (.bool b) => b
  | _ => false

/-- The word for a direction. -/
def direction (v : Value) : String :=
  if isAscending v then "ASC" else "DESC"

/-- Columns and rows, or the mark of what kept them from being made. -/
def closeColumns : Except String (List (String × List String)) → Render String
  | .error mark => pure mark
  | .ok [] => mismatch "empty map" .rows
  | .ok (c :: cs) =>
    if c.2.isEmpty then mismatch "empty list" .rows else pure (rowsClause c.2.length (c :: cs))

/-- A column with its other name, if it has one. -/
def Context.alias (ctx : Context) (entry : String × Value) : Render String := do
  let column ← ctx.identifier entry.1
  match entry.2 with
  | .scalar .null => pure column
  | .scalar (.text name) =>
    if name.isEmpty then pure column
    else do
      let name ← .ofDialect (ctx.dialect.identifier name)
      pure (column ++ " AS " ++ name)
  | v => mismatch v.kind .identifier

end SqlComposer
