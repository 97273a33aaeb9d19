/-!
# The known dialects

* `Kind` : the five dialects; `Kind.all` lists them;
* `Kind.label` : the name by which a dialect is chosen; `Kind.ofName?` : a name or another one in use,
  in any case (`Kind.ofName?_label`).
-/

namespace SqlComposer.Dialect

/-- A dialect that is known by name. -/
inductive Kind
  | generic
  | sqlite
  | postgres
  | mysql
  | sqlserver
  deriving DecidableEq

namespace Kind

def all : List Kind :=
  [generic, sqlite, postgres, mysql, sqlserver]

/-- The name by which a dialect is chosen. -/
def label : Kind → String
  | generic => "generic"
  | sqlite => "sqlite"
  | postgres => "postgres"
  | mysql => "mysql"
  | sqlserver => "sqlserver"

/-- The name that a dialect gives itself. -/
def name : Kind → String
  | postgres => "postgresql"
  | k => k.label

/-- The dialect of a name in lower case. -/
def ofLowerName? : String → Option Kind
  | "generic" | "ansi" => some generic
  | "sqlite" | "sqlite3" => some sqlite
  | "postgres" | "postgresql" | "pgsql" => some postgres
  | "mysql" | "mariadb" => some mysql
  | "sqlserver" | "mssql" => some sqlserver
  | _ => none

/-- The dialect of a name, of which ASCII letters may be in any case. -/
def ofName? (name : String) : Option Kind :=
  ofLowerName? (String.ofList (name.toList.map Char.toLower))

/-- The wording for a name that is not known. -/
def unknownMessage (name : String) : String :=
  "unknown engine '" ++ name ++ "', expected one of: " ++ ", ".intercalate (all.map label)

theorem mem_all (k : Kind) : k ∈ all := by cases k <;> decide

@[simp] theorem ofName?_label (k : Kind) : ofName? k.label = some k := by cases k <;> rfl

end Kind

end SqlComposer.Dialect
