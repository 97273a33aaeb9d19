import SqlComposer.Context
import SqlComposer.Json.Reader
import SqlComposer.Json.Text

/-!
# Settings

* `Settings` : the dialect, the substitutions and whether placeholders are read;
* `Settings.ofJson?` : settings from an object, or from an array of its fields in order;
* `Settings.toJson` : their text; `Settings.composer` : the composer that they describe.
-/

namespace SqlComposer

/-- What a composer is made from. -/
structure Settings where
  kind : Dialect.Kind
  /-- In the order of their names, each name once. -/
  substitutions : List (String × String)
  placeholders : Bool
  deriving DecidableEq

namespace Settings

/-- The generic dialect without substitutions. -/
def default : Settings :=
  ⟨.generic, [], true⟩

/-- The entries with the text of one name set, in the order of the names. -/
def insertEntry (name text : String) : List (String × String) → List (String × String)
  | [] => [(name, text)]
  | e :: es =>
    if name = e.1 then (name, text) :: es
    else if name < e.1 then (name, text) :: e :: es
    else e :: insertEntry name text es

/-- The settings with further substitutions set one after the other. -/
def withSubstitutions (s : Settings) (entries : List (String × String)) : Settings :=
  { s with substitutions := entries.foldl (fun es e => insertEntry e.1 e.2 es) s.substitutions }

/-- The dialect of a name in settings, which has to be in lower case. -/
def kindOfName? : String → Option Dialect.Kind
  | "generic" => some .generic
  | "sqlite" => some .sqlite
  | "postgres" | "postgresql" | "pgsql" => some .postgres
  | "mysql" | "mariadb" => some .mysql
  | "sqlserver" | "mssql" => some .sqlserver
  | _ => none

/-- The dialect of a string, or of an object with its name and null. -/
def kind? : Json → Option Dialect.Kind
  | .string name => kindOfName? name
  | .object [(name, .null)] => kindOfName? name
  | _ => none

/-- The text of an entry. -/
def entry? : String × Json → Option (String × String)
  | (name, .string text) => some (name, text)
  | _ => none

/-- A field of the settings by its name. -/
def setField? (s : Settings) (name : String) (j : Json) : Option Settings :=
  match name, j with
  | "engine", j => (kind? j).map fun k => { s with kind := k }
  | "substitutions", .object members =>
    (members.mapM entry?).map fun es => { s with substitutions := [] }.withSubstitutions es
  | "placeholders", .bool b => some { s with placeholders := b }
  | _, _ => none

/-- The names of the fields in order. -/
def fieldNames : List String :=
  ["engine", "substitutions", "placeholders"]

/-- The settings with fields set one after the other, each at most once. -/
def setFields? (fields : List (String × Json)) : Option Settings :=
  if (fields.map Prod.fst).Nodup then
    fields.foldlM (fun s f => s.setField? f.1 f.2) default
  else none

/-- The settings in a JSON value. Fields that are missing keep their default. -/
def ofJson? : Json → Option Settings
  | .object members => setFields? members
  | .array items =>
    if items.length ≤ fieldNames.length then setFields? (fieldNames.zip items) else none
  | _ => none

/-- The settings in a text. -/
def read? (text : String) : Option Settings :=
  (Json.read? text).bind ofJson?

/-- The settings as JSON text. -/
def toJson (s : Settings) : String :=
  Json.inline
    [("engine", Json.quote s.kind.label),
      ("substitutions", Json.inline (s.substitutions.map fun e => (e.1, Json.quote e.2))),
      ("placeholders", Json.boolText s.placeholders)]

/-- The composer that the settings describe. -/
def composer (s : Settings) : Composer :=
  ⟨s.kind.dialect, Substitutions.ofList s.substitutions, s.placeholders⟩

end Settings

end SqlComposer
