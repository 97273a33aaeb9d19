import SqlComposer.CommandLine
import SqlComposer.Compose
import SqlComposer.Settings
import SqlComposer.Stream

/-!
# The program

* `Host` : what the program needs from its surroundings; `Outcome` : what it leaves;
* `Program.run` : from arguments to outcome, in any monad of a host;
* `Statement.report` : a statement as a JSON report.
-/

namespace SqlComposer

/-- A statement as a JSON object. -/
def Statement.report (dialect : String) (s : Statement) : String :=
  Json.indented
    [("engine", Json.quote dialect), ("sql", Json.quote s.sql), ("ok", Json.boolText s.isOk),
      ("issues", Json.indentedStrings (s.issues.map Issue.message)),
      ("masked_regions", String.ofList (Decimal.natText s.masked))]

/-- What the program needs from its surroundings. What cannot be read is none. -/
structure Host (m : Type → Type) where
  fileText : String → m (Option String)
  inputText : m (Option String)
  now : m DateTime

/-- What a run of the program leaves. -/
inductive Outcome
  /-- The arguments are wrong. -/
  | misused (e : UsageError)
  /-- The output was written. -/
  | written (output : String)
  /-- The run failed after this output. -/
  | failed (output message : String)

namespace Outcome

def exitCode : Outcome → Nat
  | written _ => 0
  | failed _ _ => 1
  | misused _ => 2

/-- What goes to the standard output. -/
def output : Outcome → String
  | misused _ => ""
  | written s | failed s _ => s

/-- What went wrong, if anything did. -/
def message? : Outcome → Option String
  | misused e => some e.message
  | written _ => none
  | failed _ message => some message

end Outcome

namespace Program

/-- The environment variable that names the dialect. -/
def engineVariable : String :=
  "OXIDE_TRANSLATE_ENGINE"

def versionText : String :=
  "oxide-translate 0.1.0\n"

def helpText : String :=
  "\n".intercalate
    ["Usage: oxide-translate [OPTIONS] [INPUT]", "", "Arguments:",
      "  [INPUT]  JSON file holding the argument stream (stdin if not specified)", "", "Options:",
      "  -e, --engine <ENGINE>    Engine used for escaping",
      "  -c, --config <CONFIG>    JSON configuration file",
      "  -s, --sub <NAME=TEXT>    Substitution, may be repeated",
      "      --no-placeholders    Treat ? as plain text",
      "      --dump               Print the statement even if it has issues",
      "      --json               Print a JSON report",
      "  -v, --verbose            Enable verbose output",
      "  -h, --help               Print help",
      "  -V, --version            Print version", ""]

/-- The settings with the options of a run. -/
def override (s : Settings) (o : Options) : Settings :=
  let s := { s with kind := o.kind.getD s.kind }.withSubstitutions o.substitutions
  if o.noPlaceholders then { s with placeholders := false } else s

/-- The settings of a run, or what keeps them from being read. -/
def settings {m : Type → Type} [Monad m] (host : Host m) (o : Options) : m (Except String Settings) :=
  match o.config with
  | none => pure (.ok (override .default o))
  | some path => do
    match ← host.fileText path with
    | none => pure (.error ("Failed to read config " ++ path))
    | some text =>
      match Settings.read? text with
      | none => pure (.error ("Invalid config " ++ path))
      | some s => pure (.ok (override s o))

/-- The text of the stream of a run, or what keeps it from being read. -/
def input {m : Type → Type} [Monad m] (host : Host m) (o : Options) : m (Except String String) :=
  match o.input with
  | none => do
    match ← host.inputText with
    | none => pure (.error "Failed to read stdin")
    | some text => pure (.ok text)
  | some path => do
    match ← host.fileText path with
    | none => pure (.error ("Failed to read " ++ path))
    | some text => pure (.ok text)

/-- The outcome for a statement. -/
def printed (o : Options) (dialect : String) (s : Statement) : Outcome :=
  let output := (if o.json then s.report dialect else s.sql) ++ "\n"
  match s.failure? with
  | some message => if o.dump then .written output else .failed output message
  | none => .written output

/-- The outcome for the text of a stream. -/
def answer (o : Options) (s : Settings) (now : DateTime) (text : String) : Outcome :=
  match Stream.read? text with
  | .error e => .failed "" e.message
  | .ok tokens =>
    match s.composer.compose now tokens with
    | .error e => .failed "" e.message
    | .ok statement => printed o s.composer.dialect.name statement

/-- A run of the program. -/
def run {m : Type → Type} [Monad m] (host : Host m) (args : List String) (engine? : Option String) :
    m Outcome :=
  match CommandLine.parse args engine? with
  | .error e => pure (.misused e)
  | .ok .help => pure (.written helpText)
  | .ok .version => pure (.written versionText)
  | .ok (.run o) => do
    match ← settings host o with
    | .error message => pure (.failed "" message)
    | .ok s =>
      match ← input host o with
      | .error message => pure (.failed "" message)
      | .ok text => do
        let now ← host.now
        pure (answer o s now text)

end Program

end SqlComposer
