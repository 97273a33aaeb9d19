import SqlComposer.Dialect.Kind

/-!
# The command line

* `Options` : what the arguments ask for; `Request` : a run with options, or a text about the program;
* `CommandLine.parse` : the request of a list of arguments, or what is wrong with it (`UsageError`).

Arguments are read from left to right, and the first one that is wrong or asks for a text decides.
-/

namespace SqlComposer

/-- What the arguments of a run ask for. -/
structure Options where
  /-- The file with the stream; otherwise it comes from the standard input. -/
  input : Option String
  kind : Option Dialect.Kind
  /-- The file with the settings. -/
  config : Option String
  substitutions : List (String × String)
  noPlaceholders : Bool
  /-- A statement with issues is no failure. -/
  dump : Bool
  /-- A report is printed in place of the statement. -/
  json : Bool
  verbose : Bool

/-- What the arguments ask for. -/
inductive Request
  | help
  | version
  | run (o : Options)

/-- What is wrong with the arguments. -/
inductive UsageError
  | unknownArgument (arg : String)
  | missingValue (option : String)
  | needlessValue (option : String)
  | repeated (option : String)
  | invalidValue (option value : String)
  deriving DecidableEq

/-- The wording of a usage error. -/
def UsageError.message : UsageError → String
  | unknownArgument arg => "unexpected argument '" ++ arg ++ "' found"
  | missingValue option => "a value is required for '" ++ option ++ "' but none was supplied"
  | needlessValue option => "unexpected value for '" ++ option ++ "' found"
  | repeated option => "the argument '" ++ option ++ "' cannot be used multiple times"
  | invalidValue option value => "invalid value '" ++ value ++ "' for '" ++ option ++ "'"

namespace CommandLine

/-- An argument that takes a value. -/
inductive Valued
  | input
  | engine
  | config
  | sub

/-- An argument that takes none. -/
inductive Switch
  | noPlaceholders
  | dump
  | json
  | verbose
  | help
  | version

/-- The long form of an argument with a value. -/
def Valued.label : Valued → String
  | input => "[INPUT]"
  | engine => "--engine"
  | config => "--config"
  | sub => "--sub"

/-- The long form of an argument without value. -/
def Switch.label : Switch → String
  | noPlaceholders => "--no-placeholders"
  | dump => "--dump"
  | json => "--json"
  | verbose => "--verbose"
  | help => "--help"
  | version => "--version"

/-- The argument of a long name. -/
def long? : String → Option (Valued ⊕ Switch)
  | "engine" => some (.inl .engine)
  | "config" => some (.inl .config)
  | "sub" => some (.inl .sub)
  | "no-placeholders" => some (.inr .noPlaceholders)
  | "dump" => some (.inr .dump)
  | "json" => some (.inr .json)
  | "verbose" => some (.inr .verbose)
  | "help" => some (.inr .help)
  | "version" => some (.inr .version)
  | _ => none

/-- The argument of a short name. -/
def short? : Char → Option (Valued ⊕ Switch)
  | 'e' => some (.inl .engine)
  | 'c' => some (.inl .config)
  | 's' => some (.inl .sub)
  | 'v' => some (.inr .verbose)
  | 'h' => some (.inr .help)
  | 'V' => some (.inr .version)
  | _ => none

/-- The state between two arguments. -/
structure State where
  options : Options
  /-- The argument whose value has to come next. -/
  pending : Option Valued
  /-- Every further argument is an input. -/
  inputsOnly : Bool

def State.start : State :=
  ⟨⟨none, none, none, [], false, false, false, false⟩, none, false⟩

/-- Why reading stops early. -/
inductive Stop
  | wrong (e : UsageError)
  | asked (r : Request)

/-- A name and a text joined by an equals sign. The name is not empty. -/
def nameAndText? (value : String) : Option (String × String) :=
  let name := value.toList.takeWhile (· != '=')
  match value.toList.dropWhile (· != '=') with
  | [] => none
  | _ :: text => if name.isEmpty then none else some (String.ofList name, String.ofList text)

/-- A path that is not empty, where none was given before. -/
def setPath (v : Valued) (old : Option String) (path : String) : Except Stop (Option String) :=
  if old.isSome then .error (.wrong (.repeated v.label))
  else if path.isEmpty then .error (.wrong (.invalidValue v.label path))
  else .ok (some path)

/-- The options with one value set. -/
def setValue (o : Options) (v : Valued) (value : String) : Except Stop Options :=
  match v with
  | .input =>
    if o.input.isSome then .error (.wrong (.unknownArgument value))
    else do
      let path ← setPath v o.input value
      pure { o with input := path }
  | .config => do
    let path ← setPath v o.config value
    pure { o with config := path }
  | .engine =>
    if o.kind.isSome then .error (.wrong (.repeated v.label))
    else
      match Dialect.Kind.ofName? value with
      | some k => .ok { o with kind := some k }
      | none => .error (.wrong (.invalidValue v.label value))
  | .sub =>
    match nameAndText? value with
    | some e => .ok { o with substitutions := o.substitutions ++ [e] }
    | none => .error (.wrong (.invalidValue v.label value))

/-- The state with a value set. -/
def State.give (s : State) (v : Valued) (value : String) : Except Stop State := do
  let o ← setValue s.options v value
  pure { s with options := o, pending := none }

/-- Turns on a switch that is off. -/
def turnOn (w : Switch) (old : Bool) : Except Stop Bool :=
  if old then .error (.wrong (.repeated w.label)) else .ok true

/-- The options with a switch turned on. -/
def setSwitch (o : Options) (w : Switch) : Except Stop Options :=
  match w with
  | .noPlaceholders => do let b ← turnOn w o.noPlaceholders; pure { o with noPlaceholders := b }
  | .dump => do let b ← turnOn w o.dump; pure { o with dump := b }
  | .json => do let b ← turnOn w o.json; pure { o with json := b }
  | .verbose => do let b ← turnOn w o.verbose; pure { o with verbose := b }
  | .help => .error (.asked .help)
  | .version => .error (.asked .version)

/-- The state with a switch turned on. -/
def State.turn (s : State) (w : Switch) : Except Stop State := do
  let o ← setSwitch s.options w
  pure { s with options := o }

/-- No value may be missing before another argument. -/
def State.settled (s : State) : Except Stop Unit :=
  match s.pending with
  | some v => .error (.wrong (.missingValue v.label))
  | none => .ok ()

/-- The short arguments behind one hyphen. The rest behind an argument with a value is that value, with
or without an equals sign. -/
def State.shorts (arg : String) (s : State) : List Char → Except Stop State
  | [] => .ok s
  | c :: cs =>
    match short? c with
    | none => .error (.wrong (.unknownArgument arg))
    | some (.inl v) => do
      s.settled
      match cs with
      | [] => pure { s with pending := some v }
      | '=' :: value => s.give v (String.ofList value)
      | value => s.give v (String.ofList value)
    | some (.inr w) => do
      s.settled
      let s ← s.turn w
      s.shorts arg cs

/-- A long argument behind two hyphens. A value may follow an equals sign. -/
def State.long (arg : String) (s : State) (body : List Char) : Except Stop State :=
  let value? : Option String := match body.dropWhile (· != '=') with
    | [] => none
    | _ :: value => some (String.ofList value)
  match long? (String.ofList (body.takeWhile (· != '='))) with
  | none => .error (.wrong (.unknownArgument arg))
  | some (.inl v) => do
    s.settled
    match value? with
    | none => pure { s with pending := some v }
    | some value => s.give v value
  | some (.inr w) => do
    s.settled
    if value?.isSome then .error (.wrong (.needlessValue w.label)) else s.turn w

/-- One argument more. -/
def State.step (s : State) (arg : String) : Except Stop State :=
  if s.inputsOnly then do
    s.settled
    s.give .input arg
  else
    match arg.toList with
    | ['-', '-'] => .ok { s with inputsOnly := true }
    | '-' :: '-' :: body => s.long arg body
    | '-' :: c :: cs => s.shorts arg (c :: cs)
    | _ => s.give (s.pending.getD .input) arg

/-- The options at the end of the arguments. A dialect that is not named comes from the environment. -/
def State.finish (engine? : Option String) (s : State) : Except Stop Options := do
  s.settled
  match s.options.kind, engine? with
  | none, some name => setValue s.options .engine name
  | _, _ => pure s.options

/-- The request of a list of arguments. `engine?` is what the environment gives for the dialect. -/
def parse (args : List String) (engine? : Option String) : Except UsageError Request :=
  match args.foldlM State.step .start >>= State.finish engine? with
  | .ok o => .ok (.run o)
  | .error (.asked r) => .ok r
  | .error (.wrong e) => .error e

end CommandLine

end SqlComposer
