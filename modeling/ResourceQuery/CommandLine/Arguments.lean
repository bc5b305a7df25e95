import ResourceQuery.Text.Basic

/-! # Command lines

The arguments of the program: one of three commands with what it needs, and two options that may stand
before or behind the command. An option is written `--name value` or `--name=value`, once on each side;
behind `--` nothing is an option.
-/

namespace ResourceQuery

/-- How answers are printed. -/
inductive OutputFormat where
  | text
  | json
  deriving DecidableEq

/-- What the program is asked to do. -/
inductive Command where
  /-- Reads a query string and prints the steps it asks for. -/
  | plan (query : String)
  /-- Runs a request against the objects in a file. -/
  | query (schema data path query : String)
  /-- Prints the addresses of resource types. -/
  | uriTemplate (schema : String) (typeName : Option String)
  deriving DecidableEq

/-- A command and the options that all commands have. -/
structure Invocation where
  config : Option String
  format : OutputFormat
  command : Command
  deriving DecidableEq

/-- The commands by name. -/
inductive CommandName where
  | plan
  | query
  | uriTemplate
  deriving DecidableEq

/-- The command called `name`. -/
def CommandName.ofText? : String → Option CommandName
  | "plan" => some .plan
  | "query" => some .query
  | "uri-template" => some .uriTemplate
  | _ => none

/-- What arguments ask for. -/
inductive Request where
  | run (invocation : Invocation)
  /-- Help with a command, or with the program. -/
  | help (command : Option CommandName)
  | version
  /-- The arguments do not fit. -/
  | misuse
  deriving DecidableEq

/-- What is left of a request when an option before it does not fit: help is given all the same. -/
def Request.onlyHelp : Request → Request
  | .help command => .help command
  | _ => .misuse

namespace CommandLine

/-- An option that takes a value. -/
inductive OptionName where
  | config
  | format
  | schema
  | data
  deriving DecidableEq

/-- The option called `name` behind a command, or before it if there is none. -/
def OptionName.ofText? (command : Option CommandName) (name : String) : Option OptionName :=
  match name, command with
  | "config", _ => some .config
  | "format", _ => some .format
  | "schema", some .query => some .schema
  | "schema", some .uriTemplate => some .schema
  | "data", some .query => some .data
  | _, _ => none

/-- The arguments on one side of the command. -/
structure Given where
  options : List (OptionName × String)
  operands : List String

/-- Nothing given. -/
def Given.nothing : Given := ⟨[], []⟩

/-- The format called `name`. -/
def formatOf? : String → Option OutputFormat
  | "text" => some .text
  | "json" => some .json
  | _ => none

/-- Whether an option may have a value: a format must be known, and a file must have a name. -/
def OptionName.accepts (o : OptionName) (value : String) : Bool :=
  match o with
  | .format => (formatOf? value).isSome
  | _ => !value.isEmpty

/-- Whether an argument is written like an option. -/
def isDashed (argument : String) : Bool :=
  Text.startsWith "-" argument && argument ≠ "-"

/-- The arguments with an option that is not given yet. -/
def Given.put? (g : Given) (o : OptionName) (value : String) : Option Given :=
  if (g.options.lookup o).isSome || !o.accepts value then none
  else some { g with options := (o, value) :: g.options }

/-- The arguments with an operand. -/
def Given.addOperand (g : Given) (operand : String) : Given :=
  { g with operands := g.operands ++ [operand] }

/-- How many operands a command takes at most. -/
def mostOperands : CommandName → Nat
  | .plan => 1
  | .query => 2
  | .uriTemplate => 1

/-- The command with what is given before and behind it. -/
def complete? (before : Given) (name : CommandName) (behind : Given) : Option Invocation := do
  let option (o : OptionName) := (behind.options.lookup o).or (before.options.lookup o)
  let command ← match name, behind.operands with
    | .plan, [query] => some (Command.plan query)
    | .query, path :: rest => do
      let schema ← option .schema
      let data ← option .data
      some (.query schema data path (rest.head?.getD ""))
    | .uriTemplate, operands => do
      let schema ← option .schema
      some (.uriTemplate schema operands.head?)
    | _, _ => none
  some ⟨option .config, ((option .format).bind formatOf?).getD .text, command⟩

/-- What the arguments behind a command ask for. -/
def finish (before : Given) (name : CommandName) (behind : Given) : Request :=
  if behind.operands.length > mostOperands name then .misuse
  else
    match complete? before name behind with
    | some invocation => .run invocation
    | none => .misuse

/-- Goes through arguments. `before` is given before the command `command`, if it was met already, and
`here` on this side of it. A value that stands by itself is looked at when what follows it is read, so
right before a command it does not keep help with this command from being given. -/
def readFrom (before : Given) (command : Option CommandName) (here : Given) :
    List String → Request
  | [] =>
    match command with
    | some name => finish before name here
    | none => .misuse
  | argument :: rest =>
    if argument = "--" then
      match command with
      | some name => finish before name { here with operands := here.operands ++ rest }
      | none => .misuse
    else if argument = "--help" ∨ Text.startsWith "-h" argument then .help command
    else if command.isNone ∧ (argument = "--version" ∨ Text.startsWith "-V" argument) then .version
    else
      match Text.after? "--" argument with
      | some long =>
        match Text.splitOnce '=' long with
        | some (name, value) =>
          match (OptionName.ofText? command name).bind fun o => here.put? o value with
          | some here => readFrom before command here rest
          | none => .misuse
        | none =>
          match OptionName.ofText? command long, rest with
          | some o, value :: rest =>
            if isDashed value then .misuse
            else
              match here.put? o value, command, rest with
              | some here, _, rest => readFrom before command here rest
              | none, none, name :: rest =>
                match CommandName.ofText? name with
                | some name => (readFrom here (some name) .nothing rest).onlyHelp
                | none => .misuse
              | none, _, _ => .misuse
          | _, _ => .misuse
      | none =>
        if isDashed argument then .misuse
        else
          match command with
          | some name =>
            if here.operands.length < mostOperands name then
              readFrom before command (here.addOperand argument) rest
            else .misuse
          | none =>
            match CommandName.ofText? argument with
            | some name => readFrom here (some name) .nothing rest
            | none => .misuse

/-- What arguments ask for. -/
def read (arguments : List String) : Request :=
  readFrom .nothing none .nothing arguments

end CommandLine

/-- The files that an invocation needs. -/
def Invocation.files (i : Invocation) : List String :=
  i.config.toList ++
    match i.command with
    | .plan _ => []
    | .query schema data _ _ => [schema, data]
    | .uriTemplate schema _ => [schema]

end ResourceQuery
