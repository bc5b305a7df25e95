import ResourceQuery.CommandLine.Arguments

/-! # Usage

The help texts: what the program or a command is for, how it is called, and sections of rows that say
what its commands, arguments and options are. The explanations of a section start in one column.
-/

namespace ResourceQuery

namespace CommandLine

/-- What is explained, and its explanation. -/
structure HelpRow where
  term : String
  text : String

/-- Rows under a title. -/
structure HelpSection where
  title : String
  rows : List HelpRow

/-- A help text. -/
structure Help where
  purpose : String
  usage : String
  sections : List HelpSection

/-! ## Layout -/

/-- The widest term of a section. -/
def HelpSection.width (s : HelpSection) : Nat :=
  s.rows.foldl (fun width row => max width row.term.length) 0

/-- A row with its explanation behind terms of a width. -/
def HelpRow.layout (width : Nat) (row : HelpRow) : String :=
  "  " ++ Text.padRight width row.term ++ "  " ++ row.text

/-- The lines of a section. -/
def HelpSection.layout (s : HelpSection) : List String :=
  "" :: (s.title ++ ":") :: s.rows.map (HelpRow.layout s.width)

/-- The lines of a help text. -/
def Help.layout (h : Help) : List String :=
  [h.purpose, "", "Usage: " ++ h.usage] ++ h.sections.flatMap HelpSection.layout

/-! ## The texts -/

/-- The configuration file. -/
def configRow : HelpRow := ⟨"    --config <FILE>", "TOML configuration file"⟩

/-- The output format. -/
def formatRow : HelpRow :=
  ⟨"    --format <FORMAT>",
    "Output format for structured responses [default: text] [possible values: text, json]"⟩

/-- The schema file. -/
def schemaRow : HelpRow := ⟨"    --schema <FILE>", "TOML schema file"⟩

/-- The data file. -/
def dataRow : HelpRow :=
  ⟨"    --data <FILE>", "JSON object mapping type names to item arrays"⟩

/-- Help itself. -/
def helpRow : HelpRow := ⟨"-h, --help", "Print help"⟩

/-- The version. -/
def versionRow : HelpRow := ⟨"-V, --version", "Print version"⟩

/-- What a command is for. -/
def purpose : CommandName → String
  | .plan => "Parse a query string and print the server-side plan"
  | .query => "Run a request against JSON data described by a schema"
  | .uriTemplate => "Print URI templates of resource types"

/-- Help with the program. -/
def programHelp : Help where
  purpose := "Inspect and run REST mapping queries"
  usage := "cli [OPTIONS] <COMMAND>"
  sections :=
    [⟨"Commands",
      [⟨"plan", purpose .plan⟩, ⟨"query", purpose .query⟩,
        ⟨"uri-template", purpose .uriTemplate⟩]⟩,
     ⟨"Options", [configRow, formatRow, helpRow, versionRow]⟩]

/-- Help with a command. -/
def commandHelp (name : CommandName) : Help where
  purpose := purpose name
  usage :=
    match name with
    | .plan => "cli plan [OPTIONS] <QUERY>"
    | .query => "cli query [OPTIONS] --schema <FILE> --data <FILE> <PATH> [QUERY]"
    | .uriTemplate => "cli uri-template [OPTIONS] --schema <FILE> [TYPE]"
  sections :=
    match name with
    | .plan =>
      [⟨"Arguments", [⟨"<QUERY>", ""⟩]⟩, ⟨"Options", [configRow, formatRow, helpRow]⟩]
    | .query =>
      [⟨"Arguments",
        [⟨"<PATH>", "Collection or member path, e.g. critters or critters/5"⟩,
          ⟨"[QUERY]", "[default: ]"⟩]⟩,
       ⟨"Options", [configRow, schemaRow, dataRow, formatRow, helpRow]⟩]
    | .uriTemplate =>
      [⟨"Arguments", [⟨"[TYPE]", "Only this type"⟩]⟩,
       ⟨"Options", [configRow, schemaRow, formatRow, helpRow]⟩]

/-- The help text of a command, or of the program. -/
def helpText (command : Option CommandName) : String :=
  let help := (command.map commandHelp).getD programHelp
  Text.join "\n" help.layout ++ "\n"

/-- The name and the version of the program. -/
def versionText : String := "restmap 0.1.0\n"

end CommandLine

end ResourceQuery
