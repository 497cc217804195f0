/-!
# Arguments

What the program is asked to do, read off its arguments from left to right.  The first argument that
asks for help or makes no sense decides.
-/

namespace Spreadsheet.CommandLine

/-- What is to be rendered, and how. -/
structure Options where
  /-- The path of the description. -/
  layout : String
  output : Option String := none
  config : Option String := none
  strict : Bool := false
  dryRun : Bool := false
  openFile : Bool := false

/-- What the arguments ask for. -/
inductive Request where
  | help
  /-- Refuse the arguments, with a reminder of how the program is used where one helps. -/
  | refuse (reason : String) (remind : Bool)
  | render (options : Options)

/-- How the program is used. -/
def usage : String :=
  "Usage: sheetlayout [OPTIONS] <LAYOUT>

Arguments:
  <LAYOUT>                  Layout description (.toml)

Options:
  -o, --output <FILE>       Output .xlsx (default: layout's path or <LAYOUT>.xlsx)
  -c, --config <FILE>       Build config TOML (default: <config dir>/sheetlayout/config.toml)
  --strict                  Fail on references to cells that are never placed
  --dry-run                 Resolve and place, print cells instead of saving
  --open                    Open the file after saving
  -h, --help                Print help
"

/-- The options so far; the description may be still to come. -/
structure Given where
  layout : Option String := none
  output : Option String := none
  config : Option String := none
  strict : Bool := false
  dryRun : Bool := false
  openFile : Bool := false

/-- What is asked for when all arguments are read. -/
def Given.request (g : Given) : Request :=
  match g.layout with
  | some layout => .render
      { layout
        output := g.output
        config := g.config
        strict := g.strict
        dryRun := g.dryRun
        openFile := g.openFile }
  | none => .refuse "missing layout file" true

/-- Read the arguments that are left. -/
def Given.read (g : Given) : List String → Request
  | [] => g.request
  | "-h" :: _ | "--help" :: _ => .help
  | ["-o"] | ["--output"] => .refuse "--output requires a file path" false
  | "-o" :: path :: rest | "--output" :: path :: rest => { g with output := some path }.read rest
  | ["-c"] | ["--config"] => .refuse "--config requires a file path" false
  | "-c" :: path :: rest | "--config" :: path :: rest => { g with config := some path }.read rest
  | "--strict" :: rest => { g with strict := true }.read rest
  | "--dry-run" :: rest => { g with dryRun := true }.read rest
  | "--open" :: rest => { g with openFile := true }.read rest
  | arg :: rest =>
    if arg.toList.head? = some '-' then .refuse ("Unknown option: " ++ arg) true
    else if g.layout.isSome then .refuse ("Unexpected argument: " ++ arg) true
    else { g with layout := some arg }.read rest

/-- What arguments ask for. -/
def request (args : List String) : Request :=
  Given.read {} args

end Spreadsheet.CommandLine
