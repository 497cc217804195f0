import Spreadsheet.CommandLine.Arguments
import Spreadsheet.CommandLine.Files
import Spreadsheet.Description.Build

/-!
# The program

A run reads the options of the build and the description, builds the workbook, and prints or saves
it.  What it prints, saves and answers depends only on its arguments and on the files it reads.
-/

namespace Spreadsheet.CommandLine

/-- What a run depends on besides its arguments. -/
structure Surroundings where
  look : Lookup
  /-- The directory of the user's own files. -/
  home : Option String
  /-- Why no viewer can be launched, if none can. -/
  noViewer : Option String

/-- What a run leaves behind. -/
structure Outcome where
  stdout : String := ""
  stderr : String := ""
  code : Nat := 0
  /-- The path and the content of the file that was saved. -/
  saved : Option (String × String) := none

/-- Why a run fails. -/
inductive Failure where
  | unreadable (fault : FileFault)
  | tooLarge (path : String) (size : Nat)
  | malformed (path : String)
  | configNotFound (path : String)
  | description (cause : DescriptionError)
  /-- A failure to load the description at a path. -/
  | loading (path : String) (cause : Failure)

/-- The size in bytes up to which a file is read. -/
def sizeLimit : Nat := 1048576

namespace Failure

/-- The failure in words. -/
def message : Failure → String
  | unreadable fault => "IO error: " ++ fault.message
  | tooLarge path size =>
    "Refusing to read " ++ path ++ ": file too large (" ++ Number.natText size ++ " bytes, max "
      ++ Number.natText sizeLimit ++ ")"
  | malformed path => "Failed to parse " ++ path ++ ": not a valid document"
  | configNotFound path => "Config file not found: " ++ path
  | description cause => cause.message
  | loading path _ => "loading " ++ path

/-- The failure in words, followed by the failures behind it. -/
def fullMessage : Failure → String
  | unreadable fault => (unreadable fault).message ++ ": " ++ fault.message
  | description cause => cause.fullMessage
  | loading path cause => (loading path cause).message ++ ": " ++ cause.fullMessage
  | other => other.message

end Failure

/-! ## Reading -/

/-- The text under a path, if it is not too large. -/
def readText (look : Lookup) (path : String) : Except Failure String :=
  match look path with
  | .error fault => .error (.unreadable fault)
  | .ok .directory => .error (.unreadable .isDirectory)
  | .ok (.file text) =>
    if sizeLimit < text.utf8ByteSize then .error (.tooLarge path text.utf8ByteSize) else .ok text

/-- The options of a build in the file under a path. -/
def readConfig (look : Lookup) (path : String) : Except Failure Config := do
  match Config.ofToml (← readText look path) with
  | some config => return config
  | none => throw (.malformed path)

/-- The path of the user's own options. -/
def userConfigPath (home : String) : String :=
  home ++ "/.config/sheetlayout/config.toml"

/-- The options of the build, and warnings about them.  A file that is asked for must be there; the
user's own may be missing, and nothing that is wrong with it stops the run. -/
def loadConfig (s : Surroundings) (path : Option String) :
    Except Failure (Config × List String) :=
  match path, s.home.map userConfigPath with
  | some path, _ =>
    match s.look path with
    | .error _ => .error (.configNotFound path)
    | .ok _ => (readConfig s.look path).map (·, [])
  | none, none => .ok ({}, [])
  | none, some path =>
    match s.look path with
    | .error _ => .ok ({}, [])
    | .ok _ =>
      match readConfig s.look path with
      | .ok config => .ok (config, [])
      | .error failure => .ok ({}, [failure.message])

/-- The description under a path. -/
def loadDescription (look : Lookup) (path : String) : Except Failure Description :=
  match readText look path with
  | .error failure => .error (.loading path failure)
  | .ok text =>
    match Description.ofToml text with
    | some d => .ok d
    | none => .error (.loading path (.malformed path))

/-- The path of the workbook. -/
def outputPath (o : Options) (d : Description) : String :=
  (o.output <|> d.workbook.path).getD (withExtension "xlsx" o.layout)

/-! ## Rendering -/

/-- Build a workbook in a fresh build and write it; the error, if any, and the sink. -/
def writeDescription (config : Config) (d : Description) (path : String) (sink : Sink)
    (desktop : Option Desktop) : Except DescriptionError Unit × Writing :=
  let (built, build) := (Description.build d).run { config }
  match built with
  | .error cause => (.error cause, { build, sink })
  | .ok workbook =>
    let (written, writing) := (workbook.write path desktop).run { build, sink }
    (written.mapError .sheet, writing)

/-- The sink for a file under a path. -/
def fileSink (look : Lookup) (path : String) : Sink :=
  { medium := .file, saveFault := (createFault look path).map FileFault.message }

/-- The desktop on which a file under a path is opened. -/
def desktopFor (s : Surroundings) (path : String) : Desktop where
  blocked := match s.look path with
    | .ok .directory => some FileFault.isDirectory.message
    | _ => none
  noViewer := s.noViewer

/-- What a failed run leaves behind. -/
def Outcome.failed (o : Outcome) (message : String) : Outcome :=
  { o with stderr := o.stderr ++ "Error: " ++ message ++ "\n", code := 1 }

/-- Print a workbook. -/
def printWorkbook (config : Config) (d : Description) (path : String) (o : Outcome) : Outcome :=
  match writeDescription config d path {} none with
  | (.error cause, _) => o.failed cause.fullMessage
  | (.ok (), writing) => { o with stdout := writing.sink.listing }

/-- Save a workbook.  The file holds the listing of its sheets. -/
def saveWorkbook (s : Surroundings) (config : Config) (d : Description) (path : String)
    (o : Outcome) : Outcome :=
  let desktop := if config.autoOpen then some (desktopFor s path) else none
  let (written, writing) := writeDescription config d path (fileSink s.look path) desktop
  let o := { o with saved := writing.sink.savedTo.map (·, writing.sink.listing) }
  match written with
  | .error cause => o.failed cause.fullMessage
  | .ok () => { o with stdout := "Wrote " ++ path ++ "\n" }

/-- Render a description. -/
def render (s : Surroundings) (options : Options) : Outcome :=
  match loadConfig s options.config with
  | .error failure => Outcome.failed {} failure.fullMessage
  | .ok (config, warnings) =>
    let o : Outcome := { stderr := String.join (warnings.map fun w => "Warning: " ++ w ++ "\n") }
    let config :=
      { config with
        strictReferences := config.strictReferences || options.strict
        autoOpen := config.autoOpen || options.openFile }
    match loadDescription s.look options.layout with
    | .error failure => o.failed failure.fullMessage
    | .ok d =>
      let path := outputPath options d
      if options.dryRun then printWorkbook config d path o else saveWorkbook s config d path o

/-- Run the program. -/
def run (s : Surroundings) (args : List String) : Outcome :=
  match request args with
  | .help => { stderr := usage }
  | .refuse reason remind =>
    { stderr := "Error: " ++ reason ++ "\n" ++ (if remind then usage else ""), code := 1 }
  | .render options => render s options

end Spreadsheet.CommandLine
