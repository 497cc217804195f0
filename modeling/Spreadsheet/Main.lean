import Spreadsheet.CommandLine.Run

/-!
# Entry point

Reads the files that a run asks for, runs it, and prints and saves what it leaves behind.
-/

namespace Spreadsheet.CommandLine

/-- The number by which the system says that a path is a directory. -/
def directoryCode : UInt32 := 21

/-- What a disk has under a path. -/
def lookOnDisk (path : String) : IO (Except FileFault Entry) := do
  try return .ok (.file (← IO.FS.readFile path))
  catch
    | .noFileOrDirectory .. => return .error .notFound
    | .inappropriateType _ code _ =>
      return if code = directoryCode then .ok .directory else .error .notDirectory
    | _ => return .error .notText

/-- What a disk has under each of some paths. -/
def lookAll (paths : List String) : IO Lookup := do
  let found ← paths.mapM fun path => return (path, ← lookOnDisk path)
  return fun path => (found.lookup path).getD (.error .notFound)

/-- The paths that a run may look at. -/
def pathsOf (home : Option String) (options : Options) (output : Option String) : List String :=
  options.layout :: options.config.toList ++ (home.map userConfigPath).toList
    ++ output.toList ++ (output.map parentPath).toList

/-- What a run depends on, found on the disk. -/
def gather (args : List String) : IO Surroundings := do
  let home ← IO.getEnv "HOME"
  let noViewer := some FileFault.notFound.message
  match request args with
  | .render options =>
    let look ← lookAll (pathsOf home options none)
    let output := match loadDescription look options.layout with
      | .ok d => some (outputPath options d)
      | .error _ => none
    return { look := ← lookAll (pathsOf home options output), home, noViewer }
  | _ => return { look := fun _ => .error .notFound, home, noViewer }

end Spreadsheet.CommandLine

/-- Run the program on the disk. -/
def main (args : List String) : IO UInt32 := do
  let outcome := Spreadsheet.CommandLine.run (← Spreadsheet.CommandLine.gather args) args
  if let some (path, text) := outcome.saved then IO.FS.writeFile path text
  IO.print outcome.stdout
  IO.eprint outcome.stderr
  return UInt32.ofNat outcome.code
