import Backprop.CommandLine.Execution

/-! The program: reads the files that its arguments ask for, and carries out what the
command line says. -/

namespace Backprop

def readFile (path : String) : IO (Except FileError (List UInt8)) := do
  try
    return .ok (← IO.FS.readBinFile path).toList
  catch _ => return .error .missing

def writeFile (path : String) (contents : List UInt8) : IO Bool := do
  try
    IO.FS.writeBinFile path ⟨contents.toArray⟩
    return true
  catch _ => return false

/-- Paths, and what reading each of them gave. -/
abbrev FilesRead := List (String × Except FileError (List UInt8))

def readAll (paths : List String) : IO FilesRead := do
  return paths.zip (← paths.mapM readFile)

def FilesRead.reader (files : FilesRead) : FileReader := fun path =>
  (files.lookup path).getD (.error .missing)

def Command.paths : Command → List String
  | .train o => [o.kernels, FileTree.join o.data "train-images-idx3-ubyte",
      FileTree.join o.data "train-labels-idx1-ubyte", FileTree.join o.data "t10k-images-idx3-ubyte",
      FileTree.join o.data "t10k-labels-idx1-ubyte"] ++ o.load.toList
  | .kernels manifest => [manifest]
  | .help | .version => []

def Command.manifest? : Command → Option String
  | .train o => some o.kernels
  | .kernels manifest => some manifest
  | .help | .version => none

def gatherFiles (command : Command) : IO FilesRead := do
  let files ← readAll command.paths
  match command.manifest? with
  | none => return files
  | some path =>
    match files.reader.text path with
    | .error _ => return files
    | .ok text => return files ++ (← readAll (Registry.manifestPaths path ".metal" text))

def writeUntilFailure : List (String × List UInt8) → IO Bool
  | [] => return true
  | (path, contents) :: rest => do
    if ← writeFile path contents then writeUntilFailure rest else return false

end Backprop

def main (arguments : List String) : IO UInt32 := do
  let files ← match Backprop.CommandLine.parse arguments with
    | .ok command => Backprop.gatherFiles command
    | .error _ => pure []
  let execution := Backprop.Execution.ofArguments (Backprop.FilesRead.reader files) arguments
  IO.print execution.output
  IO.eprint execution.complaint
  return (execution.exitAfter (← Backprop.writeUntilFailure execution.writes)).toUInt32
