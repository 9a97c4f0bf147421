import Backprop.Error
import Backprop.FileTree
import Backprop.Kernel.Registry

/-! Registries filled from files, and from the files that a manifest lists. -/

namespace Backprop.Registry

/-- Registers what a file declares: the number of declarations and the names taken over. -/
def addFile (read : FileReader) (r : Registry) (path : String) :
    Except Error (Registry × Nat × List String) :=
  match read.text path with
  | .error cause => .error (.unreadable "kernel file" path cause)
  | .ok source =>
    let (r, replaced) := r.addSource source
    .ok (r, (Declaration.names source).length, replaced)

/-- Adds files one after the other until one cannot be read. The names taken over
until then are answered in either case. -/
def addFiles (read : FileReader) : Registry → List String → List String × Except Error Registry
  | r, [] => ([], .ok r)
  | r, path :: rest =>
    match r.addFile read path with
    | .error e => ([], .error e)
    | .ok (r, _, replaced) =>
      let (later, result) := addFiles read r rest
      (replaced ++ later, result)

def manifestPaths (path suffix text : String) : List String :=
  let names := (textLines text).map fun line => String.ofList (trimBlanks line.toList)
  (names.filter (· != "")).map fun name => FileTree.join (FileTree.parent path) (name ++ suffix)

/-- The registry of a manifest, and the names that later files took over. -/
def ofManifest (read : FileReader) (path suffix : String) : List String × Except Error Registry :=
  match read.text path with
  | .error cause => ([], .error (.unreadable "kernel manifest" path cause))
  | .ok text => addFiles read {} (manifestPaths path suffix text)

end Backprop.Registry
