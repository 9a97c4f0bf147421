/-! Files by location, as a value: what a run reads and writes. -/

namespace Backprop

/-- Why a file cannot be read. -/
inductive FileError where
  | missing
  | notDirectory
  | isDirectory
  | nameTooLong
  | zeroInPath
  | notText
deriving DecidableEq, Repr

def FileError.message : FileError → String
  | missing => "No such file or directory (os error 2)"
  | notDirectory => "Not a directory (os error 20)"
  | isDirectory => "Is a directory (os error 21)"
  | nameTooLong => "File name too long (os error 36)"
  | zeroInPath => "file name contained an unexpected NUL byte"
  | notText => "stream did not contain valid UTF-8"

/-- The contents of a file by its path, where there is such a file. -/
abbrev FileReader := String → Except FileError (List UInt8)

def FileReader.text (read : FileReader) (path : String) : Except FileError String := do
  match String.fromUTF8? ⟨(← read path).toArray⟩ with
  | some text => return text
  | none => throw .notText

/-- Contents of files, and the directory that relative paths start from. A location is
the list of names from the root. -/
structure FileTree where
  files : List (List String × List UInt8) := []
  workingDirectory : List String := []

namespace FileTree

def segments (path : String) : List String := (path.toList.splitOn '/').map String.ofList

/-- The names of a path, without the parts that lead nowhere. -/
def names (path : String) : List String :=
  (segments path).filter fun name => name != "" && name != "."

def maxPathBytes : Nat := 4095

def maxNameBytes : Nat := 255

def isAbsolute (path : String) : Bool := path.toList.head? = some '/'

/-- The device that reads as empty and drops what is written to it. -/
def nullDevice : List String := ["dev", "null"]

def isAbove (location other : List String) : Bool :=
  location.isPrefixOf other && location.length < other.length

def isDirectory (t : FileTree) (location : List String) : Bool :=
  location.isPrefixOf t.workingDirectory || isAbove location nullDevice ||
    t.files.any fun file => isAbove location file.1

def isFile (t : FileTree) (location : List String) : Bool :=
  location == nullDevice || t.files.any (·.1 == location)

def step (directory : List String) (segment : String) : List String :=
  if segment = "" ∨ segment = "." then directory
  else if segment = ".." then directory.dropLast
  else directory ++ [segment]

/-- The location that the parts of a path lead to; only directories lead on, also to
themselves. -/
def walk (t : FileTree) (location : List String) : List String → Except FileError (List String)
  | [] => .ok location
  | segment :: rest =>
    if !t.isDirectory location then
      .error (if t.isFile location then .notDirectory else .missing)
    else if maxNameBytes < segment.utf8ByteSize then .error .nameTooLong
    else walk t (step location segment) rest

def locate (t : FileTree) (path : String) : Except FileError (List String) :=
  if path.contains '\x00' then .error .zeroInPath
  else if maxPathBytes < path.utf8ByteSize then .error .nameTooLong
  else t.walk (if isAbsolute path then [] else t.workingDirectory) (segments path)

def read (t : FileTree) (path : String) : Except FileError (List UInt8) := do
  let location ← t.locate path
  if location = nullDevice then return []
  if t.isDirectory location then throw .isDirectory
  match t.files.lookup location with
  | some contents => return contents
  | none => throw .missing

/-- The tree with a file put in place, where its directory is one that takes files. -/
def write? (t : FileTree) (path : String) (contents : List UInt8) : Option FileTree := do
  let location ← (t.locate path).toOption
  if location = nullDevice then some t
  else if t.isDirectory location || location.dropLast == nullDevice.dropLast then none
  else some { t with files := (location, contents) :: t.files.filter (·.1 != location) }

/-- Puts files in place one after the other, until one has no place; answers whether all have. -/
def writeAll (t : FileTree) : List (String × List UInt8) → Bool × FileTree
  | [] => (true, t)
  | (path, contents) :: rest =>
    match t.write? path contents with
    | some t => writeAll t rest
    | none => (false, t)

/-- Segments without those at the end that lead nowhere; the first one stays. -/
def trimmed : List String → List String
  | [] => []
  | first :: rest => first :: (rest.reverse.dropWhile fun s => s == "" || s == ".").reverse

/-- The directory part of a path, up to the last name before the file's own. -/
def parent (path : String) : String :=
  let directory := trimmed (segments path).dropLast
  if directory = [""] then "/" else "/".intercalate directory

def join (directory path : String) : String :=
  if isAbsolute path || directory.isEmpty then path
  else if directory.toList.getLast? = some '/' then directory ++ path
  else directory ++ "/" ++ path

end FileTree

end Backprop
