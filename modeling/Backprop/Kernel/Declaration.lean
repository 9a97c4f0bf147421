import Backprop.Text.Blank

/-! Kernel declarations in a program text: the word `kernel`, `void`, a name and an
opening parenthesis. -/

namespace Backprop.Declaration

def isNameChar (c : Char) : Bool := c.isAlphanum || c == '_'

/-- Whether a word may start after the given text, last character first: two
underscores may come before it where no name does. -/
def startsWord : List Char → Bool
  | [] => true
  | '_' :: '_' :: c :: _ => !isNameChar c
  | ['_', '_'] => true
  | c :: _ => !isNameChar c

def afterWord? (word : List Char) (text : List Char) : Option (List Char) :=
  if word.isPrefixOf text then some (text.drop word.length) else none

/-- The rest of a text after at least one blank. -/
def afterBlanks? : List Char → Option (List Char)
  | [] => none
  | c :: rest => if isBlank c then some (dropBlanks rest) else none

def declaredName? (rest : List Char) : Option String := do
  let text ← afterBlanks? rest
  let text ← afterWord? "void".toList text
  let text ← afterBlanks? text
  let name := text.takeWhile isNameChar
  if name.isEmpty then none
  else if (dropBlanks (text.dropWhile isNameChar)).head? = some '(' then some (String.ofList name)
  else none

/-- Names declared in `text`, where `before` is the text already passed, last
character first, and `skip` counts the characters of a word that are still to pass. -/
def namesFrom (before : List Char) : (skip : Nat) → List Char → List String
  | _, [] => []
  | skip + 1, c :: rest => namesFrom (c :: before) skip rest
  | 0, c :: rest =>
    match afterWord? "kernel".toList (c :: rest) with
    | none => namesFrom (c :: before) 0 rest
    | some after =>
      let later := namesFrom (c :: before) 5 rest
      if startsWord before then
        match declaredName? after with
        | some name => name :: later
        | none => later
      else later

/-- The names of the kernels that a program text declares, in the order of the text. -/
def names (source : String) : List String := namesFrom [] 0 source.toList

end Backprop.Declaration
