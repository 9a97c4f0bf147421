/-! Characters that separate words: those with the Unicode property White_Space. -/

namespace Backprop

def blankTable : List Nat := [
  0x09, 0x0a, 0x0b, 0x0c, 0x0d, 0x20, 0x85, 0xa0, 0x1680,
  0x2000, 0x2001, 0x2002, 0x2003, 0x2004, 0x2005, 0x2006, 0x2007, 0x2008, 0x2009, 0x200a,
  0x2028, 0x2029, 0x202f, 0x205f, 0x3000]

def isBlank (c : Char) : Bool := blankTable.contains c.toNat

def dropBlanks (text : List Char) : List Char := text.dropWhile isBlank

def trimBlanks (text : List Char) : List Char :=
  (dropBlanks (dropBlanks text).reverse).reverse

/-- The maximal runs of characters that are not blank; `word` is the run that is
being read, last character first. -/
def wordsFrom (word : List Char) : List Char → List (List Char)
  | [] => if word.isEmpty then [] else [word.reverse]
  | c :: rest =>
    if isBlank c then
      if word.isEmpty then wordsFrom [] rest else word.reverse :: wordsFrom [] rest
    else wordsFrom (c :: word) rest

def blankWords (text : String) : List String :=
  (wordsFrom [] text.toList).map String.ofList

/-- Lines end with a line feed, which a carriage return may precede; the last one
needs no end. -/
def textLines (text : String) : List String :=
  let ended := (text.toList.splitOn '\n').map fun line =>
    if line.getLast? = some '\r' then line.dropLast else line
  let last := ((text.toList.splitOn '\n').getLast?).getD []
  let lines := if last.isEmpty then ended.dropLast else ended.dropLast ++ [last]
  lines.map String.ofList

end Backprop
