import Backprop.Text.Extender
import Backprop.Text.Invisible

/-! Text between quotes, as messages show it: every character of it can be seen. -/

namespace Backprop

/-- Tabs, line ends and the character zero have letters of their own, quote and backslash
follow a backslash. What else shows nothing by itself, or would change the character before
it, is written by its code. -/
def quotedChar (c : Char) : List Char :=
  match c with
  | '\t' => ['\\', 't']
  | '\n' => ['\\', 'n']
  | '\r' => ['\\', 'r']
  | '"' => ['\\', '"']
  | '\\' => ['\\', '\\']
  | '\x00' => ['\\', '0']
  | c =>
    if isExtender c || isInvisible c then
      ['\\', 'u', '\x7b'] ++ Nat.toDigits 16 c.toNat ++ ['\x7d']
    else [c]

def quoted (text : String) : String :=
  String.ofList ('"' :: text.toList.flatMap quotedChar ++ ['"'])

end Backprop
