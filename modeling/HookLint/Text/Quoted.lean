import HookLint.Text.Printable

/-!
Texts between quotation marks, and lists of them. Single marks are used unless the text holds one
and no double mark.
-/

namespace HookLint.Text

def hexDigit (n : Nat) : Char :=
  if n < 10 then Char.ofNat ('0'.toNat + n) else Char.ofNat ('a'.toNat + n - 10)

def hex : Nat → Nat → List Char
  | 0, _ => []
  | count + 1, n => hex count (n / 16) ++ [hexDigit (n % 16)]

def escapeChar (mark c : Char) : List Char :=
  if c = mark || c = '\\' then ['\\', c]
  else if c = '\n' then ['\\', 'n']
  else if c = '\r' then ['\\', 'r']
  else if c = '\t' then ['\\', 't']
  else if isPrintable c then [c]
  else if c.toNat < 0x100 then '\\' :: 'x' :: hex 2 c.toNat
  else if c.toNat < 0x10000 then '\\' :: 'u' :: hex 4 c.toNat
  else '\\' :: 'U' :: hex 8 c.toNat

def quoted (text : String) : String :=
  let chars := text.toList
  let mark := if chars.contains '\'' && !chars.contains '"' then '"' else '\''
  String.ofList (mark :: chars.flatMap (escapeChar mark) ++ [mark])

def bracketed (items : List String) : String := "[" ++ ", ".intercalate items ++ "]"

end HookLint.Text
