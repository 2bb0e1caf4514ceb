import HookLint.Value
import HookLint.Text.Decimal
import HookLint.Text.Quoted

namespace HookLint.Json

def escape (c : Char) : List Char :=
  match c with
  | '"' => ['\\', '"']
  | '\\' => ['\\', '\\']
  | '\n' => ['\\', 'n']
  | '\r' => ['\\', 'r']
  | '\t' => ['\\', 't']
  | _ =>
    if c.toNat < 0x20 then '\\' :: 'u' :: Text.hex 4 c.toNat else [c]

def quote (text : String) : String := "\"" ++ String.ofList (text.toList.flatMap escape) ++ "\""

mutual
def write : Value → String
  | .null => "null"
  | .bool flag => if flag then "true" else "false"
  | .int number => toString number
  | .float number => Text.Decimal.render number "NaN" "Infinity"
  | .str text => quote text
  | .list items => "[" ++ ", ".intercalate (writeItems items) ++ "]"
  | .record _ fields => "\x7b" ++ ", ".intercalate (writeFields fields) ++ "\x7d"
def writeItems : List Value → List String
  | [] => []
  | value :: rest => write value :: writeItems rest
def writeFields : List (String × Value) → List String
  | [] => []
  | (key, value) :: rest => (quote key ++ ": " ++ write value) :: writeFields rest
end

/-- A character of a document where only plain letters and signs stand for themselves. Characters
beyond the first plane are written as two halves. -/
def asciiChar (c : Char) : List Char :=
  let unit := fun (number : Nat) => '\\' :: 'u' :: Text.hex 4 number
  if c.toNat < 0x7f then [c]
  else if c.toNat < 0x10000 then unit c.toNat
  else unit (0xd800 + (c.toNat - 0x10000) / 0x400) ++ unit (0xdc00 + c.toNat % 0x400)

def writeAscii (value : Value) : String := String.ofList ((write value).toList.flatMap asciiChar)

end HookLint.Json
