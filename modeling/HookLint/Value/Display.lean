import HookLint.Value
import HookLint.Text.Decimal
import HookLint.Text.Quoted

namespace HookLint.Value

mutual
def display : Value → String
  | .null => "None"
  | .bool flag => if flag then "True" else "False"
  | .int number => toString number
  | .float number => Text.Decimal.render number "nan" "inf"
  | .str text => Text.quoted text
  | .list items => Text.bracketed (displayItems items)
  | .record _ fields => "\x7b" ++ ", ".intercalate (displayFields fields) ++ "\x7d"
def displayItems : List Value → List String
  | [] => []
  | value :: rest => display value :: displayItems rest
def displayFields : List (String × Value) → List String
  | [] => []
  | (key, value) :: rest => (Text.quoted key ++ ": " ++ display value) :: displayFields rest
end

def plain : Value → String
  | .str text => text
  | other => other.display

end HookLint.Value
