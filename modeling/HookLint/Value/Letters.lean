import HookLint.Value
import HookLint.Text.Upper

namespace HookLint.Value

def startsUpper (value : Value) : Except Fault Bool :=
  if !value.given then .ok false
  else match value with
    | .str text => .ok (text.toList.head?.any Text.isUpper)
    | other => .error (.notLetters other.form)

def texts (value : Value) : Except Fault (List String) := do
  (← value.items).mapM fun item =>
    match item with
    | .str text => .ok text
    | other => .error (Fault.notJoinable other.form)

def letters (value : Value) : Except Fault (List Char) :=
  match value with
  | .str text => .ok text.toList
  | other => .error (.notText other.form)

end HookLint.Value
