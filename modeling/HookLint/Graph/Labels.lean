import HookLint.Value.Key

namespace HookLint

structure Labels where
  names : List Value
deriving Inhabited

namespace Labels

def insert (known : List (Key × Value)) (name : Value) : Except Fault (List (Key × Value)) := do
  let key ← name.key
  return if known.any (·.1 = key) then known else known ++ [(key, name)]

def ofNames (names : List Value) : Except Fault Labels := do
  let known ← names.foldlM insert []
  return ⟨← sortBy (fun name => [name]) (known.map (·.2))⟩

def number (labels : Labels) (name : Value) : Nat := labels.names.findIdx (·.alike name)

def name (labels : Labels) (number : Nat) : Value := labels.names.getD number .null

end Labels

end HookLint
