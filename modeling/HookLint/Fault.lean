namespace HookLint

inductive Form where
  | null
  | bool
  | int
  | float
  | text
  | list
  | record
deriving DecidableEq, Repr, Inhabited

def Form.name : Form → String
  | .null => "NoneType"
  | .bool => "bool"
  | .int => "int"
  | .float => "float"
  | .text => "str"
  | .list => "list"
  | .record => "dict"

inductive Fault where
  | notRecord (found : Form)
  | notTree (found : Form)
  | notSequence (found : Form)
  | notKey (found : Form)
  | incomparable (left right : Form)
  | notText (found : Form)
  | notLetters (found : Form)
  | notStem (found : Form)
  | notSearchable (found : Form)
  | notJoinable (found : Form)
  | notPlace (found : Form)
  | noSuchPlace
  | noSuchEntry
  | unguardedTry
  | endless
  | incomplete
  | surplus
  | emptyList
  | malformedPattern
  | unknownName
  | unknownBlock
  | tooLong
  | tooDeep
  | badPath
  | longName
deriving DecidableEq, Repr, Inhabited

end HookLint
