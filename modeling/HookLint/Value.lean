import HookLint.Fault

/-!
Documents: the loosely typed values in which syntax trees and settings arrive. Records keep the
order of their fields and carry an identity, so that two equal records in different places stay
apart. Main statement: a field is smaller than its record, which is what recursion on documents
rests on.
-/

namespace HookLint

/-- A document. Records read from one text have pairwise different identities, counted from 1;
identity 0 is that of records which no text holds. -/
inductive Value where
  | null
  | bool (flag : Bool)
  | int (number : Int)
  | float (number : Float)
  | str (text : String)
  | list (items : List Value)
  | record (id : Nat) (fields : List (String × Value))
deriving Repr, Inhabited

abbrev Fields := List (String × Value)

namespace Fields

def find? : Fields → String → Option Value
  | [], _ => none
  | (name, value) :: rest, key => if name = key then some value else find? rest key

def get (fields : Fields) (key : String) : Value := (fields.find? key).getD .null

def set : Fields → String → Value → Fields
  | [], key, value => [(key, value)]
  | (name, old) :: rest, key, value =>
    if name = key then (name, value) :: rest else (name, old) :: set rest key value

theorem sizeOf_find? (fields : Fields) (key : String) (value : Value) (found : fields.find? key = some value) :
    sizeOf value < sizeOf fields := by
  induction fields with
  | nil => simp [find?] at found
  | cons field rest ih =>
    obtain ⟨name, other⟩ := field
    simp only [find?] at found
    split at found
    · cases found; simp; omega
    · have smaller := ih found; simp; omega

theorem sizeOf_get (fields : Fields) (key : String) : sizeOf (fields.get key) < 1 + sizeOf fields := by
  unfold get
  cases found : fields.find? key with
  | none =>
    cases fields with
    | nil => decide
    | cons field rest => rw [List.cons.sizeOf_spec, Option.getD_none, Value.null.sizeOf_spec]; omega
  | some value => have smaller := sizeOf_find? fields key value found; simp; omega

end Fields

namespace Value

def made (fields : Fields) : Value := .record 0 fields

def fields : Value → Fields
  | .record _ fields => fields
  | _ => []

def id? : Value → Option Nat
  | .record id _ => if id = 0 then none else some id
  | _ => none

def form : Value → Form
  | .null => .null
  | .bool _ => .bool
  | .int _ => .int
  | .float _ => .float
  | .str _ => .text
  | .list _ => .list
  | .record _ _ => .record

def isRecord : Value → Bool
  | .record _ _ => true
  | _ => false

def get (value : Value) (key : String) : Value := value.fields.get key

def ask (value : Value) (key : String) : Except Fault Value :=
  match value with
  | .record _ fields => .ok (Fields.get fields key)
  | other => .error (.notRecord other.form)

def given : Value → Bool
  | .null => false
  | .bool flag => flag
  | .int number => number != 0
  | .float number => number != 0.0
  | .str text => !text.isEmpty
  | .list items => !items.isEmpty
  | .record _ fields => !fields.isEmpty

def orRecord (value : Value) : Value := if value.given then value else .made []

def orZero (value : Value) : Value := if value.given then value else .int 0

def isNull : Value → Bool
  | .null => true
  | _ => false

def text? : Value → Option String
  | .str text => some text
  | _ => none

def int? : Value → Option Int
  | .int number => some number
  | _ => none

/-- The items one meets when going through a value: those of a list, the characters of a text,
the keys of a record. -/
def items : Value → Except Fault (List Value)
  | .list items => .ok items
  | .str text => .ok (text.toList.map fun c => .str c.toString)
  | .record _ fields => .ok (fields.map fun field => .str field.1)
  | other => .error (.notSequence other.form)

def itemsIfGiven (value : Value) : Except Fault (List Value) :=
  if value.given then value.items else .ok []

def parts : Value → List Value
  | .list items => items
  | _ => []

/-- Going through a value that may be left out fails if it is neither a list nor a text nor a
record. -/
def ensureItems : Value → Except Fault Unit
  | .list _ | .str _ | .record _ _ => .ok ()
  | other => if other.given then .error (.notSequence other.form) else .ok ()

/-- Like `ensureItems` where every item has to be a record: the items of a text or of a record
never are. -/
def ensureRecords : Value → Except Fault Unit
  | .list _ => .ok ()
  | .str text => if text.isEmpty then .ok () else .error (.notRecord .text)
  | .record _ fields => if fields.isEmpty then .ok () else .error (.notRecord .text)
  | other => if other.given then .error (.notSequence other.form) else .ok ()

def ensureRecordsIfGiven : Value → Except Fault Unit
  | .record _ fields => if fields.all (·.1.isEmpty) then .ok () else .error (.notRecord .text)
  | other => other.ensureRecords

def kind? (value : Value) : Option String := (value.get "type").text?

def isNode (value : Value) : Bool := value.kind?.isSome

def same (a b : Value) : Bool := a.id?.isSome && a.id? == b.id?

theorem sizeOf_get_record (id : Nat) (fields : Fields) (key : String) :
    sizeOf (Fields.get fields key) < sizeOf (Value.record id fields) := by
  have smaller := Fields.sizeOf_get fields key
  rw [Value.record.sizeOf_spec]; omega

theorem sizeOf_parts (value : Value) : sizeOf value.parts ≤ sizeOf value := by
  cases value with
  | list items => rw [parts, Value.list.sizeOf_spec]; omega
  | record id fields => simp only [parts, List.nil.sizeOf_spec, Value.record.sizeOf_spec]; omega
  | _ => simp [parts]

-- Fields are smaller than their record, as the termination of readers asks for it.
section
variable (id : Nat) (fields : Fields) (key : String) (more : Nat)

@[simp]
theorem get_below : sizeOf (Fields.get fields key) < 1 + id + sizeOf fields := by
  have smaller := Fields.sizeOf_get fields key
  omega

@[simp]
theorem parts_below : sizeOf (Fields.get fields key).parts < 1 + id + sizeOf fields :=
  Nat.lt_of_le_of_lt (sizeOf_parts _) (get_below id fields key)

@[simp]
theorem get_below_item : sizeOf (Fields.get fields key) < 1 + (1 + id + sizeOf fields) + more := by
  have smaller := get_below id fields key
  omega

@[simp]
theorem parts_below_item : sizeOf (Fields.get fields key).parts < 1 + (1 + id + sizeOf fields) + more := by
  have smaller := parts_below id fields key
  omega

end

end Value

end HookLint
