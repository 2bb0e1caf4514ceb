import HookLint.Value
import HookLint.Text.Decimal

/-!
What tells values apart that others are filed under, and the order of values. Truth values and
numbers of one size are one key, whatever their form. Lists and records are no keys.
-/

namespace HookLint

inductive Key where
  | null
  | number (size : Dyadic)
  | infinite (negative : Bool)
  | undefined
  | text (content : String)
deriving DecidableEq

def Key.ofFloat (number : Float) : Key :=
  let bits := number.toBits.toNat
  let negative := bits ≥ Nat.pow 2 63
  let size := bits % Nat.pow 2 63
  let top := Nat.pow 2 52 * 2047
  if size = top then .infinite negative
  else if size > top then .undefined
  else
    let (mantissa, exponent) := Text.Decimal.decode size
    let numerator := if negative then -(mantissa : Int) else mantissa
    .number (.ofIntWithPrec numerator (-exponent))

/-- Whether a key comes before another one. Texts have an order with texts only, numbers with
numbers, and null with nothing. -/
def Key.below? : Key → Key → Option Bool
  | .number a, .number b => some (decide (a < b))
  | .number _, .infinite negative => some (!negative)
  | .infinite negative, .number _ => some negative
  | .infinite a, .infinite b => some (a && !b)
  | .undefined, .number _ | .undefined, .infinite _ | .undefined, .undefined => some false
  | .number _, .undefined | .infinite _, .undefined => some false
  | .text a, .text b => some (decide (a < b))
  | _, _ => none

namespace Value

def key? : Value → Option Key
  | .null => some .null
  | .bool flag => some (.number (.ofIntWithPrec (if flag then 1 else 0) 0))
  | .int number => some (.number (.ofIntWithPrec number 0))
  | .float number => some (.ofFloat number)
  | .str text => some (.text text)
  | .list _ | .record _ _ => none

def key (value : Value) : Except Fault Key :=
  match value.key? with
  | some key => .ok key
  | none => .error (.notKey value.form)

mutual
def alike : Value → Value → Bool
  | .int number, .int other => number = other
  | .list items, .list others => alikeItems items others
  | .record _ fields, .record _ others => fields.length = others.length && alikeFields fields others
  | a, b => a.key?.isSome && a.key? = b.key?
def alikeItems : List Value → List Value → Bool
  | [], [] => true
  | item :: rest, other :: others => alike item other && alikeItems rest others
  | _, _ => false
def alikeFields : List (String × Value) → Fields → Bool
  | [], _ => true
  | (key, value) :: rest, others =>
    (match others.find? key with
    | some other => alike value other
    | none => false) && alikeFields rest others
end

def equal (a b : Value) : Bool := a.key? ≠ some .undefined && a.alike b

mutual
def below? : Value → Value → Option Bool
  | .int number, .int other => some (number < other)
  | .list items, .list others => belowItems? items others
  | a, b =>
    match a.key?, b.key? with
    | some a, some b => a.below? b
    | _, _ => none
def belowItems? : List Value → List Value → Option Bool
  | [], others => some (!others.isEmpty)
  | _ :: _, [] => some false
  | item :: rest, other :: others =>
    if item.alike other then belowItems? rest others else below? item other
end

def firstForms : List Value → List Value → Form × Form
  | item :: rest, other :: others =>
    if item.alike other then firstForms rest others else (item.form, other.form)
  | _, _ => (.null, .null)

end Value

def ensureOrdered : List (List Value) → Except Fault Unit
  | [] => .ok ()
  | row :: rest => do
    match rest.find? fun other => (Value.belowItems? other row).isNone with
    | some other =>
      let (left, right) := Value.firstForms other row
      throw (.incomparable left right)
    | none => ensureOrdered rest

def rowLe (a b : List Value) : Bool := (Value.belowItems? b a) != some true

def sortBy {α : Type} (rowOf : α → List Value) (items : List α) : Except Fault (List α) := do
  ensureOrdered (items.map rowOf)
  return items.mergeSort fun a b => rowLe (rowOf a) (rowOf b)

end HookLint
