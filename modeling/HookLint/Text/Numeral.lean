import HookLint.Text.Blank
import HookLint.Text.Digit

/-!
Whole numbers as people write them: white space around them, a sign, any decimal digits, and single
underscores between digits.
-/

namespace HookLint.Text

def trimLeft (drop : Char → Bool) (chars : List Char) : List Char := chars.dropWhile drop

def trimBoth (drop : Char → Bool) (chars : List Char) : List Char :=
  (trimLeft drop (trimLeft drop chars).reverse).reverse

def strip (text : String) : String := String.ofList (trimBoth isBlank text.toList)

/-- White space that may stand around a numeral: the separators of files, groups, records and units
may not. -/
def surroundsNumeral (c : Char) : Bool := isBlank c && !(28 ≤ c.toNat && c.toNat ≤ 31)

inductive NumeralFault where
  | malformed
  | tooLong (digits : Nat)
deriving DecidableEq, Repr, Inhabited

def numeralLimit : Nat := 4300

/-- The values of the digits at the start of some characters and what follows them. A single
underscore may stand between two digits. -/
def takeDigits : List Char → Option (List Nat × List Char)
  | [] => some ([], [])
  | '_' :: c :: rest => do
    let digit ← decimalValue? c
    let (digits, rest) ← takeDigits rest
    some (digit :: digits, rest)
  | '_' :: [] => none
  | c :: rest =>
    match decimalValue? c with
    | none => some ([], c :: rest)
    | some digit => do
      let (digits, rest) ← takeDigits rest
      some (digit :: digits, rest)

def unsigned (chars : List Char) : Except NumeralFault Nat :=
  if chars.head? = some '_' then .error .malformed
  else match takeDigits chars with
    | none => .error .malformed
    | some (digits, rest) =>
      if digits.isEmpty then .error .malformed
      else if digits.length > numeralLimit then .error (.tooLong digits.length)
      else if rest.isEmpty then .ok (digits.foldl (fun n digit => n * 10 + digit) 0)
      else .error .malformed

def integer (text : String) : Except NumeralFault Int :=
  match trimBoth surroundsNumeral text.toList with
  | '-' :: digits => (fun n => -(n : Int)) <$> unsigned digits
  | '+' :: digits => Int.ofNat <$> unsigned digits
  | digits => Int.ofNat <$> unsigned digits

end HookLint.Text
