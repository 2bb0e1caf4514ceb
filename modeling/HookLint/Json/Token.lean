import HookLint.Value

namespace HookLint.Json

inductive Token where
  | openList
  | closeList
  | openRecord
  | closeRecord
  | colon
  | comma
  | text (content : String)
  | scalar (value : Value)
  | tooLong
  | malformed
deriving Inhabited

def digitLimit : Nat := 4300

/-- Code points of a text, where an escaped surrogate pair stands for one character and a lone
surrogate for the replacement character. -/
def joinSurrogates : List Nat → List Char
  | [] => []
  | high :: low :: rest =>
    if 0xD800 ≤ high && high < 0xDC00 && 0xDC00 ≤ low && low < 0xE000 then
      Char.ofNat (0x10000 + (high - 0xD800) * 0x400 + (low - 0xDC00)) :: joinSurrogates rest
    else if 0xD800 ≤ high && high < 0xE000 then Char.ofNat 0xFFFD :: joinSurrogates (low :: rest)
    else Char.ofNat high :: joinSurrogates (low :: rest)
  | [code] => [if 0xD800 ≤ code && code < 0xE000 then Char.ofNat 0xFFFD else Char.ofNat code]

def digitsValue (digits : List Char) : Nat :=
  digits.foldl (fun n c => n * 10 + (c.toNat - '0'.toNat)) 0

def takeWhole : List Char → Option (List Char × List Char)
  | '0' :: rest => some (['0'], rest)
  | chars =>
    let digits := chars.takeWhile Char.isDigit
    if digits.isEmpty then none else some (digits, chars.dropWhile Char.isDigit)

def takeFraction : List Char → List Char × List Char
  | '.' :: rest =>
    let digits := rest.takeWhile Char.isDigit
    if digits.isEmpty then ([], '.' :: rest) else (digits, rest.dropWhile Char.isDigit)
  | chars => ([], chars)

def takeExponent : List Char → Option Int × List Char
  | [] => (none, [])
  | mark :: rest =>
    let (negative, unsigned) := match rest with
      | '-' :: more => (true, more)
      | '+' :: more => (false, more)
      | more => (false, more)
    let digits := unsigned.takeWhile Char.isDigit
    if (mark = 'e' || mark = 'E') && !digits.isEmpty then
      let n := Int.ofNat (digitsValue digits)
      (some (if negative then -n else n), unsigned.dropWhile Char.isDigit)
    else (none, mark :: rest)

def floatOf (negative : Bool) (digits : Nat) (scale : Int) : Float :=
  let size := if scale < 0 then Float.ofScientific digits true (-scale).toNat
    else Float.ofScientific digits false scale.toNat
  if negative then -size else size

/-- The number at the start of some characters. It must not be followed by others, but a whole
number that is too long is noticed first. -/
def number (chars : List Char) : Token :=
  let (negative, unsigned) := match chars with
    | '-' :: rest => (true, rest)
    | _ => (false, chars)
  match takeWhole unsigned with
  | none => .malformed
  | some (whole, rest) =>
    let (fraction, rest) := takeFraction rest
    let (exponent, rest) := takeExponent rest
    if fraction.isEmpty && exponent.isNone then
      let n := Int.ofNat (digitsValue whole)
      if whole.length > digitLimit then .tooLong
      else if rest.isEmpty then .scalar (.int (if negative then -n else n))
      else .malformed
    else if rest.isEmpty then
      let scale := exponent.getD 0 - fraction.length
      .scalar (.float (floatOf negative (digitsValue (whole ++ fraction)) scale))
    else .malformed

def word (chars : List Char) : Token :=
  match String.ofList chars with
  | "null" => .scalar .null
  | "true" => .scalar (.bool true)
  | "false" => .scalar (.bool false)
  | "NaN" => .scalar (.float (0.0 / 0.0))
  | "Infinity" => .scalar (.float (1.0 / 0.0))
  | "-Infinity" => .scalar (.float (-1.0 / 0.0))
  | _ => number chars

def isWordChar (c : Char) : Bool := c.isAlphanum || c = '-' || c = '+' || c = '.'

def isBlank (c : Char) : Bool := c = ' ' || c = '\t' || c = '\n' || c = '\r'

def escaped? : Char → Option Nat
  | '"' => some '"'.toNat
  | '\\' => some '\\'.toNat
  | '/' => some '/'.toNat
  | 'b' => some 8
  | 'f' => some 12
  | 'n' => some 10
  | 'r' => some 13
  | 't' => some 9
  | _ => none

def hexDigit? (c : Char) : Option Nat :=
  if '0' ≤ c && c ≤ '9' then some (c.toNat - '0'.toNat)
  else if 'a' ≤ c && c ≤ 'f' then some (c.toNat - 'a'.toNat + 10)
  else if 'A' ≤ c && c ≤ 'F' then some (c.toNat - 'A'.toNat + 10)
  else none

inductive Scan where
  | between
  | inText (codes : List Nat)
  | inEscape (codes : List Nat)
  | inCode (codes : List Nat) (left : Nat) (code : Nat)
  | inWord (chars : List Char)

def Scan.start (c : Char) (tokens : List Token) : Option (Scan × List Token) :=
  if isBlank c then some (.between, tokens)
  else if isWordChar c then some (.inWord [c], tokens)
  else match c with
    | '[' => some (.between, .openList :: tokens)
    | ']' => some (.between, .closeList :: tokens)
    | '\x7b' => some (.between, .openRecord :: tokens)
    | '\x7d' => some (.between, .closeRecord :: tokens)
    | ':' => some (.between, .colon :: tokens)
    | ',' => some (.between, .comma :: tokens)
    | '"' => some (.inText [], tokens)
    | _ => none

def Scan.step (state : Scan) (tokens : List Token) (c : Char) : Option (Scan × List Token) :=
  match state with
  | .between => Scan.start c tokens
  | .inText codes =>
    if c = '"' then some (.between, .text (String.ofList (joinSurrogates codes.reverse)) :: tokens)
    else if c = '\\' then some (.inEscape codes, tokens)
    else if c.toNat < 0x20 then none
    else some (.inText (c.toNat :: codes), tokens)
  | .inEscape codes =>
    if c = 'u' then some (.inCode codes 4 0, tokens)
    else (escaped? c).map fun code => (.inText (code :: codes), tokens)
  | .inCode codes left code => do
    let code := code * 16 + (← hexDigit? c)
    if left ≤ 1 then some (.inText (code :: codes), tokens) else some (.inCode codes (left - 1) code, tokens)
  | .inWord chars =>
    if isWordChar c then some (.inWord (c :: chars), tokens)
    else Scan.start c (word chars.reverse :: tokens)

def Scan.finish (state : Scan) (tokens : List Token) : List Token :=
  match state with
  | .between => tokens
  | .inWord chars => word chars.reverse :: tokens
  | _ => .malformed :: tokens

def Scan.run (state : Scan) (tokens : List Token) : List Char → List Token
  | [] => (state.finish tokens).reverse
  | c :: rest =>
    match state.step tokens c with
    | some (state, tokens) => state.run tokens rest
    | none => (.malformed :: tokens).reverse

def Token.scan (source : String) : List Token := Scan.run .between [] source.toList

end HookLint.Json
