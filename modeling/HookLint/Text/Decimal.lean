namespace HookLint.Text.Decimal

def quotient (mantissa : Nat) (exponent : Int) : Nat × Nat :=
  if exponent ≥ 0 then (mantissa * Nat.pow 2 exponent.toNat, 1) else (mantissa, Nat.pow 2 (-exponent).toNat)

def decode (bits : Nat) : Nat × Int :=
  let fraction := bits % Nat.pow 2 52
  let exponent := bits / Nat.pow 2 52 % Nat.pow 2 11
  if exponent = 0 then (fraction, -1074) else (fraction + Nat.pow 2 52, Int.ofNat exponent - 1075)

def magnitude (num den : Nat) : Nat → Int → Int
  | 0, e => e
  | fuel + 1, e =>
    let below := if e ≥ 0 then num < den * Nat.pow 10 e.toNat else num * Nat.pow 10 (-e).toNat < den
    if below then e else magnitude num den fuel (e + 1)

/-- Whether `digits * 10 ^ scale` rounds to `mantissa * 2 ^ exponent`. All bounds are counted in
quarters of the last binary place. -/
def readsBack (mantissa : Nat) (exponent : Int) (digits : Nat) (scale : Int) : Bool :=
  let low := if mantissa = Nat.pow 2 52 && exponent > -1074 then 4 * mantissa - 1 else 4 * mantissa - 2
  let high := 4 * mantissa + 2
  let (num, den) := quotient 1 (exponent - 2)
  let value := if scale ≥ 0 then digits * Nat.pow 10 scale.toNat * den else digits * den
  let unit := if scale ≥ 0 then num else num * Nat.pow 10 (-scale).toNat
  if mantissa % 2 = 0 then low * unit ≤ value && value ≤ high * unit
  else low * unit < value && value < high * unit

/-- The shortest digits that read back, with the scale of their last place. Of two neighbours on a
grid the nearer one is taken. -/
def shortestFrom (mantissa : Nat) (exponent : Int) (point : Int) : Nat → Nat → Nat × Int
  | 0, count => (0, point - count)
  | fuel + 1, count =>
    let scale := point - count
    let (num, den) := quotient mantissa exponent
    let (n, d) := if scale ≥ 0 then (num, den * Nat.pow 10 scale.toNat) else (num * Nat.pow 10 (-scale).toNat, den)
    let down := n / d
    let nearerUp := 2 * (n % d) > d || (2 * (n % d) = d && down % 2 = 1)
    let (first, second) := if nearerUp then (down + 1, down) else (down, down + 1)
    if readsBack mantissa exponent first scale then (first, scale)
    else if readsBack mantissa exponent second scale then (second, scale)
    else shortestFrom mantissa exponent point fuel (count + 1)

def dropZeros : Nat → Nat → Int → Nat × Int
  | 0, digits, scale => (digits, scale)
  | fuel + 1, digits, scale =>
    if digits ≠ 0 && digits % 10 = 0 then dropZeros fuel (digits / 10) (scale + 1) else (digits, scale)

def shortest (bits : Nat) : Nat × Int :=
  let (mantissa, exponent) := decode bits
  let (num, den) := quotient mantissa exponent
  let point := magnitude num den 700 (-330)
  let (digits, scale) := shortestFrom mantissa exponent point 18 1
  dropZeros 20 digits scale

/-- How numbers are written: positionally while the point stands at most `last` places to the right
and fewer than `first` zeros follow it, otherwise with an exponent of at least two digits. -/
structure Layout where
  first : Int
  last : Int

def layout : Layout := ⟨-4, 16⟩

def zeros (count : Int) : String := String.ofList (List.replicate count.toNat '0')

def exponentText (e : Int) : String :=
  let digits := toString e.natAbs
  (if e < 0 then "-" else "+") ++ (if digits.length < 2 then "0" ++ digits else digits)

def positional (digits : String) (point : Int) : String :=
  if point ≤ 0 then "0." ++ zeros (-point) ++ digits
  else if point ≥ digits.length then digits ++ zeros (point - digits.length) ++ ".0"
  else
    let split := point.toNat
    String.ofList (digits.toList.take split) ++ "." ++ String.ofList (digits.toList.drop split)

def scientific (digits : String) (point : Int) : String :=
  let head := String.ofList (digits.toList.take 1)
  let tail := String.ofList (digits.toList.drop 1)
  head ++ (if tail.isEmpty then "" else "." ++ tail) ++ "e" ++ exponentText (point - 1)

def render (x : Float) (nan infinity : String) : String :=
  if x.isNaN then nan
  else
    let bits := x.toBits.toNat
    let sign := if bits ≥ Nat.pow 2 63 then "-" else ""
    let magnitudeBits := bits % Nat.pow 2 63
    if x.isInf then sign ++ infinity
    else if magnitudeBits = 0 then sign ++ "0.0"
    else
      let (digits, scale) := shortest magnitudeBits
      let text := toString digits
      let point := scale + text.length
      if layout.first < point && point ≤ layout.last then sign ++ positional text point
      else sign ++ scientific text point

end HookLint.Text.Decimal
