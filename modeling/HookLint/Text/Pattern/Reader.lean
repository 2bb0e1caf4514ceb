import HookLint.Text.Pattern

namespace HookLint.Text.Pattern

inductive Piece where
  | openGroup
  | openAhead (negated : Bool)
  | closeGroup
  | bar
  | atom (pattern : Pattern)
  | times (least : Nat) (most : Option Nat)

def literal (c : Char) : Pattern := .oneOf false [.one c]

def hexValue? (c : Char) : Option Nat :=
  if '0' ≤ c && c ≤ '9' then some (c.toNat - '0'.toNat)
  else if 'a' ≤ c && c ≤ 'f' then some (c.toNat - 'a'.toNat + 10)
  else if 'A' ≤ c && c ≤ 'F' then some (c.toNat - 'A'.toNat + 10)
  else none

def takeHex (count : Nat) (chars : List Char) : Option (Char × List Char) := do
  let digits ← (chars.take count).mapM hexValue?
  if digits.length < count then none
  some (Char.ofNat (digits.foldl (fun n d => n * 16 + d) 0), chars.drop count)

def takeEscape (chars : List Char) : Option (CharSet × List Char) :=
  match chars with
  | [] => none
  | c :: rest =>
    match c with
    | 'd' => some (.digits, rest)
    | 'D' => some (.not .digits, rest)
    | 'w' => some (.words, rest)
    | 'W' => some (.not .words, rest)
    | 's' => some (.blanks, rest)
    | 'S' => some (.not .blanks, rest)
    | 'n' => some (.one '\n', rest)
    | 't' => some (.one '\t', rest)
    | 'r' => some (.one '\r', rest)
    | 'f' => some (.one (Char.ofNat 12), rest)
    | 'v' => some (.one (Char.ofNat 11), rest)
    | 'a' => some (.one (Char.ofNat 7), rest)
    | 'x' => (takeHex 2 rest).map fun (c, rest) => (.one c, rest)
    | 'u' => (takeHex 4 rest).map fun (c, rest) => (.one c, rest)
    | 'U' => (takeHex 8 rest).map fun (c, rest) => (.one c, rest)
    | c => if c.isAlphanum then none else some (.one c, rest)

def takeMember : List Char → Option (CharSet × List Char)
  | [] => none
  | '\\' :: 'b' :: rest => some (.one (Char.ofNat 8), rest)
  | '\\' :: rest => takeEscape rest
  | c :: rest => some (.one c, rest)

def rangeOf? : CharSet → CharSet → Option CharSet
  | .one low, .one high => if low ≤ high then some (.range low high) else none
  | _, _ => none

/-- The members of a class up to the bracket that closes it; a bracket that comes first is a
member. -/
def takeClass : Nat → Bool → List CharSet → List Char → Option (List CharSet × List Char)
  | 0, _, _, _ => none
  | _, false, sets, ']' :: rest => some (sets.reverse, rest)
  | fuel + 1, _, sets, chars => do
    let (set, rest) ← takeMember chars
    match rest with
    | '-' :: ']' :: rest => some ((.one '-' :: set :: sets).reverse, rest)
    | '-' :: rest =>
      let (high, rest) ← takeMember rest
      takeClass fuel false ((← rangeOf? set high) :: sets) rest
    | rest => takeClass fuel false (set :: sets) rest

def number (digits : List Char) : Nat := digits.foldl (fun n c => n * 10 + (c.toNat - '0'.toNat)) 0

/-- Bounds between braces. A brace that opens none stands for itself; crossed bounds are refused. -/
def takeBounds (chars : List Char) : Option (Option ((Nat × Option Nat) × List Char)) :=
  if chars.head? = some '\x7d' then some none
  else
    let low := chars.takeWhile Char.isDigit
    let rest := chars.dropWhile Char.isDigit
    let (high, rest) := match rest with
      | ',' :: more => (more.takeWhile Char.isDigit, more.dropWhile Char.isDigit)
      | more => (low, more)
    match rest with
    | '\x7d' :: rest =>
      let most := if high.isEmpty then none else some (number high)
      if most.any (· < number low) then none else some (some ((number low, most), rest))
    | _ => some none

def takeName (chars : List Char) : Option (List Char) :=
  let name := chars.takeWhile (· ≠ '>')
  match chars.dropWhile (· ≠ '>') with
  | '>' :: rest =>
    if name.all isWord && !(name.head?).any Char.isDigit && !name.isEmpty then some rest else none
  | _ => none

def takeOpening : List Char → Option (Piece × List Char)
  | '?' :: ':' :: rest => some (.openGroup, rest)
  | '?' :: '=' :: rest => some (.openAhead false, rest)
  | '?' :: '!' :: rest => some (.openAhead true, rest)
  | '?' :: 'P' :: '<' :: rest => (takeName rest).map fun rest => (.openGroup, rest)
  | '?' :: _ => none
  | rest => some (.openGroup, rest)

def takePiece : List Char → Option (Piece × List Char)
  | [] => none
  | c :: rest =>
    match c with
    | '.' => some (.atom .any, rest)
    | '^' => some (.atom (.anchor .start), rest)
    | '$' => some (.atom (.anchor .lastLine), rest)
    | '|' => some (.bar, rest)
    | '(' => takeOpening rest
    | ')' => some (.closeGroup, rest)
    | '*' => some (.times 0 none, rest)
    | '+' => some (.times 1 none, rest)
    | '?' => some (.times 0 (some 1), rest)
    | '\x7b' => do
      match ← takeBounds rest with
      | some ((least, most), rest) => some (.times least most, rest)
      | none => some (.atom (literal '\x7b'), rest)
    | '[' =>
      match rest with
      | '^' :: rest => (takeClass (rest.length + 1) true [] rest).map fun (sets, rest) =>
        (.atom (.oneOf true sets), rest)
      | rest => (takeClass (rest.length + 1) true [] rest).map fun (sets, rest) =>
        (.atom (.oneOf false sets), rest)
    | '\\' =>
      match rest with
      | 'b' :: rest => some (.atom (.anchor .wordEdge), rest)
      | 'B' :: rest => some (.atom (.anchor .noWordEdge), rest)
      | 'A' :: rest => some (.atom (.anchor .start), rest)
      | 'Z' :: rest => some (.atom (.anchor .stop), rest)
      | rest => (takeEscape rest).map fun (set, rest) => (.atom (.oneOf false [set]), rest)
    | c => some (.atom (literal c), rest)

def pieces : Nat → List Char → Option (List Piece)
  | _, [] => some []
  | 0, _ => none
  | fuel + 1, chars => do
    let (piece, rest) ← takePiece chars
    -- A mark after a repetition only says which match is preferred.
    let rest := match piece, rest with
      | .times _ _, '?' :: more => more
      | .times _ _, '+' :: more => more
      | _, rest => rest
    some (piece :: (← pieces fuel rest))

/-- A group that is still open: how it was opened, its finished alternatives and the items of the
one being read, the last first. An item tells whether it can be repeated. -/
structure Level where
  ahead : Option Bool := none
  done : Option Pattern := none
  items : List (Pattern × Bool) := []

def Level.current (level : Level) : Pattern :=
  level.items.foldl (fun later item => .sequence item.1 later) .empty

def Level.pattern (level : Level) : Pattern :=
  match level.done with
  | none => level.current
  | some done => .either done level.current

def Level.push (level : Level) (item : Pattern) (repeatable : Bool) : Level :=
  { level with items := (item, repeatable) :: level.items }

def isAnchor : Pattern → Bool
  | .anchor _ => true
  | _ => false

def step (levels : List Level) (piece : Piece) : Option (List Level) :=
  match levels with
  | [] => none
  | level :: outer =>
    match piece with
    | .openGroup => some ({} :: level :: outer)
    | .openAhead negated => some ({ ahead := some negated } :: level :: outer)
    | .closeGroup =>
      match outer with
      | [] => none
      | around :: rest =>
        let inner := match level.ahead with
          | none => level.pattern
          | some negated => .ahead negated level.pattern
        some (around.push inner true :: rest)
    | .bar => some ({ level with done := some level.pattern, items := [] } :: outer)
    | .atom atom => some (level.push atom (!isAnchor atom) :: outer)
    | .times least most =>
      match level.items with
      | (item, true) :: items =>
        some ({ level with items := (.repeated item least most, false) :: items } :: outer)
      | _ => none

def read (source : String) : Option Pattern := do
  let pieces ← pieces source.length source.toList
  match ← pieces.foldlM step [{}] with
  | [level] => some level.pattern
  | _ => none

end HookLint.Text.Pattern
