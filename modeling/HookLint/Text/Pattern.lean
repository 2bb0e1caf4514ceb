import HookLint.Text.Blank
import HookLint.Text.Digit
import HookLint.Text.Word

/-!
Patterns that a text may or may not contain. Since only the existence of a match matters, a match
is described by the set of places where it can end.
-/

namespace HookLint.Text

inductive CharSet where
  | one (c : Char)
  | range (low high : Char)
  | digits
  | words
  | blanks
  | not (set : CharSet)
deriving DecidableEq, Repr, Inhabited

def CharSet.holds (c : Char) : CharSet → Bool
  | .one other => c = other
  | .range low high => low ≤ c && c ≤ high
  | .digits => (decimalValue? c).isSome
  | .words => isWord c
  | .blanks => isBlank c
  | .not set => !set.holds c

inductive Anchor where
  | start
  | stop
  | lastLine
  | wordEdge
  | noWordEdge
deriving DecidableEq, Repr, Inhabited

inductive Pattern where
  | empty
  | any
  | oneOf (negated : Bool) (sets : List CharSet)
  | anchor (condition : Anchor)
  | sequence (first second : Pattern)
  | either (first second : Pattern)
  | repeated (inner : Pattern) (least : Nat) (most : Option Nat)
  | ahead (negated : Bool) (inner : Pattern)
deriving Repr, Inhabited

def atWordEdge (text : List Char) (place : Nat) : Bool :=
  let before := place > 0 && (text[place - 1]?).any isWord
  let after := (text[place]?).any isWord
  before != after

def Anchor.holds (text : List Char) (place : Nat) : Anchor → Bool
  | .start => place = 0
  | .stop => place = text.length
  | .lastLine => place = text.length || (place + 1 = text.length && text[place]? = some '\n')
  | .wordEdge => atWordEdge text place
  | .noWordEdge => !text.isEmpty && !atWordEdge text place

def stepTimes (step : Nat → List Nat) : Nat → List Nat → List Nat
  | 0, places => places
  | count + 1, places => stepTimes step count (places.flatMap step).eraseDups

def stepUpTo (step : Nat → List Nat) : Nat → List Nat → List Nat
  | 0, places => places
  | count + 1, places =>
    let more := (places.flatMap step).filter fun place => !places.contains place
    if more.isEmpty then places else stepUpTo step count (places ++ more.eraseDups)

namespace Pattern

def ends (text : List Char) : Pattern → Nat → List Nat
  | .empty, place => [place]
  | .any, place => if (text[place]?).any (· ≠ '\n') then [place + 1] else []
  | .oneOf negated sets, place =>
    match text[place]? with
    | some c => if sets.any (·.holds c) != negated then [place + 1] else []
    | none => []
  | .anchor condition, place => if condition.holds text place then [place] else []
  | .sequence first second, place => ((first.ends text place).flatMap (second.ends text)).eraseDups
  | .either first second, place => (first.ends text place ++ second.ends text place).eraseDups
  | .repeated inner least most, place =>
    let start := stepTimes (inner.ends text) least [place]
    match most with
    | some most => stepUpTo (inner.ends text) (most - least) start
    | none => stepUpTo (inner.ends text) (text.length + 1) start
  | .ahead negated inner, place => if (inner.ends text place).isEmpty == negated then [place] else []

def occursIn (pattern : Pattern) (text : String) : Bool :=
  let chars := text.toList
  (List.range (chars.length + 1)).any fun place => !(pattern.ends chars place).isEmpty

end Pattern

end HookLint.Text
