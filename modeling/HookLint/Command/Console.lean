import HookLint.Diagnostic

/-!
What a command puts on the terminal: lines with markup, rules and tables. Markup stands between
brackets.
-/

namespace HookLint.Command

inductive Item where
  | line (markup : String)
  | rule (title : String)
  | table (header : List String) (rows : List (List String))
deriving DecidableEq, Repr, Inhabited

/-- Whether what follows an opening bracket makes it the start of a tag: a small letter, `#`, `/` or
`@`, and a closing bracket before the next opening one. -/
def startsTag : List Char → Bool
  | [] => false
  | first :: rest =>
    (('a' ≤ first && first ≤ 'z') || first = '#' || first = '/' || first = '@')
      && (rest.dropWhile fun c => c ≠ ']' && c ≠ '[').head? == some ']'

/-- Puts a backslash before each tag. Those that are there already are doubled; `slashes` of them
have just been read. -/
def escapeAfter (slashes : Nat) : List Char → List Char
  | [] => List.replicate slashes '\\'
  | c :: rest =>
    if c = '\\' then escapeAfter (slashes + 1) rest
    else if c = '[' && startsTag rest then List.replicate (2 * slashes + 1) '\\' ++ c :: escapeAfter 0 rest
    else List.replicate slashes '\\' ++ c :: escapeAfter 0 rest

def closeEscape (chars : List Char) : List Char :=
  match chars.reverse with
  | ['\\'] => chars ++ ['\\']
  | '\\' :: c :: _ => if c = '\\' then chars else chars ++ ['\\']
  | _ => chars

def escape (text : String) : String := String.ofList (closeEscape (escapeAfter 0 text.toList))

namespace Item

def heading (title : String) : Item := .rule ("[bold]" ++ title ++ "[/bold]")

def error (message : String) : Item := .line ("[error]ERROR:[/error] " ++ message)

def warning (message : String) : Item := .line ("[warning]WARNING:[/warning] " ++ message)

def success (message : String) : Item := .line ("[success]OK:[/success] " ++ message)

end Item

def levelMarkup (level : Level) : String := "[" ++ level.name ++ "]" ++ level.name ++ "[/" ++ level.name ++ "]"

structure Outcome where
  exitCode : Nat
  printed : List Item := []
  plain : Option String := none
  document : Option Fields := none
  saved : Option (String × Fields) := none
  errorLog : Bool := false
  logFile : Bool := false
deriving Inhabited

namespace Outcome

def misuse : Outcome := { exitCode := 2 }

def failed (canLog : Bool) : Outcome := { exitCode := 1, errorLog := canLog }

end Outcome

end HookLint.Command
