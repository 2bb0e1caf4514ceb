/-!
Command lines. Options start with a dash and may stand among the other arguments; two dashes alone
end them.
-/

namespace HookLint.Command

structure Switch where
  names : List String
  takesValue : Bool := false
deriving DecidableEq, Repr, Inhabited

structure Arguments where
  options : List (String × String) := []
  others : List String := []
deriving DecidableEq, Repr, Inhabited

namespace Arguments

def value? (arguments : Arguments) (name : String) : Option String := arguments.options.reverse.lookup name

def has (arguments : Arguments) (name : String) : Bool := (arguments.value? name).isSome

def addOption (arguments : Arguments) (switch : Switch) (value : String) : Arguments :=
  { arguments with options := arguments.options ++ [(switch.names.headD "", value)] }

def addOther (arguments : Arguments) (other : String) : Arguments :=
  { arguments with others := arguments.others ++ [other] }

end Arguments

def findSwitch (switches : List Switch) (name : String) : Option Switch :=
  switches.find? (·.names.contains name)

inductive Reading where
  | done (arguments : Arguments)
  | wanting (arguments : Arguments) (switch : Switch)

def readLetters (switches : List Switch) (arguments : Arguments) : List Char → Option Reading
  | [] => some (.done arguments)
  | letter :: rest =>
    match findSwitch switches (String.ofList ['-', letter]) with
    | none => none
    | some switch =>
      if !switch.takesValue then readLetters switches (arguments.addOption switch "") rest
      else if rest.isEmpty then some (.wanting arguments switch)
      else some (.done (arguments.addOption switch (String.ofList rest)))

def splitValue (word : String) : String × Option String :=
  let chars := word.toList
  let name := String.ofList (chars.takeWhile (· ≠ '='))
  match chars.dropWhile (· ≠ '=') with
  | [] => (name, none)
  | _ :: value => (name, some (String.ofList value))

def isLong (name : String) : Bool := name.startsWith "--"

def readOption (switches : List Switch) (arguments : Arguments) (word : String) : Option Reading :=
  let (name, value) := splitValue word
  match (findSwitch switches name).filter fun _ => isLong name with
  | some switch =>
    match value, switch.takesValue with
    | some value, true => some (.done (arguments.addOption switch value))
    | none, true => some (.wanting arguments switch)
    | none, false => some (.done (arguments.addOption switch ""))
    | some _, false => none
  | none => if isLong word then none else readLetters switches arguments (word.toList.drop 1)

def isOption (word : String) : Bool := word.startsWith "-" && word.length > 1

/-- Reads a command line. If options must come first, everything from the first other argument on
is left as it is. -/
def readArguments (switches : List Switch) (optionsFirst : Bool) (arguments : Arguments) : List String → Option Arguments
  | [] => some arguments
  | word :: rest =>
    if word = "--" then some (rest.foldl Arguments.addOther arguments)
    else if isOption word then
      match readOption switches arguments word with
      | none => none
      | some (.done arguments) => readArguments switches optionsFirst arguments rest
      | some (.wanting arguments switch) =>
        match rest with
        | [] => none
        | value :: rest => readArguments switches optionsFirst (arguments.addOption switch value) rest
    else if optionsFirst then some ((word :: rest).foldl Arguments.addOther arguments)
    else readArguments switches optionsFirst (arguments.addOther word) rest

end HookLint.Command
