import HookLint.Command.Inspect

namespace HookLint.Command

def version : String := "0.3.0"

def helpItems : List Item := [
  .heading "COMMANDS",
  .line "\n[bold cyan]ANALYSIS[/bold cyan]",
  .line "[dim]Hook placement and dependency list checks[/dim]",
  .table ["Command", "Description"] [["check", "Check hook placement and effect dependency lists."]],
  .line "\n[bold cyan]INSPECTION[/bold cyan]",
  .line "[dim]Look at the graphs the checks are computed on[/dim]",
  .table ["Command", "Description"] [["cfg", "Print the control flow graph of one function."]],
  .rule "",
  .line "For detailed options: [cmd]hookaud <command> --help[/cmd]"]

def switches : List Switch := [{ names := ["--version"] }, { names := ["-h", "--help"] }]

def dispatch (context : Context) : List String → Outcome
  | "check" :: words => Check.command context words
  | "cfg" :: words => Inspect.command context words
  | _ => .misuse

def run (context : Context) (words : List String) : Outcome :=
  if words.isEmpty then { exitCode := 2, printed := helpItems }
  else match readArguments switches true {} words with
    | none => .misuse
    | some arguments =>
      match arguments.options with
      | ("--version", _) :: _ => { exitCode := 0, plain := some ("hookaud, version " ++ version ++ "\n") }
      | _ :: _ => { exitCode := 0, printed := helpItems }
      | [] => dispatch context arguments.others

end HookLint.Command
