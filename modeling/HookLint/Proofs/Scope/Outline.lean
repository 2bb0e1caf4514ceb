import HookLint.Scope.Survey

namespace HookLint.Survey

open List Value

-- Doing what parts say, for parts that may visit any node.
mutual
def perform (part : Part) (number : Nat) : Survey Unit :=
  match part with
  | .visit role node => visit role node number
  | .refer happens identifier access => do if ← liftM happens then refer identifier number access
  | .writeUndeclared identifier => do unless ← isDeclared identifier do refer identifier number .write
  | .declare declarations => do declareAll number (← liftM declarations)
  | .declareMissing kind definition identifiers => do
    let scopes ← get
    let home := if kind.isVariable then scopes.functionScope number else number
    let identifiers ← liftM identifiers
    declareMissing home kind definition identifiers
  | .assign node => assign node number
  | .check outcome => fault outcome
  | .scope kind node parts => do
    let inner ← enter kind node (some number)
    performAll parts inner
def performAll (parts : List Part) (number : Nat) : Survey Unit :=
  match parts with
  | [] => pure ()
  | part :: rest => do
    perform part number
    performAll rest number
end

section
variable {sort : Value → Prop}

mutual
theorem run_eq (part : Part) (only : part.Only sort) (number : Nat) :
    part.run (fun role node _ number => visit role node number) only number = perform part number := by
  cases part with
  | scope kind node parts =>
    rw [Part.run, perform]
    exact congrArg _ (funext fun inner => run_all_eq parts only inner)
  | _ => rw [Part.run, perform]
theorem run_all_eq (parts : List Part) (only : AllOnly sort parts) (number : Nat) :
    runAll (fun role node _ number => visit role node number) parts only number = performAll parts number := by
  cases parts with
  | nil => rw [runAll, performAll]
  | cons part rest => rw [runAll, performAll, run_eq part only.1, run_all_eq rest only.2]
end

end

theorem visit_eq (role : Role) (node : Value) (number : Nat) : visit role node number = performAll (outline role node) number := by
  rw [visit, run_all_eq]

theorem perform_all_single (part : Part) (number : Nat) : performAll [part] number = perform part number := by
  rw [performAll, performAll]
  exact bind_pure _

theorem visit_all_eq (nodes : List Value) (number : Nat) : nodes.forM (visit .value · number) = performAll (visits .value nodes) number := by
  induction nodes with
  | nil => rfl
  | cons node rest ih =>
    rw [visits, map_cons, performAll, perform, ← visits, ← ih]
    rfl

def programParts (program : Value) : List Part :=
  .declare (hoistedVars (program.get "body")) :: .declare (hoistedLexicals (program.get "body").parts)
    :: visits .value (program.get "body").parts

theorem visit_program_eq (program : Value) : visitProgram program = enter .module program none >>= performAll (programParts program) := by
  simp only [visitProgram, programParts, performAll, perform, visit_all_eq, bind_assoc]

end HookLint.Survey
