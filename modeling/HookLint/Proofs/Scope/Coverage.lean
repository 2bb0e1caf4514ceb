import HookLint.Proofs.Scope.Surveyed

namespace HookLint.Survey

open List Value

-- What is done with the nodes right inside of a node that is evaluated: which are evaluated as well, and which are declared or assigned to.
section
variable (fields : Fields)

def computedUse (key : String) : List (Role × Value) := if (fields.get "computed").given then [(.value, fields.get key)] else []

def listUses (role : Role) (value : Value) : List (Role × Value) := value.parts.map (role, ·)

def bodyUses (body : Value) : List (Role × Value) := if body.isA .blockStatement then listUses .value (body.get "body") else [(.value, body)]

def loopUse (key : String) : Role × Value := (if key = "left" then .target else .value, fields.get key)

def valueUses (kind : Option Kind) : List (Role × Value) :=
  match kind with
  | some .identifier | some .jsxIdentifier | some .jsxClosingElement | some .metaProperty | some .breakStatement | some .continueStatement
  | some .importDeclaration | some .exportAllDeclaration => []
  | some .jsxOpeningElement => listUses .value (fields.get "attributes")
  | some .jsxAttribute => [(.value, fields.get "value")]
  | some .memberExpression | some .optionalMemberExpression => (.value, fields.get "object") :: computedUse fields "property"
  | some .property | some .methodDefinition | some .propertyDefinition | some .classProperty =>
    computedUse fields "key" ++ [(.value, fields.get "value")]
  | some .labeledStatement => [(.value, fields.get "body")]
  | some .exportNamedDeclaration => [(.value, fields.get "declaration")]
  | some .variableDeclaration => (fields.get "declarations").parts.flatMap fun node => [(.binding, node.get "id"), (.value, node.get "init")]
  | some .assignmentExpression =>
    [(if (fields.get "left").isA .identifier && assignmentAccess fields = .update then .value else .target, fields.get "left"),
      (.value, fields.get "right")]
  | some .updateExpression => [(.value, fields.get "argument")]
  | some .functionDeclaration | some .functionExpression | some .arrowFunction =>
    listUses .binding (fields.get "params") ++ bodyUses (fields.get "body")
  | some .classDeclaration | some .classExpression => (.value, fields.get "superClass") :: listUses .value ((fields.get "body").get "body")
  | some .blockStatement | some .staticBlock => listUses .value (fields.get "body")
  | some .forStatement => ["init", "test", "update", "body"].map (loopUse fields)
  | some .forInStatement | some .forOfStatement => ["left", "right", "body"].map (loopUse fields)
  | some .switchStatement => (.value, fields.get "discriminant") ::
      (fields.get "cases").parts.flatMap fun node => (.value, node.get "test") :: listUses .value (node.get "consequent")
  | some .catchClause => [(.binding, fields.get "param"), (.value, fields.get "body")]
  | some .functionStep | some .classStep | some .programStep | some .loopStep | some .targetStep | some .bindingStep => []
  | _ => (childNodes fields).map (.value, ·)

-- The same for a pattern: defaults and computed keys are evaluated, the rest is a pattern again.
def patternUses (role : Role) (kind : Option Kind) : List (Role × Value) :=
  match kind with
  | some .assignmentPattern => [(role, fields.get "left"), (.value, fields.get "right")]
  | some .arrayPattern => listUses role (fields.get "elements")
  | some .restElement => [(role, fields.get "argument")]
  | some .objectPattern => (fields.get "properties").parts.flatMap fun node =>
      if node.isA .restElement then [(role, node.get "argument")] else computedUse node.fields "key" ++ [(role, node.get "value")]
  | some .identifier => []
  | _ => if role = .target then valueUses fields kind else []

end

def uses (role : Role) (node : Value) : List (Role × Value) :=
  if role = .value then valueUses node.fields node.kind else patternUses node.fields role node.kind

-- How the nodes of a program are taken, from its statements inwards.
inductive Stands (program : Value) : Role → Value → Prop where
  | statement {stmt : Value} : stmt ∈ (program.get "body").parts → stmt.isNode = true → Stands program .value stmt
  | inside {role inner : Role} {node child : Value} : Stands program role node → (inner, child) ∈ uses role node → child.isNode = true →
      Stands program inner child

-- An identifier that is evaluated, be it to change it.
def Reads (program identifier : Value) : Prop := Stands program .value identifier ∧ identifier.isA .identifier = true

variable {scopes before after : Scopes} {id number : Nat} {fields : Fields} {child node : Value} {role inner : Role} {parts : List Part}
  {sort : Value → Prop}

-- Nothing that is done makes the survey forget a use.
def Grows {α : Type} (action : Survey α) : Prop :=
  ∀ before answer after, action before = .ok (answer, after) → before.references ⊆ after.references

section
variable {α β : Type}

theorem grows_bind {action : Survey α} {rest : α → Survey β} (first : Grows action) (later : ∀ answer, Grows (rest answer)) :
    Grows (action >>= rest) := by
  intro before answer after run
  obtain ⟨_, middle, early, late⟩ := run_bind run
  exact Subset.trans (first _ _ _ early) (later _ _ _ _ late)

theorem grows_lift (outcome : Except Fault α) : Grows (liftM outcome : Survey α) := by
  intro before answer after run
  rw [(run_lift run).2]
  exact Subset.refl _

theorem grows_pure (answer : α) : Grows (pure answer : Survey α) := by
  intro before answer after run
  cases run
  exact Subset.refl _

end

theorem grows_modify (change : Scopes → Scopes) (kept : ∀ scopes, scopes.references ⊆ (change scopes).references) :
    Grows (modify change : Survey Unit) := by
  intro before answer after run
  cases run
  exact kept _

theorem refer_grows (identifier : Value) (number : Nat) (access : Access) : Grows (refer identifier number access) :=
  grows_modify _ fun _ => subset_append_left _ _

theorem declare_all_grows (number : Nat) (declarations : List Declaration) : Grows (declareAll number declarations) := by
  induction declarations with
  | nil => exact grows_pure _
  | cons declaration rest ih =>
    refine grows_bind (grows_modify _ fun scopes => ?_) fun _ => ih
    dsimp only
    split <;> exact Subset.refl _

theorem is_declared_grows (identifier : Value) : Grows (isDeclared identifier) := by
  intro before answer after run
  rw [is_declared_run run]
  exact Subset.refl _

theorem declare_missing_grows (number : Nat) (kind : BindingKind) (definition : Value) (identifiers : List Value) :
    Grows (declareMissing number kind definition identifiers) := by
  induction identifiers with
  | nil => exact grows_pure _
  | cons identifier rest ih =>
    refine grows_bind (is_declared_grows identifier) fun known => ?_
    cases known with
    | true => exact ih
    | false => exact grows_bind (grows_lift _) fun declarations => grows_bind (declare_all_grows number declarations) fun _ => ih

mutual
theorem perform_grows (grow : ∀ role node number, sort node → Grows (visit role node number)) (part : Part) (only : part.Only sort)
    (number : Nat) : Grows (perform part number) := by
  match part, only with
  | .visit role node, isSort =>
    rw [perform]
    exact grow role node number isSort
  | .refer happens identifier access, _ =>
    refine grows_bind (grows_lift happens) fun answer => ?_
    cases answer with
    | false => exact grows_pure _
    | true => exact refer_grows identifier number access
  | .writeUndeclared identifier, _ =>
    refine grows_bind (is_declared_grows identifier) fun answer => ?_
    cases answer with
    | true => exact grows_pure _
    | false => exact refer_grows identifier number .write
  | .declare declarations, _ => exact grows_bind (grows_lift declarations) fun made => declare_all_grows number made
  | .declareMissing kind definition identifiers, _ =>
    exact grows_bind (fun _ _ _ got => by cases got; exact Subset.refl _) fun scopes =>
      grows_bind (grows_lift identifiers) fun found => declare_missing_grows _ kind definition found
  | .assign node, _ =>
    rw [perform]
    refine grows_modify _ fun scopes => ?_
    split <;> exact Subset.refl _
  | .check outcome, _ => exact grows_lift outcome
  | .scope kind node parts, only =>
    refine grows_bind (fun before inner after run => ?_) fun inner => perform_all_grows grow parts only inner
    rw [(enter_run run).2.2.1]
    exact Subset.refl _
theorem perform_all_grows (grow : ∀ role node number, sort node → Grows (visit role node number)) (parts : List Part)
    (only : AllOnly sort parts) (number : Nat) : Grows (performAll parts number) := by
  match parts, only with
  | [], _ => exact grows_pure _
  | part :: rest, ⟨first, others⟩ => exact grows_bind (perform_grows grow part first number) fun _ => perform_all_grows grow rest others number
end

-- A part was done at some time, and the uses noted by it are kept.
def Met (scopes : Scopes) (part : Part) : Prop :=
  ∃ bound number before after, part.Only (sizeOf · < bound) ∧ perform part number before = .ok ((), after) ∧ after.references ⊆ scopes.references

-- What is done inside a scope that is opened counts like the rest.
def Part.flat : Part → List Part
  | .scope _ _ parts => parts
  | part => [part]

def flatAll (parts : List Part) : List Part := parts.flatMap Part.flat

theorem flat_visits (role : Role) (nodes : List Value) : (visits role nodes).flatMap Part.flat = visits role nodes := by
  rw [visits, flatMap_map, map_eq_flatMap]
  rfl

-- The parts of a visit have what is to be done for each use.
def Covers (uses : List (Role × Value)) (parts : List Part) : Prop :=
  ∀ use ∈ uses, use.2.isNode = true → .visit use.1 use.2 ∈ flatAll parts

attribute [local simp] Covers listUses bodyUses computedUse valueUses flatAll Part.flat flat_visits Form.of formParts visits

end HookLint.Survey
