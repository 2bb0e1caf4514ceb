import HookLint.Scope.Hoist
import HookLint.Value.Letters

/-!
The survey of a program: opens its scopes, declares its names and records where they are used.
What rises to the start of a scope is declared before the statements of the scope are visited.
-/

namespace HookLint

abbrev Survey := StateT Scopes (Except Fault)

namespace Survey

def enter (kind : ScopeKind) (node : Value) (parent : Option Nat) : Survey Nat := fun scopes =>
  let (scopes, number) := scopes.add { kind, node, parent }
  match node.id? with
  | some id => .ok (number, { scopes with opened := (id, number) :: scopes.opened })
  | none => .ok (number, scopes)

def assign (node : Value) (number : Nat) : Survey Unit := modify fun scopes =>
  match node.id? with
  | some id => { scopes with opened := (id, number) :: scopes.opened }
  | none => scopes

def declare (number : Nat) (declaration : Declaration) : Survey Unit := modify fun scopes =>
  let scopes := scopes.declare {
    name := declaration.identifier.spelling, key := declaration.key, kind := declaration.kind
    scope := number, identifier := declaration.identifier, definition := declaration.definition }
  match declaration.identifier.id? with
  | some id => { scopes with declared := (id, number, declaration.key) :: scopes.declared }
  | none => scopes

def declareAll (number : Nat) (declarations : List Declaration) : Survey Unit :=
  declarations.forM (declare number)

def isDeclared (identifier : Value) : Survey Bool := do
  let scopes ← get
  return identifier.id?.any fun id => (scopes.declared.lookup id).isSome

def refer (identifier : Value) (number : Nat) (access : Access) : Survey Unit := modify fun scopes =>
  { scopes with references := scopes.references ++ [⟨identifier, number, access⟩] }

def fault (check : Except Fault Unit) : Survey Unit := liftM check

def markupRoot (name : Value) : Value :=
  match name with
  | .record id fields =>
    if (Value.record id fields).isA .jsxMemberExpression then markupRoot (Fields.get fields "object")
    else .record id fields
  | other => other
termination_by sizeOf name

def isPattern : Kind → Bool
  | .identifier | .objectPattern | .arrayPattern | .assignmentPattern | .restElement => true
  | _ => false

def assignmentAccess (fields : Fields) : Access :=
  match fields.find? "operator" with
  | none | some (.str "=") => .write
  | some _ => .update

def declarationKind (fields : Fields) : BindingKind :=
  match fields.find? "kind" with
  | none => .variable
  | some word => .ofWord word

def declareMissing (number : Nat) (kind : BindingKind) (definition : Value) : List Value → Survey Unit
  | [] => pure ()
  | identifier :: rest => do
    unless ← isDeclared identifier do
      declareAll number (← liftM (Declaration.of kind definition identifier))
    declareMissing number kind definition rest

def headDeclares (head : Value) : Bool :=
  head.isA .variableDeclaration &&
    ((head.get "kind").text? = some "let" || (head.get "kind").text? = some "const")

def caseStatements (cases : List Value) : Except Fault (List Value) := do
  let groups ← cases.mapM fun branch => do (← branch.ask "consequent").itemsIfGiven
  return groups.flatten

/-- What a node is visited as: something that is evaluated, a pattern whose names are declared
elsewhere, or something that is assigned to. -/
inductive Role where
  | value
  | binding
  | target
deriving DecidableEq

/-- One thing that visiting a node does. What may fail is kept as it is, so that it fails in its turn. -/
inductive Part where
  | visit (role : Role) (node : Value)
  | refer (happens : Except Fault Bool) (identifier : Value) (access : Access)
  | writeUndeclared (identifier : Value)
  | declare (declarations : Except Fault (List Declaration))
  | declareMissing (kind : BindingKind) (definition : Value) (identifiers : Except Fault (List Value))
  | assign (node : Value)
  | check (outcome : Except Fault Unit)
  | scope (kind : ScopeKind) (node : Value) (parts : List Part)

def visits (role : Role) (nodes : List Value) : List Part := nodes.map (.visit role)

def propertyParts (role : Role) : Value → List Part
  | .record id fields =>
    if (Value.record id fields).isA .restElement then [.visit role (Fields.get fields "argument")]
    else
      (if (Fields.get fields "computed").given then [.visit .value (Fields.get fields "key")] else [])
        ++ [.visit role (Fields.get fields "value")]
  | other => [.check (.error (.notRecord other.form))]

def declaratorParts (kind : BindingKind) : Value → List Part
  | .record id fields => [
      .declareMissing kind (.record id fields) (patternIdentifiers (Fields.get fields "id")),
      .visit .binding (Fields.get fields "id"),
      .visit .value (Fields.get fields "init")]
  | other => [.check (.error (.notRecord other.form))]

def loopParts (field : String × Value) : List Part :=
  if field.1 = "type" || field.1 = "loc" || field.1 = "range" then []
  else if field.1 = "left" then [.check (field.2.filedKind.map fun _ => ()), .visit .target field.2]
  else [.visit .value field.2]

def caseParts : Value → List Part
  | .record _ fields => .visit .value (Fields.get fields "test") :: visits .value (Fields.get fields "consequent").parts
  | other => [.check (.error (.notRecord other.form))]

def exportParts : Value → List Part
  | .record _ fields => [.refer (.ok (Fields.get fields "local").given) (Fields.get fields "local") .read]
  | other => [.check (.error (.notRecord other.form))]

def elementParts (name : Value) : List Part :=
  if name.isA .jsxIdentifier then [.refer (name.get "name").startsUpper name .read]
  else if name.isA .jsxMemberExpression && (markupRoot name).isA .jsxIdentifier then
    [.refer (.ok true) (markupRoot name) .read]
  else []

/-- The body of a function shares the scope of the function, where its `var` declarations rise to. -/
def functionBodyParts : Value → List Part
  | .record id fields =>
    .declare (hoistedVars (Fields.get fields "body")) :: .declare (hoistedLexicals (Fields.get fields "body").parts)
      :: .assign (.record id fields)
      :: visits .value (Fields.get fields "body").parts
  | _ => []

def memberParts : Value → List Part
  | .record _ fields => .check (Fields.get fields "body").ensureItems :: visits .value (Fields.get fields "body").parts
  | other => if other.given then [.check (.error (.notRecord other.form))] else []

/-- The ways in which nodes are visited as values. -/
inductive Form where
  | name | markupName | opening | silent | failing (fault : Fault) | markupValue | member | labeled | property
  | exported | declaration | assignment | update | function | classLike | block | loop | branches | handler | plain

def Form.of : Option Kind → Form
  | some .identifier => .name
  | some .jsxIdentifier => .markupName
  | some .jsxOpeningElement => .opening
  | some .jsxClosingElement | some .metaProperty | some .breakStatement | some .continueStatement
  | some .importDeclaration | some .exportAllDeclaration | some .bindingStep => .silent
  | some .programStep => .failing .surplus
  | some .loopStep => .failing .incomplete
  | some .targetStep => .failing .endless
  | some .jsxAttribute => .markupValue
  | some .memberExpression | some .optionalMemberExpression => .member
  | some .labeledStatement => .labeled
  | some .property | some .methodDefinition | some .propertyDefinition | some .classProperty => .property
  | some .exportNamedDeclaration => .exported
  | some .variableDeclaration => .declaration
  | some .assignmentExpression => .assignment
  | some .updateExpression => .update
  | some .functionDeclaration | some .functionExpression | some .arrowFunction | some .functionStep => .function
  | some .classDeclaration | some .classExpression | some .classStep => .classLike
  | some .blockStatement | some .staticBlock => .block
  | some .forStatement | some .forInStatement | some .forOfStatement => .loop
  | some .switchStatement => .branches
  | some .catchClause => .handler
  | _ => .plain

def formParts (form : Form) (id : Nat) (fields : Fields) : List Part :=
  let whole := Value.record id fields
  match form with
  | .name => [.refer (.ok true) whole .read]
  | .markupName => [.refer (fields.get "name").startsUpper whole .read]
  | .opening =>
    elementParts (fields.get "name") ++ .check (fields.get "attributes").ensureItems :: visits .value (fields.get "attributes").parts
  | .silent => []
  | .failing fault => [.check (.error fault)]
  | .markupValue => [.visit .value (fields.get "value")]
  | .member =>
    .visit .value (fields.get "object") :: if (fields.get "computed").given then [.visit .value (fields.get "property")] else []
  | .labeled => [.visit .value (fields.get "body")]
  | .property =>
    (if (fields.get "computed").given then [.visit .value (fields.get "key")] else []) ++ [.visit .value (fields.get "value")]
  | .exported =>
    if (fields.get "declaration").given then [.visit .value (fields.get "declaration")]
    else if (fields.get "source").given then []
    else .check (fields.get "specifiers").ensureRecords
      :: (fields.get "specifiers").parts.flatMap exportParts
  | .declaration =>
    .check (fields.get "declarations").ensureRecords :: (fields.get "declarations").parts.flatMap (declaratorParts (declarationKind fields))
  | .assignment => [
      .check ((fields.get "left").filedKind.map fun _ => ()),
      if (fields.get "left").isA .identifier then
        .refer (.ok true) (fields.get "left") (assignmentAccess fields)
      else .visit .target (fields.get "left"),
      .visit .value (fields.get "right")]
  | .update => [
      if (fields.get "argument").isA .identifier then .refer (.ok true) (fields.get "argument") .update
      else .visit .value (fields.get "argument")]
  | .function => [
      .scope .function whole (
        .declare (if whole.isA .functionExpression then Declaration.of .functionName whole (fields.get "id")
          else .ok [])
        :: .check (fields.get "params").ensureItems
        :: (fields.get "params").parts.map (fun pattern => .declare (patternDeclarations .parameter whole pattern))
        ++ visits .binding (fields.get "params").parts
        ++ if (fields.get "body").isA .blockStatement then functionBodyParts (fields.get "body")
          else [.visit .value (fields.get "body")])]
  | .classLike => [
      .visit .value (fields.get "superClass"),
      .scope .classBody whole (
        .declare (if whole.isA .classExpression then Declaration.of .classLike whole (fields.get "id") else .ok [])
        :: memberParts (fields.get "body"))]
  | .block => [
      .scope .block whole (
        .check (fields.get "body").ensureItems
        :: .declare (hoistedLexicals (fields.get "body").parts)
        :: visits .value (fields.get "body").parts)]
  | .loop =>
    let head := Fields.get fields (if whole.isA .forStatement then "init" else "left")
    if headDeclares head then
      [.scope .block whole (.declare (hoistedLexicals [head]) :: fields.flatMap loopParts)]
    else fields.flatMap loopParts
  | .branches => [
      .visit .value (fields.get "discriminant"),
      .scope .block whole (
        .check (fields.get "cases").ensureRecords
        :: .declare (caseStatements (fields.get "cases").parts >>= hoistedLexicals)
        :: (fields.get "cases").parts.flatMap caseParts)]
  | .handler => [
      .scope .handler whole [
        .declare (patternDeclarations .caught whole (fields.get "param")),
        .visit .binding (fields.get "param"),
        .visit .value (fields.get "body")]]
  | .plain => visits .value (childNodes fields)

def valueParts (id : Nat) (fields : Fields) : List Part := formParts (.of (Value.record id fields).kind) id fields

def patternParts (role : Role) (id : Nat) (fields : Fields) : List Part :=
  let whole := Value.record id fields
  match whole.kind with
  | some .identifier => if role = .target then [.writeUndeclared whole] else []
  | some .assignmentPattern => [.visit role (fields.get "left"), .visit .value (fields.get "right")]
  | some .objectPattern =>
    .check (fields.get "properties").ensureRecords :: (fields.get "properties").parts.flatMap (propertyParts role)
  | some .arrayPattern => .check (fields.get "elements").ensureItems :: visits role (fields.get "elements").parts
  | _ => [.visit role (fields.get "argument")]

/-- What visiting a node inside a scope consists of. Of a binding only defaults and computed keys are
evaluated; names that are being declared are not written again. -/
def outline (role : Role) : Value → List Part
  | .record id fields =>
    if role ≠ .value && (Value.record id fields).kindIs isPattern then patternParts role id fields
    else if role = .binding then []
    else valueParts id fields
  | _ => []

mutual
/-- Whether a part visits only nodes of one sort. -/
def Part.Only (sort : Value → Prop) : Part → Prop
  | .visit _ node => sort node
  | .scope _ _ parts => AllOnly sort parts
  | _ => True
def AllOnly (sort : Value → Prop) : List Part → Prop
  | [] => True
  | part :: rest => part.Only sort ∧ AllOnly sort rest
end

mutual
/-- Does what a part says, and leaves it to `visit` to visit the nodes in it. -/
def Part.run {sort : Value → Prop} (visit : Role → (node : Value) → sort node → Nat → Survey Unit) :
    (part : Part) → part.Only sort → Nat → Survey Unit
  | .visit role node, isSort, number => visit role node isSort number
  | .refer happens identifier access, _, number => do if ← liftM happens then refer identifier number access
  | .writeUndeclared identifier, _, number => do unless ← isDeclared identifier do refer identifier number .write
  | .declare declarations, _, number => do declareAll number (← liftM declarations)
  | .declareMissing kind definition identifiers, _, number => do
    let scopes ← get
    let home := if kind.isVariable then scopes.functionScope number else number
    let identifiers ← liftM identifiers
    declareMissing home kind definition identifiers
  | .assign node, _, number => assign node number
  | .check outcome, _, _ => fault outcome
  | .scope kind node parts, only, number => do
    let inner ← enter kind node (some number)
    runAll visit parts only inner
def runAll {sort : Value → Prop} (visit : Role → (node : Value) → sort node → Nat → Survey Unit) :
    (parts : List Part) → AllOnly sort parts → Nat → Survey Unit
  | [], _, _ => pure ()
  | part :: rest, only, number => do
    part.run visit only.1 number
    runAll visit rest only.2 number
end

-- The nodes in an outline are smaller than the node, as the termination of the visit asks for it.
abbrev AllBelow (bound : Nat) : List Part → Prop := AllOnly (sizeOf · < bound)

section
variable {bound : Nat}

theorem all_below_append {first second : List Part} (early : AllBelow bound first) (late : AllBelow bound second) :
    AllBelow bound (first ++ second) := by
  induction first with
  | nil => exact late
  | cons part rest ih => exact ⟨early.1, ih early.2⟩

theorem if_below {test : Prop} [Decidable test] {first second : List Part} (early : AllBelow bound first) (late : AllBelow bound second) :
    AllBelow bound (if test then first else second) := by
  split
  · exact early
  · exact late

theorem flat_map_below {α : Type} {items : List α} {make : α → List Part} (each : ∀ item ∈ items, AllBelow bound (make item)) :
    AllBelow bound (items.flatMap make) := by
  induction items with
  | nil => trivial
  | cons item rest ih => exact all_below_append (each item (.head _)) (ih fun other later => each other (.tail _ later))

theorem visits_below (role : Role) {nodes : List Value} (small : sizeOf nodes ≤ bound) : AllBelow bound (visits role nodes) := by
  induction nodes with
  | nil => trivial
  | cons node rest ih =>
    rw [List.cons.sizeOf_spec] at small
    exact ⟨Nat.lt_of_lt_of_le (by omega) small, ih (by omega)⟩

section
variable {id : Nat} {fields : Fields} (small : sizeOf (Value.record id fields) ≤ bound)
include small

theorem field_below (key : String) : sizeOf (Fields.get fields key) < bound := Nat.lt_of_lt_of_le (Value.sizeOf_get_record ..) small

theorem items_below (key : String) : sizeOf (Fields.get fields key).parts ≤ bound :=
  Nat.le_trans (Value.sizeOf_parts _) (Nat.le_of_lt (field_below small key))

theorem each_below (key : String) {make : Value → List Part} (each : ∀ item, sizeOf item ≤ bound → AllBelow bound (make item)) :
    AllBelow bound ((Fields.get fields key).parts.flatMap make) :=
  flat_map_below fun item isItem => each item (Nat.le_trans (Nat.le_of_lt (List.sizeOf_lt_of_mem isItem)) (items_below small key))

theorem loop_below : AllBelow bound (fields.flatMap loopParts) := by
  refine flat_map_below fun field isField => ?_
  have inner : sizeOf field.2 < bound := by
    have smaller := List.sizeOf_lt_of_mem isField
    rw [Prod.mk.sizeOf_spec] at smaller
    rw [Value.record.sizeOf_spec] at small
    omega
  exact if_below trivial (if_below ⟨trivial, inner, trivial⟩ ⟨inner, trivial⟩)

end

theorem property_below (role : Role) (property : Value) (small : sizeOf property ≤ bound) : AllBelow bound (propertyParts role property) := by
  cases property with
  | record id fields =>
    have field (key : String) := field_below small key
    exact if_below ⟨field _, trivial⟩ (all_below_append (if_below ⟨field _, trivial⟩ trivial) ⟨field _, trivial⟩)
  | _ => exact ⟨trivial, trivial⟩

theorem declarator_below (kind : BindingKind) (declarator : Value) (small : sizeOf declarator ≤ bound) :
    AllBelow bound (declaratorParts kind declarator) := by
  cases declarator with
  | record id fields => exact ⟨trivial, field_below small _, field_below small _, trivial⟩
  | _ => exact ⟨trivial, trivial⟩

theorem case_below (branch : Value) (small : sizeOf branch ≤ bound) : AllBelow bound (caseParts branch) := by
  cases branch with
  | record id fields => exact ⟨field_below small _, visits_below .value (items_below small _)⟩
  | _ => exact ⟨trivial, trivial⟩

theorem function_body_below (body : Value) (small : sizeOf body ≤ bound) : AllBelow bound (functionBodyParts body) := by
  cases body with
  | record id fields => exact ⟨trivial, trivial, trivial, visits_below .value (items_below small _)⟩
  | _ => trivial

theorem member_below (body : Value) (small : sizeOf body ≤ bound) : AllBelow bound (memberParts body) := by
  cases body with
  | record id fields => exact ⟨trivial, visits_below .value (items_below small _)⟩
  | _ =>
    simp only [memberParts]
    exact if_below ⟨trivial, trivial⟩ trivial

theorem element_below (name : Value) : AllBelow bound (elementParts name) :=
  if_below ⟨trivial, trivial⟩ (if_below ⟨trivial, trivial⟩ trivial)

theorem declares_below (patterns : List Value) (declared : Value → Except Fault (List Declaration)) :
    AllBelow bound (patterns.map fun pattern => .declare (declared pattern)) := by
  induction patterns with
  | nil => trivial
  | cons pattern rest ih => exact ⟨trivial, ih⟩

end

theorem pattern_below (role : Role) (id : Nat) (fields : Fields) :
    AllBelow (sizeOf (Value.record id fields)) (patternParts role id fields) := by
  have field := field_below (Nat.le_refl (sizeOf (Value.record id fields)))
  rw [patternParts]
  split
  · exact if_below ⟨trivial, trivial⟩ trivial
  · exact ⟨field _, field _, trivial⟩
  · exact ⟨trivial, each_below (Nat.le_refl _) _ (property_below role)⟩
  · exact ⟨trivial, visits_below role (items_below (Nat.le_refl _) _)⟩
  · exact ⟨field _, trivial⟩

theorem value_below (form : Form) (id : Nat) (fields : Fields) : AllBelow (sizeOf (Value.record id fields)) (formParts form id fields) := by
  have field := field_below (Nat.le_refl (sizeOf (Value.record id fields)))
  have items := items_below (Nat.le_refl (sizeOf (Value.record id fields)))
  cases form with
  | name | markupName | failing => exact ⟨trivial, trivial⟩
  | silent => trivial
  | opening => exact all_below_append (element_below _) ⟨trivial, visits_below .value (items _)⟩
  | markupValue | labeled => exact ⟨field _, trivial⟩
  | member => exact ⟨field _, if_below ⟨field _, trivial⟩ trivial⟩
  | property => exact all_below_append (if_below ⟨field _, trivial⟩ trivial) ⟨field _, trivial⟩
  | exported =>
    refine if_below ⟨field _, trivial⟩ (if_below trivial ⟨trivial, each_below (Nat.le_refl _) _ fun specifier _ => ?_⟩)
    cases specifier <;> exact ⟨trivial, trivial⟩
  | declaration => exact ⟨trivial, each_below (Nat.le_refl _) _ (declarator_below _)⟩
  | assignment =>
    refine ⟨trivial, ?_, field _, trivial⟩
    split
    · trivial
    · exact field _
  | update =>
    refine ⟨?_, trivial⟩
    split
    · trivial
    · exact field _
  | function =>
    exact ⟨⟨trivial, trivial, all_below_append (all_below_append (declares_below _ _) (visits_below .binding (items _)))
      (if_below (function_body_below _ (Nat.le_of_lt (field _))) ⟨field _, trivial⟩)⟩, trivial⟩
  | classLike => exact ⟨field _, ⟨trivial, member_below _ (Nat.le_of_lt (field _))⟩, trivial⟩
  | block => exact ⟨⟨trivial, trivial, visits_below .value (items _)⟩, trivial⟩
  | loop => exact if_below ⟨⟨trivial, loop_below (Nat.le_refl _)⟩, trivial⟩ (loop_below (Nat.le_refl _))
  | branches => exact ⟨field _, ⟨trivial, trivial, each_below (Nat.le_refl _) _ case_below⟩, trivial⟩
  | handler => exact ⟨⟨trivial, field _, field _, trivial⟩, trivial⟩
  | plain => exact visits_below .value (Nat.le_of_lt (Value.record.sizeOf_spec id fields ▸ Value.childNodes_below id fields))

theorem outline_below (role : Role) (node : Value) : AllBelow (sizeOf node) (outline role node) := by
  cases node with
  | record id fields => exact if_below (pattern_below role id fields) (if_below trivial (value_below _ id fields))
  | _ => trivial

def visit (role : Role) (node : Value) (number : Nat) : Survey Unit :=
  runAll (fun role inner _ number => visit role inner number) (outline role node) (outline_below role node) number
termination_by sizeOf node

def visitProgram (program : Value) : Survey Unit := do
  let number ← enter .module program none
  let body := program.get "body"
  declareAll number (← liftM (hoistedVars body))
  declareAll number (← liftM (hoistedLexicals body.parts))
  body.parts.forM (visit .value · number)

end Survey

def Scopes.ensureNames (scopes : Scopes) : Except Fault Unit :=
  scopes.references.forM fun reference => do
    let _ ← reference.identifier.spellingKey

def Scopes.ofProgram (program : Value) : Except Fault Scopes := do
  if !program.isRecord then throw (.notTree program.form)
  let start : Scopes := { parents := program.parents }
  let (_, scopes) ← (Survey.visitProgram program).run start
  scopes.ensureNames
  return scopes

end HookLint
