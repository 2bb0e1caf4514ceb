import HookLint.Proofs.Tree.Enclosing
import HookLint.Tree.Location

/-!
The trees of programs in the language of 2020 with markup, up to what evaluation tells apart: which
fields of a node hold further nodes, and what these are read as.
-/

namespace HookLint

open List Value Option

variable {fields : Fields} {value node : Value} {slots : List Slot} {arity : Arity} {role : Role} {id : Nat}

-- A node itself, or the nodes of a list.
def Value.nodes : Value → List Value
  | .list items => items.filter Value.isNode
  | value => if value.isNode then [value] else []

namespace Grammar

-- What a node is read as.
inductive Role where
  | program | statement | block | functionBody | start | head | exported
  | declarator | binder | switchCase | handler
  | expression | target | reference | pattern | property | patternProperty
  | name | tag | specifier
  | classBody | classMember | method | decorator
deriving DecidableEq

-- How many nodes a field holds.
inductive Arity where
  | one | maybe
  | many | holes | manyIfAny
deriving DecidableEq

namespace Arity

def takesNull : Arity → Bool
  | .maybe | .manyIfAny => true
  | _ => false

def takesRecord : Arity → Bool
  | .one | .maybe => true
  | _ => false

-- What the items of a list are taken as.
def ofItems : Arity → Option Arity
  | .many | .manyIfAny => some .one
  | .holes => some .maybe
  | _ => none

end Arity

structure Slot where
  key : String
  arity : Arity
  role : Role
deriving DecidableEq

namespace Slot

def one (key : String) (role : Role) : Slot := ⟨key, .one, role⟩

def maybe (key : String) (role : Role) : Slot := ⟨key, .maybe, role⟩

def many (key : String) (role : Role) : Slot := ⟨key, .many, role⟩

end Slot

-- The key of a member is an expression only if it is computed.
def keySlot (fields : Fields) (key : String) : Slot := .one key (if (fields.get "computed").given then .expression else .name)

def functionSlots : List Slot := [.maybe "id" .name, .many "params" .pattern, .one "body" .functionBody]

def classSlots : List Slot :=
  [.maybe "id" .name, .maybe "superClass" .expression, .one "body" .classBody, ⟨"decorators", .manyIfAny, .decorator⟩]

def memberSlots (fields : Fields) : List Slot := [.one "object" .expression, keySlot fields "property"]

def nameSlots (kind : Kind) (fields : Fields) : Option (List Slot) :=
  match kind with
  | .identifier => if (fields.get "name").text?.isSome then some [] else none
  | .literal | .stringLiteral | .numericLiteral | .bigIntLiteral | .privateIdentifier | .templateElement | .jsxIdentifier
  | .jsxOpeningFragment | .jsxClosingFragment => some []
  | .privateName => some [.one "id" .name]
  | .jsxMemberExpression => some [.one "object" .name, .one "property" .name]
  | .jsxNamespacedName => some [.one "namespace" .name, .one "name" .name]
  | .jsxClosingElement => some [.one "name" .name]
  | _ => none

def expressionSlots (kind : Kind) (fields : Fields) : Option (List Slot) :=
  match kind with
  | .identifier => if (fields.get "name").text?.isSome then some [] else none
  | .literal | .regExpLiteral | .stringLiteral | .numericLiteral | .booleanLiteral | .nullLiteral | .bigIntLiteral
  | .thisExpression | .superExpression | .importKeyword | .jsxText | .jsxEmptyExpression => some []
  | .metaProperty => some [.one "meta" .name, .one "property" .name]
  | .functionExpression | .arrowFunction => some functionSlots
  | .classExpression => some classSlots
  | .callExpression | .optionalCallExpression | .newExpression => some [.one "callee" .expression, .many "arguments" .expression]
  | .memberExpression | .optionalMemberExpression => some (memberSlots fields)
  | .chainExpression | .jsxExpressionContainer | .jsxSpreadChild => some [.one "expression" .expression]
  | .logicalExpression | .binaryExpression => some [.one "left" .expression, .one "right" .expression]
  | .conditionalExpression => some [.one "test" .expression, .one "consequent" .expression, .one "alternate" .expression]
  | .assignmentExpression =>
    let operator := (fields.get "operator").text?
    some [.one "left" (if operator = some "=" then .target else .reference), .one "right" .expression]
  | .updateExpression | .unaryExpression | .awaitExpression | .spreadElement | .jsxSpreadAttribute => some [.one "argument" .expression]
  | .yieldExpression => some [.maybe "argument" .expression]
  | .objectExpression => some [.many "properties" .property]
  | .arrayExpression => some [⟨"elements", .holes, .expression⟩]
  | .sequenceExpression => some [.many "expressions" .expression]
  | .templateLiteral => some [.many "quasis" .name, .many "expressions" .expression]
  | .taggedTemplate => some [.one "tag" .expression, .one "quasi" .expression]
  | .importExpression => some [.one "source" .expression]
  | .jsxElement => some [.one "openingElement" .tag, .many "children" .expression, .maybe "closingElement" .name]
  | .jsxFragment => some [.one "openingFragment" .name, .many "children" .expression, .one "closingFragment" .name]
  | .jsxAttribute => some [.one "name" .name, .maybe "value" .expression]
  | _ => none

def patternSlots (kind : Kind) (fields : Fields) : Option (List Slot) :=
  match kind with
  | .identifier => if (fields.get "name").text?.isSome then some [] else none
  | .memberExpression | .optionalMemberExpression => some (memberSlots fields)
  | .objectPattern => some [.many "properties" .patternProperty]
  | .arrayPattern => some [⟨"elements", .holes, .pattern⟩]
  | .assignmentPattern => some [.one "left" .pattern, .one "right" .expression]
  | .restElement => some [.one "argument" .pattern]
  | _ => none

def statementSlots (kind : Kind) (fields : Fields) : Option (List Slot) :=
  match kind with
  | .emptyStatement | .debuggerStatement => some []
  | .blockStatement => some [.many "body" .statement]
  | .expressionStatement => some [.one "expression" .expression]
  | .variableDeclaration => some [.many "declarations" .declarator]
  | .functionDeclaration => some functionSlots
  | .classDeclaration => some classSlots
  | .returnStatement => some [.maybe "argument" .expression]
  | .throwStatement => some [.one "argument" .expression]
  | .ifStatement => some [.one "test" .expression, .one "consequent" .statement, .maybe "alternate" .statement]
  | .labeledStatement => some [.one "label" .name, .one "body" .statement]
  | .breakStatement | .continueStatement => some [.maybe "label" .name]
  | .whileStatement => some [.one "test" .expression, .one "body" .statement]
  | .doWhileStatement => some [.one "body" .statement, .one "test" .expression]
  | .forStatement => some [.maybe "init" .start, .maybe "test" .expression, .maybe "update" .expression, .one "body" .statement]
  | .forInStatement | .forOfStatement => some [.one "left" .head, .one "right" .expression, .one "body" .statement]
  | .switchStatement => some [.one "discriminant" .expression, .many "cases" .switchCase]
  | .tryStatement =>
    if (fields.get "handler").isNull && (fields.get "finalizer").isNull then none
    else some [.one "block" .block, .maybe "handler" .handler, .maybe "finalizer" .block]
  | .withStatement => some [.one "object" .expression, .one "body" .statement]
  | .importDeclaration => some [.many "specifiers" .specifier, .one "source" .name]
  | .exportNamedDeclaration => some [.maybe "declaration" .statement, .many "specifiers" .specifier, .maybe "source" .name]
  | .exportDefaultDeclaration => some [.one "declaration" .exported]
  | .exportAllDeclaration => some [.one "source" .name, .maybe "exported" .name]
  | _ => none

def slotsOf (role : Role) (kind : Kind) (fields : Fields) : Option (List Slot) :=
  match role, kind with
  | .program, .program => some [.many "body" .statement]
  | .statement, _ => statementSlots kind fields
  | .block, .blockStatement | .functionBody, .blockStatement => some [.many "body" .statement]
  | .start, .variableDeclaration => some [.many "declarations" .declarator]
  | .head, .variableDeclaration => some [.many "declarations" .binder]
  | .exported, .functionDeclaration => some functionSlots
  | .exported, .classDeclaration => some classSlots
  | .declarator, .variableDeclarator => some [.one "id" .pattern, .maybe "init" .expression]
  | .binder, .variableDeclarator => some [.one "id" .pattern]
  | .switchCase, .switchCase => some [.maybe "test" .expression, .many "consequent" .statement]
  | .handler, .catchClause => some [.maybe "param" .pattern, .one "body" .block]
  | .functionBody, _ | .start, _ | .exported, _ | .expression, _ => expressionSlots kind fields
  | .head, _ | .pattern, _ => patternSlots kind fields
  | .target, .assignmentPattern | .target, .restElement => none
  | .target, _ | .reference, .identifier | .reference, .memberExpression | .reference, .optionalMemberExpression =>
    patternSlots kind fields
  | .property, .property => some [keySlot fields "key", .one "value" .expression]
  | .property, .spreadElement => some [.one "argument" .expression]
  | .patternProperty, .property => some [keySlot fields "key", .one "value" .pattern]
  | .patternProperty, .restElement => some [.one "argument" .pattern]
  | .name, _ => nameSlots kind fields
  | .tag, .jsxOpeningElement => some [.one "name" .name, .many "attributes" .expression]
  | .specifier, .importSpecifier => some [.one "imported" .name, .one "local" .name]
  | .specifier, .importDefaultSpecifier | .specifier, .importNamespaceSpecifier => some [.one "local" .name]
  | .classMember, .methodDefinition => some [keySlot fields "key", .one "value" .method, ⟨"decorators", .manyIfAny, .decorator⟩]
  | .classMember, .propertyDefinition | .classMember, .classProperty =>
    some [keySlot fields "key", .maybe "value" .expression, ⟨"decorators", .manyIfAny, .decorator⟩]
  | .classMember, .staticBlock => some [.many "body" .statement]
  | .method, .functionExpression => some functionSlots
  | _, _ => none

-- The fields that hold nodes, if a node may be read so.
def slots? (role : Role) (node : Value) : Option (List Slot) :=
  match node.kind with
  | some kind => slotsOf role kind node.fields
  | none =>
    match role, node.kind? with
    | .classBody, some "ClassBody" => some [.many "body" .classMember]
    | .decorator, some "Decorator" => some [.one "expression" .expression]
    | .specifier, some "ExportSpecifier" => some [.one "local" .name, .one "exported" .name]
    | _, _ => none

-- What is not in a slot may be missing only where the slot allows it.
def complete (slots : List Slot) (fields : Fields) : Bool := slots.all fun slot => slot.arity.takesNull || (fields.find? slot.key).isSome

mutual
def admits (arity : Arity) (role : Role) : Value → Bool
  | .record id fields =>
    arity.takesRecord && decide (fields.map (·.1)).Nodup && (Value.record id fields).location.isOk
      && match slots? role (.record id fields) with
        | some slots => complete slots fields && admitsFields slots fields
        | none => false
  | .list items =>
    match arity.ofItems with
    | some inner => admitsItems inner role items
    | none => false
  | .null => arity.takesNull
  | _ => false
def admitsItems (arity : Arity) (role : Role) : List Value → Bool
  | [] => true
  | item :: rest => admits arity role item && admitsItems arity role rest
def admitsFields (slots : List Slot) : List (String × Value) → Bool
  | [] => true
  | (key, value) :: rest =>
    (match slots.find? (·.key = key) with
      | some slot => admits slot.arity slot.role value
      | none => (fieldNodes key value).isEmpty && value.isOrderly)
    && admitsFields slots rest
end

-- The tree of a program.
def isProgram (program : Value) : Bool := admits .one .program program

-- What is known of a node that is read in a role.
structure Fits (role : Role) (id : Nat) (fields : Fields) (slots : List Slot) : Prop where
  form : slots? role (.record id fields) = some slots
  apart : (fields.map (·.1)).Nodup
  located : ∃ place, (Value.record id fields).location = .ok place
  each : ∀ slot ∈ slots, slots.find? (·.key = slot.key) = some slot → admits slot.arity slot.role (fields.get slot.key) = true
  others : ∀ field ∈ fields, slots.find? (·.key = field.1) = none → fieldNodes field.1 field.2 = [] ∧ field.2.Orderly

theorem get_of_mem {key : String} (apart : (fields.map (·.1)).Nodup) (member : (key, value) ∈ fields) : fields.get key = value := by
  rw [Fields.get]
  induction fields with
  | nil => cases member
  | cons field rest ih =>
    obtain ⟨name, other⟩ := field
    obtain ⟨fresh, apart⟩ := nodup_cons.mp apart
    rw [Fields.find?]
    rcases mem_cons.mp member with same | later
    · cases same
      rw [if_pos rfl, getD_some]
    have different : name ≠ key := by
      rintro rfl
      exact fresh (mem_map.mpr ⟨_, later, rfl⟩)
    rw [if_neg different]
    exact ih apart later

theorem admits_fields_iff : admitsFields slots fields = true ↔ ∀ field ∈ fields, (match slots.find? (·.key = field.1) with
      | some slot => admits slot.arity slot.role field.2
      | none => (fieldNodes field.1 field.2).isEmpty && field.2.isOrderly) = true := by
  induction fields with
  | nil => simp [admitsFields]
  | cons field rest ih =>
    obtain ⟨key, value⟩ := field
    rw [admitsFields, Bool.and_eq_true, ih, forall_mem_cons]

theorem admits_items_iff {items : List Value} : admitsItems arity role items = true ↔ ∀ item ∈ items, admits arity role item = true := by
  induction items with
  | nil => simp [admitsItems]
  | cons item rest ih => rw [admitsItems, Bool.and_eq_true, ih, forall_mem_cons]

theorem fits_of_admits (admitted : admits arity role (.record id fields) = true) : ∃ slots, Fits role id fields slots := by
  rw [admits] at admitted
  simp only [Bool.and_eq_true, decide_eq_true_eq] at admitted
  obtain ⟨⟨⟨_, apart⟩, located⟩, admitted⟩ := admitted
  cases form : slots? role (.record id fields) with
  | none => rw [form] at admitted; cases admitted
  | some slots =>
    rw [form] at admitted
    obtain ⟨whole, each⟩ := Bool.and_eq_true_iff.mp admitted
    rw [admits_fields_iff] at each
    refine ⟨slots, form, apart, ?_, fun slot member found => ?_, fun field member none => ?_⟩
    · cases found : (Value.record id fields).location with
      | ok place => exact ⟨place, rfl⟩
      | error fault => rw [found] at located; cases located
    · rw [Fields.get]
      cases present : fields.find? slot.key with
      | none =>
        have allowed := all_eq_true.mp whole slot member
        rw [present, isSome_none, Bool.or_false] at allowed
        rw [getD_none, admits, allowed]
      | some value =>
        have admitted := each _ (Value.mem_of_find present)
        rw [found] at admitted
        exact admitted
    · have other := each field member
      rw [none] at other
      obtain ⟨empty, orderly⟩ := Bool.and_eq_true_iff.mp other
      exact ⟨isEmpty_iff.mp empty, orderly_of_check orderly⟩

theorem Fits.child (fits : Fits role id fields slots)
    {child : Value} {field : String × Value} (isField : field ∈ fields) (inside : child ∈ fieldNodes field.1 field.2) :
    ∃ slot ∈ slots, slot.key = field.1 ∧ slots.find? (·.key = slot.key) = some slot ∧
      child ∈ fieldNodes slot.key (fields.get slot.key) := by
  obtain ⟨key, value⟩ := field
  cases found : slots.find? (·.key = key) with
  | none =>
    rw [(fits.others _ isField found).1] at inside
    cases inside
  | some slot =>
    have same : slot.key = key := by simpa using List.find?_some found
    subst same
    refine ⟨slot, mem_of_find?_eq_some found, rfl, found, ?_⟩
    rw [get_of_mem fits.apart isField]
    exact inside

theorem identifier_slots {named : Prop} [Decidable named] (form : (if named then some [] else none) = some slots) : [] = slots := by
  split at form
  · exact Option.some.inj form
  · cases form

theorem try_slots (form : statementSlots .tryStatement fields = some slots) :
    ¬ ((fields.get "handler").isNull && (fields.get "finalizer").isNull) = true ∧
      [.one "block" .block, .maybe "handler" .handler, .maybe "finalizer" .block] = slots := by
  unfold statementSlots at form
  dsimp only at form
  split at form
  · cases form
  · rename_i guarded
    exact ⟨guarded, Option.some.inj form⟩

theorem Fits.slot (fits : Fits role id fields slots) (slot : Slot)
    (found : slots.find? (·.key = slot.key) = some slot) : admits slot.arity slot.role (fields.get slot.key) = true :=
  fits.each slot (mem_of_find?_eq_some found) found

-- Roles in which nothing is run.
def Role.isQuiet : Role → Bool
  | .name | .specifier => true
  | _ => false

-- Roles in which a node is of a kind that is told apart.
def Role.isKinded : Role → Bool
  | .classBody | .decorator | .specifier => false
  | _ => true

theorem Fits.kind (fits : Fits role id fields slots) (kinded : role.isKinded = true) :
    ∃ kind, (Value.record id fields).kind = some kind ∧ (Value.record id fields).filedKind = .ok (some kind) ∧
      slotsOf role kind fields = some slots := by
  have form := fits.form
  unfold slots? at form
  cases isKind : (Value.record id fields).kind with
  | none =>
    rw [isKind] at form
    cases role <;> cases kinded <;> cases form
  | some kind =>
    rw [isKind] at form
    refine ⟨kind, rfl, ?_, form⟩
    cases typed : (Value.record id fields).get "type" with
    | str name =>
      rw [filedKind, typed, isKind]
      rfl
    | _ =>
      rw [Value.kind, Value.kind?, typed] at isKind
      cases isKind

theorem admits_single (admitted : admits arity role value = true)
    (single : arity.takesRecord = true) : admits .maybe role value = true := by
  cases value with
  | record id fields =>
    rw [admits] at admitted ⊢
    rw [single] at admitted
    exact admitted
  | null => rfl
  | list items => cases arity <;> cases single <;> cases admitted
  | _ => cases admitted

theorem admits_maybe (admitted : admits .maybe role value = true) :
    value = .null ∨ ∃ id fields slots, value = .record id fields ∧ Fits role id fields slots := by
  cases value with
  | record id fields =>
    obtain ⟨slots, fits⟩ := fits_of_admits admitted
    exact .inr ⟨id, fields, slots, rfl, fits⟩
  | null => exact .inl rfl
  | _ => cases admitted

theorem admits_one (admitted : admits .one role value = true) :
    ∃ id fields slots, value = .record id fields ∧ Fits role id fields slots := by
  cases value with
  | record id fields =>
    obtain ⟨slots, fits⟩ := fits_of_admits admitted
    exact ⟨id, fields, slots, rfl, fits⟩
  | _ => cases admitted

theorem admits_items {inner : Arity} (admitted : admits arity role value = true)
    (listed : arity.ofItems = some inner) : (value = .null ∧ arity.takesNull = true) ∨
      ∃ items, value = .list items ∧ ∀ item ∈ items, admits inner role item = true := by
  cases value with
  | list items =>
    rw [admits, listed] at admitted
    exact .inr ⟨items, rfl, admits_items_iff.mp admitted⟩
  | null =>
    exact .inl ⟨rfl, admitted⟩
  | record id fields => cases arity <;> cases listed <;> simp [admits, Arity.takesRecord] at admitted
  | _ => cases admitted

-- What the slots of a node hold, by their keys.
section
variable {role : Role} {id : Nat} {fields : Fields} {slots : List Slot} (fits : Fits role id fields slots) (key : String) (inner : Role)
include fits

theorem Fits.one (found : slots.find? (·.key = key) = some (.one key inner)) : admits .one inner (fields.get key) = true :=
  fits.slot (.one key inner) found

theorem Fits.maybe (found : slots.find? (·.key = key) = some (.one key inner) ∨
    slots.find? (·.key = key) = some (.maybe key inner)) : admits .maybe inner (fields.get key) = true :=
  found.elim (fun found => admits_single (fits.slot (.one key inner) found) rfl) fun found => fits.slot (.maybe key inner) found

theorem Fits.many (found : slots.find? (·.key = key) = some (.many key inner)) :
    (∃ items, fields.get key = .list items) ∧ ∀ item ∈ (fields.get key).parts, admits .one inner item = true := by
  obtain ⟨_, impossible⟩ | ⟨items, isList, each⟩ := admits_items (fits.slot (.many key inner) found) rfl
  · cases impossible
  · rw [show fields.get key = .list items from isList]
    exact ⟨⟨items, rfl⟩, each⟩

end

theorem admits_role {other : Role} (kinded : role.isKinded = true)
    (weaker : ∀ kind slots, value.kind = some kind → slotsOf role kind value.fields = some slots →
      slotsOf other kind value.fields = some slots) (admitted : admits .maybe role value = true) : admits .maybe other value = true := by
  cases value with
  | record id fields =>
    obtain ⟨slots, fits⟩ := fits_of_admits admitted
    obtain ⟨kind, isKind, _, form⟩ := fits.kind kinded
    have sameForm : slots? other (.record id fields) = some slots := by
      unfold slots?
      rw [isKind]
      exact weaker kind slots isKind form
    rw [admits, fits.form] at admitted
    rw [admits, sameForm]
    exact admitted
  | null => rfl
  | _ => cases admitted

theorem field_nodes_subset (key : String) (value : Value) : fieldNodes key value ⊆ value.nodes := by
  intro node member
  unfold fieldNodes at member
  split at member
  · cases member
  split at member
  · rename_i isNode
    cases value with
    | list items => cases isNode
    | _ => simpa [Value.nodes, isNode] using member
  · split at member
    · exact member
    · cases member

theorem mem_nodes_single (admitted : admits .maybe role value = true) : node ∈ value.nodes ↔ value.isNode = true ∧ node = value := by
  cases value with
  | list items => cases admitted
  | _ =>
    unfold Value.nodes
    split <;> simp_all

theorem admits_lone (admitted : admits arity role value = true)
    (lone : ∀ items, value ≠ .list items) : admits .maybe role value = true := by
  cases value with
  | record id fields =>
    rw [admits] at admitted ⊢
    simp only [Bool.and_eq_true] at admitted ⊢
    exact ⟨⟨⟨rfl, admitted.1.1.2⟩, admitted.1.2⟩, admitted.2⟩
  | null => rfl
  | list items => exact absurd rfl (lone items)
  | _ => cases admitted

-- What is known of the kind of a node by its role.
def Role.keeps (role : Role) (kind : Option Kind) : Bool :=
  match role with
  | .tag => kind = some .jsxOpeningElement
  | .property | .patternProperty => !kind.any Kind.isFunction
  | .declarator | .binder => kind = some .variableDeclarator
  | .switchCase => kind = some .switchCase
  | .block => kind = some .blockStatement
  | .handler => kind = some .catchClause
  | .statement => kind ≠ some .functionExpression && kind ≠ some .arrowFunction
  | _ => true

theorem Fits.keeps (fits : Fits role id fields slots) : role.keeps (Value.record id fields).kind = true := by
  cases kinded : role.isKinded with
  | false => cases role <;> cases kinded <;> rfl
  | true =>
    obtain ⟨kind, isKind, _, form⟩ := fits.kind kinded
    rw [isKind]
    cases role <;> first | rfl | (cases kind <;> first | rfl | cases form)

theorem admits_of_role {kind : Kind} (form : slotsOf role kind fields = some slots) (key : String) (inner : Option Kind)
    (kept : ∀ slot, slots.find? (·.key = key) = some slot → slot.role.keeps inner = true) : kind.admits key inner = true := by
  unfold Kind.admits
  split
  case h_24 => rfl
  all_goals cases role <;> first
      | (cases form; done)
      | (cases form; exact kept _ rfl)
      | (obtain ⟨_, rfl⟩ := try_slots form; exact kept _ rfl)
      | (cases form; rw [of_decide_eq_true (kept _ rfl)]; rfl)

theorem slot_keeps {child : Value} (admitted : admits arity role value = true)
    (isChild : child ∈ value :: value.parts) (isRecord : child.isRecord = true) : role.keeps child.kind = true := by
  have kept {arity : Arity} (admitted : admits arity role child = true) : role.keeps child.kind = true := by
    cases child with
    | record id fields =>
      obtain ⟨slots, fits⟩ := fits_of_admits admitted
      exact fits.keeps
    | _ => cases isRecord
  rcases mem_cons.mp isChild with rfl | isPart
  · exact kept admitted
  cases value with
  | list items =>
    rw [admits] at admitted
    split at admitted
    · exact kept (admits_items_iff.mp admitted child isPart)
    · cases admitted
  | _ => cases isPart

-- By induction on the tree: what is in a slot is admitted there, and the rest is checked by itself.
mutual
theorem admits_orderly (arity : Arity) (role : Role) (value : Value) (admitted : admits arity role value = true) : value.Orderly := by
  match value with
  | .record id fields =>
    obtain ⟨slots, fits⟩ := fits_of_admits admitted
    intro node member kind isKind key child isChild isRecord
    rcases mem_cons.mp member with rfl | inside
    · have form : slotsOf role kind fields = some slots := by
        have form := fits.form
        unfold slots? at form
        rw [isKind] at form
        exact form
      refine admits_of_role form key child.kind fun slot found => ?_
      have same : slot.key = key := by simpa using List.find?_some found
      subst same
      exact slot_keeps (fits.slot slot found) isChild isRecord
    · rw [admits, fits.form] at admitted
      simp only [Bool.and_eq_true] at admitted
      exact admits_fields_orderly slots fields admitted.2.2 node inside kind isKind key child isChild isRecord
  | .list items =>
    rw [admits] at admitted
    split at admitted
    · exact admits_items_orderly _ role items admitted
    · cases admitted
  | .null | .bool _ | .int _ | .float _ | .str _ => exact nofun
theorem admits_items_orderly (arity : Arity) (role : Role) (items : List Value) (admitted : admitsItems arity role items = true) :
    (Value.list items).Orderly := by
  match items with
  | [] => exact nofun
  | item :: rest =>
    obtain ⟨first, others⟩ := Bool.and_eq_true_iff.mp admitted
    intro node member
    exact (mem_append.mp member).elim (admits_orderly arity role item first node) (admits_items_orderly arity role rest others node)
theorem admits_fields_orderly (slots : List Slot) (fields : List (String × Value)) (admitted : admitsFields slots fields = true) :
    ∀ node ∈ recordsOfFields fields, ∀ kind, node.kind = some kind → ∀ key, ∀ child ∈ node.get key :: (node.get key).parts,
      child.isRecord = true → kind.admits key child.kind = true := by
  match fields with
  | [] => exact nofun
  | (key, value) :: rest =>
    obtain ⟨first, others⟩ := Bool.and_eq_true_iff.mp admitted
    have orderly : value.Orderly := by
      split at first
      · exact admits_orderly _ _ value first
      · exact orderly_of_check (Bool.and_eq_true_iff.mp first).2
    intro node member
    exact (mem_append.mp member).elim (orderly node) (admits_fields_orderly slots rest others node)
end

end Grammar

end HookLint
