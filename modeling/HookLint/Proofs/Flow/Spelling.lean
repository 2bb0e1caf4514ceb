import Mathlib.Data.List.Forall2
import HookLint.Flow.Build
import HookLint.Proofs.Flow.Evaluation

namespace HookLint.Flow

-- How the nodes of a syntax tree spell the forms, field by field.

def Flagged (node : Value) (key : String) (flag : Bool) : Prop := node.get key = .bool flag ∨ (node.get key = .null ∧ flag = false)

def isAtom : Kind → Bool
  | .identifier | .literal | .regExpLiteral | .stringLiteral | .numericLiteral | .booleanLiteral
  | .nullLiteral | .bigIntLiteral | .thisExpression | .superExpression | .metaProperty
  | .functionExpression | .arrowFunction | .jsxText | .jsxEmptyExpression => true
  | _ => false

-- The field that lists the parts of a node, and the field of a single part.
def listField : Kind → Option String
  | .sequenceExpression | .templateLiteral => some "expressions"
  | .arrayExpression => some "elements"
  | .jsxFragment => some "children"
  | _ => none

def partField : Kind → Option String
  | .spreadElement | .jsxSpreadAttribute | .unaryExpression => some "argument"
  | .jsxExpressionContainer | .jsxSpreadChild => some "expression"
  | .jsxAttribute => some "value"
  | _ => none

-- The parts of a node that does nothing but evaluate them from left to right.
def PartsInOrder (node : Value) (items : List Value) : Prop :=
  (∃ kind key, node.kind = some kind ∧ listField kind = some key ∧ node.get key = .list items) ∨
  (∃ kind key, node.kind = some kind ∧ partField kind = some key ∧ items = [node.get key]) ∨
  (node.kind = some .binaryExpression ∧ items = [node.get "left", node.get "right"]) ∨
  (node.kind = some .jsxElement ∧ ∃ attributes children,
    (node.get "openingElement").get "attributes" = .list attributes ∧ node.get "children" = .list children ∧
    items = attributes ++ children)

def operatorRuns : String → Option Outcome
  | "&&" | "??" | "&&=" | "??=" => some .whenTrue
  | "||" | "||=" => some .whenFalse
  | _ => none

mutual
def Expr.Spelled : Expr → Value → Prop
  | .leaf, node => node.kindIs isAtom = true
  | .sequence parts, node => ∃ items, PartsInOrder node items ∧ SpelledAll parts items
  | .call call isOptional callee arguments, node =>
    call = node ∧ (node.kind = some .callExpression ∨ node.kind = some .newExpression) ∧
      Flagged node "optional" isOptional ∧ callee.Spelled (node.get "callee") ∧
      ∃ items, node.get "arguments" = .list items ∧ SpelledAll arguments items
  | .member isOptional object key, node =>
    node.kind = some .memberExpression ∧ Flagged node "optional" isOptional ∧
      object.Spelled (node.get "object") ∧ SpelledKey key node "property"
  | .chain inner, node => node.kind = some .chainExpression ∧ inner.Spelled (node.get "expression")
  | .logical runs left right, node =>
    node.kind = some .logicalExpression ∧
      (∃ operator ∈ ["&&", "||", "??"], node.get "operator" = .str operator ∧ operatorRuns operator = some runs) ∧
      left.Spelled (node.get "left") ∧ right.Spelled (node.get "right")
  | .conditional test consequent alternate, node =>
    node.kind = some .conditionalExpression ∧ test.Spelled (node.get "test") ∧
      consequent.Spelled (node.get "consequent") ∧ alternate.Spelled (node.get "alternate")
  | .assign target value, node =>
    node.kind = some .assignmentExpression ∧ (∃ operator, node.get "operator" = .str operator ∧ operator ∉ ["&&=", "||=", "??="]) ∧
      target.Spelled (node.get "left") ∧ value.Spelled (node.get "right")
  | .assignIf runs target value, node =>
    node.kind = some .assignmentExpression ∧ (∃ operator ∈ ["&&=", "||=", "??="], node.get "operator" = .str operator ∧
        operatorRuns operator = some runs) ∧
      (∀ pattern, target ≠ .pattern pattern) ∧ target.Spelled (node.get "left") ∧ value.Spelled (node.get "right")
  | .object properties, node =>
    node.kind = some .objectExpression ∧ ∃ items, node.get "properties" = .list items ∧ SpelledProperties properties items
  | .destructure _, _ | .region _, _ | .broken _, _ => False
-- A part that is left out, such as a hole of an array, evaluates nothing.
def SpelledAll : List Expr → List Value → Prop
  | [], items => items = []
  | expr :: rest, items => ∃ item others, items = item :: others ∧
      ((item = .null ∧ expr = .leaf) ∨ expr.Spelled item) ∧ SpelledAll rest others
def SpelledKey : Option Expr → Value → String → Prop
  | none, node, _ => Flagged node "computed" false
  | some expr, node, key => Flagged node "computed" true ∧ expr.Spelled (node.get key)
def SpelledProperties : List Property → List Value → Prop
  | [], items => items = []
  | property :: rest, items => ∃ item others, items = item :: others ∧ property.Spelled item ∧
      SpelledProperties rest others
def Property.Spelled : Property → Value → Prop
  | .spread argument, node => node.kind = some .spreadElement ∧ argument.Spelled (node.get "argument")
  | .entry key value, node => node.kind = some .property ∧ SpelledKey key node "key" ∧ value.Spelled (node.get "value")
def Target.Spelled : Target → Value → Prop
  | .plain, node => node.kind = some .identifier
  | .member object key, node => node.kind = some .memberExpression ∧ object.Spelled (node.get "object") ∧ SpelledKey key node "property"
  | .pattern pattern, node => (node.kind = some .objectPattern ∨ node.kind = some .arrayPattern) ∧ pattern.Spelled node
-- A default stands on a name only.
def Pattern.Spelled : Pattern → Value → Prop
  | .plain, node => node = .null ∨ node.kind = some .identifier
  | .withDefault target value, node =>
    node.kind = some .assignmentPattern ∧ target = .plain ∧ (node.get "left").kind = some .identifier ∧ value.Spelled (node.get "right")
  | .object properties, node =>
    node.kind = some .objectPattern ∧ ∃ items, node.get "properties" = .list items ∧ SpelledPatternProperties properties items
  | .array elements, node => node.kind = some .arrayPattern ∧ ∃ items, node.get "elements" = .list items ∧ SpelledPatterns elements items
  | .rest target, node => node.kind = some .restElement ∧ target.Spelled (node.get "argument")
  | .member isOptional object key, node =>
    node.kind = some .memberExpression ∧ isOptional = false ∧ Flagged node "optional" false ∧
      object.Spelled (node.get "object") ∧ SpelledKey key node "property"
  | .broken _, _ => False
def SpelledPatterns : List Pattern → List Value → Prop
  | [], items => items = []
  | pattern :: rest, items => ∃ item others, items = item :: others ∧ pattern.Spelled item ∧ SpelledPatterns rest others
def SpelledPatternProperties : List PatternProperty → List Value → Prop
  | [], items => items = []
  | property :: rest, items => ∃ item others, items = item :: others ∧ property.Spelled item ∧
      SpelledPatternProperties rest others
def PatternProperty.Spelled : PatternProperty → Value → Prop
  | .rest target, node => node.kind = some .restElement ∧ target.Spelled (node.get "argument")
  | .entry key target, node => node.kind = some .property ∧ SpelledKey key node "key" ∧ target.Spelled (node.get "value")
end

def Expr.SpelledIf (expr : Expr) (node : Value) : Prop := (node = .null ∧ expr = .leaf) ∨ expr.Spelled node

def SpelledOptional : Option Expr → Value → Prop
  | none, node => node = .null
  | some expr, node => expr.Spelled node

def Declarator.Spelled (declarator : Declarator) (node : Value) : Prop :=
  node.kind = some .variableDeclarator ∧ declarator.value.SpelledIf (node.get "init") ∧ declarator.target.Spelled (node.get "id")

def Variables.Spelled (declared : Variables) (node : Value) : Prop :=
  declared.node = node ∧ node.kind = some .variableDeclaration ∧
    ∃ items, node.get "declarations" = .list items ∧ List.Forall₂ Declarator.Spelled declared.declarators items

def Start.Spelled : Start → Value → Prop
  | .nothing, node => node = .null
  | .declare declared, node => declared.Spelled node
  | .expression value, node => node.kind ≠ some .variableDeclaration ∧ value.Spelled node

-- What a loop over a collection assigns to in each round.
def HeadSpelled (target : Pattern) (head : Value) : Prop :=
  (head.kind = some .variableDeclaration ∧ ∃ declarator, head.get "declarations" = .list [declarator] ∧
    declarator.kind = some .variableDeclarator ∧ declarator.get "init" = .null ∧
    target.Spelled (declarator.get "id")) ∨
  (head.kind ≠ some .variableDeclaration ∧ target.Spelled head)

def LabelOf (node : Value) : Option Value → Prop
  | none => node.get "label" = .null
  | some name => ∃ text, name = .str text ∧ (node.get "label").get "name" = .str text

def loopKinds : List Kind := [.whileStatement, .doWhileStatement, .forStatement, .forInStatement, .forOfStatement]

-- A loop stands alone or right under its label.
def LoopNode (label : Option Value) (node loop : Value) : Prop :=
  (label = none ∧ loop = node) ∨ (label.isSome = true ∧ node.kind = some .labeledStatement ∧ LabelOf node label ∧ loop = node.get "body")

mutual
def Stmt.Spelled : Stmt → Value → Prop
  | .note noted, node => noted = node ∧ (node.kind = some .emptyStatement ∨ node.kind = some .functionDeclaration)
  | .block body, node => node.kind = some .blockStatement ∧ ∃ items, node.get "body" = .list items ∧ SpelledStmts body items
  | .evaluate noted value, node => noted = node ∧ node.kind = some .expressionStatement ∧ value.Spelled (node.get "expression")
  | .declare declared, node => declared.Spelled node
  | .returnValue noted value, node => noted = node ∧ node.kind = some .returnStatement ∧ value.SpelledIf (node.get "argument")
  | .throwValue noted value, node => noted = node ∧ node.kind = some .throwStatement ∧ value.Spelled (node.get "argument")
  | .ifElse subject test consequent alternate, node =>
    subject = node.get "test" ∧ node.kind = some .ifStatement ∧ test.Spelled (node.get "test") ∧
      SpelledStmtIf consequent (node.get "consequent") ∧ SpelledStmtIf alternate (node.get "alternate")
  | .labeled label body, node =>
    label.isSome = true ∧ node.kind = some .labeledStatement ∧ LabelOf node label ∧
      (∀ kind ∈ loopKinds, (node.get "body").kind ≠ some kind) ∧ body.Spelled (node.get "body")
  | .whileLoop label test body, node => ∃ loop, LoopNode label node loop ∧ loop.kind = some .whileStatement ∧
      test.Spelled (loop.get "test") ∧ SpelledStmtIf body (loop.get "body")
  | .doWhileLoop label body test, node => ∃ loop, LoopNode label node loop ∧ loop.kind = some .doWhileStatement ∧
      SpelledStmtIf body (loop.get "body") ∧ test.Spelled (loop.get "test")
  | .forLoop label start test update body, node => ∃ loop, LoopNode label node loop ∧
      loop.kind = some .forStatement ∧ start.Spelled (loop.get "init") ∧ SpelledOptional test (loop.get "test") ∧
      update.SpelledIf (loop.get "update") ∧ SpelledStmtIf body (loop.get "body")
  | .forEach label source targets body, node => ∃ loop, LoopNode label node loop ∧
      (loop.kind = some .forInStatement ∨ loop.kind = some .forOfStatement) ∧ source.Spelled (loop.get "right") ∧
      (∃ target, targets = [target] ∧ HeadSpelled target (loop.get "left")) ∧ SpelledStmtIf body (loop.get "body")
  | .breakTo area label, node => area = Region.of node ∧ node.kind = some .breakStatement ∧ LabelOf node label
  | .continueTo area label, node => area = Region.of node ∧ node.kind = some .continueStatement ∧ LabelOf node label
  | .switch subject discriminant cases, node =>
    subject = node.get "discriminant" ∧ node.kind = some .switchStatement ∧ discriminant.Spelled (node.get "discriminant") ∧
      ∃ items, node.get "cases" = .list items ∧ SpelledCases cases items
  | .tryCatch body handler finalizer, node =>
    node.kind = some .tryStatement ∧ (node.get "block").kind = some .blockStatement ∧
      (∃ items, (node.get "block").get "body" = .list items ∧ SpelledStmts body items) ∧
      SpelledHandler handler (node.get "handler") ∧ SpelledStmtIf finalizer (node.get "finalizer") ∧
      (handler.isSome = true ∨ finalizer.isSome = true)
  | .bare _, _ | .withObject _ _, _ | .region _, _ | .broken _, _ => False
def SpelledStmts : List Stmt → List Value → Prop
  | [], items => items = []
  | stmt :: rest, items => ∃ item others, items = item :: others ∧ stmt.Spelled item ∧ SpelledStmts rest others
def SpelledStmtIf : Option Stmt → Value → Prop
  | none, node => node = .null
  | some stmt, node => stmt.Spelled node
def SpelledCases : List Case → List Value → Prop
  | [], items => items = []
  | branch :: rest, items => ∃ item others, items = item :: others ∧ branch.Spelled item ∧ SpelledCases rest others
def Case.Spelled : Case → Value → Prop
  | .mk test body, node => node.kind = some .switchCase ∧ SpelledOptional test (node.get "test") ∧
      ∃ items, node.get "consequent" = .list items ∧ SpelledStmts body items
def SpelledHandler : Option Handler → Value → Prop
  | none, node => node = .null
  | some handler, node => handler.Spelled node
def Handler.Spelled : Handler → Value → Prop
  | .mk param body, node => node.kind = some .catchClause ∧ param.Spelled (node.get "param") ∧
      SpelledStmtIf body (node.get "body")
end

-- A function whose body is a block.
def Body.Spelled (body : Body) (node : Value) : Prop :=
  node.kindIs Kind.isFunction = true ∧ (∃ items, node.get "params" = .list items ∧ SpelledPatterns body.params items) ∧
    (node.get "body").kind = some .blockStatement ∧
    ∃ items, (node.get "body").get "body" = .list items ∧ SpelledStmts body.statements items

-- A statement that a jump may mean.
inductive Surrounding where
  | loop (label : Option Value)
  | switch
  | labeled (label : Option Value)

namespace Surrounding

def label : Surrounding → Option Value
  | .loop label | .labeled label => label
  | .switch => none

def isLoop : Surrounding → Bool
  | .loop _ => true
  | .switch | .labeled _ => false

def takesBreak (around : Surrounding) : Option Value → Bool
  | some name => around.label.any (·.equal name)
  | none =>
    match around with
    | .loop _ | .switch => true
    | .labeled _ => false

def takesContinue (around : Surrounding) : Option Value → Bool
  | some name => around.label.any (·.equal name)
  | none => around.isLoop

end Surrounding

-- What is asked of the statements beyond their syntax: jumps have targets, with the
-- innermost statement around first, and a switch has one default at most.
mutual
def Stmt.Lawful (around : List Surrounding) : Stmt → Prop
  | .block body => LawfulAll around body
  | .ifElse _ _ consequent alternate => LawfulIf around consequent ∧ LawfulIf around alternate
  | .labeled label body => body.Lawful (.labeled label :: around)
  | .whileLoop label _ body | .doWhileLoop label body _ | .forLoop label _ _ _ body | .forEach label _ _ body =>
    LawfulIf (.loop label :: around) body
  | .breakTo _ label => (around.find? (·.takesBreak label)).isSome = true
  | .continueTo _ label => (around.find? (·.takesContinue label)).any Surrounding.isLoop = true
  | .switch _ _ cases => (cases.filter (·.test.isNone)).length ≤ 1 ∧ LawfulCases (.switch :: around) cases
  | .tryCatch body handler finalizer => LawfulAll around body ∧ LawfulHandler around handler ∧ LawfulIf around finalizer
  | .withObject _ body => LawfulIf around body
  | _ => True
def LawfulAll (around : List Surrounding) : List Stmt → Prop
  | [] => True
  | stmt :: rest => stmt.Lawful around ∧ LawfulAll around rest
def LawfulIf (around : List Surrounding) : Option Stmt → Prop
  | none => True
  | some stmt => stmt.Lawful around
def LawfulCases (around : List Surrounding) : List Case → Prop
  | [] => True
  | branch :: rest => branch.Lawful around ∧ LawfulCases around rest
def Case.Lawful (around : List Surrounding) : Case → Prop
  | .mk _ body => LawfulAll around body
def LawfulHandler (around : List Surrounding) : Option Handler → Prop
  | none => True
  | some handler => handler.Lawful around
def Handler.Lawful (around : List Surrounding) : Handler → Prop
  | .mk _ body => LawfulIf around body
end

def Body.Lawful (body : Body) : Prop := LawfulAll [] body.statements

end HookLint.Flow
