import HookLint.Tree.Walk
import HookLint.Tree.Location

/-!
Expressions and patterns by what control flow sees of them: calls, the places where evaluation
branches, and the order of everything else. Where the tree has something else than what belongs
there, the form holds the fault that going there leads to.
-/

namespace HookLint.Flow

inductive Outcome where
  | whenTrue
  | whenFalse
deriving DecidableEq, Repr, Inhabited

structure Region where
  node : Value
  calls : List Value
  line : Except Fault Value

mutual
inductive Expr where
  | leaf
  | sequence (parts : List Expr)
  | call (node : Value) (isOptional : Bool) (callee : Expr) (arguments : List Expr)
  | member (isOptional : Bool) (object : Expr) (key : Option Expr)
  | chain (inner : Expr)
  | logical (runs : Outcome) (left right : Expr)
  | conditional (test consequent alternate : Expr)
  | assign (target : Target) (value : Expr)
  | assignIf (runs : Outcome) (target : Target) (value : Expr)
  | object (properties : List Property)
  | destructure (pattern : Pattern)
  | region (region : Region)
  | broken (fault : Fault)
inductive Property where
  | spread (argument : Expr)
  | entry (key : Option Expr) (value : Expr)
inductive Target where
  | plain
  | member (object : Expr) (key : Option Expr)
  | pattern (pattern : Pattern)
inductive Pattern where
  | plain
  | withDefault (target : Pattern) (value : Expr)
  | object (properties : List PatternProperty)
  | array (elements : List Pattern)
  | rest (target : Pattern)
  | member (isOptional : Bool) (object : Expr) (key : Option Expr)
  | broken (fault : Fault)
inductive PatternProperty where
  | rest (target : Pattern)
  | entry (key : Option Expr) (target : Pattern)
end

instance : Inhabited Expr := ⟨.leaf⟩

instance : Inhabited Pattern := ⟨.plain⟩

def Region.of (node : Value) : Region :=
  { node, calls := node.ownInvocations, line := (·.line) <$> node.location }

def unmodelled (node : Value) : Expr :=
  if node.ownInvocations.isEmpty then .leaf else .region (Region.of node)

def checked (check : Except Fault Unit) (parts : List Expr) : List Expr :=
  match check with
  | .ok _ => parts
  | .error fault => [.broken fault]

def checkedPatterns (check : Except Fault Unit) (parts : List Pattern) : List Pattern :=
  match check with
  | .ok _ => parts
  | .error fault => [.broken fault]

def operandField : Kind → Option String
  | .unaryExpression | .awaitExpression | .yieldExpression | .spreadElement | .jsxSpreadAttribute =>
    some "argument"
  | .sequenceExpression | .templateLiteral => some "expressions"
  | .arrayExpression => some "elements"
  | .importExpression => some "source"
  | .jsxExpressionContainer | .jsxSpreadChild => some "expression"
  | .jsxAttribute => some "value"
  | .jsxFragment => some "children"
  | _ => none

def isLeaf : Kind → Bool
  | .functionDeclaration | .functionExpression | .arrowFunction
  | .identifier | .literal | .regExpLiteral | .stringLiteral | .numericLiteral | .booleanLiteral
  | .nullLiteral | .bigIntLiteral | .thisExpression | .superExpression | .metaProperty
  | .importKeyword | .templateElement | .jsxText | .jsxEmptyExpression | .jsxIdentifier
  | .jsxMemberExpression | .jsxNamespacedName | .jsxClosingElement | .jsxClosingFragment
  | .jsxOpeningFragment | .privateIdentifier | .privateName => true
  | _ => false

def logicalOutcome (operator : Value) : Outcome :=
  match operator.text? with
  | some "||" | some "||=" => .whenFalse
  | _ => .whenTrue

def isLogicalAssignment (operator : Value) : Bool :=
  match operator.text? with
  | some "&&=" | some "||=" | some "??=" => true
  | _ => false

def isTargetPattern : Kind → Bool
  | .objectPattern | .arrayPattern | .assignmentPattern => true
  | _ => false

mutual
def readExpr (node : Value) : Expr :=
  match node with
  | .record id fields =>
    let whole := Value.record id fields
    match whole.filedKind with
    | .error fault => .broken fault
    | .ok none => unmodelled whole
    | .ok (some kind) =>
      if isLeaf kind then .leaf
      else if kind.isClass then readExpr (Fields.get fields "superClass")
      else if kind.isWrapper then readExpr (Fields.get fields "expression")
      else if kind.isInvocation then readCall (.record id fields)
      else if kind.isMember then readMember (.record id fields)
      else match kind with
      | .chainExpression => .chain (readExpr (Fields.get fields "expression"))
      | .logicalExpression =>
        .logical (logicalOutcome (Fields.get fields "operator"))
          (readExpr (Fields.get fields "left")) (readExpr (Fields.get fields "right"))
      | .conditionalExpression =>
        .conditional (readExpr (Fields.get fields "test"))
          (readExpr (Fields.get fields "consequent")) (readExpr (Fields.get fields "alternate"))
      | .assignmentExpression => readAssignment (.record id fields)
      | .updateExpression => readExpr (Fields.get fields "argument")
      | .objectExpression => readObject (Fields.get fields "properties")
      | .jsxElement =>
        .sequence (readAttributes (Fields.get fields "openingElement")
          ++ checked (Fields.get fields "children").ensureItems
            (readExprs (Fields.get fields "children").parts))
      | .binaryExpression =>
        .sequence (readOperands (Fields.get fields "left") ++ readOperands (Fields.get fields "right"))
      | .taggedTemplate =>
        .sequence (readOperands (Fields.get fields "tag") ++ readOperands (Fields.get fields "quasi"))
      | .objectPattern | .arrayPattern | .assignmentPattern | .restElement =>
        .destructure (readPattern (.record id fields))
      | _ =>
        match operandField kind with
        | some key => .sequence (readOperands (Fields.get fields key))
        | none => unmodelled whole
  | _ => .leaf
termination_by (sizeOf node, 1)
def readCall (node : Value) : Expr :=
  match node with
  | .record id fields =>
    .call (.record id fields) (Fields.get fields "optional").given (readExpr (Fields.get fields "callee"))
      (checked (Fields.get fields "arguments").ensureItems (readExprs (Fields.get fields "arguments").parts))
  | _ => .leaf
termination_by (sizeOf node, 0)
def readMember (node : Value) : Expr :=
  match node with
  | .record _ fields =>
    .member (Fields.get fields "optional").given (readExpr (Fields.get fields "object"))
      (readIf (Fields.get fields "computed").given (Fields.get fields "property"))
  | _ => .leaf
termination_by (sizeOf node, 0)
def readAssignment (node : Value) : Expr :=
  match node with
  | .record _ fields =>
    let left := Fields.get fields "left"
    let operator := Fields.get fields "operator"
    if left.given && !left.isRecord then .broken (.notRecord left.form)
    else if isLogicalAssignment operator then
      .assignIf (logicalOutcome operator) (readReference (Fields.get fields "left"))
        (readExpr (Fields.get fields "right"))
    else if left.kindIs isTargetPattern then
      .assign (.pattern (readPattern (Fields.get fields "left"))) (readExpr (Fields.get fields "right"))
    else .assign (readReference (Fields.get fields "left")) (readExpr (Fields.get fields "right"))
  | _ => .leaf
termination_by (sizeOf node, 0)
def readExprs (nodes : List Value) : List Expr :=
  match nodes with
  | [] => []
  | node :: rest => readExpr node :: readExprs rest
termination_by (sizeOf nodes, 0)
def readIf (present : Bool) (node : Value) : Option Expr := if present then some (readExpr node) else none
termination_by (sizeOf node, 2)
def readOperands (node : Value) : List Expr :=
  match node with
  | .list items => readExprs items
  | other => [readExpr other]
termination_by (sizeOf node, 2)
def readAttributes (opening : Value) : List Expr :=
  match opening with
  | .record _ fields =>
    checked (Fields.get fields "attributes").ensureItems (readExprs (Fields.get fields "attributes").parts)
  | other => if other.given then [.broken (.notRecord other.form)] else []
termination_by (sizeOf opening, 0)
def readObject (properties : Value) : Expr :=
  match properties with
  | .list items => .object (readProperties items)
  | other =>
    match other.ensureRecords with
    | .ok _ => .object []
    | .error fault => .broken fault
termination_by (sizeOf properties, 0)
def readProperties (properties : List Value) : List Property :=
  match properties with
  | [] => []
  | .record id fields :: rest =>
    (if (Value.record id fields).isA .spreadElement then
      .spread (readExpr (Fields.get fields "argument"))
    else
      .entry (readIf (Fields.get fields "computed").given (Fields.get fields "key"))
        (readExpr (Fields.get fields "value")))
      :: readProperties rest
  | other :: _ => [.spread (.broken (.notRecord other.form))]
termination_by (sizeOf properties, 0)
def readReference (left : Value) : Target :=
  match left with
  | .record id fields =>
    if (Value.record id fields).kindIs Kind.isMember then
      .member (readExpr (Fields.get fields "object"))
        (readIf (Fields.get fields "computed").given (Fields.get fields "property"))
    else .plain
  | _ => .plain
termination_by (sizeOf left, 0)
def readPattern (pattern : Value) : Pattern :=
  match pattern with
  | .record id fields =>
    match (Value.record id fields).kind with
    | some .assignmentPattern =>
      .withDefault (readPattern (Fields.get fields "left")) (readExpr (Fields.get fields "right"))
    | some .objectPattern => readObjectPattern (Fields.get fields "properties")
    | some .arrayPattern =>
      .array (checkedPatterns (Fields.get fields "elements").ensureRecordsIfGiven
        (readPatterns (Fields.get fields "elements").parts))
    | some .restElement | some .restProperty => .rest (readPattern (Fields.get fields "argument"))
    | some .memberExpression | some .optionalMemberExpression =>
      .member (Fields.get fields "optional").given (readExpr (Fields.get fields "object"))
        (readIf (Fields.get fields "computed").given (Fields.get fields "property"))
    | _ => .plain
  | other => if other.given then .broken (.notRecord other.form) else .plain
termination_by (sizeOf pattern, 0)
def readPatterns (patterns : List Value) : List Pattern :=
  match patterns with
  | [] => []
  | pattern :: rest => readPattern pattern :: readPatterns rest
termination_by (sizeOf patterns, 0)
def readObjectPattern (properties : Value) : Pattern :=
  match properties with
  | .list items => .object (readPatternProperties items)
  | other =>
    match other.ensureRecords with
    | .ok _ => .object []
    | .error fault => .broken fault
termination_by (sizeOf properties, 0)
def readPatternProperties (properties : List Value) : List PatternProperty :=
  match properties with
  | [] => []
  | .record id fields :: rest =>
    (if (Value.record id fields).kindIs fun kind => kind = .restElement || kind = .restProperty then
      .rest (readPattern (Fields.get fields "argument"))
    else
      .entry (readIf (Fields.get fields "computed").given (Fields.get fields "key"))
        (readPattern (Fields.get fields "value")))
      :: readPatternProperties rest
  | other :: _ => [.rest (.broken (.notRecord other.form))]
termination_by (sizeOf properties, 0)
end

end HookLint.Flow
