import HookLint.Flow.Expr

namespace HookLint.Flow

structure Declarator where
  value : Expr
  target : Pattern

structure Variables where
  node : Value
  declarators : List Declarator

inductive Start where
  | nothing
  | declare (declared : Variables)
  | expression (value : Expr)

mutual
inductive Stmt where
  | note (node : Value)
  | block (body : List Stmt)
  | evaluate (node : Value) (value : Expr)
  | bare (value : Expr)
  | declare (declared : Variables)
  | returnValue (node : Value) (value : Expr)
  | throwValue (node : Value) (value : Expr)
  | ifElse (subject : Value) (test : Expr) (consequent alternate : Option Stmt)
  | labeled (label : Option Value) (body : Stmt)
  | whileLoop (label : Option Value) (test : Expr) (body : Option Stmt)
  | doWhileLoop (label : Option Value) (body : Option Stmt) (test : Expr)
  | forLoop (label : Option Value) (start : Start) (test : Option Expr) (update : Expr) (body : Option Stmt)
  | forEach (label : Option Value) (source : Expr) (targets : List Pattern) (body : Option Stmt)
  | breakTo (region : Region) (label : Option Value)
  | continueTo (region : Region) (label : Option Value)
  | switch (subject : Value) (discriminant : Expr) (cases : List Case)
  | tryCatch (body : List Stmt) (handler : Option Handler) (finalizer : Option Stmt)
  | withObject (object : Expr) (body : Option Stmt)
  | region (region : Region)
  | broken (fault : Fault)
inductive Case where
  | mk (test : Option Expr) (body : List Stmt)
inductive Handler where
  | mk (param : Pattern) (body : Option Stmt)
end

instance : Inhabited Stmt := ⟨.block []⟩

structure Body where
  params : List Pattern := []
  statements : List Stmt := []

def isNoted : Kind → Bool
  | .emptyStatement | .debuggerStatement | .importDeclaration | .exportAllDeclaration
  | .functionDeclaration | .typeAlias | .interface | .enumDeclaration | .moduleDeclaration
  | .declareFunction => true
  | _ => false

def getOrRecord (fields : Fields) (key : String) : Value := (fields.find? key).getD (.made [])

def ensureStatements (fields : Fields) (key : String) : Except Fault Unit :=
  match fields.find? key with
  | none => .ok ()
  | some .null => .error (.notSequence .null)
  | some (.bool _) => .error (.notSequence .bool)
  | some (.int _) => .error (.notSequence .int)
  | some (.float _) => .error (.notSequence .float)
  | some value => value.ensureRecords

def checkedStmts (check : Except Fault Unit) (statements : List Stmt) : List Stmt :=
  match check with
  | .ok _ => statements
  | .error fault => [.broken fault]

def readLabel (label : Value) : Except Fault (Option Value) := do
  let name ← label.orRecord.ask "name"
  return if name.isNull then none else some name

def readDeclarator (declarator : Value) : Declarator :=
  if declarator.isRecord then
    { value := readExpr (declarator.get "init"), target := readPattern (declarator.get "id") }
  else { value := .broken (.notRecord declarator.form), target := .plain }

def readVariables (node : Value) : Variables :=
  let declarations := node.get "declarations"
  match declarations.ensureRecords with
  | .ok _ => { node, declarators := declarations.parts.map readDeclarator }
  | .error fault => { node, declarators := [{ value := .broken fault, target := .plain }] }

def readStart (start : Value) : Start :=
  if start.isNull then .nothing
  else if !start.isRecord then .expression (.broken (.notRecord start.form))
  else if start.isA .variableDeclaration then .declare (readVariables start)
  else .expression (readExpr start)

def readHead (head : Value) : List Pattern :=
  if head.isA .variableDeclaration then
    let declarations := head.get "declarations"
    checkedPatterns declarations.ensureRecords (declarations.parts.map fun declarator =>
      if declarator.isRecord then readPattern (declarator.get "id") else .broken (.notRecord declarator.form))
  else [readPattern head]

def readOptional (node : Value) : Option Expr := if node.isNull then none else some (readExpr node)

mutual
def readStmt (node : Value) (label : Option Value) : Stmt :=
  match node with
  | .record id fields =>
    let whole := Value.record id fields
    match whole.filedKind with
    | .error fault => .broken fault
    | .ok (some .blockStatement) | .ok (some .staticBlock) =>
      .block (checkedStmts (ensureStatements fields "body") (readStmts (Fields.get fields "body").parts))
    | .ok (some .expressionStatement) => .evaluate whole (readExpr (Fields.get fields "expression"))
    | .ok (some .variableDeclaration) => .declare (readVariables whole)
    | .ok (some .classDeclaration) => .evaluate whole (readExpr (Fields.get fields "superClass"))
    | .ok (some .exportNamedDeclaration) =>
      if (Fields.get fields "declaration").isNull then .note whole
      else readStmt (Fields.get fields "declaration") none
    | .ok (some .exportDefaultDeclaration) =>
      let declaration := Fields.get fields "declaration"
      if declaration.given && !declaration.isRecord then .broken (.notRecord declaration.form)
      else if declaration.isA .functionDeclaration || declaration.isA .classDeclaration then
        readStmt (Fields.get fields "declaration") none
      else .evaluate whole (readExpr declaration)
    | .ok (some .returnStatement) => .returnValue whole (readExpr (Fields.get fields "argument"))
    | .ok (some .throwStatement) => .throwValue whole (readExpr (Fields.get fields "argument"))
    | .ok (some .ifStatement) =>
      .ifElse (getOrRecord fields "test") (readExpr (Fields.get fields "test"))
        (readBody (Fields.get fields "consequent")) (readIfGiven (Fields.get fields "alternate"))
    | .ok (some .labeledStatement) =>
      match readLabel (Fields.get fields "label") with
      | .ok inner => readLabeled inner (Fields.get fields "body")
      | .error fault => .broken fault
    | .ok (some .whileStatement) =>
      .whileLoop label (readExpr (Fields.get fields "test")) (readBody (Fields.get fields "body"))
    | .ok (some .doWhileStatement) =>
      .doWhileLoop label (readBody (Fields.get fields "body")) (readExpr (Fields.get fields "test"))
    | .ok (some .forStatement) =>
      .forLoop label (readStart (Fields.get fields "init")) (readOptional (Fields.get fields "test"))
        (readExpr (Fields.get fields "update")) (readBody (Fields.get fields "body"))
    | .ok (some .forInStatement) | .ok (some .forOfStatement) =>
      .forEach label (readExpr (Fields.get fields "right")) (readHead (Fields.get fields "left"))
        (readBody (Fields.get fields "body"))
    | .ok (some .breakStatement) =>
      match readLabel (Fields.get fields "label") with
      | .ok label => .breakTo (Region.of whole) label
      | .error fault => .broken fault
    | .ok (some .continueStatement) =>
      match readLabel (Fields.get fields "label") with
      | .ok label => .continueTo (Region.of whole) label
      | .error fault => .broken fault
    | .ok (some .switchStatement) =>
      .switch (getOrRecord fields "discriminant") (readExpr (Fields.get fields "discriminant"))
        (readCases (Fields.get fields "cases"))
    | .ok (some .tryStatement) =>
      let handler := Fields.get fields "handler"
      let finalizer := Fields.get fields "finalizer"
      if !handler.given && !finalizer.given then .broken .unguardedTry
      else .tryCatch (readTried (Fields.get fields "block")) (readHandler (Fields.get fields "handler"))
        (readIfGiven (Fields.get fields "finalizer"))
    | .ok (some .withStatement) =>
      .withObject (readExpr (Fields.get fields "object")) (readBody (Fields.get fields "body"))
    | .ok (some .statementsStep) => .broken (.notRecord .text)
    | .ok (some .bodyStep) => .broken .endless
    | .ok (some .expressionStep) => .bare (readExpr whole)
    | .ok (some .callStep) => .bare (readCall whole)
    | .ok (some .memberStep) => .bare (readMember whole)
    | .ok (some .assignmentStep) => .bare (readAssignment whole)
    | .ok (some .patternStep) => .bare (.destructure (readPattern whole))
    | .ok (some .forEachStep) => .broken .incomplete
    | .ok (some kind) => if isNoted kind then .note whole else .region (Region.of whole)
    | .ok none => .region (Region.of whole)
  | other => .broken (.notRecord other.form)
termination_by (sizeOf node, 0)
def readStmts (nodes : List Value) : List Stmt :=
  match nodes with
  | [] => []
  | node :: rest => readStmt node none :: readStmts rest
termination_by (sizeOf nodes, 0)
def readBody (node : Value) : Option Stmt := if node.isNull then none else some (readStmt node none)
termination_by (sizeOf node, 1)
def readIfGiven (node : Value) : Option Stmt := if node.given then some (readStmt node none) else none
termination_by (sizeOf node, 1)
def readLabeled (label : Option Value) (body : Value) : Stmt :=
  match body with
  | .record id fields =>
    match (Value.record id fields).filedKind with
    | .error fault => .broken fault
    | .ok kind =>
      if kind.any Kind.isLoop then readStmt (.record id fields) label
      else .labeled label (readStmt (.record id fields) none)
  | other =>
    if other.given then .broken (.notRecord other.form) else .labeled label (.region (Region.of (.made [])))
termination_by (sizeOf body, 1)
def readCases (cases : Value) : List Case :=
  match cases with
  | .list items => readCaseList items
  | other =>
    match other.ensureRecords with
    | .ok _ => []
    | .error fault => [.mk (some (.broken fault)) []]
termination_by (sizeOf cases, 0)
def readCaseList (cases : List Value) : List Case :=
  match cases with
  | [] => []
  | .record _ fields :: rest =>
    .mk (readOptional (Fields.get fields "test"))
      (checkedStmts (Fields.get fields "consequent").ensureRecords
        (readStmts (Fields.get fields "consequent").parts))
      :: readCaseList rest
  | other :: rest => .mk (some (.broken (.notRecord other.form))) [] :: readCaseList rest
termination_by (sizeOf cases, 0)
def readTried (block : Value) : List Stmt :=
  match block with
  | .record _ fields => checkedStmts (ensureStatements fields "body") (readStmts (Fields.get fields "body").parts)
  | other => if other.given then [.broken (.notRecord other.form)] else []
termination_by (sizeOf block, 0)
def readHandler (handler : Value) : Option Handler :=
  match handler with
  | .record id fields =>
    if (Value.record id fields).given then
      some (.mk (readPattern (Fields.get fields "param")) (readBody (Fields.get fields "body")))
    else none
  | other => if other.given then some (.mk (.broken (.notRecord other.form)) none) else none
termination_by (sizeOf handler, 0)
end

def conciseReturn (value : Value) : Stmt :=
  let node := Value.made [("type", .str "ReturnStatement"), ("argument", value), ("loc", value.get "loc")]
  .returnValue node (readExpr value)

def readFunctionBody (body : Value) : List Stmt :=
  if !body.isRecord then [.broken (.notRecord body.form)]
  else if body.isA .blockStatement then
    checkedStmts (ensureStatements body.fields "body") (readStmts (body.get "body").parts)
  else [conciseReturn body]

def readUnit (node : Value) : Body :=
  if node.isA .program then
    { statements := checkedStmts (ensureStatements node.fields "body") (readStmts (node.get "body").parts) }
  else
    let params := node.get "params"
    { params := checkedPatterns params.ensureRecordsIfGiven (readPatterns params.parts)
      statements := readFunctionBody (node.get "body").orRecord }

end HookLint.Flow
