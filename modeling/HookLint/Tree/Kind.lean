import HookLint.Value.Key

namespace HookLint

inductive Kind where
  | program
  | functionDeclaration | functionExpression | arrowFunction
  | classDeclaration | classExpression | methodDefinition | propertyDefinition | classProperty
  | blockStatement | staticBlock | expressionStatement | emptyStatement | debuggerStatement
  | variableDeclaration | variableDeclarator
  | returnStatement | throwStatement | ifStatement | labeledStatement
  | whileStatement | doWhileStatement | forStatement | forInStatement | forOfStatement
  | breakStatement | continueStatement | switchStatement | switchCase
  | tryStatement | catchClause | withStatement
  | importDeclaration | importSpecifier | importNamespaceSpecifier | importDefaultSpecifier
  | exportNamedDeclaration | exportDefaultDeclaration | exportAllDeclaration
  | typeAlias | interface | enumDeclaration | moduleDeclaration | declareFunction
  | identifier | literal | regExpLiteral | stringLiteral | numericLiteral | booleanLiteral
  | nullLiteral | bigIntLiteral | thisExpression | superExpression | metaProperty | importKeyword
  | templateElement | privateIdentifier | privateName
  | callExpression | optionalCallExpression | newExpression
  | memberExpression | optionalMemberExpression | chainExpression
  | logicalExpression | conditionalExpression | assignmentExpression | updateExpression
  | objectExpression | property
  | binaryExpression | unaryExpression | awaitExpression | yieldExpression | spreadElement
  | sequenceExpression | templateLiteral | taggedTemplate | arrayExpression | importExpression
  | asExpression | nonNullExpression | typeAssertion | satisfiesExpression
  | parenthesizedExpression | typeCastExpression
  | objectPattern | arrayPattern | assignmentPattern | restElement | restProperty
  | jsxElement | jsxFragment | jsxOpeningElement | jsxClosingElement | jsxOpeningFragment
  | jsxClosingFragment | jsxText | jsxEmptyExpression | jsxIdentifier | jsxMemberExpression
  | jsxNamespacedName | jsxExpressionContainer | jsxSpreadAttribute | jsxSpreadChild | jsxAttribute
  /- Kinds named after a step of the analyses instead of a form of syntax. A node of such a kind is
  taken to be what that step works on. -/
  | programStep | functionStep | classStep | loopStep | bindingStep | targetStep
  | statementsStep | bodyStep | expressionStep | callStep | memberStep | assignmentStep
  | patternStep | forEachStep
deriving DecidableEq, Repr, Inhabited

namespace Kind

def names : List (String × Kind) := [
  ("Program", .program),
  ("FunctionDeclaration", .functionDeclaration),
  ("FunctionExpression", .functionExpression),
  ("ArrowFunctionExpression", .arrowFunction),
  ("ClassDeclaration", .classDeclaration),
  ("ClassExpression", .classExpression),
  ("MethodDefinition", .methodDefinition),
  ("PropertyDefinition", .propertyDefinition),
  ("ClassProperty", .classProperty),
  ("BlockStatement", .blockStatement),
  ("StaticBlock", .staticBlock),
  ("ExpressionStatement", .expressionStatement),
  ("EmptyStatement", .emptyStatement),
  ("DebuggerStatement", .debuggerStatement),
  ("VariableDeclaration", .variableDeclaration),
  ("VariableDeclarator", .variableDeclarator),
  ("ReturnStatement", .returnStatement),
  ("ThrowStatement", .throwStatement),
  ("IfStatement", .ifStatement),
  ("LabeledStatement", .labeledStatement),
  ("WhileStatement", .whileStatement),
  ("DoWhileStatement", .doWhileStatement),
  ("ForStatement", .forStatement),
  ("ForInStatement", .forInStatement),
  ("ForOfStatement", .forOfStatement),
  ("BreakStatement", .breakStatement),
  ("ContinueStatement", .continueStatement),
  ("SwitchStatement", .switchStatement),
  ("SwitchCase", .switchCase),
  ("TryStatement", .tryStatement),
  ("CatchClause", .catchClause),
  ("WithStatement", .withStatement),
  ("ImportDeclaration", .importDeclaration),
  ("ImportSpecifier", .importSpecifier),
  ("ImportNamespaceSpecifier", .importNamespaceSpecifier),
  ("ImportDefaultSpecifier", .importDefaultSpecifier),
  ("ExportNamedDeclaration", .exportNamedDeclaration),
  ("ExportDefaultDeclaration", .exportDefaultDeclaration),
  ("ExportAllDeclaration", .exportAllDeclaration),
  ("TSTypeAliasDeclaration", .typeAlias),
  ("TSInterfaceDeclaration", .interface),
  ("TSEnumDeclaration", .enumDeclaration),
  ("TSModuleDeclaration", .moduleDeclaration),
  ("TSDeclareFunction", .declareFunction),
  ("Identifier", .identifier),
  ("Literal", .literal),
  ("RegExpLiteral", .regExpLiteral),
  ("StringLiteral", .stringLiteral),
  ("NumericLiteral", .numericLiteral),
  ("BooleanLiteral", .booleanLiteral),
  ("NullLiteral", .nullLiteral),
  ("BigIntLiteral", .bigIntLiteral),
  ("ThisExpression", .thisExpression),
  ("Super", .superExpression),
  ("MetaProperty", .metaProperty),
  ("Import", .importKeyword),
  ("TemplateElement", .templateElement),
  ("PrivateIdentifier", .privateIdentifier),
  ("PrivateName", .privateName),
  ("CallExpression", .callExpression),
  ("OptionalCallExpression", .optionalCallExpression),
  ("NewExpression", .newExpression),
  ("MemberExpression", .memberExpression),
  ("OptionalMemberExpression", .optionalMemberExpression),
  ("ChainExpression", .chainExpression),
  ("LogicalExpression", .logicalExpression),
  ("ConditionalExpression", .conditionalExpression),
  ("AssignmentExpression", .assignmentExpression),
  ("UpdateExpression", .updateExpression),
  ("ObjectExpression", .objectExpression),
  ("Property", .property),
  ("BinaryExpression", .binaryExpression),
  ("UnaryExpression", .unaryExpression),
  ("AwaitExpression", .awaitExpression),
  ("YieldExpression", .yieldExpression),
  ("SpreadElement", .spreadElement),
  ("SequenceExpression", .sequenceExpression),
  ("TemplateLiteral", .templateLiteral),
  ("TaggedTemplateExpression", .taggedTemplate),
  ("ArrayExpression", .arrayExpression),
  ("ImportExpression", .importExpression),
  ("TSAsExpression", .asExpression),
  ("TSNonNullExpression", .nonNullExpression),
  ("TSTypeAssertion", .typeAssertion),
  ("TSSatisfiesExpression", .satisfiesExpression),
  ("ParenthesizedExpression", .parenthesizedExpression),
  ("TypeCastExpression", .typeCastExpression),
  ("ObjectPattern", .objectPattern),
  ("ArrayPattern", .arrayPattern),
  ("AssignmentPattern", .assignmentPattern),
  ("RestElement", .restElement),
  ("RestProperty", .restProperty),
  ("JSXElement", .jsxElement),
  ("JSXFragment", .jsxFragment),
  ("JSXOpeningElement", .jsxOpeningElement),
  ("JSXClosingElement", .jsxClosingElement),
  ("JSXOpeningFragment", .jsxOpeningFragment),
  ("JSXClosingFragment", .jsxClosingFragment),
  ("JSXText", .jsxText),
  ("JSXEmptyExpression", .jsxEmptyExpression),
  ("JSXIdentifier", .jsxIdentifier),
  ("JSXMemberExpression", .jsxMemberExpression),
  ("JSXNamespacedName", .jsxNamespacedName),
  ("JSXExpressionContainer", .jsxExpressionContainer),
  ("JSXSpreadAttribute", .jsxSpreadAttribute),
  ("JSXSpreadChild", .jsxSpreadChild),
  ("JSXAttribute", .jsxAttribute),
  ("program", .programStep),
  ("function", .functionStep),
  ("class", .classStep),
  ("loop_with_head", .loopStep),
  ("pattern_expressions", .bindingStep),
  ("assignment_target", .targetStep),
  ("statements", .statementsStep),
  ("body", .bodyStep),
  ("expr", .expressionStep),
  ("call", .callStep),
  ("member", .memberStep),
  ("assignment", .assignmentStep),
  ("pattern", .patternStep),
  ("for_each", .forEachStep)]

def ofName? (name : String) : Option Kind := names.lookup name

def isFunction : Kind → Bool
  | .functionDeclaration | .functionExpression | .arrowFunction => true
  | _ => false

def isClass : Kind → Bool
  | .classDeclaration | .classExpression => true
  | _ => false

def isMember : Kind → Bool
  | .memberExpression | .optionalMemberExpression => true
  | _ => false

def isCall : Kind → Bool
  | .callExpression | .optionalCallExpression => true
  | _ => false

def isInvocation : Kind → Bool
  | .callExpression | .optionalCallExpression | .newExpression => true
  | _ => false

def isLoop : Kind → Bool
  | .forStatement | .forInStatement | .forOfStatement | .whileStatement | .doWhileStatement => true
  | _ => false

def isWrapper : Kind → Bool
  | .asExpression | .nonNullExpression | .typeAssertion | .satisfiesExpression
  | .parenthesizedExpression | .typeCastExpression => true
  | _ => false

def isMarkup : Kind → Bool
  | .jsxElement | .jsxFragment => true
  | _ => false

end Kind

namespace Value

def kind (value : Value) : Option Kind := value.kind?.bind Kind.ofName?

def kindIs (value : Value) (test : Kind → Bool) : Bool := value.kind.any test

def isA (value : Value) (kind : Kind) : Bool := value.kind == some kind

def isFunction (value : Value) : Bool := value.kindIs Kind.isFunction

def filedKind (value : Value) : Except Fault (Option Kind) := do
  let _ ← (value.get "type").key
  return value.kind

def filedKindIs (value : Value) (test : Kind → Bool) : Except Fault Bool := do return (← value.filedKind).any test

end Value

end HookLint
