/-!
The kinds of node of a script's tree, one for each form of the grammar and one for the places where a
script breaks it.
-/

namespace ScriptSyntax

/-- The kinds of node. -/
inductive NodeKind where
  | sourceFile
  | variableAssign | compoundAssign | constantDecl | functionDecl | macroDecl | structDecl | structField
  | expressionStmt | returnStmt | importStmt | importPath | forStmt | ifStmt | elifClause | elseClause
  | block
  | identifier | numberLit | stringLit | boolLit | arrayLit | objectLit | keyValuePair
  | binaryExpr | unaryBang | awaitExpr | rangeExpr | inExpr | memberAccess | subscript | lambda
  | functionCall | macroCall | parameterList
  | errorNode
deriving DecidableEq, Repr

namespace NodeKind

def all : List NodeKind :=
  [.sourceFile, .variableAssign, .compoundAssign, .constantDecl, .functionDecl, .macroDecl,
    .structDecl, .structField, .expressionStmt, .returnStmt, .importStmt, .importPath, .forStmt,
    .ifStmt, .elifClause, .elseClause, .block, .identifier, .numberLit, .stringLit, .boolLit,
    .arrayLit, .objectLit, .keyValuePair, .binaryExpr, .unaryBang, .awaitExpr, .rangeExpr, .inExpr,
    .memberAccess, .subscript, .lambda, .functionCall, .macroCall, .parameterList, .errorNode]

theorem mem_all (k : NodeKind) : k ∈ all := by cases k <;> decide

/-- The name of the kind as a type of node, which serialised trees use. -/
def title : NodeKind → String
  | sourceFile => "SourceFile"
  | variableAssign => "VariableAssign"
  | compoundAssign => "CompoundAssign"
  | constantDecl => "ConstantDecl"
  | functionDecl => "FunctionDecl"
  | macroDecl => "MacroDecl"
  | structDecl => "StructDecl"
  | structField => "StructField"
  | expressionStmt => "ExpressionStmt"
  | returnStmt => "ReturnStmt"
  | importStmt => "ImportStmt"
  | importPath => "ImportPath"
  | forStmt => "ForStmt"
  | ifStmt => "IfStmt"
  | elifClause => "ElifClause"
  | elseClause => "ElseClause"
  | block => "Block"
  | identifier => "Identifier"
  | numberLit => "NumberLit"
  | stringLit => "StringLit"
  | boolLit => "BoolLit"
  | arrayLit => "ArrayLit"
  | objectLit => "ObjectLit"
  | keyValuePair => "KeyValuePair"
  | binaryExpr => "BinaryExpr"
  | unaryBang => "UnaryBang"
  | awaitExpr => "AwaitExpr"
  | rangeExpr => "RangeExpr"
  | inExpr => "InExpr"
  | memberAccess => "MemberAccess"
  | subscript => "Subscript"
  | lambda => "Lambda"
  | functionCall => "FunctionCall"
  | macroCall => "MacroCall"
  | parameterList => "ParameterList"
  | errorNode => "ErrorNode"

/-- The name of the kind as a form of the grammar, which s-expressions use. -/
def name : NodeKind → String
  | sourceFile => "source_file"
  | variableAssign => "variable_assign"
  | compoundAssign => "compound_assign"
  | constantDecl => "constant_decl"
  | functionDecl => "function_decl"
  | macroDecl => "macro_decl"
  | structDecl => "struct_decl"
  | structField => "struct_field"
  | expressionStmt => "expression_stmt"
  | returnStmt => "return_stmt"
  | importStmt => "import_stmt"
  | importPath => "import_path"
  | forStmt => "for_stmt"
  | ifStmt => "if_stmt"
  | elifClause => "elif_clause"
  | elseClause => "else_clause"
  | block => "block"
  | identifier => "identifier"
  | numberLit => "number_lit"
  | stringLit => "string_lit"
  | boolLit => "bool_lit"
  | arrayLit => "array_lit"
  | objectLit => "object_lit"
  | keyValuePair => "key_value_pair"
  | binaryExpr => "binary_expr"
  | unaryBang => "unary_bang"
  | awaitExpr => "await_expr"
  | rangeExpr => "range_expr"
  | inExpr => "in_expr"
  | memberAccess => "member_access"
  | subscript => "subscript"
  | lambda => "lambda"
  | functionCall => "function_call"
  | macroCall => "macro_call"
  | parameterList => "parameter_list"
  | errorNode => "ERROR"

/-- A form that can stand in a list of statements. -/
def isStatement : NodeKind → Bool
  | variableAssign | compoundAssign | constantDecl | functionDecl | macroDecl | structDecl
  | expressionStmt | returnStmt | importStmt | forStmt | ifStmt => true
  | _ => false

/-- The number of children of a node of the kind, where the kind settles it. -/
def fixedArity? : NodeKind → Option Nat
  | binaryExpr | memberAccess | subscript | rangeExpr | inExpr | keyValuePair => some 2
  | unaryBang | awaitExpr | expressionStmt => some 1
  | _ => none

end NodeKind

end ScriptSyntax
