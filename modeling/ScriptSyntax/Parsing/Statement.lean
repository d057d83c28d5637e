import ScriptSyntax.Parsing.Expression
import ScriptSyntax.Tree.Query

/-!
The forms of statements.
-/

namespace ScriptSyntax.Parser

/-- The statement that an assignment operator makes of the expression before it. -/
def assignmentKind? : TokenKind → Option NodeKind
  | .operator .assign => some .variableAssign
  | .operator .colonAssign => some .constantDecl
  | .operator .plusAssign | .operator .minusAssign | .operator .starAssign | .operator .slashAssign =>
      some .compoundAssign
  | _ => none

/-- A name, or a member of such a path: what an assignment can change. -/
def isMemberPath : Node → Bool
  | ⟨.identifier, _, _, _⟩ => true
  | ⟨.memberAccess, [object, member], _, _⟩ => member.kind = .identifier && isMemberPath object
  | _ => false

/-- An assignment of the kind can have the target.  A constant is bound to a name only. -/
def isValidTarget (kind : NodeKind) (target : Node) : Bool :=
  if kind = .constantDecl then target.kind = .identifier else isMemberPath target

/-- Gives back the target of an assignment, wrapped and reported if it cannot be one. -/
def checkedTarget (kind : NodeKind) (target : Node) : Parser Node := do
  if isValidTarget kind target || target.isError then
    return target
  else
    report ⟨.invalidTarget target.kind.name, target.span⟩
    return target.errorWrapping

/-- Reads an expression and, after an assignment operator, the value that is assigned. -/
def assignmentOrExpression (inner : Inner) : Parser Node := do
  let target ← inner.expression .assignment
  match assignmentKind? (← get).kind with
  | none => return Node.branch .expressionStmt target.span [target]
  | some kind =>
      let operator ← advance
      let value ← inner.expression .assignment
      let target ← checkedTarget kind target
      let literal := if kind = .compoundAssign then some operator.text else none
      return ⟨kind, [target, value], target.span.through value.span, literal⟩

/-- Consumes the word for an asynchronous function, if it is next. -/
def asyncWord : Parser Bool := do
  if (← get).kind = .keyword .asyncKw then
    let _ ← advance
    return true
  else
    return false

/-- Reads the declaration of a function.  The word that makes it asynchronous stands before or after
the word for a function. -/
def functionDecl (inner : Inner) : Parser Node := do
  let start := (← get).current.span.start
  let before ← asyncWord
  let _ ← expect (.keyword .fnKw)
  let isAsync ← if before then pure true else asyncWord
  let name ← identifier
  let parameters ← parameterList
  let body ← inner.block
  let literal := if isAsync then some "async" else none
  return ⟨.functionDecl, [name, parameters, body], (← get).spanFrom start, literal⟩

/-- Reads the declaration of a function, or a statement that begins with a function without a name. -/
def functionStmt (inner : Inner) : Parser Node := do
  let s ← get
  if s.kind = .keyword .fnKw && (s.peek 1).kind = .leftParen then assignmentOrExpression inner
  else functionDecl inner

def macroDecl (inner : Inner) : Parser Node := do
  let opening ← advance
  let name ← identifier
  let parameters ← parameterList
  let body ← inner.block
  return Node.branch .macroDecl (opening.span.through body.span) [name, parameters, body]

def structField (inner : Inner) : Parser Node := do
  let name ← identifier
  let _ ← expect (.operator .assign)
  let value ← inner.expression .lowest
  return Node.branch .structField (name.span.through value.span) [name, value]

/-- Gives back a field, wrapped and reported if a method stands before it. -/
def checkedField (seenMethod : Bool) (field : Node) : Parser Node := do
  if seenMethod then
    report ⟨.fieldAfterMethod (field.name?.getD ""), field.span⟩
    return field.errorWrapping
  else
    return field

/-- Reads a field or a method, and tells whether it is a method. -/
def structMember (inner : Inner) (seenMethod : Bool) : Parser (Node × Bool) := do
  match (← get).kind with
  | .keyword .fnKw | .keyword .asyncKw => return (← functionDecl inner, true)
  | .identifier => return (← checkedField seenMethod (← structField inner), false)
  | _ => failWith (·.unexpected "a struct field or method")

/-- Reads further members of a structure behind those in `members`, which are kept in reverse, in at
most as many rounds as `budget` has members.  `opener` is the brace before the first. -/
def structMembersWithin (inner : Inner) (opener : Span) (seenMethod : Bool) (members : List Node) :
    List Slot → Parser (List Node)
  | [] => throw ⟨.unterminatedBlock opener.start.line, opener⟩
  | _ :: budget => do
      skipSeparators
      match (← get).kind with
      | .rightBrace => return members.reverse
      | .endOfFile => throw ⟨.unterminatedBlock opener.start.line, opener⟩
      | _ =>
          let (node, isMethod) ← structMember inner seenMethod
          if (← get).atStatementEnd then
            structMembersWithin inner opener (seenMethod || isMethod) (node :: members) budget
          else
            failWith (·.missingSeparator)

/-- Reads the declaration of a structure: its fields, and after them its methods. -/
def structDecl (inner : Inner) : Parser Node := do
  let opening ← advance
  let name ← identifier
  let opener ← expect .leftBrace
  let members ← delimited .rightBrace false do
    structMembersWithin inner opener.span false [] (← get).rest
  let closing ← expect .rightBrace
  return Node.branch .structDecl (opening.span.through closing.span) (name :: members)

/-- Reads further segments of a path, each after a point, behind those in `segments`, which are kept in
reverse, in at most as many rounds as `budget` has members. -/
def segmentsWithin (segments : List Node) : List Slot → Parser (List Node)
  | [] => return segments.reverse
  | _ :: budget => do
      if (← get).kind = .dot then
        let _ ← advance
        let next ← identifier
        segmentsWithin (next :: segments) budget
      else
        return segments.reverse

/-- Reads what stands after the colon of an import path: an address, or names with points between. -/
def segments : Parser (List Node) := do
  if (← get).kind = .string then
    return [← literal]
  else
    let first ← identifier
    segmentsWithin [first] (← get).rest

/-- Reads the path of an import, which is wrapped and reported if its scheme is unknown. -/
def importPath : Parser Node := do
  let scheme ← expect .identifier
  let _ ← expect .colon
  let parts ← segments
  let path : Node := ⟨.importPath, parts, (← get).spanFrom scheme.span.start, some scheme.text⟩
  if importSchemes.contains scheme.text then
    return path
  else
    report ⟨.unknownScheme scheme.text, scheme.span⟩
    return path.errorWrapping

/-- Reads the names that an import takes; there is at least one. -/
def importedNames : Parser (List Node) := do
  let (names, span) ← bracketed .leftBrace .rightBrace false identifier
  if names.isEmpty then
    throw ⟨.expectedToken "at least one imported name" "\x7d", span⟩
  else
    return names

/-- Reads an import of a whole path, perhaps under another name. -/
def pathImport : Parser (List Node) := do
  let path ← importPath
  if (← get).kind = .keyword .asKw then
    let _ ← advance
    return [path, ← identifier]
  else
    return [path]

/-- Reads an import of names from a path. -/
def nameImport : Parser (List Node) := do
  let names ← importedNames
  let _ ← expect (.keyword .fromKw)
  return names ++ [← importPath]

def importStmt : Parser Node := do
  let opening ← advance
  let parts ← if (← get).kind = .leftBrace then nameImport else pathImport
  return Node.branch .importStmt ((← get).spanFrom opening.span.start) parts

/-- Reads a loop.  The expression that controls it is kept as it is written. -/
def forStmt (inner : Inner) : Parser Node := do
  let opening ← advance
  let condition ← inner.expression .lowest
  let body ← inner.block
  return Node.branch .forStmt (opening.span.through body.span) [condition, body]

/-- The clause that a token of the kind begins after the body of an `if`; `true` is the last one. -/
def clauseKind? : TokenKind → Option Bool
  | .keyword .elifKw => some false
  | .keyword .elseKw => some true
  | _ => none

/-- Reads a clause from its first word on. -/
def clause (inner : Inner) (isElse : Bool) : Parser (Token × Node) := do
  let opening ← advance
  if isElse then
    let body ← inner.block
    return (opening, Node.branch .elseClause (opening.span.through body.span) [body])
  else
    let condition ← inner.expression .lowest
    let body ← inner.block
    return (opening, Node.branch .elifClause (opening.span.through body.span) [condition, body])

/-- Gives back a clause, wrapped and reported if it stands after the last one. -/
def checkedClause (seenElse isElse : Bool) (opening : Token) (node : Node) : Parser Node := do
  if seenElse then
    report ⟨if isElse then .duplicateElse else .elifAfterElse, opening.span⟩
    return node.errorWrapping
  else
    return node

/-- Reads further clauses of an `if` behind those in `clauses`, which are kept in reverse, in at most as
many rounds as `budget` has members.  A clause may begin on a later line. -/
def clausesWithin (inner : Inner) (seenElse : Bool) (clauses : List Node) :
    List Slot → Parser (List Node)
  | [] => return clauses.reverse
  | _ :: budget => do
      match clauseKind? (← get).kindPastNewlines with
      | none => return clauses.reverse
      | some isElse =>
          skipNewlines
          let (opening, node) ← clause inner isElse
          let node ← checkedClause seenElse isElse opening node
          clausesWithin inner (seenElse || isElse) (node :: clauses) budget

def ifStmt (inner : Inner) : Parser Node := do
  let opening ← advance
  let condition ← inner.expression .lowest
  let body ← inner.block
  let clauses ← clausesWithin inner false [] (← get).rest
  return Node.branch .ifStmt ((← get).spanFrom opening.span.start) (condition :: body :: clauses)

/-- Reads a return, with the value it gives unless the statement ends before one. -/
def returnStmt (inner : Inner) : Parser Node := do
  let opening ← advance
  if (← get).atStatementEnd then
    return Node.branch .returnStmt opening.span []
  else
    let value ← inner.expression .lowest
    return Node.branch .returnStmt (opening.span.through value.span) [value]

/-- Reads a statement of the given form. -/
def statementOf (inner : Inner) : StatementForm → Parser Node
  | .functionDecl => functionStmt inner
  | .macroDecl => macroDecl inner
  | .structDecl => structDecl inner
  | .importStmt => importStmt
  | .forStmt => forStmt inner
  | .ifStmt => ifStmt inner
  | .returnStmt => returnStmt inner

def statementIn (inner : Inner) : Parser Node := do
  let token := (← get).current
  log (.statement token.span.start token.kind)
  match token.kind.statementForm? with
  | some form => statementOf inner form
  | none => assignmentOrExpression inner

end ScriptSyntax.Parser
