import ScriptSyntax.Parsing.Step

/-!
Bracketed lists of items with commas between them.  Newlines may stand anywhere inside the brackets.
-/

namespace ScriptSyntax.Parser

/-- Reads further items, each after a comma, behind those in `items`, which are kept in reverse, in at
most as many rounds as `budget` has members. -/
def itemsWithin (item : Parser Node) (items : List Node) : List Slot → Parser (List Node)
  | [] => return items.reverse
  | _ :: budget => do
      if (← get).kind = .comma then
        let _ ← advance
        skipNewlines
        let next ← item
        skipNewlines
        itemsWithin item (next :: items) budget
      else
        return items.reverse

/-- Reads one or more items.  Each round consumes a comma, so there are no more rounds than tokens
left. -/
def items (item : Parser Node) : Parser (List Node) := do
  let first ← item
  skipNewlines
  itemsWithin item [first] (← get).rest

/-- Reads a list of items between two brackets, with the span from the one to the other. -/
def bracketed (opener closer : TokenKind) (expressionList : Bool) (item : Parser Node) :
    Parser (List Node × Span) := do
  let first ← expect opener
  delimited closer expressionList do
    skipNewlines
    let nodes ← if (← get).kind = closer then pure [] else items item
    let last ← expect closer
    return (nodes, first.span.through last.span)

end ScriptSyntax.Parser
