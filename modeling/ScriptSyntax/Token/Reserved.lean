import ScriptSyntax.Token.Kind

/-!
Words with a meaning of their own: those that no name of a script can be, and those that an import
path can start with.
-/

namespace ScriptSyntax

/-- The kind of token that a word is reserved for. -/
def TokenKind.reserved? (word : String) : Option TokenKind :=
  if word = "true" ∨ word = "false" then some .boolean
  else (Keyword.all.find? (·.spelling = word)).map .keyword

/-- The schemes of import paths, written before the colon. -/
def importSchemes : List String :=
  ["core", "runtime", "npm", "js", "browser", "base"]

end ScriptSyntax
