import ScriptSyntax.Position
import ScriptSyntax.Token.Kind

/-!
The steps of a parse that its log tells about.
-/

namespace ScriptSyntax

/-- How much detail a log line gives. -/
inductive LogLevel where
  | info | debug | trace
deriving DecidableEq, Repr

namespace LogLevel

def name : LogLevel → String
  | info => "INFO"
  | debug => "DEBUG"
  | trace => "TRACE"

/-- How often the log has to be asked for more detail before lines of the level are shown. -/
def verbosity : LogLevel → Nat
  | info => 1
  | debug => 2
  | trace => 3

end LogLevel

/-- A step of a parse. -/
inductive Event where
  /-- A source of so many bytes is taken up. -/
  | started (bytes : Nat)
  /-- A statement begins at a place, with a token of the kind. -/
  | statement (place : Position) (kind : TokenKind)
  /-- A broken statement ends at a place, after so many tokens. -/
  | recovered (place : Position) (skipped : Nat)
  /-- The source is read, with so many statements and diagnostics. -/
  | finished (statements diagnostics : Nat)
deriving DecidableEq, Repr

namespace Event

def level : Event → LogLevel
  | statement _ _ => .trace
  | _ => .debug

def message : Event → String
  | started bytes => "parsing " ++ toString bytes ++ " bytes"
  | statement place kind => "statement at " ++ place.display ++ " starting with " ++ kind.name
  | recovered place skipped =>
      "recovered at " ++ place.display ++ ", skipped " ++ toString skipped ++ " tokens"
  | finished statements diagnostics =>
      "parsed " ++ toString statements ++ " top-level statements with " ++ toString diagnostics ++
        " diagnostics"

end Event

end ScriptSyntax
