/-!
What a command line asks for.  The first two words that are no options are the command and the file;
options may stand anywhere, and their values follow them or come after an equals sign.
-/

namespace ScriptSyntax

/-- The forms in which a tree is printed. -/
inductive Format where
  /-- On one line. -/
  | sexp
  /-- One node on a line, with its place in the source. -/
  | pretty
  /-- The tree and the diagnostics as one document. -/
  | json
deriving DecidableEq, Repr

namespace Format

def ofName? : String → Option Format
  | "sexp" => some sexp
  | "pretty" => some pretty
  | "json" => some json
  | _ => none

end Format

/-- What a parse is asked for beside its file. -/
structure ParseRequest where
  format : Format := .sexp
  /-- The largest size of a file that is read. -/
  maxBytes : Option Nat := none
  /-- Errors in the file make the command fail. -/
  denyErrors : Bool := false
  /-- Comments in lists of expressions are not warned about. -/
  allowComments : Bool := false
deriving DecidableEq, Repr

/-- A command. -/
inductive Command where
  /-- Print the tree of the file. -/
  | parse (request : ParseRequest)
  /-- Print the tokens of the file. -/
  | tokens
deriving DecidableEq, Repr

/-- A command for a file. -/
structure Invocation where
  command : Command
  file : String
  /-- How often more detail in the log was asked for. -/
  verbosity : Nat
deriving DecidableEq, Repr

/-- Why a command line asks for nothing. -/
inductive UsageError where
  | missingCommand
  | unknownCommand (word : String)
  | missingFile
  | unexpectedWord (word : String)
  | missingValue (option : String)
  | invalidValue (option value : String)
deriving DecidableEq, Repr

namespace UsageError

def message : UsageError → String
  | missingCommand => "a command is missing: parse or tokens"
  | unknownCommand word => "unknown command '" ++ word ++ "'"
  | missingFile => "a file is missing"
  | unexpectedWord word => "unexpected argument '" ++ word ++ "'"
  | missingValue option => "a value is missing for '" ++ option ++ "'"
  | invalidValue option value => "invalid value '" ++ value ++ "' for '" ++ option ++ "'"

end UsageError

namespace Invocation

/-- A number of bytes: decimal digits, at most 64 bits, perhaps after a plus sign. -/
def byteCount? (value : String) : Option Nat :=
  let digits := match value.toList with
    | '+' :: digits => digits
    | digits => digits
  if digits.isEmpty || !digits.all Char.isDigit then none
  else
    let count := digits.foldl (fun n c => 10 * n + (c.toNat - '0'.toNat)) 0
    if count ≤ 18446744073709551615 then some count else none

/-- The part of a command line that has been read. -/
structure Draft where
  /-- The words that are no options, the latest first. -/
  words : List String := []
  verbosity : Nat := 0
  request : ParseRequest := {}
  /-- The options that only a parse has, the latest first. -/
  parseOptions : List String := []

/-- Takes the value of an option. -/
def Draft.withValue (draft : Draft) (option value : String) : Except UsageError Draft :=
  let draft := { draft with parseOptions := option :: draft.parseOptions }
  match option with
  | "--format" =>
      match Format.ofName? value with
      | some format => .ok { draft with request := { draft.request with format } }
      | none => .error (.invalidValue option value)
  | "--max-bytes" =>
      match byteCount? value with
      | some count => .ok { draft with request := { draft.request with maxBytes := some count } }
      | none => .error (.invalidValue option value)
  | _ => .error (.unexpectedWord option)

/-- The number of times a word such as `-vv` asks for more detail. -/
def detail? (word : String) : Option Nat :=
  match word.toList with
  | '-' :: c :: letters => if (c :: letters).all (· = 'v') then some (letters.length + 1) else none
  | _ => none

/-- Reads the words of a command line. -/
def readWords (draft : Draft) : List String → Except UsageError Draft
  | [] => .ok draft
  | "--verbose" :: words => readWords { draft with verbosity := draft.verbosity + 1 } words
  | "--deny-errors" :: words =>
      readWords { draft with
        request := { draft.request with denyErrors := true }
        parseOptions := "--deny-errors" :: draft.parseOptions } words
  | "--allow-comment-expressions" :: words =>
      readWords { draft with
        request := { draft.request with allowComments := true }
        parseOptions := "--allow-comment-expressions" :: draft.parseOptions } words
  | "--" :: words => .ok { draft with words := words.reverse ++ draft.words }
  | ["--format"] => .error (.missingValue "--format")
  | ["--max-bytes"] => .error (.missingValue "--max-bytes")
  | "--format" :: value :: words => do
      readWords (← draft.withValue "--format" value) words
  | "--max-bytes" :: value :: words => do
      readWords (← draft.withValue "--max-bytes" value) words
  | word :: words =>
      match detail? word with
      | some count => readWords { draft with verbosity := draft.verbosity + count } words
      | none =>
          match word.toList with
          | '-' :: '-' :: rest => do
              let option := "--" ++ String.ofList (rest.takeWhile (· ≠ '='))
              let value := String.ofList ((rest.dropWhile (· ≠ '=')).drop 1)
              readWords (← draft.withValue option value) words
          | '-' :: _ :: _ => .error (.unexpectedWord word)
          | _ => readWords { draft with words := word :: draft.words } words

/-- What the words of a command line ask for. -/
def ofWords (words : List String) : Except UsageError Invocation := do
  let draft ← readWords {} words
  match draft.words.reverse with
  | [] => .error .missingCommand
  | "parse" :: file :: [] => return ⟨.parse draft.request, file, draft.verbosity⟩
  | "tokens" :: file :: [] =>
      match draft.parseOptions with
      | option :: _ => .error (.unexpectedWord option)
      | [] => return ⟨.tokens, file, draft.verbosity⟩
  | "parse" :: [] | "tokens" :: [] => .error .missingFile
  | "parse" :: _ :: word :: _ | "tokens" :: _ :: word :: _ => .error (.unexpectedWord word)
  | word :: _ => .error (.unknownCommand word)

end Invocation

end ScriptSyntax
