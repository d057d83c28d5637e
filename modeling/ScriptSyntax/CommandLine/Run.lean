import ScriptSyntax.CommandLine.Invocation
import ScriptSyntax.Diagnostic.Render
import ScriptSyntax.Parsing.Source
import ScriptSyntax.Tree.Sexp

/-!
What a command prints.  The tree or the tokens go to the standard output; the log, the diagnostics and
the reason why a file cannot be read go to the standard error.
-/

namespace ScriptSyntax

/-- What stands under the name of a file. -/
inductive FileEntry where
  /-- Nothing that could be read, for the given reason. -/
  | unreadable (reason : String)
  /-- A directory, with the size that the system gives it. -/
  | directory (size : Nat)
  /-- A file with its bytes. -/
  | regular (bytes : ByteArray)

namespace FileEntry

def missing : FileEntry := unreadable "No such file or directory (os error 2)"

/-- The number of bytes in the file, as far as there is one. -/
def size? : FileEntry → Option Nat
  | unreadable _ => none
  | directory size => some size
  | regular bytes => some bytes.size

/-- The text of the file, or the reason why it has none. -/
def text? : FileEntry → Except String String
  | unreadable reason => .error reason
  | directory _ => .error "Is a directory (os error 21)"
  | regular bytes =>
      match String.fromUTF8? bytes with
      | some text => .ok text
      | none => .error "stream did not contain valid UTF-8"

/-- The text of a file that is read under a limit on its size, or the message why it is not read. -/
def read (entry : FileEntry) (file : String) (maxBytes : Option Nat) : Except String String :=
  let text := entry.text?.mapError fun reason => "cannot read " ++ file ++ ": " ++ reason
  match maxBytes, entry.size? with
  | some limit, some size =>
      if limit < size then
        .error (file ++ " is " ++ toString size ++ " bytes, larger than the limit of " ++
          toString limit)
      else text
  | _, _ => text

end FileEntry

/-- What a command leaves behind. -/
structure Outcome where
  stdout : String
  stderr : String
  exitCode : Nat
deriving DecidableEq, Repr

namespace Invocation

def logLine (level : LogLevel) (message : String) : String :=
  "[" ++ level.name ++ "] " ++ message ++ "\n"

/-- The lines of the log of a parse that took the time `elapsed`. -/
def logLines (verbosity : Nat) (events : List Event) (file elapsed : String) : String :=
  let lines := events.map (fun event => (event.level, event.message)) ++
    [(.info, "Parsed " ++ file ++ " in " ++ elapsed)]
  String.join <| (lines.filter fun (level, _) => level.verbosity ≤ verbosity).map fun (level, message) =>
    logLine level message

/-- A tree in the form asked for. -/
def shown (format : Format) (result : ParseResult) : String :=
  match format with
  | .sexp => result.root.sexp ++ "\n"
  | .pretty => result.root.indentedSexp
  | .json => result.document.render ++ "\n"

def tokenLine (token : Token) : String :=
  token.span.start.display ++ " " ++ token.listing ++ "\n"

/-- The outcome for a file that is not read. -/
def unread (message : String) : Outcome :=
  ⟨"", "error: " ++ message ++ "\n", 2⟩

/-- The outcome of a parse of `source`, given the time that it took. -/
def runParse (request : ParseRequest) (file source : String) (verbosity : Nat) :
    Except Fault (String → Outcome) := do
  let (result, events) := parseLogged source ⟨!request.allowComments⟩
  let lines := Text.lines source.toList
  let rendered ← result.diagnostics.mapM (·.renderOn lines file)
  return fun elapsed =>
    ⟨shown request.format result,
      logLines verbosity events file elapsed ++ String.join rendered,
      if request.denyErrors && result.hasErrors then 1 else 0⟩

/-- The outcome of the list of the tokens of `source`. -/
def runTokens (source : String) : Outcome :=
  let tokens := (tokenize source).filter (!·.kind.isTrivia)
  ⟨String.join (tokens.map tokenLine), "", 0⟩

/-- The outcome of a command for what stands under the name of its file, given the time that the
command took. -/
def run (invocation : Invocation) (entry : FileEntry) : Except Fault (String → Outcome) :=
  match invocation.command with
  | .parse request =>
      match entry.read invocation.file request.maxBytes with
      | .error message => .ok fun _ => unread message
      | .ok source => runParse request invocation.file source invocation.verbosity
  | .tokens =>
      match entry.read invocation.file none with
      | .error message => .ok fun _ => unread message
      | .ok source => .ok fun _ => runTokens source

end Invocation

end ScriptSyntax
