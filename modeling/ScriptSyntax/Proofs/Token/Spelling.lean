import ScriptSyntax.Proofs.Token.Lexemes

/-!
How tokens are written.  Keywords, operators and brackets are always written in the same way, so the
text of such a token is settled by its kind.
-/

namespace ScriptSyntax

def Operator.symbol : Operator → String
  | plus => "+"
  | minus => "-"
  | star => "*"
  | slash => "/"
  | percent => "%"
  | equalEqual => "=="
  | notEqual => "!="
  | greater => ">"
  | less => "<"
  | greaterEqual => ">="
  | lessEqual => "<="
  | andAnd => "&&"
  | orOr => "||"
  | assign => "="
  | plusAssign => "+="
  | minusAssign => "-="
  | starAssign => "*="
  | slashAssign => "/="
  | colonAssign => ":="
  | dotDot => ".."
  | bang => "!"
  | dollar => "$"
  | atSign => "@"

/-- How a script writes a token of the kind, where the kind settles it. -/
def TokenKind.spelling? : TokenKind → Option String
  | keyword k => some k.spelling
  | operator o => some o.symbol
  | semicolon => some ";"
  | leftBrace => some "\x7b"
  | rightBrace => some "\x7d"
  | leftBracket => some "["
  | rightBracket => some "]"
  | leftParen => some "("
  | rightParen => some ")"
  | comma => some ","
  | colon => some ":"
  | dot => some "."
  | _ => none

/-- The token is written as its kind asks for. -/
def Token.Spelled (t : Token) : Prop :=
  ∀ text ∈ t.kind.spelling?, t.text = text

namespace Scan

theorem spelled_pairKind? {c d : Char} {kind : TokenKind} (hkind : pairKind? c d = some kind) :
    kind.spelling? = some (String.ofList [c, d]) := by
  unfold pairKind? at hkind
  split at hkind <;> cases hkind
  all_goals rfl

theorem spelled_singleKind? {c : Char} {kind : TokenKind} (hkind : singleKind? c = some kind) :
    kind.spelling? = some (String.ofList [c]) := by
  unfold singleKind? at hkind
  split at hkind <;> cases hkind
  all_goals rfl

theorem spelled_symbol (c : Char) (rest : List Char) :
    ∀ text ∈ (symbol c rest).1.spelling?,
      String.ofList (c :: rest.take (symbol c rest).2) = text := by
  intro text htext
  unfold symbol at htext ⊢
  cases hpair : rest.head?.bind (pairKind? c) with
  | some kind =>
      cases rest with
      | nil => simp at hpair
      | cons d rest =>
          simp only [hpair, spelled_pairKind? (by simpa using hpair), Option.mem_some] at htext
          simpa [hpair] using htext
  | none =>
      cases hsingle : singleKind? c with
      | none => simp [hpair, hsingle, TokenKind.spelling?] at htext
      | some kind =>
          simp only [hpair, hsingle, Option.getD_some, spelled_singleKind? hsingle,
            Option.mem_some] at htext
          simpa [hpair] using htext

theorem spelled_wordKind (word : List Char) :
    ∀ text ∈ (wordKind word).spelling?, String.ofList word = text := by
  intro text htext
  unfold wordKind TokenKind.reserved? at htext
  split at htext
  · cases htext
  · cases hfind : Keyword.all.find? (·.spelling = String.ofList word) with
    | none =>
        rw [hfind] at htext
        cases htext
    | some k =>
        rw [hfind] at htext
        have hspelling : k.spelling = String.ofList word := by
          simpa using List.find?_some hfind
        obtain rfl : k.spelling = text := by simpa [TokenKind.spelling?] using htext
        exact hspelling.symm

theorem take_runLength (p : Char → Bool) (text : List Char) :
    text.take (runLength p text) = text.takeWhile p := by
  unfold runLength
  induction text with
  | nil => rfl
  | cons c text ih =>
      by_cases hc : p c
      · simp [hc, ih]
      · simp [hc]

theorem spelled_first (p : Position) (c : Char) (rest : List Char) :
    (first p c rest).1.Spelled := by
  intro text htext
  simp only [first] at htext ⊢
  cases begins c with
  | spacing hread | newline hread | number hread =>
      rw [hread] at htext
      cases htext
  | slash hread =>
      rw [hread] at htext ⊢
      split at htext
      · cases htext
      · rename_i hcomment
        rw [if_neg hcomment]
        exact spelled_symbol c rest text htext
  | word hread =>
      rw [hread] at htext ⊢
      have hword := spelled_wordKind (c :: rest.takeWhile isWordTail) text htext
      simpa [take_runLength] using hword
  | string _ hread =>
      rw [hread] at htext
      rcases kind_string c rest with hkind | hkind
      · rw [hkind] at htext
        cases htext
      · rw [hkind] at htext
        cases htext
  | symbol hread =>
      rw [hread] at htext ⊢
      exact spelled_symbol c rest text htext

theorem spelled_lexemes (p : Position) (text : List Char) :
    ∀ token ∈ lexemes p text, token.Spelled := by
  induction p, text using induct with
  | nil p => exact nofun
  | cons p c rest ih =>
      rw [lexemes_cons]
      exact List.forall_mem_cons.mpr ⟨spelled_first p c rest, ih⟩

end Scan

end ScriptSyntax
