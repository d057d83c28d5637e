import ScriptSyntax.Proofs.Parsing.Trivia
import ScriptSyntax.Proofs.Token.Alone
import ScriptSyntax.Proofs.Token.Stored

/-!
Sources with other blanks.  Each token of a source is a word by its own text, and a blank behind it ends a word of
any kind, so the words of a source with single blanks between them have the same tokens as the source:
`significantTokens_respaced`.
-/

namespace ScriptSyntax

/-- The texts of the tokens of a source, without its blanks, its comments and the end of the file. -/
def significantWords (source : String) : List String :=
  ((tokenize source).filter fun t => !t.kind.isTrivia && t.kind ≠ .endOfFile).map (·.text)

/-- The words of a source with a single blank between any two. -/
def respaced (source : String) : String :=
  " ".intercalate (significantWords source)

namespace Scan

theorem shows_intercalate {words : List String} (hwords : ∀ word ∈ words, IsWord word) (p : Position) :
    List.Forall₂ Slot.Shows
      (Slot.significant none (lexemes p (" ".intercalate words).toList)) words := by
  induction words generalizing p with
  | nil => exact .nil
  | cons word words ih =>
      obtain ⟨hword, hlater⟩ := List.forall_mem_cons.mp hwords
      cases words with
      | nil =>
          have hends : word = "\n" ∨ EndsWord [] := .inr nofun
          obtain ⟨slot, q, hslot, hlexemes⟩ := significant_word hword hends p
          rw [String.intercalate_singleton, ← List.append_nil word.toList, hlexemes]
          exact .cons hslot .nil
      | cons next words =>
          obtain ⟨after, hafter⟩ : ∃ after,
              (" ".intercalate (next :: words)).toList = next.toList ++ after := by
            cases words with
            | nil => exact ⟨[], by simp⟩
            | cons last words => exact ⟨_, by simp [List.append_assoc]; rfl⟩
          obtain ⟨slot, q, hslot, hlexemes⟩ := significant_word_blank hword
            (hlater next List.mem_cons_self) after p
          have htext : (" ".intercalate (word :: next :: words)).toList =
              word.toList ++ ' ' :: (next.toList ++ after) := by
            rw [String.intercalate_cons_cons, String.toList_append, String.toList_append, hafter]
            simp
          rw [htext, hlexemes, ← hafter]
          exact .cons hslot (ih hlater q)

end Scan

theorem significantWords_eq (source : String) :
    significantWords source =
      (Slot.significant none (Scan.lexemes Position.origin source.toList)).map (·.token.text) := by
  rw [significantWords, significant_tokenize, List.map_map]
  rfl

theorem significantTokens_eq (source : String) :
    significantTokens source =
      (significantWords source).map (fun word => (TokenKind.ofWord word, word)) ++ [(.endOfFile, "")] := by
  have hend : (Token.endOfFile (Position.origin.advancedBy source.toList)).kind.isTrivia = false := rfl
  rw [significantTokens, tokenize, Scan.tokens_eq, List.filter_append, List.map_append, significantWords_eq,
    ← Slot.map_token_significant none, List.map_map, List.map_map, List.filter_cons_of_pos (by rw [hend]; rfl)]
  congr 1
  refine List.map_congr_left fun slot hslot => ?_
  have hwrites := Scan.writes_lexemes _ _ slot.token (Slot.token_mem hslot)
  exact congrArg (·, slot.token.text) hwrites.ofWord.symm

variable {source : String}

theorem isWord_of_mem_significantWords (hsound : ∀ token ∈ tokenize source, ∀ e, token.kind ≠ .error e) :
    ∀ word ∈ significantWords source, IsWord word := by
  intro word hword
  obtain ⟨token, hkept, rfl⟩ := List.mem_map.mp hword
  obtain ⟨htoken, hkind⟩ := List.mem_filter.mp hkept
  obtain ⟨htrivia, hend⟩ : token.kind.isTrivia = false ∧ token.kind ≠ .endOfFile := by simpa using hkind
  refine ⟨token.kind, ?_, htrivia, hsound token htoken⟩
  rw [tokenize, Scan.tokens_eq] at htoken
  rcases List.mem_append.mp htoken with hlexeme | hlast
  · exact Scan.writes_lexemes _ _ token hlexeme
  · obtain rfl := List.mem_singleton.mp hlast
    exact absurd rfl hend

theorem significantWords_respaced (hsound : ∀ token ∈ tokenize source, ∀ e, token.kind ≠ .error e) :
    significantWords (respaced source) = significantWords source := by
  have hshows := Scan.shows_intercalate (isWord_of_mem_significantWords hsound) Position.origin
  have htexts := List.forall₂_map_left_iff.mpr (hshows.imp fun slot word hslot => hslot.text)
  rw [List.forall₂_eq_eq_eq] at htexts
  rw [significantWords_eq, respaced, htexts]

/-- A source without lexical errors has the same significant tokens when all that stands between them is a single
blank.  If the text that this gives is not too long, the checked stream gives them too. -/
theorem significantTokens_respaced (hsound : ∀ token ∈ tokenize source, ∀ e, token.kind ≠ .error e) :
    significantTokens (respaced source) = significantTokens source ∧
      ((respaced source).utf8ByteSize < Position.limit →
        ∃ stream, (TokenStream.ofSource (respaced source)).drain =
          .ok (tokenize (respaced source), stream)) := by
  refine ⟨?_, fun hsize => TokenStream.drain_ofSource hsize⟩
  rw [significantTokens_eq, significantTokens_eq, significantWords_respaced hsound]

theorem significantTokens_respaced_mixed :
    respaced "a='b \\' c'.e//f\n\n1.5.g/ /2..3\t!=!d\n" =
        "a = 'b \\' c' . e \n \n 1.5 . g / / 2 .. 3 != ! d \n" ∧
      significantTokens "a = 'b \\' c' . e \n \n 1.5 . g / / 2 .. 3 != ! d \n" =
        significantTokens "a='b \\' c'.e//f\n\n1.5.g/ /2..3\t!=!d\n" ∧
      ∃ tokens stream, (TokenStream.ofSource
        "a = 'b \\' c' . e \n \n 1.5 . g / / 2 .. 3 != ! d \n").drain = .ok (tokens, stream) := by
  have hsound : ∀ token ∈ tokenize "a='b \\' c'.e//f\n\n1.5.g/ /2..3\t!=!d\n",
      ∀ e ∈ LexicalError.all, token.kind ≠ .error e := by decide +kernel
  have hrespaced : respaced "a='b \\' c'.e//f\n\n1.5.g/ /2..3\t!=!d\n" =
      "a = 'b \\' c' . e \n \n 1.5 . g / / 2 .. 3 != ! d \n" := by decide +kernel
  obtain ⟨hsame, hdrain⟩ := significantTokens_respaced fun token htoken e =>
    hsound token htoken e e.mem_all
  rw [hrespaced] at hsame hdrain
  obtain ⟨stream, htokens⟩ := hdrain (by decide +kernel)
  exact ⟨hrespaced, hsame, _, stream, htokens⟩

end ScriptSyntax
