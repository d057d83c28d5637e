import Mathlib.Data.List.DropRight
import ScriptSyntax.Diagnostic.Render
import ScriptSyntax.Proofs.Parsing.Twice
import ScriptSyntax.Proofs.Text.Delimited
import ScriptSyntax.Proofs.Text.Line

/-!
Where the caret of a rendered diagnostic stands.  No diagnostic starts in front of a blank, so none starts in
the indentation of its line, and the caret is under the character where the diagnostic starts, unless that is
one of the blanks at the end of the line, which are not shown.  A caret that is too far to the right cannot be
placed: `render_points`.
-/

namespace ScriptSyntax

/-! ### Where diagnostics start -/

/-- A place of the text that is not in front of a space or a tab. -/
def Position.Begins (text : List Char) (p : Position) : Prop :=
  ∃ before behind, text = before ++ behind ∧ p = origin.advancedBy before ∧
    ∀ c ∈ behind.head?, Text.isIndent c = false

namespace Pairing

/-- Places where something begins correspond where they are one place that is not in front of a blank. -/
def atBeginnings (text : List Char) : Pairing where
  start p q := p = q ∧ p.Begins text
  stop p q := p = q
  stop_of_start h := h.1
  comments := true
  warnings := true
  comments_of_warnings _ := rfl
  skipped := 0
  earlier := []

variable {text : List Char}

theorem tokens_atBeginnings {token : Token} (htoken : token ∈ Scan.lexemes Position.origin text)
    (hkind : token.kind ≠ .whitespace) : (atBeginnings text).Tokens token token := by
  have hend := (Scan.run_lexemes Position.origin text).kind_ne token htoken
  have hmem : token ∈ Scan.tokens Position.origin text := by
    rw [Scan.tokens_eq]
    exact List.mem_append_left _ htoken
  obtain ⟨front, back, htokens⟩ := List.append_of_mem hmem
  obtain ⟨before, c, rest, htext, rfl, -⟩ := Scan.exists_first_of_tokens htokens hend
  refine ⟨rfl, rfl, ⟨rfl, before, c :: rest, htext, rfl, ?_⟩, rfl⟩
  rintro _ ⟨⟩
  by_contra hblank
  have hspacing : Scan.isSpacing c = true := by
    simp only [Text.isIndent, Bool.not_eq_false, Bool.or_eq_true, decide_eq_true_eq] at hblank
    rcases hblank with rfl | rfl <;> rfl
  apply hkind
  show (Scan.classify c rest).1 = .whitespace
  rw [Scan.classify, if_pos hspacing]

theorem slots_same (pairing : Pairing) {tokens : List Token} {pending : Option Span}
    (htokens : ∀ token ∈ tokens, token.kind ≠ .whitespace → pairing.Tokens token token)
    (hpending : Option.Rel pairing.Spans pending pending) :
    List.Forall₂ pairing.Slots (Slot.significant pending tokens) (Slot.significant pending tokens) ∧
      Option.Rel pairing.Spans (Slot.pendingAfter pending tokens) (Slot.pendingAfter pending tokens) := by
  induction tokens generalizing pending with
  | nil => exact ⟨.nil, hpending⟩
  | cons token tokens ih =>
      obtain ⟨htoken, htokens⟩ := List.forall_mem_cons.mp htokens
      rcases Slot.trivia_cases token.kind with hkind | hkind | hkind
      · rw [Slot.significant_whitespace hkind, Slot.pendingAfter_whitespace hkind]
        exact ih htokens hpending
      · rw [Slot.significant_comment hkind, Slot.pendingAfter_comment hkind]
        exact ih htokens (.some (htoken (by simp [hkind])).span)
      · rw [Slot.significant_token hkind, Slot.pendingAfter_token hkind]
        obtain ⟨hslots, hlast⟩ := ih htokens .none
        have hother : token.kind ≠ .whitespace := fun h => by simp [h, TokenKind.isTrivia] at hkind
        exact ⟨.cons ⟨htoken hother, fun _ => hpending⟩ hslots, hlast⟩

theorem alike_atBeginnings (options : Options) :
    (atBeginnings text).Alike (State.ofText options Position.origin text)
      (State.ofText options Position.origin text) := by
  obtain ⟨hslots, hlast⟩ := (atBeginnings text).slots_same (fun _ => tokens_atBeginnings) .none
  have hend : (Position.origin.advancedBy text).Begins text :=
    ⟨text, [], (List.append_nil text).symm, rfl, nofun⟩
  rw [State.ofText_eq]
  exact
    { rest := hslots
      endOfFile := ⟨rfl, hend⟩
      commentAtEnd := fun _ => hlast
      consumed := rfl
      previousEnd := rfl
      delimiters := rfl
      depth := rfl
      options := fun _ => rfl
      reports := ⟨[], rfl, .nil⟩ }

end Pairing

theorem parse_begins (source : String) (options : Options) :
    ∀ d ∈ (parse source options).diagnostics, d.span.start.Begins source.toList := by
  obtain ⟨body, s, hrun, hresult⟩ := parseTokens_eq options Position.origin source.toList
  obtain ⟨-, hstates⟩ := (Pairing.alike_atBeginnings options).statements hrun hrun
  obtain ⟨later, hlater, hreports⟩ := hstates.reports
  obtain rfl : s.reports = later := hlater.trans (List.append_nil later)
  have hkeeps : ∀ d, (Pairing.atBeginnings source.toList).keeps d = true := fun d => Bool.or_true d.isError
  rw [List.filter_eq_self.mpr fun d _ => hkeeps d, List.forall₂_same] at hreports
  rw [parse_eq_parseTokens, hresult]
  intro d hd
  have hreported := (Diagnostic.inSourceOrder_perm _).mem_iff.mp hd
  exact (hreports d (List.mem_reverse.mp hreported)).span.start.2

/-! ### Lines as they are shown -/

namespace Text

theorem takeWhile_isIndent {onLine rest : List Char} (hrest : ∀ c ∈ rest.head?, isIndent c = false) :
    (onLine ++ rest).takeWhile isIndent = onLine.takeWhile isIndent := by
  induction onLine with
  | nil =>
      cases rest with
      | nil => rfl
      | cons c rest => exact List.takeWhile_cons_of_neg (by simp [hrest c rfl])
  | cons c onLine ih =>
      rw [List.cons_append, List.takeWhile_cons, List.takeWhile_cons, ih]

theorem dropWhile_isIndent {onLine rest : List Char} (hrest : ∀ c ∈ rest.head?, isIndent c = false) :
    (onLine ++ rest).dropWhile isIndent = onLine.dropWhile isIndent ++ rest := by
  have hwhole := List.takeWhile_append_dropWhile (p := isIndent) (l := onLine ++ rest)
  have hpart := List.takeWhile_append_dropWhile (p := isIndent) (l := onLine)
  rw [takeWhile_isIndent hrest] at hwhole
  have hsplit : onLine.takeWhile isIndent ++ (onLine ++ rest).dropWhile isIndent =
      onLine.takeWhile isIndent ++ (onLine.dropWhile isIndent ++ rest) := by
    rw [hwhole, ← List.append_assoc, hpart]
  exact List.append_cancel_left hsplit

theorem length_dropWhile_isIndent (onLine : List Char) :
    (onLine.dropWhile isIndent).length = onLine.length - (onLine.takeWhile isIndent).length := by
  have hpart := List.takeWhile_append_dropWhile (p := isIndent) (l := onLine)
  have hlength := congrArg List.length hpart
  rw [List.length_append] at hlength
  omega

theorem getElem?_trimEnd {first rest : List Char} (hrest : rest.all isBlank = false) :
    (trimEnd (first ++ rest))[first.length]? = rest.head? := by
  have hfront : trimEnd (first ++ rest) = first ++ trimEnd rest := by
    have hreversed : rest.reverse.dropWhile isBlank ≠ [] := by
      rw [Ne, List.dropWhile_eq_nil_iff]
      simpa using hrest
    rw [trimEnd, trimEnd, List.reverse_append, List.dropWhile_append, if_neg (by simpa using hreversed)]
    simp
  have hne : trimEnd rest ≠ [] := fun h => by
    have hall := (List.rdropWhile_eq_nil_iff (p := isBlank)).mp h
    simp only [List.all_eq_false] at hrest
    obtain ⟨c, hc, hblank⟩ := hrest
    exact hblank (hall c hc)
  obtain ⟨stop, hstop⟩ := List.rdropWhile_prefix (p := isBlank) rest
  obtain ⟨c, shown, hshown⟩ := List.exists_cons_of_ne_nil hne
  have hhead : rest.head? = some c := by
    rw [← hstop]
    show (trimEnd rest ++ stop).head? = some c
    rw [hshown]
    rfl
  rw [hfront, List.getElem?_append_right (Nat.le_refl _), Nat.sub_self, hshown, hhead]
  rfl

theorem length_trimEnd_le {first rest : List Char} (hrest : rest.all isBlank = true) :
    (trimEnd (first ++ rest)).length ≤ first.length := by
  have hblank : ∀ c ∈ rest.reverse, isBlank c = true := by simpa using hrest
  rw [trimEnd, List.reverse_append, List.dropWhile_append_of_pos hblank, List.length_reverse]
  exact Nat.le_trans (List.dropWhile_sublist _).length_le (by simp)

end Text

/-! ### Lines with a caret -/

namespace Diagnostic

/-- The rendered text ends with the line that has `onLine` before a place and `rest` from the place on, under its
number and without its indentation and the blanks at its end, and with a caret on a line of its own.  Above the
caret is the character at the place, or only blanks are left of the line from the place on and the line that is
shown does not reach up to the caret. -/
def Points (rendered : String) (number : Nat) (onLine rest : List Char) : Prop :=
  ∃ heading front : String,
    let shown := toString number ++ " | " ++
      String.ofList (Text.trimEnd ((onLine ++ rest).dropWhile Text.isIndent))
    rendered = heading ++ "\n" ++ shown ++ "\n" ++ front ++ "^\n" ∧
      (∀ c ∈ front.toList, c = ' ' ∨ c = '|' ∨ c = '-') ∧
      if rest.all Text.isBlank then shown.length ≤ front.length
      else shown.toList[front.length]? = rest.head?

theorem alignRight?_of_le {fill : Char} {width : Nat} (hwidth : width ≤ widthLimit) (text : String) :
    alignRight? fill width text = .ok ("".pushn fill (width - text.length) ++ text) :=
  if_neg (Nat.not_lt.mpr hwidth)

theorem length_toString_le {number : Nat} (hnumber : number ≤ Position.limit) :
    (toString number).length + 2 ≤ widthLimit := by
  have hdigits : number.repr.length ≤ 10 := by
    rw [Nat.length_repr_le_iff (by decide)]
    exact Nat.lt_of_le_of_lt hnumber (by decide)
  exact Nat.le_trans (Nat.add_le_add_right hdigits 2) (by decide)

namespace Excerpt

theorem ofLocation?_eq (number : Nat) {onLine rest : List Char}
    (hrest : ∀ c ∈ rest.head?, Text.isIndent c = false) :
    ofLocation? ⟨number, onLine ++ rest, Text.byteLength onLine⟩ =
      .ok ⟨number, Text.trimEnd (onLine.dropWhile Text.isIndent ++ rest),
        (onLine.dropWhile Text.isIndent).length⟩ := by
  have hsplit : Text.splitAtByte? (onLine ++ rest) (Text.byteLength onLine) = .ok (onLine, rest) :=
    Text.splitAtByte?_eq_ok_iff.mpr ⟨rfl, rfl⟩
  simp only [ofLocation?, hsplit, Text.takeWhile_isIndent hrest, Text.dropWhile_isIndent hrest,
    Text.length_dropWhile_isIndent]
  rfl

theorem display?_eq (e : Excerpt) (hnumber : e.number ≤ Position.limit) :
    e.display? = if widthLimit ≤ e.caret then .error .tooWide else
      .ok ("".pushn ' ' ((toString e.number).length + 1) ++ "|" ++ "\n" ++ toString e.number ++ " | " ++
        String.ofList e.shown ++ "\n" ++ ("".pushn ' ' ((toString e.number).length + 1) ++ "|") ++ " " ++
        ("".pushn '-' e.caret ++ "^") ++ "\n") := by
  unfold display?
  simp only [alignRight?_of_le (length_toString_le hnumber)]
  by_cases hcaret : widthLimit ≤ e.caret
  · have hwide : widthLimit < e.caret + 1 := Nat.lt_succ_of_le hcaret
    rw [if_pos hcaret]
    simp only [alignRight?, if_pos hwide]
    rfl
  · have hfits : e.caret + 1 ≤ widthLimit := Nat.lt_of_not_le hcaret
    rw [if_neg hcaret]
    simp only [alignRight?_of_le hfits]
    rfl

end Excerpt

theorem points_display (heading : String) (number : Nat) {onLine rest : List Char}
    (hrest : ∀ c ∈ rest.head?, Text.isIndent c = false) {caret : Nat}
    (hcaret : caret = (onLine.dropWhile Text.isIndent).length) :
    Points (heading ++ ("".pushn ' ' ((toString number).length + 1) ++ "|" ++ "\n" ++ toString number ++ " | " ++
        String.ofList (Text.trimEnd (onLine.dropWhile Text.isIndent ++ rest)) ++ "\n" ++
        ("".pushn ' ' ((toString number).length + 1) ++ "|") ++ " " ++ ("".pushn '-' caret ++ "^") ++ "\n"))
      number onLine rest := by
  refine ⟨heading ++ ("".pushn ' ' ((toString number).length + 1) ++ "|"),
    "".pushn ' ' ((toString number).length + 1) ++ "|" ++ " " ++ "".pushn '-' caret, ?_, ?_, ?_⟩
  · rw [Text.dropWhile_isIndent hrest]
    simp only [String.append_assoc]
    rfl
  · intro c hc
    simp only [String.toList_append, Text.toList_pushn, List.mem_append, List.mem_replicate] at hc
    rcases hc with ((⟨-, rfl⟩ | hbar) | hblank) | ⟨-, rfl⟩
    · exact .inl rfl
    · exact .inr (.inl (List.mem_singleton.mp hbar))
    · exact .inl (List.mem_singleton.mp hblank)
    · exact .inr (.inr rfl)
  · have hfront : ("".pushn ' ' ((toString number).length + 1) ++ "|" ++ " " ++ "".pushn '-' caret).length =
        (toString number ++ " | ").toList.length + (onLine.dropWhile Text.isIndent).length := by
      simp only [String.length_append, String.length_pushn, String.length_toList, hcaret]
      show 0 + ((toString number).length + 1) + 1 + 1 + (0 + _) = (toString number).length + 3 + _
      omega
    rw [Text.dropWhile_isIndent hrest, hfront]
    split
    · rename_i hblank
      rw [String.length_append, String.length_ofList, ← String.length_toList]
      exact Nat.add_le_add_left (Text.length_trimEnd_le hblank) _
    · rename_i hshown
      rw [String.toList_append, String.toList_ofList, List.getElem?_append_right (Nat.le_add_right _ _),
        Nat.add_sub_cancel_left]
      exact Text.getElem?_trimEnd (by simpa using hshown)

theorem renderOn_of_locateFrom (d : Diagnostic) (file : String) {lines : List (List Char)} {number : Nat}
    {onLine rest : List Char} (hrest : ∀ c ∈ rest.head?, Text.isIndent c = false)
    (hnumber : number ≤ Position.limit) (hplace : Text.locateFrom 1 d.span.start.offset lines =
      some ⟨number, onLine ++ rest, Text.byteLength onLine⟩) :
    (widthLimit ≤ (onLine.dropWhile Text.isIndent).length → d.renderOn lines file = .error .tooWide) ∧
    ((onLine.dropWhile Text.isIndent).length < widthLimit →
      ∃ rendered, d.renderOn lines file = .ok rendered ∧ Points rendered number onLine rest) := by
  have hdisplay := Excerpt.display?_eq ⟨number, Text.trimEnd (onLine.dropWhile Text.isIndent ++ rest),
    (onLine.dropWhile Text.isIndent).length⟩ hnumber
  unfold renderOn
  simp only [hplace, Excerpt.ofLocation?_eq number hrest, bind, Except.bind, hdisplay]
  constructor
  · intro hwide
    simp only [if_pos hwide]
  · intro hfits
    simp only [if_neg (Nat.not_le.mpr hfits)]
    exact ⟨_, rfl, points_display _ number hrest rfl⟩

/-- The diagnostic starts on the line that it is rendered with, and not in its indentation.  It is rendered, and its
caret is at the character where it starts or past the end of the line that is shown, unless it starts more columns
behind the indentation than can be filled. -/
def CaretAtStart (d : Diagnostic) (source file : String) : Prop :=
  ∃ earlier onLine rest later, Text.IsLine source.toList d.span.start.line earlier (onLine ++ rest) later ∧
    Text.byteLength (earlier ++ onLine) = d.span.start.offset ∧
    ((onLine ++ rest).takeWhile Text.isIndent).length ≤ onLine.length ∧
    match d.render source file with
    | .ok rendered =>
        onLine.length - ((onLine ++ rest).takeWhile Text.isIndent).length < widthLimit ∧
          Points rendered d.span.start.line onLine rest
    | .error fault =>
        widthLimit ≤ onLine.length - ((onLine ++ rest).takeWhile Text.isIndent).length ∧ fault = .tooWide

/-- The caret of each diagnostic of a parse is where the diagnostic starts. -/
theorem render_points {source : String} (options : Options) (file : String)
    (hsize : source.utf8ByteSize < Position.limit) :
    ∀ d ∈ (parse source options).diagnostics, d.CaretAtStart source file := by
  intro d hd
  obtain ⟨before, behind, htext, hstart, hbegins⟩ := parse_begins source options d hd
  obtain ⟨earlier, onLine, rest, later, hcut, hbehind, -, hline, hplace⟩ := Text.exists_lineAt? htext
  have hoffset : d.span.start.offset = Text.byteLength before := by
    rw [hstart, Text.advancedBy_offset]
    exact Nat.zero_add _
  have hrest : ∀ c ∈ rest.head?, Text.isIndent c = false := by
    intro c hc
    apply hbegins
    rw [hbehind, Option.mem_def, List.head?_append, Option.mem_def.mp hc]
    rfl
  have hindent : (onLine.takeWhile Text.isIndent).length ≤ onLine.length :=
    (List.takeWhile_sublist _).length_le
  have hnumber : d.span.start.line ≤ Position.limit := by
    have hreached := (Position.reached_origin.advancedBy before).line
    rw [← hstart, hoffset] at hreached
    rw [← Text.byteLength_toList, htext, Text.byteLength_append] at hsize
    omega
  rw [← hstart] at hline hplace
  obtain ⟨hwide, hfits⟩ := d.renderOn_of_locateFrom file hrest hnumber (hoffset ▸ hplace)
  refine ⟨earlier, onLine, rest, later, hline, by rw [hoffset, hcut], ?_, ?_⟩
  · rwa [Text.takeWhile_isIndent hrest]
  · rw [Text.takeWhile_isIndent hrest, ← Text.length_dropWhile_isIndent, render]
    by_cases hcaret : widthLimit ≤ (onLine.dropWhile Text.isIndent).length
    · rw [hwide hcaret]
      exact ⟨hcaret, rfl⟩
    · obtain ⟨rendered, hrender, hpoints⟩ := hfits (Nat.lt_of_not_le hcaret)
      rw [hrender]
      exact ⟨Nat.lt_of_not_le hcaret, hpoints⟩

theorem render_points_indented :
    "\ta = é +  \n".utf8ByteSize < Position.limit ∧ (parse "\ta = é +  \n" {}).diagnostics.length = 2 ∧
      ∀ d ∈ (parse "\ta = é +  \n" {}).diagnostics, d.CaretAtStart "\ta = é +  \n" "main.ejs" := by
  have hsize : "\ta = é +  \n".utf8ByteSize < Position.limit := by decide
  exact ⟨hsize, by decide +kernel, render_points {} "main.ejs" hsize⟩

/-! ### A caret that is too far to the right -/

def spaces (n : Nat) : List Char := ';' :: List.replicate (n + 1) ' '

theorem advancedBy_replicate (p : Position) (n : Nat) :
    p.advancedBy (List.replicate n ' ') = ⟨p.offset + n, p.line, p.column + n⟩ := by
  have hbytes : ∀ n, Text.byteLength (List.replicate n ' ') = n := by
    intro n
    induction n with
    | zero => rfl
    | succ n ih =>
        rw [List.replicate_succ, Text.byteLength_cons, ih]
        exact Nat.add_comm 1 n
  have hplain : '\n' ∉ List.replicate n ' ' := fun hmem => absurd (List.eq_of_mem_replicate hmem) (by decide)
  ext
  · rw [Text.advancedBy_offset, hbytes]
  · rw [Position.line_advancedBy, List.count_eq_zero_of_not_mem hplain]
    rfl
  · rw [Text.column_advancedBy hplain, List.length_replicate]

theorem advancedBy_spaces (n : Nat) : Position.origin.advancedBy (spaces n) = ⟨n + 2, 1, n + 3⟩ := by
  have hbehind := advancedBy_replicate ⟨1, 1, 2⟩ (n + 1)
  rw [show 1 + (n + 1) = n + 2 by omega, show 2 + (n + 1) = n + 3 by omega] at hbehind
  exact hbehind

theorem byteLength_spaces (n : Nat) : Text.byteLength (spaces n) = n + 2 := by
  have hoffset := Text.advancedBy_offset Position.origin (spaces n)
  rw [advancedBy_spaces] at hoffset
  exact (hoffset.trans (Nat.zero_add _)).symm

theorem exists_tokens_spaces (n : Nat) : ∃ blank span,
    Scan.tokens Position.origin (spaces n ++ [')']) =
      [⟨.semicolon, ";", ⟨⟨0, 1, 1⟩, ⟨1, 1, 2⟩⟩⟩, ⟨.whitespace, blank, span⟩,
        ⟨.rightParen, ")", ⟨⟨n + 2, 1, n + 3⟩, ⟨n + 3, 1, n + 4⟩⟩⟩, Token.endOfFile ⟨n + 3, 1, n + 4⟩] := by
  have hrun : Scan.runLength Scan.isSpacing (List.replicate n ' ' ++ [')']) = n := by
    have hspaces : ∀ c ∈ List.replicate n ' ', Scan.isSpacing c = true := by
      intro c hc
      rw [List.eq_of_mem_replicate hc]
      rfl
    rw [Scan.runLength, List.takeWhile_append_of_pos hspaces]
    simp [Scan.isSpacing]
  have hsemicolon : Scan.first Position.origin ';' (' ' :: (List.replicate n ' ' ++ [')'])) =
      (⟨.semicolon, ";", ⟨⟨0, 1, 1⟩, ⟨1, 1, 2⟩⟩⟩, 0) := rfl
  have hblank : Scan.first ⟨1, 1, 2⟩ ' ' (List.replicate n ' ' ++ [')']) =
      (⟨.whitespace, String.ofList (List.replicate (n + 1) ' '), ⟨⟨1, 1, 2⟩, ⟨n + 2, 1, n + 3⟩⟩⟩, n) := by
    have hclass : Scan.classify ' ' (List.replicate n ' ' ++ [')']) = (.whitespace, n) := by
      rw [Scan.classify, if_pos (show Scan.isSpacing ' ' = true from rfl), hrun]
    have hend : Position.advancedBy ⟨1, 1, 2⟩ (List.replicate (n + 1) ' ') = ⟨n + 2, 1, n + 3⟩ :=
      advancedBy_spaces n
    simp only [Scan.first, hclass, List.take_left' List.length_replicate, ← List.replicate_succ, hend]
  refine ⟨String.ofList (List.replicate (n + 1) ' '), ⟨⟨1, 1, 2⟩, ⟨n + 2, 1, n + 3⟩⟩, ?_⟩
  rw [spaces, List.replicate_succ, List.cons_append, List.cons_append, Scan.tokens_cons, hsemicolon,
    List.drop_zero, Scan.tokens_cons, hblank, List.drop_left' List.length_replicate, Scan.tokens_cons]
  rfl

theorem starts_spaces (n : Nat) :
    (parse (String.ofList (spaces n ++ [')'])) {}).diagnostics.map (·.span.start) = [⟨n + 2, 1, n + 3⟩] := by
  obtain ⟨blank, span, htokens⟩ := exists_tokens_spaces n
  rw [parse_eq_parseTokens, String.toList_ofList, htokens]
  rfl

theorem render_spaces {n : Nat} (hwide : widthLimit ≤ n + 2) (file : String) :
    ∀ d ∈ (parse (String.ofList (spaces n ++ [')'])) {}).diagnostics,
      d.render (String.ofList (spaces n ++ [')'])) file = .error .tooWide := by
  intro d hd
  have hstart : d.span.start ∈ (parse (String.ofList (spaces n ++ [')'])) {}).diagnostics.map (·.span.start) :=
    List.mem_map_of_mem hd
  rw [starts_spaces, List.mem_singleton] at hstart
  have hplain : '\n' ∉ spaces n ++ [')'] := by
    intro hmem
    simp [spaces] at hmem
  have hplace : Text.locateFrom 1 d.span.start.offset (Text.lines (spaces n ++ [')'])) =
      some ⟨1, spaces n ++ [')'], Text.byteLength (spaces n)⟩ := by
    rw [hstart, Text.lines_of_notMem hplain, Text.locateFrom, byteLength_spaces, Text.byteLength_append,
      byteLength_spaces, if_pos (Nat.le_add_right _ _)]
  have hparen : ∀ c ∈ [')'].head?, Text.isIndent c = false := by
    rintro _ ⟨⟩
    rfl
  obtain ⟨hrender, -⟩ := d.renderOn_of_locateFrom file hparen (by decide) hplace
  rw [render, String.toList_ofList]
  apply hrender
  rw [spaces, List.dropWhile_cons_of_neg (by decide), List.length_cons, List.length_replicate]
  exact hwide

/-- A diagnostic whose caret is behind more columns than can be filled is not rendered. -/
theorem exists_render_tooWide :
    ∃ source : String, source.utf8ByteSize < Position.limit ∧
      ∃ d ∈ (parse source {}).diagnostics, ∀ file, d.render source file = .error .tooWide := by
  refine ⟨String.ofList (spaces 65533 ++ [')']), ?_, ?_⟩
  · rw [← Text.byteLength_toList, String.toList_ofList, Text.byteLength_append, byteLength_spaces]
    decide
  · have hne : (parse (String.ofList (spaces 65533 ++ [')'])) {}).diagnostics ≠ [] := by
      intro hnil
      have hstarts := starts_spaces 65533
      rw [hnil] at hstarts
      cases hstarts
    obtain ⟨d, hd⟩ := List.exists_mem_of_ne_nil _ hne
    exact ⟨d, hd, fun file => render_spaces (by decide) file d hd⟩

end Diagnostic

end ScriptSyntax
