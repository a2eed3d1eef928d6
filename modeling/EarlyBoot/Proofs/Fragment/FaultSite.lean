import EarlyBoot.Proofs.Fragment.Concatenation
import EarlyBoot.Proofs.Fragment.Grammar
import EarlyBoot.Proofs.Fragment.Shading

/-!
# Where a fault lies

A fault names a line, and a fault in the form of a statement repeats the statement.  The
reader has the number from a count of lines and the statement from a piece of a piece of a
line; a comment that does not end is found only behind the last line.  Whatever comments
stand in the text, what a fault says can be read off the line that it names.
-/

namespace EarlyBoot
namespace Fragment

variable {capacity line : Nat} {text : String} {fault : FragmentError}

/-- A statement as faults repeat it: not empty, trimmed and without a semicolon. -/
structure IsTrimmed (found : List Char) : Prop where
  notEmpty : found ≠ []
  plainStart : ∀ character ∈ found.head?, Text.isBlank character = false
  plainEnd : ∀ character ∈ found.getLast?, Text.isBlank character = false
  noSemicolon : ';' ∉ found

/-- A line of a text holds a statement, or a part of one, outside of every comment. -/
structure Quotes (text : String) (line : Nat) (found : List Char) : Prop where
  positive : 1 ≤ line
  line_le : line ≤ lineCount text
  trimmed : IsTrimmed found
  noBlockOpening : ¬ blockOpening <:+: found
  noLineOpening : ¬ lineOpening <:+: found
  inLine : ∃ row, (Text.lines text.toList)[line - 1]? = some row ∧ found <:+: row
  inCode : ∃ characters, (shading text)[line - 1]? = some characters ∧
    shaded .code found <:+: characters

/-- Between these parts of a text a block comment opens in code and does not end.  What
stands in front of it is read without a fault. -/
structure NeverCloses (capacity : Nat) (text : String) (before : List (List Char))
    (front rest : List Char) (after : List (List Char)) : Prop where
  lines : Text.lines text.toList = before ++ (front ++ blockOpening ++ rest) :: after
  opensInCode : ∃ characters, characters.map Prod.fst = front ∧
    (shading text)[before.length]? =
      some (characters ++ (shaded .opening blockOpening ++ shaded .comment rest))
  noClosing : ∀ row ∈ rest :: after, ¬ blockClosing <:+: row
  accepted : ∃ registry : AliasRegistry capacity,
    readLines 1 none .empty (before ++ [front]) = .ok registry

/-- What a fault says of a text is so. -/
def PointsInto (capacity : Nat) (text : String) : FragmentError → Prop
  | .malformed line found => Quotes text line found.toList
  | .missingSemicolon line found => Quotes text line found.toList
  | .refused line _ => ∃ statement, Quotes text line statement
  | .unterminatedComment line =>
      ∃ before front rest after, line = before.length + 1 ∧
        NeverCloses capacity text before front rest after

/-- A fault is found in a statement of some line. -/
inductive Blames (line : Nat) (found : List Char) : FragmentError → Prop where
  | malformed : Blames line found (.malformed line (String.ofList found))
  | missingSemicolon : Blames line found (.missingSemicolon line (String.ofList found))
  | refused (cause : AliasError) : Blames line found (.refused line cause)

section Pieces

theorem isTrimmed_trim {statement : List Char} (noSemicolon : ';' ∉ statement)
    (notBlank : ¬ AllBlank statement) : IsTrimmed (Text.trim statement) where
  notEmpty := fun isEmpty => notBlank (Text.trim_eq_nil_iff.mp isEmpty)
  plainStart _ isHead := Text.not_isBlank_of_mem_head?_trim isHead
  plainEnd _ isLast := Text.not_isBlank_of_mem_getLast?_trim isLast
  noSemicolon := fun member => noSemicolon ((Text.trim_infix_self statement).subset member)

/-- A run over some code fails at a statement of the code. -/
theorem exists_blamed_of_runs {registry : AliasRegistry capacity} {code : List Char}
    {outcome : Except FragmentError (AliasRegistry capacity)}
    (runs : Runs line registry code outcome) (failed : outcome = .error fault) :
    ∃ found, IsTrimmed found ∧ found <:+: code ∧ Blames line found fault := by
  induction runs with
  | done isLast blank => contradiction
  | unfinished isLast notBlank =>
      injection failed with isFault
      rw [← isFault]
      exact ⟨_, isTrimmed_trim isLast notBlank, Text.trim_infix_self _, .missingSemicolon⟩
  | skip isFirst blank runs ih =>
      obtain ⟨found, trimmed, inLater, blames⟩ := ih failed
      exact ⟨found, trimmed, List.infix_append_of_infix_right (List.infix_cons inLater), blames⟩
  | accept isFirst notBlank judged runs ih =>
      obtain ⟨found, trimmed, inLater, blames⟩ := ih failed
      exact ⟨found, trimmed, List.infix_append_of_infix_right (List.infix_cons inLater), blames⟩
  | stop isFirst notBlank judged =>
      injection failed with isFault
      rw [isFault] at judged
      refine ⟨_, isTrimmed_trim isFirst notBlank,
        List.infix_append_of_infix_left (Text.trim_infix_self _), ?_⟩
      cases judged with
      | malformed lacks => exact .malformed
      | refused encloses isFirst refuses => exact .refused _

theorem exists_blamed_of_readPiece {registry : AliasRegistry capacity} {piece : Piece}
    (failed : readPiece registry piece = .error fault) :
    ∃ found, IsTrimmed found ∧ found <:+: piece.code ∧ Blames piece.line found fault := by
  cases skipped : isSkipped (Text.trim piece.code) with
  | true =>
      rw [readPiece_of_isSkipped skipped] at failed
      contradiction
  | false =>
      rw [readPiece_of_not_isSkipped skipped, readStatements_trim] at failed
      exact exists_blamed_of_runs (runs_readStatements piece.line registry piece.code) failed

/-- What stands in a piece stands in the code of its line. -/
theorem quotes_of_mem_scan {piece : Piece} {found : List Char}
    (member : piece ∈ (scan text.toList).1) (trimmed : IsTrimmed found)
    (inPiece : found <:+: piece.code) : Quotes text piece.line found := by
  obtain ⟨index, characters, isLine, isShaded, pieceInside⟩ := infix_of_mem_scanLines member
  have inside : shaded .code found <:+: characters := (inPiece.map _).trans pieceInside
  have isRow : (Text.lines text.toList)[index]? = some (characters.map Prod.fst) := by
    rw [← map_fst_shading, List.getElem?_map]
    exact congrArg (Option.map (List.map Prod.fst)) isShaded
  have isIndex : piece.line - 1 = index := by omega
  have inText : index < lineCount text := (List.getElem?_eq_some_iff.mp isRow).1
  have noOpening : ∀ mark, mark = '/' ∨ mark = '*' → ¬ ['/', mark] <:+: found :=
    fun mark opens opening => not_infix_of_mem_shadeLines opens
      (List.mem_of_getElem? isShaded) ((opening.map _).trans inside)
  have inLine : found <:+: characters.map Prod.fst := by
    have mapped := inside.map Prod.fst
    rwa [map_fst_shaded] at mapped
  rw [← isIndex] at isRow isShaded
  exact
    { positive := by omega
      line_le := by omega
      trimmed := trimmed
      noBlockOpening := noOpening '*' (Or.inr rfl)
      noLineOpening := noOpening '/' (Or.inl rfl)
      inLine := ⟨_, isRow, inLine⟩
      inCode := ⟨characters, isShaded, inside⟩ }

theorem pointsInto_of_blames {found : List Char} (quotes : Quotes text line found)
    (blames : Blames line found fault) : PointsInto capacity text fault := by
  cases blames with
  | malformed =>
      rw [PointsInto, String.toList_ofList]
      exact quotes
  | missingSemicolon =>
      rw [PointsInto, String.toList_ofList]
      exact quotes
  | refused cause => exact ⟨found, quotes⟩

end Pieces

section Texts

/-- A comment that is still open behind the last line opened in code, and all statements in
front of it have been read. -/
theorem exists_neverCloses {start : Nat} {registry : AliasRegistry capacity}
    (ran : (scan text.toList).1.foldlM readPiece .empty = .ok registry)
    (isOpen : (scan text.toList).2 = some start) :
    ∃ before front rest after, start = before.length + 1 ∧
      NeverCloses capacity text before front rest after := by
  rcases exists_opening_of_scanLines isOpen with ⟨openInFront, -⟩ |
    ⟨before, front, rest, after, isText, isLine, noClosing, upTo, opens⟩
  · contradiction
  · refine ⟨before, front, rest, after, by omega, isText, opens, noClosing, registry, ?_⟩
    rw [readLines_eq, upTo, ← scan, ran]
    rfl

/-- Faults point at what is wrong.  A statement of another form, one without its semicolon
and one that the registry refuses stand in the line that the fault names, outside of every
comment.  A comment that is not terminated opens in code of the line that the fault names,
nothing closes it, and all statements in front of it are accepted. -/
theorem pointsInto_of_read (failed : read capacity text = .error fault) :
    PointsInto capacity text fault := by
  rw [read_eq] at failed
  rcases Outcome.bind_eq_error_iff.mp failed with inPieces | ⟨registry, ran, atEnd⟩
  · obtain ⟨piece, member, reached, fails⟩ := Outcome.exists_of_foldlM_eq_error inPieces
    obtain ⟨found, trimmed, inPiece, blames⟩ := exists_blamed_of_readPiece fails
    exact pointsInto_of_blames (quotes_of_mem_scan member trimmed inPiece) blames
  · cases isOpen : (scan text.toList).2 with
    | none =>
        rw [isOpen] at atEnd
        contradiction
    | some start =>
        rw [isOpen] at atEnd
        injection atEnd with isFault
        rw [← isFault]
        exact exists_neverCloses ran isOpen

/-- Behind a comment of two lines and a closing in a line comment a statement has no
semicolon.  In the other text the second comment of a line is not closed. -/
theorem pointsInto_of_read_two_comments :
    let unfinished := "/* one\n two */ PROVIDE(__pi_a = b); // */\n PROVIDE( /* ; */"
    let unterminated := "PROVIDE(__pi_a = b); /* ; */ // /*\n/* PROVIDE\n// */ /*/\n//"
    (read 4 unfinished = .error (.missingSemicolon 3 "PROVIDE(") ∧
      Quotes unfinished 3 "PROVIDE(".toList) ∧
    read 4 unterminated = .error (.unterminatedComment 3) ∧
      ∃ before front rest after, 3 = before.length + 1 ∧
        NeverCloses 4 unterminated before front rest after := by
  intro unfinished unterminated
  have failed : read 4 unfinished = .error (.missingSemicolon 3 "PROVIDE(") := by
    rw [read_eq_lines]
    decide +kernel
  have neverEnds : read 4 unterminated = .error (.unterminatedComment 3) := by
    rw [read_eq_lines]
    decide +kernel
  exact ⟨⟨failed, pointsInto_of_read failed⟩, neverEnds, pointsInto_of_read neverEnds⟩

end Texts

end Fragment
end EarlyBoot
