import EarlyBoot.Proofs.Fragment.Concatenation
import EarlyBoot.Proofs.Fragment.Grammar
import EarlyBoot.Proofs.Fragment.Shading

/-!
# Directives

A directive is a line whose first character that is not blank is `#`.  The reader looks for
that character in a piece of code and not in a line.  What stands in front of the first
comment of a directive is skipped, whatever it is.  Behind a block comment that closes on
the line the code is read as on any other line, and so a directive can be taken out of a
text without a trace exactly if there is nothing to be read behind its comments.
-/

namespace EarlyBoot
namespace Fragment

variable {capacity : Nat} {line : Nat}

/-- Nothing but blanks and semicolons. -/
def OnlySeparators (code : List Char) : Prop :=
  ∀ character ∈ code, character = ';' ∨ Text.isBlank character = true

instance : DecidablePred OnlySeparators := fun code =>
  inferInstanceAs (Decidable (∀ character ∈ code, _))

/-- Code in which nothing is declared and nothing is wrong. -/
def IsIdle (code : List Char) : Prop :=
  (Text.trim code).head? = some '#' ∨ OnlySeparators code

instance : DecidablePred IsIdle := fun code =>
  inferInstanceAs (Decidable ((Text.trim code).head? = some '#' ∨ OnlySeparators code))

/-- The text behind a line has these lines.  A line end stands in front of them, and a
carriage return at the end of the line would belong to a line feed. -/
inductive EndsRow (row : List Char) : List Char → List (List Char) → Prop where
  | last : EndsRow row [] []
  | lineFeed (later : List Char) (plain : row.getLast? ≠ some '\r') :
      EndsRow row ('\n' :: later) (Text.lines later)
  | carriageReturn (later : List Char) :
      EndsRow row ('\r' :: '\n' :: later) (Text.lines later)

/-- A line whose first character that is not blank is `#`. -/
structure IsDirective (row : List Char) : Prop where
  noLineFeed : '\n' ∉ row
  marked : (Text.trimStart row).head? = some '#'

/-- No block comment is open behind a text. -/
def EndsInCode (text : String) : Prop :=
  (shadeLines false (Text.lines text.toList)).2 = false

/-- What is left of a line without the text in front of its first comment. -/
def fromComment (row : String) : String :=
  match firstComment row.toList with
  | .lineEnd => ""
  | .lineComment _ => ""
  | .blockComment _ rest => "/*" ++ String.ofList rest

/-- The opening of the block comment that a line leaves open, if it leaves one open. -/
def openingOf (row : String) : String :=
  if (shadeLine false row.toList).2 then "/*" else ""

section Idle

variable {registry next : AliasRegistry capacity} {code : List Char}

theorem readStatements_of_onlySeparators (separators : OnlySeparators code) (line : Nat)
    (registry : AliasRegistry capacity) : readStatements line registry code = .ok registry := by
  induction code using code_induction with
  | last rest isLast =>
      have blank : AllBlank rest := fun character member =>
        (separators character member).resolve_left fun isMark => isLast (isMark ▸ member)
      rw [readStatements_of_not_mem _ _ isLast, endCode, if_pos (Text.trim_eq_nil_iff.mpr blank)]
  | next statement later isFirst ih =>
      rw [OnlySeparators, List.forall_mem_append, List.forall_mem_cons] at separators
      have blank : AllBlank statement := fun character member =>
        (separators.1 character member).resolve_left fun isMark => isFirst (isMark ▸ member)
      rw [readStatements_append_semicolon _ _ isFirst, readStatement_of_allBlank _ _ blank]
      exact ih separators.2.2

/-- A run that adds no declaration meets nothing but separators. -/
theorem onlySeparators_of_runs {outcome : Except FragmentError (AliasRegistry capacity)}
    (runs : Runs line registry code outcome) (ran : outcome = .ok next)
    (notGrown : next.size ≤ registry.size) : OnlySeparators code := by
  induction runs with
  | done isLast blank => exact fun character member => Or.inr (blank character member)
  | unfinished isLast notBlank => contradiction
  | skip isFirst blank runs ih =>
      rw [OnlySeparators, List.forall_mem_append, List.forall_mem_cons]
      exact ⟨fun character member => Or.inr (blank character member), Or.inl rfl,
        ih ran notGrown⟩
  | @accept registry middle statement later outcome isFirst notBlank judged runs ih =>
      have readLater : readStatements line middle later = .ok next :=
        (readStatements_of_runs runs).trans ran
      have grown : middle.declarations <+: next.declarations :=
        holds_of_readStatements middle.prefix_declared List.prefix_rfl readLater
      cases judged with
      | accepted declares =>
          have longer := grown.length_le
          rw [List.length_append, List.length_singleton] at longer
          rw [AliasRegistry.size, AliasRegistry.size] at notGrown
          omega
  | stop isFirst notBlank judged => contradiction

/-- A piece adds no declaration and has no fault exactly if it is idle. -/
theorem readPiece_eq_ok_self_iff {piece : Piece} :
    readPiece registry piece = .ok registry ↔ IsIdle piece.code := by
  cases skipped : isSkipped (Text.trim piece.code) with
  | true =>
      refine iff_of_true (readPiece_of_isSkipped skipped registry) ?_
      cases code : Text.trim piece.code with
      | nil => exact Or.inr fun character member =>
          Or.inr (Text.trim_eq_nil_iff.mp code character member)
      | cons first rest =>
          rw [code] at skipped
          obtain rfl : first = '#' := by simpa [isSkipped] using skipped
          exact Or.inl (by rw [code]; rfl)
  | false =>
      rw [readPiece_of_not_isSkipped skipped, readStatements_trim]
      constructor
      · intro ran
        exact Or.inr (onlySeparators_of_runs (runs_readStatements _ _ _) ran (Nat.le_refl _))
      · rintro (isMarked | separators)
        · obtain ⟨rest, isCons⟩ := List.head?_eq_some_iff.mp isMarked
          rw [isCons] at skipped
          contradiction
        · exact readStatements_of_onlySeparators separators piece.line registry

theorem foldlM_readPiece_eq_ok_self_iff {pieces : List Piece} :
    pieces.foldlM readPiece registry = .ok registry ↔ ∀ piece ∈ pieces, IsIdle piece.code := by
  induction pieces with
  | nil => simp [pure, Except.pure]
  | cons piece pieces ih =>
      rw [List.foldlM_cons, List.forall_mem_cons, Outcome.bind_eq_ok_iff]
      constructor
      · rintro ⟨middle, ran, ranLater⟩
        have grown := AliasRegistry.prefix_of_readPiece ran
        have keeps : ∀ (before : AliasRegistry capacity) (later : Piece)
            (after : AliasRegistry capacity), middle.declarations <+: before.declarations →
              readPiece before later = .ok after →
                middle.declarations <+: after.declarations :=
          fun _ _ _ longer ran => longer.trans (AliasRegistry.prefix_of_readPiece ran)
        have grownLater := Outcome.holds_of_foldlM_eq_ok keeps List.prefix_rfl ranLater
        obtain rfl : registry = middle :=
          congrArg AliasRegistry.mk (grown.eq_of_length_le grownLater.length_le)
        exact ⟨readPiece_eq_ok_self_iff.mp ran, ih.mp ranLater⟩
      · rintro ⟨idle, idleLater⟩
        exact ⟨registry, readPiece_eq_ok_self_iff.mpr idle, ih.mpr idleLater⟩

end Idle

section Rows

variable {row other following : List Char} {rows : List (List Char)}

theorem EndsRow.of_getLast? (ends : EndsRow row following rows)
    (sameEnd : other.getLast? = some '\r' → row.getLast? = some '\r') :
    EndsRow other following rows := by
  cases ends with
  | last => exact .last
  | lineFeed later plain => exact .lineFeed later fun isLast => plain (sameEnd isLast)
  | carriageReturn later => exact .carriageReturn later

/-- The lines of a text that begins with a row.  An empty row at the end is no line. -/
theorem lines_append_of_endsRow (noLineFeed : '\n' ∉ row) (ends : EndsRow row following rows) :
    Text.lines (row ++ following) = row :: rows ∨
      row = [] ∧ Text.lines (row ++ following) = [] ∧ rows = [] := by
  cases ends with
  | last =>
      cases row with
      | nil => exact Or.inr ⟨rfl, rfl, rfl⟩
      | cons first rest =>
          rw [List.append_nil, Text.lines, Text.Terminated.split_of_not_mem noLineFeed]
          exact Or.inl rfl
  | lineFeed later plain =>
      refine Or.inl ?_
      rw [Text.lines, Text.Terminated.split_append_mark noLineFeed, List.map_cons,
        Text.dropCarriageReturn, if_neg plain]
      rfl
  | carriageReturn later =>
      have noLineFeedBehind : '\n' ∉ row ++ ['\r'] := by simp [noLineFeed]
      have regrouped : row ++ '\r' :: '\n' :: later = row ++ ['\r'] ++ '\n' :: later := by simp
      refine Or.inl ?_
      rw [regrouped, Text.lines, Text.Terminated.split_append_mark noLineFeedBehind,
        List.map_cons, Text.dropCarriageReturn, if_pos (List.getLast?_concat ..),
        List.dropLast_concat]
      rfl

theorem readScanned_cons (line : Nat) (openedAt : Option Nat)
    (registry : AliasRegistry capacity) (row : List Char) (rows : List (List Char)) :
    readScanned registry (scanLines line openedAt (row :: rows)) =
      (scanLine line openedAt row).1.foldlM readPiece registry >>= fun next =>
        readScanned next (scanLines (line + 1) (scanLine line openedAt row).2 rows) := by
  rw [scanLines_cons, readScanned, List.foldlM_append, bind_assoc]
  rfl

/-- A text without code and comments adds nothing, with or without a line for it. -/
theorem readScanned_row (noLineFeed : '\n' ∉ row) (ends : EndsRow row following rows)
    (line : Nat) (registry : AliasRegistry capacity) :
    readScanned registry (scanLines line none (Text.lines (row ++ following))) =
      readScanned registry (scanLines line none (row :: rows)) := by
  rcases lines_append_of_endsRow noLineFeed ends with isRow | ⟨rfl, noLine, rfl⟩
  · rw [isRow]
  · rw [noLine, readScanned_cons, scanLine_of_not_mem List.not_mem_nil]
    rfl

/-- Any part of a directive from its start on is skipped. -/
theorem isSkipped_trim_of_directive {code : List Char} (directive : IsDirective row)
    (isPrefix : code <+: row) : isSkipped (Text.trim code) = true := by
  obtain ⟨rest, isRest⟩ := List.head?_eq_some_iff.mp directive.marked
  have skipped : isSkipped (Text.trimStart row) = true := by
    rw [isRest]
    rfl
  obtain ⟨front, blank, whole⟩ := Text.exists_eq_append_trimStart code
  rw [whole, Text.trim_append_of_blank_front blank]
  exact isSkipped_trim_of_prefix skipped (Text.trimStart_prefix_trimStart isPrefix)

end Rows

section Texts

variable {first row following : String} {rows : List (List Char)}

theorem isNone_scan (inCode : EndsInCode first) : (scan first.toList).2 = none := by
  have closed : (scan first.toList).2.isSome = false :=
    (isSome_scanLines 1 none (Text.lines first.toList)).trans inCode
  simpa using closed

/-- Reading goes on behind a text that ends in code and with a line. -/
theorem read_append_of_inCode (endsLine : EndsLine first) (inCode : EndsInCode first)
    (second : String) :
    read capacity (first ++ second) =
      read capacity first >>= fun registry =>
        readScanned registry
          (scanLines (lineCount first + 1) none (Text.lines second.toList)) := by
  have closed := isNone_scan inCode
  rw [read_eq, read_eq, readScanned, readScanned, scan_append endsLine, closed,
    List.foldlM_append, bind_assoc, bind_assoc]
  rfl

/-- Reading takes the pieces of one row between what is in front of it and what follows. -/
theorem read_row (endsLine : EndsLine first) (inCode : EndsInCode first)
    (noLineFeed : '\n' ∉ row.toList) (ends : EndsRow row.toList following.toList rows) :
    read capacity (first ++ row ++ following) =
      read capacity first >>= fun registry =>
        (scanLine (lineCount first + 1) none row.toList).1.foldlM readPiece registry >>=
          fun next => readScanned next (scanLines (lineCount first + 2)
            (scanLine (lineCount first + 1) none row.toList).2 rows) := by
  rw [String.append_assoc, read_append_of_inCode endsLine inCode, String.toList_append]
  simp only [readScanned_row noLineFeed ends, readScanned_cons]

theorem toList_fromComment {code rest : List Char}
    (isFirst : firstComment row.toList = .blockComment code rest) :
    (fromComment row).toList = blockOpening ++ rest := by
  rw [fromComment, isFirst]
  simp [blockOpening]

/-- The text in front of the first comment of a directive makes up one piece, and that is
skipped. -/
theorem exists_scanLine_fromComment (directive : IsDirective row.toList) (line : Nat) :
    ∃ code pieces stillOpen, isSkipped (Text.trim code) = true ∧
      scanLine line none row.toList = (⟨line, code⟩ :: pieces, stillOpen) ∧
      scanLine line none (fromComment row).toList = (⟨line, []⟩ :: pieces, stillOpen) := by
  have nothing : scanLine line none [] = ([⟨line, []⟩], none) :=
    scanLine_of_not_mem List.not_mem_nil line
  cases isFirst : firstComment row.toList with
  | lineEnd =>
      refine ⟨row.toList, [], none, isSkipped_trim_of_directive directive List.prefix_rfl, ?_, ?_⟩
      · rw [scanLine, isFirst]
      · rw [fromComment, isFirst]
        exact nothing
  | lineComment code =>
      have isPrefix := prefix_of_firstComment_lineComment isFirst
      refine ⟨code, [], none, isSkipped_trim_of_directive directive isPrefix, ?_, ?_⟩
      · rw [scanLine, isFirst]
      · rw [fromComment, isFirst]
        exact nothing
  | blockComment code rest =>
      have whole := eq_append_of_firstComment_blockComment isFirst
      have isPrefix : code <+: row.toList := by
        rw [whole, List.append_assoc]
        exact List.prefix_append _ _
      refine ⟨code, (scanLine line (some line) rest).1, (scanLine line (some line) rest).2,
        isSkipped_trim_of_directive directive isPrefix, ?_, ?_⟩
      · rw [scanLine.eq_2, isFirst]
      · rw [toList_fromComment isFirst]
        exact scanLine_append_blockOpening List.not_mem_nil line rest

theorem fromComment_suffix (row : String) : (fromComment row).toList <:+ row.toList := by
  cases isFirst : firstComment row.toList with
  | lineEnd =>
      rw [fromComment, isFirst]
      exact List.nil_suffix
  | lineComment code =>
      rw [fromComment, isFirst]
      exact List.nil_suffix
  | blockComment code rest =>
      rw [toList_fromComment isFirst, eq_append_of_firstComment_blockComment isFirst,
        List.append_assoc]
      exact List.suffix_append code _

theorem plain_openingOf (row : String) :
    '\n' ∉ (openingOf row).toList ∧ (openingOf row).toList.getLast? ≠ some '\r' := by
  unfold openingOf
  split
  · decide
  · decide

/-- The opening alone leaves open what the line leaves open. -/
theorem scanLine_openingOf (line : Nat) (row : String) :
    scanLine line none (openingOf row).toList =
      ([⟨line, []⟩], (scanLine line none row.toList).2) := by
  have isOpen := isSome_scanLine line none row.toList
  rw [Option.isSome_none] at isOpen
  cases state : (scanLine line none row.toList).2 with
  | none =>
      rw [state] at isOpen
      rw [openingOf, ← isOpen]
      exact scanLine_of_not_mem List.not_mem_nil line
  | some start =>
      rw [state] at isOpen
      rw [openingOf, ← isOpen, Option.isSome_some, if_pos rfl]
      rw [← walk_atStart] at state
      obtain ⟨isComment, -⟩ | ⟨-, -, -, rfl, -⟩ := exists_opening_of_walk state
      · contradiction
      · have opened := scanLine_append_blockOpening List.not_mem_nil start []
        rw [scanLine_of_not_closed (not_infix_blockClosing List.not_mem_nil)] at opened
        exact opened

/-- Some text behind a row closes the comment that is open there and holds nothing else. -/
theorem exists_closing (capacity : Nat) (stillOpen : Option Nat) :
    ∃ following rows, (∀ row, EndsRow row following rows) ∧
      ∀ (line : Nat) (registry : AliasRegistry capacity),
        readScanned registry (scanLines line stillOpen rows) = .ok registry := by
  cases stillOpen with
  | none => exact ⟨[], [], fun row => .last, fun line registry => rfl⟩
  | some start =>
      refine ⟨_, _, fun row => .carriageReturn blockClosing, ?_⟩
      intro line registry
      have closed : scanLine line (some start) blockClosing = ([⟨line, []⟩], none) := by
        have noClosing : ¬ blockClosing <:+: [] ++ ['*'] := not_infix_blockClosing (by decide)
        have scanned := scanLine_append_blockClosing noClosing line start []
        rw [scanLine_of_not_mem List.not_mem_nil] at scanned
        exact scanned
      change readScanned registry (scanLines line (some start) [blockClosing]) = _
      rw [readScanned_cons, closed]
      rfl

/-- Reading with the opening in the place of a row takes no pieces of the row. -/
theorem read_openingOf (endsLine : EndsLine first) (inCode : EndsInCode first)
    (ends : EndsRow row.toList following.toList rows) :
    read capacity (first ++ openingOf row ++ following) =
      read capacity first >>= fun registry =>
        readScanned registry (scanLines (lineCount first + 2)
          (scanLine (lineCount first + 1) none row.toList).2 rows) := by
  obtain ⟨noLineFeed, plain⟩ := plain_openingOf row
  have endsOpening : EndsRow (openingOf row).toList following.toList rows :=
    ends.of_getLast? fun isLast => absurd isLast plain
  rw [read_row endsLine inCode noLineFeed endsOpening, scanLine_openingOf]
  rfl

/-- A directive is read as what is left of it from its first comment on. -/
theorem read_fromComment (endsLine : EndsLine first) (inCode : EndsInCode first)
    (directive : IsDirective row.toList)
    (ends : EndsRow row.toList following.toList rows) :
    read capacity (first ++ row ++ following) =
      read capacity (first ++ fromComment row ++ following) := by
  obtain ⟨code, pieces, stillOpen, skipped, scanned, scannedRest⟩ :=
    exists_scanLine_fromComment directive (lineCount first + 1)
  have isSuffix := fromComment_suffix row
  have noLineFeed : '\n' ∉ (fromComment row).toList :=
    fun member => directive.noLineFeed (isSuffix.subset member)
  have endsRest : EndsRow (fromComment row).toList following.toList rows := by
    refine ends.of_getLast? fun isLast => ?_
    obtain ⟨front, whole⟩ := isSuffix
    rw [← whole, List.getLast?_append, isLast]
    rfl
  have skip : ∀ registry : AliasRegistry capacity,
      readPiece registry ⟨lineCount first + 1, code⟩ = .ok registry :=
    readPiece_of_isSkipped skipped
  rw [read_row endsLine inCode directive.noLineFeed ends,
    read_row endsLine inCode noLineFeed endsRest, scanned, scannedRest]
  simp only [List.foldlM_cons, skip]
  rfl

/-- If a line can be taken out of a text, whatever follows, its pieces are idle. -/
theorem isIdle_of_read_openingOf {registry : AliasRegistry capacity}
    (endsLine : EndsLine first) (inCode : EndsInCode first)
    (noLineFeed : '\n' ∉ row.toList) (ran : read capacity first = .ok registry)
    (takenOut : ∀ following rows, EndsRow row.toList following.toList rows →
      read capacity (first ++ row ++ following) =
        read capacity (first ++ openingOf row ++ following)) :
    ∀ piece ∈ (scanLine (lineCount first + 1) none row.toList).1, IsIdle piece.code := by
  -- The text that follows is one that is read into any registry without a change.
  obtain ⟨following, rows, ends, closes⟩ := exists_closing capacity
    (scanLine (lineCount first + 1) none row.toList).2
  have endsHere : EndsRow row.toList (String.ofList following).toList rows := by
    rw [String.toList_ofList]
    exact ends row.toList
  have same := takenOut (String.ofList following) rows endsHere
  rw [read_row endsLine inCode noLineFeed endsHere, read_openingOf endsLine inCode endsHere,
    ran] at same
  have unchanged := same.trans (closes (lineCount first + 2) registry)
  obtain ⟨base, isBase, ranBehind⟩ := Outcome.bind_eq_ok_iff.mp unchanged
  obtain rfl : registry = base := Except.ok.inj isBase
  obtain ⟨next, ranRow, closed⟩ := Outcome.bind_eq_ok_iff.mp ranBehind
  rw [closes] at closed
  injection closed with isNext
  rw [isNext] at ranRow
  exact foldlM_readPiece_eq_ok_self_iff.mp ranRow

/-- What stands in front of the first comment of a directive is skipped, whatever follows.
The line can be taken out of every text, but for a comment that it leaves open, exactly if
the text in front of it cannot be read or nothing is to be read behind its comments: code
there is a further directive or holds nothing but blanks and semicolons. -/
theorem read_directive (capacity : Nat) {first row : String} (endsLine : EndsLine first)
    (inCode : EndsInCode first) (directive : IsDirective row.toList) :
    (∀ following rows, EndsRow row.toList following.toList rows →
      read capacity (first ++ row ++ following) =
        read capacity (first ++ fromComment row ++ following)) ∧
    ((∀ following rows, EndsRow row.toList following.toList rows →
        read capacity (first ++ row ++ following) =
          read capacity (first ++ openingOf row ++ following)) ↔
      (∃ cause, read capacity first = .error cause) ∨
        ∀ piece ∈ (scanLine (lineCount first + 1) none row.toList).1, IsIdle piece.code) := by
  refine ⟨fun following rows ends => read_fromComment endsLine inCode directive ends, ?_, ?_⟩
  · intro takenOut
    cases ran : read capacity first with
    | error cause => exact Or.inl ⟨cause, rfl⟩
    | ok registry =>
        have idle := isIdle_of_read_openingOf endsLine inCode directive.noLineFeed ran takenOut
        exact Or.inr idle
  · intro unread following rows ends
    rw [read_row endsLine inCode directive.noLineFeed ends,
      read_openingOf endsLine inCode ends]
    rcases unread with ⟨cause, failed⟩ | idle
    · rw [failed]
      rfl
    · simp only [foldlM_readPiece_eq_ok_self_iff.mpr idle]
      rfl

/-- Behind the first comment of a directive stands another one, and behind that a comment
that goes on in the next line. -/
theorem read_directive_two_comments :
    let first := "PROVIDE(__pi_a = b);\n"
    let row := " #if A /* ; */ # B; /* ;"
    let following := "\n; */ PROVIDE(__pi_c = d);"
    let registry : AliasRegistry 2 := ⟨[⟨⟨"__pi_a"⟩, ⟨"b"⟩⟩, ⟨⟨"__pi_c"⟩, ⟨"d"⟩⟩]⟩
    EndsLine first ∧ EndsInCode first ∧ IsDirective row.toList ∧
      read 2 (first ++ row ++ following) = read 2 (first ++ "/* ; */ # B; /* ;" ++ following) ∧
      read 2 (first ++ row ++ following) = read 2 (first ++ "/*" ++ following) ∧
      read 2 (first ++ row ++ following) = .ok registry := by
  intro first row following registry
  have endsLine : EndsLine first := Or.inr ⟨"PROVIDE(__pi_a = b);", rfl⟩
  have inCode : EndsInCode first := by
    rw [EndsInCode]
    decide
  have directive : IsDirective row.toList := ⟨by decide, by decide⟩
  have isFollowing : following.toList = '\n' :: "; */ PROVIDE(__pi_c = d);".toList := by
    decide
  have ends : EndsRow row.toList following.toList
      (Text.lines "; */ PROVIDE(__pi_c = d);".toList) := by
    rw [isFollowing]
    exact .lineFeed _ (by decide)
  have idle : ∀ piece ∈ (scanLine (lineCount first + 1) none row.toList).1,
      IsIdle piece.code := by
    rw [← walk_atStart]
    decide
  have isRest : fromComment row = "/* ; */ # B; /* ;" := by decide +kernel
  have isOpening : openingOf row = "/*" := by decide +kernel
  obtain ⟨sameRest, takenOut⟩ := read_directive 2 endsLine inCode directive
  have restRead := sameRest following _ ends
  have openingRead := takenOut.mpr (Or.inr idle) following _ ends
  rw [isRest] at restRead
  rw [isOpening] at openingRead
  have ran : read 2 (first ++ row ++ following) = .ok registry := by
    rw [read_eq_lines]
    decide +kernel
  exact ⟨endsLine, inCode, directive, restRead, openingRead, ran⟩

/-- A directive leaves no comment open, and behind its comment it is read as a statement
without a semicolon. -/
theorem read_openingOf_ne_define :
    let row := "#define X /* c */ Y"
    IsDirective row.toList ∧ openingOf row = "" ∧
      read 8 (row ++ "\n") = .error (.missingSemicolon 1 "Y") ∧
      read 8 (openingOf row ++ "\n") = .ok .empty := by
  intro row
  have noOpening : openingOf row = "" := by decide
  have failed : read 8 (row ++ "\n") = .error (.missingSemicolon 1 "Y") := by
    rw [read_eq_lines]
    decide +kernel
  have ran : read 8 "\n" = .ok .empty := by
    rw [read_eq_lines]
    decide +kernel
  rw [noOpening]
  exact ⟨⟨by decide, by decide⟩, rfl, failed, ran⟩

end Texts

end Fragment
end EarlyBoot
