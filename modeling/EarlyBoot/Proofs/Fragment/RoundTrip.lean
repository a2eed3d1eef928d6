import EarlyBoot.Fragment.Render
import EarlyBoot.Proofs.Alias.WellFormed
import EarlyBoot.Proofs.Fragment.Scanning

/-!
# Reading what was written

The names of a well-formed declaration hold no character that the reader gives a
meaning, so that each written statement is read as its own declaration.  The lines
around the statements hold nothing to be read, whatever the guard, as long as it
stays on its line and neither opens nor closes a comment.  A written registry is
therefore read back declaration by declaration, until the room is used up.
-/

namespace EarlyBoot
namespace Fragment

variable {capacity : Nat}

/-- The alias in a statement, up to the equals sign. -/
def paddedName (width : Nat) (declaration : AliasDecl) : List Char :=
  declaration.name.text.toList ++
    List.replicate (width - declaration.name.text.length + 1) ' '

/-- The characters between the parentheses of a statement. -/
def statementArguments (width : Nat) (declaration : AliasDecl) : List Char :=
  paddedName width declaration ++ ['='] ++ ' ' :: declaration.target.text.toList

def keyword : List Char := ['P', 'R', 'O', 'V', 'I', 'D', 'E']

/-- The characters of a statement in front of its semicolon. -/
def statementBody (width : Nat) (declaration : AliasDecl) : List Char :=
  keyword ++ '(' :: (statementArguments width declaration ++ [')'])

theorem toList_statement (width : Nat) (declaration : AliasDecl) :
    (statement width declaration).toList = statementBody width declaration ++ [';'] := by
  unfold statement statementBody statementArguments paddedName padded
  simp only [String.toList_append, String.toList_ofList, List.replicate_succ']
  simp [keyword]

theorem not_mem_statementArguments {width : Nat} {declaration : AliasDecl} {mark : Char}
    (wellFormed : declaration.WellFormed) (foreign : SymbolName.canContinue mark = false)
    (notSpace : mark ≠ ' ') (notEquals : mark ≠ '=') :
    mark ∉ statementArguments width declaration := by
  have notInName := SymbolName.not_mem_of_isValid wellFormed.validName foreign
  have notInTarget := SymbolName.not_mem_of_isValid wellFormed.validTarget foreign
  simp [statementArguments, paddedName, notInName, notInTarget, notSpace, notEquals]

/-- A statement has no character but those of its names and those of its form. -/
theorem not_mem_statementBody (width : Nat) {declaration : AliasDecl} {mark : Char}
    (wellFormed : declaration.WellFormed) (foreign : SymbolName.canContinue mark = false)
    (notInForm : mark ∉ ['(', ' ', '=', ')']) :
    mark ∉ statementBody width declaration := by
  simp only [List.mem_cons, List.not_mem_nil, or_false, not_or] at notInForm
  obtain ⟨notOpening, notSpace, notEquals, notClosing⟩ := notInForm
  have notInArguments : mark ∉ statementArguments width declaration :=
    not_mem_statementArguments wellFormed foreign notSpace notEquals
  have notInKeyword : mark ∉ keyword := by
    intro member
    have letters : keyword.all SymbolName.canContinue = true := by decide
    rw [List.all_eq_true.mp letters mark member] at foreign
    contradiction
  simp [statementBody, notInKeyword, notOpening, notInArguments, notClosing]

theorem not_mem_statement (width : Nat) {declaration : AliasDecl} {mark : Char}
    (wellFormed : declaration.WellFormed) (foreign : SymbolName.canContinue mark = false)
    (notInForm : mark ∉ ['(', ' ', '=', ')', ';']) :
    mark ∉ (statement width declaration).toList := by
  have notInBody : mark ∉ statementBody width declaration :=
    not_mem_statementBody width wellFormed foreign fun member =>
      notInForm (List.mem_append_left [';'] member)
  have notSemicolon : mark ≠ ';' := by
    rintro rfl
    exact notInForm (by decide)
  simp [toList_statement, notInBody, notSemicolon]

theorem arguments?_statementBody (width : Nat) (declaration : AliasDecl) :
    arguments? (statementBody width declaration) =
      some (statementArguments width declaration) := by
  have keyword : afterKeyword? (statementBody width declaration) =
      some ('(' :: (statementArguments width declaration ++ [')'])) := by
    simp [afterKeyword?, statementBody, keyword, Text.after?]
  have opened : Text.trimStart ('(' :: (statementArguments width declaration ++ [')'])) =
      '(' :: (statementArguments width declaration ++ [')']) :=
    Text.trimStart_eq_self (by simp; decide)
  have closed : Text.trimEnd (statementArguments width declaration ++ [')']) =
      statementArguments width declaration ++ [')'] :=
    Text.trimEnd_eq_self (by simp; decide)
  have inner : Text.before? ')' (statementArguments width declaration ++ [')']) =
      some (statementArguments width declaration) :=
    Text.before?_eq_some_iff.mpr rfl
  simp [arguments?, keyword, opened, Text.after?, closed, inner]

theorem blank_of_mem_replicate (count : Nat) :
    ∀ character ∈ List.replicate count ' ', Text.isBlank character = true := by
  intro character member
  rw [List.eq_of_mem_replicate member]
  decide

/-- The two names come back without the blanks around them. -/
theorem names?_statementBody {width : Nat} {declaration : AliasDecl}
    (wellFormed : declaration.WellFormed) :
    names? (statementBody width declaration) =
      some (declaration.name, declaration.target) := by
  have plainName : ∀ character ∈ declaration.name.text.toList,
      Text.isBlank character = false := fun character member =>
    SymbolName.isBlank_eq_false_of_canContinue
      (SymbolName.canContinue_of_mem wellFormed.validName member)
  have plainTarget : ∀ character ∈ declaration.target.text.toList,
      Text.isBlank character = false := fun character member =>
    SymbolName.isBlank_eq_false_of_canContinue
      (SymbolName.canContinue_of_mem wellFormed.validTarget member)
  have notInName : '=' ∉ paddedName width declaration := by
    have absent := SymbolName.not_mem_of_isValid wellFormed.validName
      (by decide : SymbolName.canContinue '=' = false)
    simp [paddedName, absent]
  have divided : Text.cutAt? ['='] (statementArguments width declaration) =
      some (paddedName width declaration, ' ' :: declaration.target.text.toList) := by
    apply Text.cutAt?_append
    rw [List.dropLast_singleton, List.append_nil]
    exact Text.not_infix_of_not_mem List.mem_cons_self notInName
  have left : Text.trim (paddedName width declaration) = declaration.name.text.toList := by
    rw [paddedName, ← List.nil_append declaration.name.text.toList]
    exact Text.trim_append_append (blank_of_mem_replicate 0) plainName
      (blank_of_mem_replicate _)
  have right : Text.trim (' ' :: declaration.target.text.toList) =
      declaration.target.text.toList := by
    rw [← List.append_nil (' ' :: declaration.target.text.toList)]
    exact Text.trim_append_append (blank_of_mem_replicate 1) plainTarget
      (blank_of_mem_replicate 0)
  simp [names?, arguments?_statementBody, divided, left, right]

theorem trim_statementBody (width : Nat) (declaration : AliasDecl) :
    Text.trim (statementBody width declaration) = statementBody width declaration :=
  Text.trim_eq_self (by simp [statementBody, keyword]; decide)
    (by simp [statementBody, List.getLast?_cons]; decide)

theorem trim_toList_statement (width : Nat) (declaration : AliasDecl) :
    Text.trim (statement width declaration).toList =
      (statement width declaration).toList := by
  rw [toList_statement]
  exact Text.trim_eq_self (by simp [statementBody, keyword]; decide) (by simp; decide)

theorem readStatements_statement {width : Nat} {declaration : AliasDecl}
    (wellFormed : declaration.WellFormed) (line : Nat)
    (registry : AliasRegistry capacity) :
    readStatements line registry (statement width declaration).toList =
      (registry.declare declaration.name declaration.target).mapError (.refused line) := by
  have noSemicolon : ';' ∉ statementBody width declaration :=
    not_mem_statementBody width wellFormed (by decide) (by decide)
  have divided : Text.Terminated.split ';' (statement width declaration).toList =
      ⟨[statementBody width declaration], []⟩ := by
    rw [toList_statement, Text.Terminated.split_append_mark noSemicolon]
    rfl
  have notEmpty : statementBody width declaration ≠ [] := by
    simp [statementBody]
  have ran : readStatement line registry (statementBody width declaration) =
      (registry.declare declaration.name declaration.target).mapError (.refused line) := by
    simp [readStatement, notEmpty, names?_statementBody wellFormed]
  rw [readStatements, divided]
  simp only [List.map_cons, List.map_nil, trim_statementBody, List.foldlM_cons, ran]
  cases registry.declare declaration.name declaration.target <;> rfl

/-- A written statement is read as its declaration. -/
theorem readPiece_statement {width : Nat} {declaration : AliasDecl}
    (wellFormed : declaration.WellFormed) (line : Nat)
    (registry : AliasRegistry capacity) :
    readPiece registry ⟨line, (statement width declaration).toList⟩ =
      (registry.declare declaration.name declaration.target).mapError (.refused line) := by
  have kept : isSkipped
      (Text.trim (Piece.mk line (statement width declaration).toList).code) = false := by
    rw [trim_toList_statement, toList_statement]
    rfl
  rw [readPiece_of_not_isSkipped kept, trim_toList_statement]
  exact readStatements_statement wellFormed line registry

/-- A written statement whose alias is new is refused only for want of room. -/
theorem readPiece_statement_of_fresh {room width : Nat} {declaration : AliasDecl}
    (wellFormed : declaration.WellFormed) {earlier : List AliasDecl}
    (fresh : ∀ known ∈ earlier, known.name ≠ declaration.name) (line : Nat) :
    readPiece (⟨earlier⟩ : AliasRegistry room)
        ⟨line, (statement width declaration).toList⟩ =
      if room ≤ earlier.length then .error (.refused line (.full room))
      else .ok ⟨earlier ++ [declaration]⟩ := by
  rw [readPiece_statement wellFormed, AliasRegistry.declare_of_fresh wellFormed fresh,
    AliasRegistry.size]
  split <;> rfl

/-- The statements of the declarations still to come, read into a registry of the
earlier ones.  The first declaration without room is at fault. -/
theorem foldlM_readPiece_statements {room : Nat} (width : Nat) {later : List AliasDecl}
    (wellFormed : ∀ declaration ∈ later, declaration.WellFormed) (line : Nat)
    (earlier : List AliasDecl) (fits : earlier.length ≤ room)
    (distinct : ((earlier ++ later).map AliasDecl.name).Nodup) :
    (wholeLines line (later.map fun declaration =>
        (statement width declaration).toList)).foldlM readPiece
        (⟨earlier⟩ : AliasRegistry room) =
      if earlier.length + later.length ≤ room then .ok ⟨earlier ++ later⟩
      else .error (.refused (line + (room - earlier.length)) (.full room)) := by
  induction later generalizing line earlier with
  | nil => simp [wholeLines, fits, pure, Except.pure]
  | cons declaration later ih =>
      rw [List.forall_mem_cons] at wellFormed
      have fresh : ∀ known ∈ earlier, known.name ≠ declaration.name := by
        intro known member
        rw [List.map_append, List.nodup_append] at distinct
        exact distinct.2.2 known.name (List.mem_map_of_mem member) declaration.name
          List.mem_cons_self
      rw [List.map_cons, wholeLines, List.foldlM_cons,
        readPiece_statement_of_fresh wellFormed.1 fresh]
      by_cases full : room ≤ earlier.length
      · have tooMany : ¬ earlier.length + (declaration :: later).length ≤ room := by
          rw [List.length_cons]
          omega
        have thisLine : line + (room - earlier.length) = line := by omega
        rw [if_pos full, if_neg tooMany, thisLine]
        rfl
      · have regrouped : earlier ++ declaration :: later =
            (earlier ++ [declaration]) ++ later := by
          rw [List.append_assoc, List.singleton_append]
        have longer : (earlier ++ [declaration]).length = earlier.length + 1 := by
          rw [List.length_append, List.length_singleton]
        have sameLine : line + 1 + (room - (earlier.length + 1)) =
            line + (room - earlier.length) := by omega
        have remaining := ih wellFormed.2 (line + 1) (earlier ++ [declaration])
          (by omega) (regrouped ▸ distinct)
        rw [longer, sameLine] at remaining
        rw [if_neg full, regrouped, List.length_cons, Nat.add_comm later.length 1,
          ← Nat.add_assoc]
        exact remaining

/-- The line that a row of the text is read as. -/
def lineOf (row : String) : List Char :=
  Text.dropCarriageReturn row.toList

theorem lineOf_prefix_toList (row : String) : lineOf row <+: row.toList :=
  Text.dropCarriageReturn_prefix_self row.toList

theorem not_mem_lineOf {row : String} {mark : Char} (absent : mark ∉ row.toList) :
    mark ∉ lineOf row :=
  fun member => absent ((lineOf_prefix_toList row).subset member)

theorem lineOf_statement (width : Nat) (declaration : AliasDecl) :
    lineOf (statement width declaration) = (statement width declaration).toList := by
  rw [lineOf, toList_statement]
  exact Text.dropCarriageReturn_append_singleton (by decide)

theorem map_lineOf_statements (declarations : List AliasDecl) :
    (statements declarations).map lineOf =
      declarations.map fun declaration =>
        (statement (aliasWidth declarations) declaration).toList := by
  rw [statements, List.map_map]
  exact List.map_congr_left fun declaration _ => lineOf_statement _ declaration

theorem lines_render {guard : String} (oneLine : '\n' ∉ guard.toList)
    {registry : AliasRegistry capacity} (wellFormed : registry.WellFormed) :
    Text.lines (render guard registry).toList =
      (header guard).map lineOf ++
        (statements registry.declarations).map lineOf ++ (footer guard).map lineOf := by
  have inHeader : ∀ row ∈ header guard, '\n' ∉ row.toList := by
    simp [header, oneLine]
  have inStatements : ∀ row ∈ statements registry.declarations, '\n' ∉ row.toList := by
    intro row member
    obtain ⟨declaration, declared, rfl⟩ := List.mem_map.mp member
    exact not_mem_statement _ (wellFormed.declarations declaration declared) (by decide)
      (by decide)
  have inFooter : ∀ row ∈ footer guard, '\n' ∉ row.toList := by
    simp [footer, oneLine]
  have absent : ∀ row ∈ (header guard ++ statements registry.declarations ++
      footer guard).map String.toList, '\n' ∉ row := by
    simp only [List.map_append, List.forall_mem_append, List.forall_mem_map]
    exact ⟨⟨inHeader, inStatements⟩, inFooter⟩
  have whole : (render guard registry).toList =
      ((header guard ++ statements registry.declarations ++ footer guard).map
        String.toList).flatMap fun row => row ++ ['\n'] := by
    rw [render, String.toList_join, List.flatMap_map, List.flatMap_map]
    simp only [String.toList_append]
    rfl
  rw [whole, Text.lines_flatMap absent, ← List.map_append, ← List.map_append, List.map_map]
  rfl

/-- A directive without a slash holds nothing to be read. -/
theorem Skips.row {line : Nat} {stillOpen : Option Nat} {row : String}
    {texts : List (List Char)} (skipped : isSkipped row.toList = true)
    (plain : '/' ∉ row.toList) (later : Skips (line + 1) none texts stillOpen) :
    Skips line none (lineOf row :: texts) stillOpen :=
  directive (lineOf_prefix_toList row) skipped (not_infix_blockOpening plain) later

/-- A directive about the guard holds nothing to be read. -/
theorem Skips.guardRow {line : Nat} {stillOpen : Option Nat} {row guard : String}
    {texts : List (List Char)} (directiveName : List Char)
    (rowEq : row.toList = '#' :: directiveName ++ ' ' :: guard.toList)
    (plain : '/' ∉ directiveName)
    (noOpening : ¬ blockOpening <:+: guard.toList)
    (later : Skips (line + 1) none texts stillOpen) :
    Skips line none (lineOf row :: texts) stillOpen := by
  have skipped : isSkipped row.toList = true := by
    rw [rowEq]
    rfl
  have notInRow : ¬ blockOpening <:+: row.toList := by
    rw [rowEq, Text.infix_append_cons_iff (by decide), not_or]
    exact ⟨not_infix_blockOpening (by simp [plain]), noOpening⟩
  exact directive (lineOf_prefix_toList row) skipped notInRow later

theorem skips_header {guard : String} (noOpening : ¬ blockOpening <:+: guard.toList)
    {texts : List (List Char)} {stillOpen : Option Nat}
    (later : Skips 13 none texts stillOpen) :
    Skips 1 none ((header guard).map lineOf ++ texts) stillOpen := by
  have first : lineOf "/* SPDX-License-Identifier: GPL-2.0-or-later */" =
      [] ++ blockOpening ++
        (" SPDX-License-Identifier: GPL-2.0-or-later ".toList ++ blockClosing ++ []) := rfl
  have opens : lineOf "/*" = [] ++ blockOpening ++ [] := rfl
  have closes : lineOf " */" = [' '] ++ blockClosing ++ [] := rfl
  simp only [header, List.map_cons, List.map_nil, List.cons_append, List.nil_append]
  rw [first, opens, closes]
  -- The first row opens and closes a comment, the next four are one comment.
  apply Skips.opening rfl List.not_mem_nil
  apply Skips.closing (not_infix_blockClosing (by simp))
  apply Skips.directive List.prefix_rfl rfl (not_infix_blockOpening List.not_mem_nil)
  apply Skips.opening rfl List.not_mem_nil
  apply Skips.inside (not_infix_blockClosing List.not_mem_nil)
  apply Skips.inside (not_infix_blockClosing (not_mem_lineOf (by simp)))
  apply Skips.inside (not_infix_blockClosing (not_mem_lineOf (by simp)))
  apply Skips.closing (not_infix_blockClosing (by simp))
  apply Skips.directive List.prefix_rfl rfl (not_infix_blockOpening List.not_mem_nil)
  apply Skips.guardRow "ifndef".toList (by simp) (by simp) noOpening
  apply Skips.guardRow "define".toList (by simp) (by simp) noOpening
  apply Skips.row rfl (by simp)
  apply Skips.row rfl (by simp)
  apply Skips.row rfl (by simp)
  apply Skips.row rfl (by simp)
  apply Skips.row rfl (by simp)
  exact later

theorem skips_footer {guard : String} (noClosing : ¬ blockClosing <:+: guard.toList)
    (line : Nat) : Skips line none ((footer guard).map lineOf) none := by
  have last : lineOf ("#endif /* " ++ guard ++ " */") =
      "#endif ".toList ++ blockOpening ++
        ((' ' :: (guard.toList ++ [' '])) ++ blockClosing ++ []) := by
    have ending : ("#endif /* " ++ guard ++ " */").toList =
        ("#endif /* ".toList ++ guard.toList ++ [' ', '*']) ++ ['/'] := by
      simp
    rw [lineOf, ending, Text.dropCarriageReturn_append_singleton (by decide)]
    simp [blockOpening, blockClosing]
  have firstClosing : ¬ blockClosing <:+: (' ' :: (guard.toList ++ [' '])) ++ ['*'] := by
    have spaced : (' ' :: (guard.toList ++ [' '])) ++ ['*'] =
        [] ++ ' ' :: (guard.toList ++ ' ' :: ['*']) := by
      simp
    rw [spaced, Text.infix_append_cons_iff (by decide), Text.infix_append_cons_iff (by decide)]
    simp only [not_or]
    exact ⟨not_infix_blockClosing List.not_mem_nil, noClosing,
      not_infix_blockClosing (by decide)⟩
  simp only [footer, List.map_cons, List.map_nil]
  rw [last]
  apply Skips.row rfl List.not_mem_nil
  apply Skips.opening rfl (by simp)
  apply Skips.closing firstClosing
  apply Skips.directive List.prefix_rfl rfl (not_infix_blockOpening List.not_mem_nil)
  exact Skips.nil _ _

/-- The scanner finds the statements, each at its line, between pieces that are
skipped. -/
theorem scan_render {guard : String} (oneLine : '\n' ∉ guard.toList)
    (noOpening : ¬ blockOpening <:+: guard.toList)
    (noClosing : ¬ blockClosing <:+: guard.toList)
    {registry : AliasRegistry capacity} (wellFormed : registry.WellFormed) :
    ∃ before after,
      (∀ piece ∈ before, isSkipped (Text.trim piece.code) = true) ∧
      (∀ piece ∈ after, isSkipped (Text.trim piece.code) = true) ∧
      scan (render guard registry).toList =
        (before ++
            wholeLines 13 (registry.declarations.map fun declaration =>
              (statement (aliasWidth registry.declarations) declaration).toList) ++
            after,
          none) := by
  have plain : ∀ text ∈ (statements registry.declarations).map lineOf, '/' ∉ text := by
    rw [map_lineOf_statements, List.forall_mem_map]
    intro declaration declared
    exact not_mem_statement _ (wellFormed.declarations declaration declared) (by decide)
      (by decide)
  obtain ⟨headerSkipped, headerClosed⟩ := skips_header noOpening (Skips.nil 13 none)
  rw [List.append_nil] at headerSkipped headerClosed
  have upToFooter : scanLines 1 none ((header guard).map lineOf ++
        (statements registry.declarations).map lineOf) =
      ((scanLines 1 none ((header guard).map lineOf)).1 ++
        wholeLines 13 ((statements registry.declarations).map lineOf), none) := by
    have headerLength : 1 + ((header guard).map lineOf).length = 13 := by
      simp [header]
    rw [scanLines_append, headerClosed, headerLength, scanLines_of_not_mem plain]
  obtain ⟨footerSkipped, footerClosed⟩ := skips_footer noClosing
    (1 + ((header guard).map lineOf ++ (statements registry.declarations).map lineOf).length)
  refine ⟨_, _, headerSkipped, footerSkipped, ?_⟩
  rw [scan, lines_render oneLine wellFormed, scanLines_append, upToFooter, footerClosed,
    map_lineOf_statements]

/-- Reading undoes writing.  The declarations come back in their order where there
is room for them, and otherwise the first one without room is refused at its line. -/
theorem read_render {registry : AliasRegistry capacity} (reachable : registry.Reachable)
    {guard : String} (oneLine : '\n' ∉ guard.toList)
    (noOpening : ¬ blockOpening <:+: guard.toList)
    (noClosing : ¬ blockClosing <:+: guard.toList) (room : Nat) :
    read room (render guard registry) =
      if registry.size ≤ room then .ok ⟨registry.declarations⟩
      else .error (.refused (13 + room) (.full room)) := by
  have wellFormed := reachable.wellFormed
  obtain ⟨before, after, beforeSkipped, afterSkipped, scanned⟩ :=
    scan_render oneLine noOpening noClosing wellFormed
  rw [read_eq_of_scan scanned beforeSkipped afterSkipped]
  have ran := foldlM_readPiece_statements (aliasWidth registry.declarations)
    wellFormed.declarations 13 [] (Nat.zero_le room) wellFormed.nodup_names
  simp only [List.length_nil, Nat.zero_add, List.nil_append, Nat.sub_zero] at ran
  exact ran

/-- A guard may hold what begins a line comment, a directive or a line end. -/
theorem read_render_imageVars :
    read 16 (render "IMAGE //\r; # VARS" .imageVars) =
        .ok ⟨AliasRegistry.imageVars.declarations⟩ ∧
      read 5 (render "IMAGE //\r; # VARS" .imageVars) =
        .error (.refused 18 (.full 5)) := by
  have oneLine : '\n' ∉ "IMAGE //\r; # VARS".toList := by simp
  have noStar : '*' ∉ "IMAGE //\r; # VARS".toList := by simp
  have noOpening : ¬ blockOpening <:+: "IMAGE //\r; # VARS".toList :=
    Text.not_infix_of_not_mem (List.mem_cons_of_mem _ List.mem_cons_self) noStar
  have noClosing : ¬ blockClosing <:+: "IMAGE //\r; # VARS".toList :=
    Text.not_infix_of_not_mem List.mem_cons_self noStar
  refine ⟨(read_render .imageVars oneLine noOpening noClosing 16).trans ?_,
    (read_render .imageVars oneLine noOpening noClosing 5).trans ?_⟩
  · rw [if_pos (by decide)]
  · rw [if_neg (by decide)]

end Fragment
end EarlyBoot
