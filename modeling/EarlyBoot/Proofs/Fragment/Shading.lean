import EarlyBoot.Proofs.Fragment.Comparison

/-!
# Code and comments in a text

Every character of a line is code or belongs to a comment.  The shading of a text says
which, line by line and from left to right, without dividing the lines into pieces.  What
the scanner takes for a piece is a stretch of code in the shading, and a block comment that
the scanner finds open at the end of a text opened in code and is never closed.
-/

namespace EarlyBoot
namespace Fragment

variable {line start : Nat} {openedAt : Option Nat}

/-- What a character of a line belongs to. -/
inductive Shade where
  | code
  /-- The slash and the star that open a block comment. -/
  | opening
  | comment
  deriving DecidableEq, Repr

/-- Characters that all belong to the same. -/
def shaded (shade : Shade) (text : List Char) : List (Char × Shade) :=
  text.map fun character => (character, shade)

/-- What follows some characters in a line, with these characters in front. -/
def shadedBehind (front : List (Char × Shade)) (later : List (Char × Shade) × Bool) :
    List (Char × Shade) × Bool :=
  (front ++ later.1, later.2)

/-- The characters of a line with what they belong to, and whether a block comment is open
behind the line.  The first argument says whether one is open in front of it. -/
def shadeLine : Bool → List Char → List (Char × Shade) × Bool
  | inComment, [] => ([], inComment)
  | false, '/' :: '/' :: rest => (shaded .comment ('/' :: '/' :: rest), false)
  | false, '/' :: '*' :: rest => shadedBehind (shaded .opening ['/', '*']) (shadeLine true rest)
  | false, character :: rest => shadedBehind [(character, .code)] (shadeLine false rest)
  | true, '*' :: '/' :: rest => shadedBehind (shaded .comment ['*', '/']) (shadeLine false rest)
  | true, character :: rest => shadedBehind [(character, .comment)] (shadeLine true rest)

/-- The shading of successive lines, and whether a block comment is open behind them. -/
def shadeLines (inComment : Bool) : List (List Char) → List (List (Char × Shade)) × Bool
  | [] => ([], inComment)
  | row :: rows =>
      let (characters, stillOpen) := shadeLine inComment row
      let (later, atEnd) := shadeLines stillOpen rows
      (characters :: later, atEnd)

/-- The shading of the lines of a text. -/
def shading (text : String) : List (List (Char × Shade)) :=
  (shadeLines false (Text.lines text.toList)).1

/-- A slash in a block comment does not open another, and a line comment hides a block
comment. -/
example : shadeLine false "a/*/ */b//*".toList =
    (shaded .code ['a'] ++ shaded .opening ['/', '*'] ++ shaded .comment "/ */".toList ++
      shaded .code ['b'] ++ shaded .comment "//*".toList, false) := by
  decide

/-- Whether a reader stands in a block comment. -/
def Zone.inComment : Zone → Bool
  | .code _ => false
  | .comment _ => true

/-- The characters of the piece behind which a reader stands. -/
def Zone.front : Zone → List (Char × Shade)
  | .code piece => shaded .code piece
  | .comment _ => []

theorem inComment_atStart (openedAt : Option Nat) :
    (Zone.atStart openedAt).inComment = openedAt.isSome := by
  cases openedAt <;> rfl

theorem front_atStart (openedAt : Option Nat) : (Zone.atStart openedAt).front = [] := by
  cases openedAt <;> rfl

section Lines

@[simp]
theorem fst_shadedBehind (front : List (Char × Shade)) (later : List (Char × Shade) × Bool) :
    (shadedBehind front later).1 = front ++ later.1 :=
  rfl

theorem shaded_append (shade : Shade) (first second : List Char) :
    shaded shade (first ++ second) = shaded shade first ++ shaded shade second :=
  List.map_append

theorem map_fst_shaded (shade : Shade) (text : List Char) :
    (shaded shade text).map Prod.fst = text := by
  simp [shaded, Function.comp_def]

/-- The shading of a line holds its characters. -/
theorem map_fst_shadeLine (inComment : Bool) (text : List Char) :
    (shadeLine inComment text).1.map Prod.fst = text := by
  induction inComment, text using shadeLine.induct with
  | case1 inComment => rfl
  | case2 rest => exact map_fst_shaded .comment _
  | case3 rest ih => simp [shadeLine, shaded, ih]
  | case4 character rest noLine noBlock ih =>
      rw [shadeLine.eq_4 _ _ noLine noBlock]
      simp [ih]
  | case5 rest ih => simp [shadeLine, shaded, ih]
  | case6 character rest noClosing ih =>
      rw [shadeLine.eq_6 _ _ noClosing]
      simp [ih]

/-- Two characters of code never open a comment. -/
theorem not_infix_shadeLine {mark : Char} (opens : mark = '/' ∨ mark = '*')
    (inComment : Bool) (text : List Char) :
    ¬ shaded .code ['/', mark] <:+: (shadeLine inComment text).1 := by
  induction inComment, text using shadeLine.induct with
  | case1 inComment => simp [shadeLine, shaded]
  | case2 rest =>
      intro inside
      have member : ('/', Shade.code) ∈ shaded .comment ('/' :: '/' :: rest) :=
        inside.subset List.mem_cons_self
      obtain ⟨character, -, isCode⟩ := List.mem_map.mp member
      cases isCode
  | case3 rest ih => simpa [shadeLine, shaded, List.infix_cons_iff] using ih
  | case4 character rest noLine noBlock ih =>
      rw [shadeLine.eq_4 _ _ noLine noBlock, fst_shadedBehind, List.singleton_append,
        List.infix_cons_iff, not_or]
      refine ⟨?_, ih⟩
      intro atStart
      obtain ⟨isSlash, later, following⟩ := List.cons_prefix_cons.mp atStart
      have isRest := map_fst_shadeLine false rest
      rw [← following] at isRest
      rcases opens with rfl | rfl
      · exact noLine _ (Prod.mk.inj isSlash).1.symm isRest.symm
      · exact noBlock _ (Prod.mk.inj isSlash).1.symm isRest.symm
  | case5 rest ih => simpa [shadeLine, shaded, List.infix_cons_iff] using ih
  | case6 character rest noClosing ih =>
      rw [shadeLine.eq_6 _ _ noClosing]
      simpa [shaded, List.infix_cons_iff] using ih

/-- Inside a block comment all of a line is comment up to where it closes. -/
theorem shadeLine_of_not_closed {text : List Char} (noClosing : ¬ blockClosing <:+: text) :
    shadeLine true text = (shaded .comment text, true) := by
  induction text with
  | nil => rfl
  | cons character rest ih =>
      rw [List.infix_cons_iff, not_or] at noClosing
      have noClosingHere : ∀ tail, character = '*' → rest = '/' :: tail → False := by
        rintro tail rfl rfl
        exact noClosing.1 ⟨tail, rfl⟩
      rw [shadeLine.eq_6 _ _ noClosingHere, ih noClosing.2]
      rfl

/-- A reader that divides a line finds its pieces in the code of the line. -/
theorem infix_of_mem_walk {zone : Zone} {text : List Char} {piece : Piece}
    (member : piece ∈ (walk line zone text).1) :
    shaded .code piece.code <:+: zone.front ++ (shadeLine zone.inComment text).1 := by
  induction zone, text using walk.induct line with
  | case1 code =>
      rw [walk, List.mem_singleton] at member
      rw [member]
      exact (List.prefix_append _ _).isInfix
  | case2 code tail =>
      rw [walk, List.mem_singleton] at member
      rw [member]
      exact (List.prefix_append _ _).isInfix
  | case3 code rest pieces stillOpen isWalk ih =>
      rw [walk] at member
      rcases List.mem_cons.mp member with rfl | inRest
      · exact (List.prefix_append _ _).isInfix
      · exact List.infix_append_of_infix_right (List.infix_append_of_infix_right (ih inRest))
  | case4 code character rest noLine noBlock ih =>
      rw [walk.eq_4 _ _ _ _ noLine noBlock] at member
      have inside := ih member
      rw [Zone.front, shaded_append, List.append_assoc] at inside
      rw [Zone.front, Zone.inComment, shadeLine.eq_4 _ _ noLine noBlock]
      exact inside
  | case5 start => contradiction
  | case6 start rest ih =>
      rw [walk] at member
      simp only [Zone.front, Zone.inComment, List.nil_append, shadeLine, fst_shadedBehind]
        at ih ⊢
      exact List.infix_append_of_infix_right (ih member)
  | case7 start character rest noClosing ih =>
      rw [walk.eq_7 _ _ _ _ noClosing] at member
      rw [Zone.front, Zone.inComment, shadeLine.eq_6 _ _ noClosing]
      exact List.infix_cons (ih member)

/-- A reader stands in a block comment behind a line exactly if the line ends in one. -/
theorem isSome_walk (zone : Zone) (text : List Char) :
    (walk line zone text).2.isSome = (shadeLine zone.inComment text).2 := by
  induction zone, text using walk.induct line with
  | case1 code => rfl
  | case2 code tail => rfl
  | case3 code rest pieces stillOpen isWalk ih => exact ih
  | case4 code character rest noLine noBlock ih =>
      simp only [Zone.inComment] at ih ⊢
      rw [walk.eq_4 _ _ _ _ noLine noBlock, ih, shadeLine.eq_4 _ _ noLine noBlock]
      rfl
  | case5 start => rfl
  | case6 start rest ih => exact ih
  | case7 start character rest noClosing ih =>
      simp only [Zone.inComment] at ih ⊢
      rw [walk.eq_7 _ _ _ _ noClosing, ih, shadeLine.eq_6 _ _ noClosing]
      rfl

/-- A block comment that is open behind a line was open in front of it or opened in its
code, and is not closed behind that.  Up to its opening the line has the same pieces. -/
theorem exists_opening_of_walk {zone : Zone} {text : List Char}
    (isOpen : (walk line zone text).2 = some start) :
    (zone = .comment start ∧ ¬ blockClosing <:+: text) ∨
    ∃ front rest, text = front ++ blockOpening ++ rest ∧ start = line ∧
      ¬ blockClosing <:+: rest ∧
      walk line zone front = ((walk line zone text).1, none) ∧
      (shadeLine zone.inComment text).1 =
        (shadeLine zone.inComment front).1 ++
          (shaded .opening blockOpening ++ shaded .comment rest) := by
  induction zone, text using walk.induct line with
  | case1 code => contradiction
  | case2 code tail => contradiction
  | case3 code rest pieces stillOpen isWalk ih =>
      simp only [walk, shadeLine, Zone.inComment] at isOpen ih ⊢
      rcases ih isOpen with ⟨isComment, noClosing⟩ |
        ⟨front, tail, rfl, isLine, noClosing, upTo, opens⟩
      · have inside := scanLine_of_not_closed noClosing line line
        rw [← walk_atStart, Zone.atStart] at inside
        refine Or.inr ⟨[], rest, rfl, (Zone.comment.inj isComment).symm, noClosing, ?_, ?_⟩
        · rw [inside, walk]
        · rw [shadeLine_of_not_closed noClosing, shadeLine]
          rfl
      · refine Or.inr ⟨'/' :: '*' :: front, tail, rfl, isLine, noClosing, ?_, ?_⟩
        · rw [walk, upTo]
        · rw [fst_shadedBehind, opens, shadeLine, fst_shadedBehind, List.append_assoc]
  | case4 code character rest noLine noBlock ih =>
      rw [walk.eq_4 _ _ _ _ noLine noBlock] at isOpen ⊢
      rcases ih isOpen with ⟨isComment, -⟩ | ⟨front, tail, rfl, isLine, noClosing, upTo, opens⟩
      · contradiction
      · have noLineInFront : ∀ more, character = '/' → front = '/' :: more → False :=
          fun more isSlash isFront => noLine _ isSlash (by rw [isFront]; rfl)
        have noBlockInFront : ∀ more, character = '/' → front = '*' :: more → False :=
          fun more isSlash isFront => noBlock _ isSlash (by rw [isFront]; rfl)
        simp only [Zone.inComment] at opens ⊢
        refine Or.inr ⟨character :: front, tail, rfl, isLine, noClosing, ?_, ?_⟩
        · rw [walk.eq_4 _ _ _ _ noLineInFront noBlockInFront, upTo]
        · rw [shadeLine.eq_4 _ _ noLine noBlock, fst_shadedBehind, opens,
            shadeLine.eq_4 _ _ noLineInFront noBlockInFront, fst_shadedBehind,
            List.append_assoc]
  | case5 openedAt =>
      injection isOpen with isStart
      exact Or.inl ⟨congrArg Zone.comment isStart, not_infix_blockClosing List.not_mem_nil⟩
  | case6 openedAt rest ih =>
      simp only [walk, shadeLine, Zone.inComment] at isOpen ih ⊢
      rcases ih isOpen with ⟨isComment, -⟩ | ⟨front, tail, rfl, isLine, noClosing, upTo, opens⟩
      · contradiction
      · refine Or.inr ⟨'*' :: '/' :: front, tail, rfl, isLine, noClosing, ?_, ?_⟩
        · rw [walk, upTo]
        · rw [fst_shadedBehind, opens, shadeLine, fst_shadedBehind, List.append_assoc]
  | case7 openedAt character rest noClosing ih =>
      rw [walk.eq_7 _ _ _ _ noClosing] at isOpen ⊢
      rcases ih isOpen with ⟨isComment, notInRest⟩ |
        ⟨front, tail, rfl, isLine, notInTail, upTo, opens⟩
      · refine Or.inl ⟨isComment, ?_⟩
        rw [List.infix_cons_iff, not_or]
        refine ⟨?_, notInRest⟩
        intro atStart
        obtain ⟨isStar, more, isRest⟩ := List.cons_prefix_cons.mp atStart
        exact noClosing more isStar.symm isRest.symm
      · have noClosingInFront : ∀ more, character = '*' → front = '/' :: more → False :=
          fun more isStar isFront => noClosing _ isStar (by rw [isFront]; rfl)
        simp only [Zone.inComment] at opens ⊢
        refine Or.inr ⟨character :: front, tail, rfl, isLine, notInTail, ?_, ?_⟩
        · rw [walk.eq_7 _ _ _ _ noClosingInFront, upTo]
        · rw [shadeLine.eq_6 _ _ noClosing, fst_shadedBehind, opens,
            shadeLine.eq_6 _ _ noClosingInFront, fst_shadedBehind, List.append_assoc]

/-- The pieces of a line carry its number and are code. -/
theorem infix_of_mem_scanLine {text : List Char} {piece : Piece}
    (member : piece ∈ (scanLine line openedAt text).1) :
    piece.line = line ∧
      shaded .code piece.code <:+: (shadeLine openedAt.isSome text).1 := by
  rw [← walk_atStart] at member
  have inside := infix_of_mem_walk member
  rw [front_atStart, inComment_atStart, List.nil_append] at inside
  exact ⟨line_of_mem_walk member, inside⟩

theorem isSome_scanLine (line : Nat) (openedAt : Option Nat) (text : List Char) :
    (scanLine line openedAt text).2.isSome = (shadeLine openedAt.isSome text).2 := by
  rw [← walk_atStart, isSome_walk, inComment_atStart]

end Lines

section Texts

variable {rows : List (List Char)}

theorem map_fst_shadeLines (inComment : Bool) (rows : List (List Char)) :
    (shadeLines inComment rows).1.map (List.map Prod.fst) = rows := by
  induction rows generalizing inComment with
  | nil => rfl
  | cons row rows ih => simp only [shadeLines, List.map_cons, map_fst_shadeLine, ih]

/-- The shading of a text holds its lines. -/
theorem map_fst_shading (text : String) :
    (shading text).map (List.map Prod.fst) = Text.lines text.toList :=
  map_fst_shadeLines false _

theorem not_infix_of_mem_shadeLines {mark : Char} (opens : mark = '/' ∨ mark = '*')
    {inComment : Bool} {characters : List (Char × Shade)}
    (member : characters ∈ (shadeLines inComment rows).1) :
    ¬ shaded .code ['/', mark] <:+: characters := by
  induction rows generalizing inComment with
  | nil => contradiction
  | cons row rows ih =>
      rcases List.mem_cons.mp member with rfl | later
      · exact not_infix_shadeLine opens inComment row
      · exact ih later

theorem isSome_scanLines (line : Nat) (openedAt : Option Nat) (rows : List (List Char)) :
    (scanLines line openedAt rows).2.isSome = (shadeLines openedAt.isSome rows).2 := by
  induction rows generalizing line openedAt with
  | nil => rfl
  | cons row rows ih => rw [scanLines_cons, ih, isSome_scanLine, shadeLines]

/-- The pieces of a text are code of the lines whose numbers they carry. -/
theorem infix_of_mem_scanLines {piece : Piece}
    (member : piece ∈ (scanLines line openedAt rows).1) :
    ∃ index characters, piece.line = line + index ∧
      (shadeLines openedAt.isSome rows).1[index]? = some characters ∧
      shaded .code piece.code <:+: characters := by
  induction rows generalizing line openedAt with
  | nil => contradiction
  | cons row rows ih =>
      rw [scanLines_cons] at member
      rcases List.mem_append.mp member with here | later
      · obtain ⟨isLine, inside⟩ := infix_of_mem_scanLine here
        exact ⟨0, _, isLine, rfl, inside⟩
      · obtain ⟨index, characters, isLine, isRow, inside⟩ := ih later
        rw [isSome_scanLine] at isRow
        exact ⟨index + 1, characters, by omega, isRow, inside⟩

theorem scanLines_of_not_closed (noClosing : ∀ row ∈ rows, ¬ blockClosing <:+: row)
    (line start : Nat) : scanLines line (some start) rows = ([], some start) := by
  induction rows generalizing line with
  | nil => rfl
  | cons row rows ih =>
      rw [List.forall_mem_cons] at noClosing
      rw [scanLines_cons, scanLine_of_not_closed noClosing.1, ih noClosing.2]
      rfl

/-- A block comment that is open behind some lines was open in front of them or opened in
the code of one of them, and is not closed behind that.  The lines up to its opening have
the pieces of all lines. -/
theorem exists_opening_of_scanLines
    (isOpen : (scanLines line openedAt rows).2 = some start) :
    (openedAt = some start ∧ ∀ row ∈ rows, ¬ blockClosing <:+: row) ∨
    ∃ before front rest after, rows = before ++ (front ++ blockOpening ++ rest) :: after ∧
      start = line + before.length ∧
      (∀ row ∈ rest :: after, ¬ blockClosing <:+: row) ∧
      scanLines line openedAt (before ++ [front]) = ((scanLines line openedAt rows).1, none) ∧
      ∃ characters, characters.map Prod.fst = front ∧
        (shadeLines openedAt.isSome rows).1[before.length]? =
          some (characters ++ (shaded .opening blockOpening ++ shaded .comment rest)) := by
  induction rows generalizing line openedAt with
  | nil => exact Or.inl ⟨isOpen, by simp⟩
  | cons row rows ih =>
      rw [scanLines_cons] at isOpen ⊢
      rcases ih isOpen with ⟨openBehind, notInRows⟩ |
        ⟨before, front, rest, after, rfl, isLine, noClosing, upTo, characters, isFront, opens⟩
      · rw [openBehind, scanLines_of_not_closed notInRows]
        rw [← walk_atStart] at openBehind ⊢
        rcases exists_opening_of_walk openBehind with ⟨isComment, notInRow⟩ |
          ⟨front, rest, rfl, isLine, notInRest, upTo, opens⟩
        · refine Or.inl ⟨?_, List.forall_mem_cons.mpr ⟨notInRow, notInRows⟩⟩
          cases openedAt with
          | none => contradiction
          | some earlier => exact congrArg some (Zone.comment.inj isComment)
        · refine Or.inr ⟨[], front, rest, rows, rfl, isLine,
            List.forall_mem_cons.mpr ⟨notInRest, notInRows⟩, ?_,
            (shadeLine openedAt.isSome front).1, ?_, ?_⟩
          · rw [List.nil_append, scanLines_cons, ← walk_atStart, upTo]
            rfl
          · exact map_fst_shadeLine openedAt.isSome front
          · rw [inComment_atStart] at opens
            exact congrArg some opens
      · refine Or.inr ⟨row :: before, front, rest, after, rfl, ?_, noClosing, ?_,
          characters, isFront, ?_⟩
        · rw [List.length_cons]
          omega
        · rw [List.cons_append, scanLines_cons, upTo]
        · rw [isSome_scanLine] at opens
          exact opens

end Texts

end Fragment
end EarlyBoot
