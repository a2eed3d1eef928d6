import EarlyBoot.Proofs.Alias.History
import EarlyBoot.Proofs.Fragment.Comparison

/-!
# Fragments one after the other

A text that ends with a line may be followed by another text.  The lines of the second
text are then read as they are on their own, only further down and into a registry
that already holds the declarations of the first.  That registry can make a difference
to a statement in two ways: it may hold the alias already, or leave no room.  Only then
do the two readings part.
-/

namespace EarlyBoot

namespace AliasRegistry

variable {capacity : Nat} {base registry next : AliasRegistry capacity}

/-- The declarations of one registry and then those of another. -/
def followedBy (first second : AliasRegistry capacity) : AliasRegistry capacity :=
  ⟨first.declarations ++ second.declarations⟩

/-- Two registries share no alias, and there is room for the declarations of both. -/
structure Compatible (first second : AliasRegistry capacity) : Prop where
  disjoint : ∀ declaration ∈ first.declarations, ∀ other ∈ second.declarations,
    declaration.name ≠ other.name
  size_le : first.size + second.size ≤ capacity

/-- What earlier declarations can have against a declaration. -/
def IsClash (capacity : Nat) (cause : AliasError) : Prop :=
  (∃ name, cause = .duplicate name) ∨ cause = .full capacity

theorem followedBy_empty (registry : AliasRegistry capacity) :
    registry.followedBy .empty = registry := by
  simp [followedBy, empty]

theorem Compatible.of_prefix (compatible : base.Compatible next)
    (grown : registry.declarations <+: next.declarations) : base.Compatible registry where
  disjoint declaration member other otherMember :=
    compatible.disjoint declaration member other (grown.subset otherMember)
  size_le := by
    have shorter : registry.size ≤ next.size := grown.length_le
    have fits := compatible.size_le
    omega

section Declarations

variable {name target : SymbolName}

theorem size_followedBy (base registry : AliasRegistry capacity) :
    (base.followedBy registry).size = base.size + registry.size :=
  List.length_append

/-- What is added at the end of a registry is added at the end of all declarations. -/
theorem followedBy_append (base registry : AliasRegistry capacity) (declaration : AliasDecl) :
    base.followedBy ⟨registry.declarations ++ [declaration]⟩ =
      ⟨(base.followedBy registry).declarations ++ [declaration]⟩ := by
  simp [followedBy]

/-- Behind other declarations a well-formed declaration of a new alias is accepted or
refused as without them, unless it clashes with them. -/
theorem declare_followedBy_of_fresh (base : AliasRegistry capacity)
    (wellFormed : AliasDecl.WellFormed ⟨name, target⟩)
    (fresh : ∀ declaration ∈ registry.declarations, declaration.name ≠ name) :
    (∃ next, registry.declare name target = .ok next ∧
      (base.followedBy registry).declare name target = .ok (base.followedBy next)) ∨
    ∃ cause, IsClash capacity cause ∧
      (base.followedBy registry).declare name target = .error cause ∧
      ∀ next, registry.declare name target = .ok next → ¬ base.Compatible next := by
  by_cases known : ∃ declaration ∈ base.declarations, declaration.name = name
  · obtain ⟨declaration, member, same⟩ := known
    refine Or.inr ⟨.duplicate name, Or.inl ⟨name, rfl⟩,
      declare_of_known wellFormed (List.mem_append_left _ member) same, ?_⟩
    intro next accepted compatible
    obtain ⟨-, -, -, rfl⟩ := declare_eq_ok_iff.mp accepted
    exact compatible.disjoint declaration member ⟨name, target⟩ (by simp) same
  · have freshInBoth : ∀ declaration ∈ (base.followedBy registry).declarations,
        declaration.name ≠ name := by
      intro declaration member
      rcases List.mem_append.mp member with inBase | inRegistry
      · exact fun same => known ⟨declaration, inBase, same⟩
      · exact fresh declaration inRegistry
    rw [declare_of_fresh wellFormed freshInBoth, declare_of_fresh wellFormed fresh,
      size_followedBy]
    by_cases full : capacity ≤ base.size + registry.size
    · refine Or.inr ⟨.full capacity, Or.inr rfl, if_pos full, ?_⟩
      intro next accepted compatible
      have fits := compatible.size_le
      split at accepted
      · contradiction
      · injection accepted with isNext
        rw [← isNext, size, size, List.length_append, List.length_singleton] at fits
        rw [size, size] at full
        omega
    · have room : ¬ capacity ≤ registry.size := by omega
      rw [if_neg full, if_neg room]
      exact Or.inl ⟨_, rfl, congrArg Except.ok (followedBy_append base registry _).symm⟩

theorem declare_followedBy_cases (base registry : AliasRegistry capacity)
    (name target : SymbolName) :
    (∃ next, registry.declare name target = .ok next ∧
      (base.followedBy registry).declare name target = .ok (base.followedBy next)) ∨
    (∃ cause, registry.declare name target = .error cause ∧
      (base.followedBy registry).declare name target = .error cause) ∨
    ∃ cause, IsClash capacity cause ∧
      (base.followedBy registry).declare name target = .error cause ∧
      ∀ next, registry.declare name target = .ok next → ¬ base.Compatible next := by
  have included : registry.declarations ⊆ (base.followedBy registry).declarations :=
    List.subset_append_right _ _
  rcases declare_of_subset included name target with
    ⟨cause, -, refused, refusedBoth⟩ | ⟨wellFormed, fresh⟩
  · exact Or.inr (Or.inl ⟨cause, refused, refusedBoth⟩)
  · rcases declare_followedBy_of_fresh base wellFormed fresh with accepted | clash
    · exact Or.inl accepted
    · exact Or.inr (Or.inr clash)

end Declarations

end AliasRegistry

namespace Fragment

open AliasRegistry

variable {capacity : Nat} {base : AliasRegistry capacity} {offset : Nat}

/-- The reading of some lines on their own is compared with the reading of the same
lines further down and behind the declarations of a base.  That one is stopped by a
statement that clashes with the base, and then the lines on their own do not end with
compatible declarations. -/
def behind (base : AliasRegistry capacity) (offset : Nat) :
    Comparison (AliasRegistry capacity) (AliasRegistry capacity) where
  related registry longer := longer = base.followedBy registry
  sameFault fault later := later = fault.shift offset
  stops line fault :=
    ∃ cause, IsClash capacity cause ∧ fault = .refused (offset + line) cause
  beyond registry := ¬ base.Compatible registry

theorem carries_behind (base : AliasRegistry capacity) (offset : Nat) :
    (behind base offset).Carries offset where
  declare := by
    rintro registry _ name target line rfl
    rcases declare_followedBy_cases base registry name target with
      ⟨next, accepted, acceptedBoth⟩ | ⟨cause, refused, refusedBoth⟩ |
        ⟨cause, isClash, refused, apart⟩
    · rw [accepted, acceptedBoth]
      exact .ok rfl
    · rw [refused, refusedBoth]
      exact .error rfl
    · rw [refused]
      refine .stopped List.mem_cons_self ⟨cause, isClash, rfl⟩ ?_ ?_
      · intro next accepted
        exact apart next (Outcome.mapError_eq_ok_iff.mp accepted)
      · intro fault failed
        obtain ⟨cause, -, rfl⟩ := Outcome.mapError_eq_error_iff.mp failed
        exact Nat.le_refl line
  malformed line found := rfl
  missingSemicolon line found := rfl
  unterminatedComment line := rfl
  declared registry name target next apart accepted := fun compatible =>
    apart (compatible.of_prefix (prefix_of_declare accepted))

section Lines

/-- Where a reader stands some lines further down. -/
def Zone.shift (offset : Nat) : Zone → Zone
  | .code piece => .code piece
  | .comment openedAt => .comment (offset + openedAt)

/-- Lines are divided in the same way further down. -/
theorem walk_shift (offset line : Nat) (zone : Zone) (text : List Char) :
    walk (offset + line) (zone.shift offset) text =
      shiftScanned offset (walk line zone text) := by
  induction zone, text using walk.induct line with
  | case1 piece => rfl
  | case2 piece tail => rfl
  | case3 piece rest pieces stillOpen isWalk ih =>
      simp only [Zone.shift] at ih ⊢
      rw [walk, walk, ih]
      rfl
  | case4 piece character rest noLine noBlock ih =>
      simp only [Zone.shift] at ih ⊢
      rw [walk.eq_4 _ _ _ _ noLine noBlock, walk.eq_4 _ _ _ _ noLine noBlock, ih]
  | case5 start => rfl
  | case6 start rest ih =>
      simp only [Zone.shift] at ih ⊢
      rw [walk, walk, ih]
  | case7 start character rest noClosing ih =>
      simp only [Zone.shift] at ih ⊢
      rw [walk.eq_7 _ _ _ _ noClosing, walk.eq_7 _ _ _ _ noClosing, ih]

theorem scanLine_shift (offset line : Nat) (openedAt : Option Nat) (text : List Char) :
    scanLine (offset + line) (openedAt.map (offset + ·)) text =
      shiftScanned offset (scanLine line openedAt text) := by
  have atStart : Zone.atStart (openedAt.map (offset + ·)) =
      (Zone.atStart openedAt).shift offset := by
    cases openedAt <;> rfl
  rw [← walk_atStart, ← walk_atStart, atStart, walk_shift]

theorem scanLines_shift (offset line : Nat) (openedAt : Option Nat)
    (texts : List (List Char)) :
    scanLines (offset + line) (openedAt.map (offset + ·)) texts =
      shiftScanned offset (scanLines line openedAt texts) := by
  induction texts generalizing line openedAt with
  | nil => rfl
  | cons text texts ih =>
      have later := ih (line + 1) (scanLine line openedAt text).2
      rw [← Nat.add_assoc] at later
      rw [scanLines_cons, scanLines_cons, scanLine_shift]
      simp only [shiftScanned] at later ⊢
      rw [later, List.map_append]

end Lines

section Texts

variable {first : String}

/-- A text without lines, or with a line feed at its end. -/
def EndsLine (text : String) : Prop :=
  text = "" ∨ ∃ front, text = front ++ "\n"

def lineCount (text : String) : Nat :=
  (Text.lines text.toList).length

theorem scan_append (endsLine : EndsLine first) (second : String) :
    scan (first ++ second).toList =
      ((scan first.toList).1 ++
          (scanLines (lineCount first + 1) (scan first.toList).2
            (Text.lines second.toList)).1,
        (scanLines (lineCount first + 1) (scan first.toList).2
          (Text.lines second.toList)).2) := by
  have endsRow : first.toList = [] ∨ ∃ front, first.toList = front ++ ['\n'] := by
    rcases endsLine with rfl | ⟨front, rfl⟩
    · exact Or.inl rfl
    · exact Or.inr ⟨front.toList, String.toList_append⟩
  rw [scan, String.toList_append, Text.lines_append endsRow, scanLines_append,
    Nat.add_comm 1]
  rfl

/-- A fault of the first text is found before the second text is looked at. -/
theorem read_append_of_error (endsLine : EndsLine first) (second : String)
    {cause : FragmentError} (failed : read capacity first = .error cause)
    (terminated : ¬ cause.IsUnterminated) :
    read capacity (first ++ second) = .error cause := by
  rw [read_eq] at failed
  rcases Outcome.bind_eq_error_iff.mp failed with inPieces | ⟨registry, -, atEnd⟩
  · rw [read_eq, readScanned, scan_append endsLine, List.foldlM_append, inPieces]
    rfl
  · exact absurd (isUnterminated_of_endText atEnd) terminated

/-- Behind a text that is read, the second text is read into the declarations of the
first. -/
theorem read_append_of_ok (endsLine : EndsLine first) (second : String)
    (ran : read capacity first = .ok base) :
    read capacity (first ++ second) =
      readScanned base (shiftScanned (lineCount first) (scan second.toList)) := by
  rw [read_eq] at ran
  obtain ⟨registry, piecesRan, atEnd⟩ := Outcome.bind_eq_ok_iff.mp ran
  obtain ⟨isClosed, rfl⟩ := endText_eq_ok_iff.mp atEnd
  have further := scanLines_shift (lineCount first) 1 none (Text.lines second.toList)
  rw [Option.map_none] at further
  rw [read_eq, readScanned, scan_append endsLine, isClosed, further, List.foldlM_append,
    piecesRan]
  rfl

/-- The second text is read as on its own, further down, unless one of its statements
clashes with the first text. -/
theorem read_append_cases (endsLine : EndsLine first) (second : String)
    (ran : read capacity first = .ok base) :
    (∃ next, read capacity second = .ok next ∧
      read capacity (first ++ second) = .ok (base.followedBy next)) ∨
    (∃ cause, read capacity second = .error cause ∧
      read capacity (first ++ second) = .error (cause.shift (lineCount first))) ∨
    ∃ line clash, 1 ≤ line ∧ IsClash capacity clash ∧
      read capacity (first ++ second) = .error (.refused (lineCount first + line) clash) ∧
      (∀ next, read capacity second = .ok next → ¬ base.Compatible next) ∧
      ∀ cause, read capacity second = .error cause →
        ¬ cause.IsUnterminated → line ≤ cause.line := by
  rw [read_append_of_ok endsLine second ran, read_eq]
  rcases (carries_behind base (lineCount first)).readScanned_cases
      (followedBy_empty base).symm (pairwise_line_scanLines 1 none _) with
    ⟨next, _, ranAlone, ranBehind, rfl⟩ | ⟨cause, _, failed, failedBehind, rfl⟩ |
      ⟨line, inLines, _, ⟨clash, isClash, rfl⟩, refused, apart, noEarlier⟩
  · exact Or.inl ⟨next, ranAlone, ranBehind⟩
  · exact Or.inr (Or.inl ⟨cause, failed, failedBehind⟩)
  · obtain ⟨piece, member, rfl⟩ := List.mem_map.mp inLines
    have positive : 1 ≤ piece.line := le_line_of_mem_scanLines member
    exact Or.inr (Or.inr ⟨piece.line, clash, positive, isClash, refused, apart, noEarlier⟩)

/-- Reading goes along with putting one text behind another.  A fault of the first text
stays the fault of both.  Two texts that are read give the declarations of both, unless
they share an alias or there is no room.  A fault of the second text is found further
down, unless a statement in front of it clashes with the first text. -/
theorem read_append (capacity : Nat) {first : String} (endsLine : EndsLine first)
    (second : String) :
    (∀ cause, read capacity first = .error cause → ¬ cause.IsUnterminated →
      read capacity (first ++ second) = .error cause) ∧
    (∀ base next, read capacity first = .ok base → read capacity second = .ok next →
      base.Compatible next →
        read capacity (first ++ second) = .ok (base.followedBy next)) ∧
    ∀ base cause, read capacity first = .ok base → read capacity second = .error cause →
      read capacity (first ++ second) = .error (cause.shift (lineCount first)) ∨
      ∃ line clash, read capacity (first ++ second) = .error (.refused line clash) ∧
        IsClash capacity clash ∧ lineCount first + 1 ≤ line ∧
        (¬ cause.IsUnterminated → line ≤ cause.line + lineCount first) := by
  refine ⟨?_, ?_, ?_⟩
  · intro cause failed terminated
    exact read_append_of_error endsLine second failed terminated
  · intro base next ranFirst ranSecond compatible
    rcases read_append_cases endsLine second ranFirst with
      ⟨result, ranAlone, ranBehind⟩ | ⟨cause, failed, -⟩ | ⟨-, -, -, -, -, apart, -⟩
    · obtain rfl : next = result := Except.ok.inj (ranSecond.symm.trans ranAlone)
      exact ranBehind
    · rw [ranSecond] at failed
      contradiction
    · exact absurd compatible (apart next ranSecond)
  · intro base cause ranFirst failedSecond
    rcases read_append_cases endsLine second ranFirst with
      ⟨result, ranAlone, -⟩ | ⟨fault, failed, failedBehind⟩ |
        ⟨line, clash, positive, isClash, refused, -, noEarlier⟩
    · rw [failedSecond] at ranAlone
      contradiction
    · obtain rfl : cause = fault := Except.error.inj (failedSecond.symm.trans failed)
      exact Or.inl failedBehind
    · refine Or.inr ⟨lineCount first + line, clash, refused, isClash, by omega, ?_⟩
      intro terminated
      have bound := noEarlier cause failedSecond terminated
      omega

/-- Two lines declare one alias.  A further alias goes behind it; the same alias again,
in front of a statement of some other form, is where the reading of both texts ends. -/
theorem read_append_two_lines :
    let first := "PROVIDE(__pi_a = b); /* one\n line */\n"
    let second := "PROVIDE_HIDDEN(__pi_c = d); // two"
    let clashing := "PROVIDE(__pi_a = d);\nPROVIDE(__pi_c);"
    let base : AliasRegistry 2 := ⟨[⟨⟨"__pi_a"⟩, ⟨"b"⟩⟩]⟩
    let next : AliasRegistry 2 := ⟨[⟨⟨"__pi_c"⟩, ⟨"d"⟩⟩]⟩
    EndsLine first ∧ read 2 first = .ok base ∧ read 2 second = .ok next ∧
      read 2 (first ++ second) = .ok (base.followedBy next) ∧
      read 2 clashing = .error (.malformed 2 "PROVIDE(__pi_c)") ∧
      (read 2 (first ++ clashing) = .error (.malformed 4 "PROVIDE(__pi_c)") ∨
        ∃ line clash, read 2 (first ++ clashing) = .error (.refused line clash) ∧
          IsClash 2 clash ∧ 3 ≤ line ∧ line ≤ 4) := by
  intro first second clashing base next
  have endsLine : EndsLine first := Or.inr ⟨"PROVIDE(__pi_a = b); /* one\n line */", rfl⟩
  have ranFirst : read 2 first = .ok base :=
    (readLines_eq none .empty (Text.lines first.toList)).symm.trans (by decide +kernel)
  have ranSecond : read 2 second = .ok next :=
    (readLines_eq none .empty (Text.lines second.toList)).symm.trans (by decide +kernel)
  have failed : read 2 clashing = .error (.malformed 2 "PROVIDE(__pi_c)") :=
    (readLines_eq none .empty (Text.lines clashing.toList)).symm.trans (by decide +kernel)
  have compatible : base.Compatible next := ⟨by decide, by decide⟩
  have twoLines : lineCount first = 2 := by decide
  obtain ⟨-, together, -⟩ := read_append 2 endsLine second
  obtain ⟨-, -, behind⟩ := read_append 2 endsLine clashing
  refine ⟨endsLine, ranFirst, ranSecond, together base next ranFirst ranSecond compatible,
    failed, ?_⟩
  have ended := behind base _ ranFirst failed
  rw [twoLines] at ended
  refine ended.imp id ?_
  rintro ⟨line, clash, refused, isClash, low, high⟩
  exact ⟨line, clash, refused, isClash, low, high (by rintro ⟨line, isOpen⟩; cases isOpen)⟩

end Texts

end Fragment

end EarlyBoot
