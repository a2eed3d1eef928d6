import EarlyBoot.Proofs.Alias.WellFormed
import EarlyBoot.Proofs.Fragment.Comparison

/-!
# The room for the declarations of a text

A text is read in the same way whatever its registry has room for, up to the declaration
for which there is no room.  A registry asks for room after everything else, so that what
it refuses for any other cause is refused for that cause by every registry with the same
declarations.
-/

namespace EarlyBoot

namespace AliasRegistry

variable {capacity larger : Nat}

/-- The same declarations, with room for another number of them. -/
def resize (other : Nat) (registry : AliasRegistry capacity) : AliasRegistry other :=
  ⟨registry.declarations⟩

/-- Two registries with the same declarations answer a declaration alike, unless the
smaller one has no room for it. -/
theorem declare_cases_of_lt (less : capacity < larger) {registry : AliasRegistry larger}
    {smaller : AliasRegistry capacity} (same : registry.declarations = smaller.declarations)
    (name target : SymbolName) :
    (∃ next nextSmaller, registry.declare name target = .ok next ∧
      smaller.declare name target = .ok nextSmaller ∧
      next.declarations = nextSmaller.declarations) ∨
    (∃ cause, (∀ room, cause ≠ .full room) ∧ registry.declare name target = .error cause ∧
      smaller.declare name target = .error cause) ∨
    (smaller.declare name target = .error (.full capacity) ∧
      ∀ next, registry.declare name target = .ok next → capacity < next.size) := by
  have included : registry.declarations ⊆ smaller.declarations := same ▸ List.Subset.refl _
  rcases declare_of_subset included name target with refused | ⟨wellFormed, fresh⟩
  · exact Or.inr (Or.inl refused)
  · have freshSmaller : ∀ declaration ∈ smaller.declarations, declaration.name ≠ name :=
      same ▸ fresh
    have sameSize : registry.size = smaller.size := congrArg List.length same
    by_cases full : capacity ≤ smaller.size
    · refine Or.inr (Or.inr ⟨?_, ?_⟩)
      · rw [declare_of_fresh wellFormed freshSmaller, if_pos full]
      · intro next accepted
        obtain ⟨-, -, -, rfl⟩ := declare_eq_ok_iff.mp accepted
        rw [size, List.length_append, List.length_singleton]
        rw [← sameSize, size] at full
        omega
    · have room : ¬ larger ≤ registry.size := by omega
      refine Or.inl ⟨_, _, ?_, ?_, congrArg (· ++ [⟨name, target⟩]) same⟩
      · rw [declare_of_fresh wellFormed fresh, if_neg room]
      · rw [declare_of_fresh wellFormed freshSmaller, if_neg full]

end AliasRegistry

namespace FragmentError

/-- The fault is a declaration for which there is no room. -/
def IsFull (fault : FragmentError) : Prop :=
  ∃ line room, fault = .refused line (.full room)

end FragmentError

namespace Fragment

open AliasRegistry

variable {capacity larger : Nat}

theorem shiftScanned_zero (scanned : List Piece × Option Nat) :
    shiftScanned 0 scanned = scanned := by
  have samePiece : Piece.shift 0 = id := by
    funext piece
    rw [Piece.shift, Nat.zero_add, id]
  rcases scanned with ⟨pieces, openedAt⟩
  simp [shiftScanned, samePiece]

/-- The reading of some lines into a larger registry is compared with their reading into
a smaller one.  That one is stopped when there is no room left, and the other then only
ends with more declarations than the smaller one can take. -/
def inSmaller (capacity larger : Nat) :
    Comparison (AliasRegistry larger) (AliasRegistry capacity) where
  related registry smaller := registry.declarations = smaller.declarations
  sameFault fault other := other = fault ∧ ¬ fault.IsFull
  stops line fault := fault = .refused line (.full capacity)
  beyond registry := capacity < registry.size

theorem carries_inSmaller (less : capacity < larger) :
    (inSmaller capacity larger).Carries 0 where
  declare := by
    intro registry smaller name target line same
    rw [Nat.zero_add]
    rcases declare_cases_of_lt less same name target with
      ⟨next, nextSmaller, accepted, acceptedSmaller, stillSame⟩ |
        ⟨cause, notFull, refused, refusedSmaller⟩ | ⟨full, grows⟩
    · rw [accepted, acceptedSmaller]
      exact .ok stillSame
    · rw [refused, refusedSmaller]
      refine .error ⟨rfl, ?_⟩
      rintro ⟨_, room, isFull⟩
      injection isFull with _ isRoom
      exact notFull room isRoom
    · rw [full]
      refine .stopped List.mem_cons_self rfl ?_ ?_
      · intro next accepted
        exact grows next (Outcome.mapError_eq_ok_iff.mp accepted)
      · intro fault failed
        obtain ⟨cause, -, rfl⟩ := Outcome.mapError_eq_error_iff.mp failed
        exact Nat.le_refl line
  malformed line found := ⟨by rw [Nat.zero_add], by rintro ⟨_, _, ⟨⟩⟩⟩
  missingSemicolon line found := ⟨by rw [Nat.zero_add], by rintro ⟨_, _, ⟨⟩⟩⟩
  unterminatedComment line := ⟨by rw [Nat.zero_add], by rintro ⟨_, _, ⟨⟩⟩⟩
  declared registry name target next beyond accepted := by
    obtain ⟨-, -, -, rfl⟩ := declare_eq_ok_iff.mp accepted
    have longer : capacity < registry.size := beyond
    change capacity < (registry.declarations ++ [_]).length
    rw [size] at longer
    rw [List.length_append]
    omega

/-- A larger registry gives the same answer to a text, unless a smaller one has no room
for a declaration. -/
theorem read_cases_of_lt (less : capacity < larger) (text : String) :
    (∃ registry, read capacity text = .ok registry ∧
      read larger text = .ok (registry.resize larger)) ∨
    (∃ fault, ¬ fault.IsFull ∧ read capacity text = .error fault ∧
      read larger text = .error fault) ∨
    ∃ line, read capacity text = .error (.refused line (.full capacity)) ∧
      (∀ registry, read larger text = .ok registry → capacity < registry.size) ∧
      ∀ fault, read larger text = .error fault → ¬ fault.IsUnterminated →
        line ≤ fault.line := by
  have atStart : (inSmaller capacity larger).related .empty .empty := rfl
  have compared := (carries_inSmaller less).readScanned_cases atStart
    (pairwise_line_scanLines 1 none (Text.lines text.toList))
  rw [shiftScanned_zero] at compared
  rcases compared with
    ⟨registry, smaller, ran, ranSmaller, same⟩ |
      ⟨fault, _, failed, failedSmaller, ⟨rfl, notFull⟩⟩ |
        ⟨line, -, _, rfl, full, grows, noEarlier⟩
  · have sameDeclarations : registry = smaller.resize larger :=
      congrArg AliasRegistry.mk same
    exact Or.inl ⟨smaller, ranSmaller, sameDeclarations ▸ ran⟩
  · exact Or.inr (Or.inl ⟨_, notFull, failedSmaller, failed⟩)
  · exact Or.inr (Or.inr ⟨line, full, grows, noEarlier⟩)

/-- A registry with room for the declarations of a text is enough to read it. -/
theorem read_of_size_le {registry : AliasRegistry capacity} {text : String}
    (ran : read capacity text = .ok registry) {other : Nat} (room : registry.size ≤ other) :
    read other text = .ok (registry.resize other) := by
  rcases Nat.lt_trichotomy capacity other with less | rfl | less
  · rcases read_cases_of_lt less text with
      ⟨result, ranHere, ranOther⟩ | ⟨fault, -, failed, -⟩ | ⟨line, full, -, -⟩
    · obtain rfl : registry = result := Except.ok.inj (ran.symm.trans ranHere)
      exact ranOther
    · rw [ran] at failed
      contradiction
    · rw [ran] at full
      contradiction
  · exact ran
  · rcases read_cases_of_lt less text with
      ⟨result, ranOther, ranHere⟩ | ⟨fault, -, -, failed⟩ | ⟨line, -, grows, -⟩
    · obtain rfl : registry = result.resize capacity :=
        Except.ok.inj (ran.symm.trans ranHere)
      exact ranOther
    · rw [ran] at failed
      contradiction
    · exact absurd (grows registry ran) (Nat.not_lt.mpr room)

/-- A registry with less room is full at some line. -/
theorem read_of_lt_size {registry : AliasRegistry capacity} {text : String}
    (ran : read capacity text = .ok registry) {other : Nat} (short : other < registry.size) :
    ∃ line, read other text = .error (.refused line (.full other)) := by
  have less : other < capacity := Nat.lt_of_lt_of_le short (wellFormed_of_read ran).size_le
  rcases read_cases_of_lt less text with
    ⟨result, ranOther, ranHere⟩ | ⟨fault, -, -, failed⟩ | ⟨line, full, -, -⟩
  · obtain rfl : registry = result.resize capacity :=
      Except.ok.inj (ran.symm.trans ranHere)
    exact absurd (wellFormed_of_read ranOther).size_le (Nat.not_le.mpr short)
  · rw [ran] at failed
    contradiction
  · exact ⟨line, full⟩

/-- The capacity of a registry only limits what is read.  An answer that is not for want
of room is the answer at every larger capacity.  Where a text runs out of room, a larger
capacity gives more declarations, or a fault that is not on an earlier line.  A text that
is read is read alike at every capacity that its declarations fit in, and at no other. -/
theorem read_of_capacity (text : String) :
    (∀ capacity larger, capacity < larger →
      ((∀ line room, read capacity text ≠ .error (.refused line (.full room))) →
        read larger text = (read capacity text).map (resize larger)) ∧
      ∀ line room, read capacity text = .error (.refused line (.full room)) →
        room = capacity ∧
        ((∃ registry, read larger text = .ok registry ∧ capacity < registry.size) ∨
          ∃ fault, read larger text = .error fault ∧
            (fault.IsUnterminated ∨ line ≤ fault.line))) ∧
    ∀ capacity registry, read capacity text = .ok registry → ∀ other,
      (registry.size ≤ other → read other text = .ok (registry.resize other)) ∧
      (other < registry.size →
        ∃ line, read other text = .error (.refused line (.full other))) := by
  constructor
  · intro capacity larger less
    rcases read_cases_of_lt less text with
      ⟨registry, ran, ranLarger⟩ | ⟨fault, notFull, failed, failedLarger⟩ |
        ⟨line, full, grows, noEarlier⟩
    · rw [ran, ranLarger]
      exact ⟨fun _ => rfl, fun _ _ impossible => by contradiction⟩
    · rw [failed, failedLarger]
      refine ⟨fun _ => rfl, ?_⟩
      rintro line room ⟨rfl⟩
      exact absurd ⟨line, room, rfl⟩ notFull
    · refine ⟨fun notFull => absurd full (notFull line capacity), ?_⟩
      rw [full]
      rintro _ _ ⟨rfl⟩
      refine ⟨rfl, ?_⟩
      cases outcome : read larger text with
      | ok registry => exact Or.inl ⟨registry, rfl, grows registry outcome⟩
      | error fault =>
          by_cases terminated : fault.IsUnterminated
          · exact Or.inr ⟨fault, rfl, Or.inl terminated⟩
          · exact Or.inr ⟨fault, rfl, Or.inr (noEarlier fault outcome terminated)⟩
  · intro capacity registry ran other
    exact ⟨read_of_size_le ran, read_of_lt_size ran⟩

/-- Three declarations run out of room at their second line unless there is room for all
of them.  An alias that is declared twice is no matter of room. -/
theorem read_of_capacity_three_declarations :
    let text := "PROVIDE(__pi_a = b);\nPROVIDE(__pi_c = d); PROVIDE(__pi_e = f);"
    let twice := "PROVIDE(__pi_a = b);\nPROVIDE(__pi_a = c);"
    let registry : AliasRegistry 4 :=
      ⟨[⟨⟨"__pi_a"⟩, ⟨"b"⟩⟩, ⟨⟨"__pi_c"⟩, ⟨"d"⟩⟩, ⟨⟨"__pi_e"⟩, ⟨"f"⟩⟩]⟩
    read 1 text = .error (.refused 2 (.full 1)) ∧
      ((∃ result, read 2 text = .ok result ∧ 1 < result.size) ∨
        ∃ fault, read 2 text = .error fault ∧ (fault.IsUnterminated ∨ 2 ≤ fault.line)) ∧
      read 4 text = .ok registry ∧ read 3 text = .ok (registry.resize 3) ∧
      (∃ line, read 2 text = .error (.refused line (.full 2))) ∧
      read 1 twice = .error (.refused 2 (.duplicate ⟨"__pi_a"⟩)) ∧
      read 9 twice = .error (.refused 2 (.duplicate ⟨"__pi_a"⟩)) := by
  intro text twice registry
  have full : read 1 text = .error (.refused 2 (.full 1)) :=
    (readLines_eq none .empty (Text.lines text.toList)).symm.trans (by decide +kernel)
  have ran : read 4 text = .ok registry :=
    (readLines_eq none .empty (Text.lines text.toList)).symm.trans (by decide +kernel)
  have known : read 1 twice = .error (.refused 2 (.duplicate ⟨"__pi_a"⟩)) :=
    (readLines_eq none .empty (Text.lines twice.toList)).symm.trans (by decide +kernel)
  obtain ⟨limits, fits⟩ := read_of_capacity text
  obtain ⟨limitsTwice, -⟩ := read_of_capacity twice
  refine ⟨full, ((limits 1 2 (by decide)).2 2 1 full).2, ran,
    (fits 4 registry ran 3).1 (by decide), (fits 4 registry ran 2).2 (by decide), known, ?_⟩
  have notFull : ∀ line room, read 1 twice ≠ .error (.refused line (.full room)) := by
    rw [known]
    rintro line room ⟨⟩
  rw [(limitsTwice 1 9 (by decide)).1 notFull, known]
  rfl

end Fragment

end EarlyBoot
