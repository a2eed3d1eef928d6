import EarlyBoot.Proofs.Fragment.RoundTrip

/-!
# The column of the equals signs

The statements of a fragment are written with their equals signs in one column, which is
the first one that leaves room for the longest alias.  The width of an alias is counted
in bytes and the spaces behind it in characters; the two agree because the names of a
registry are ASCII.
-/

namespace EarlyBoot
namespace Fragment

variable {capacity : Nat}

/-- The bytes that characters take. -/
def byteCount (text : List Char) : Nat :=
  (String.ofList text).utf8ByteSize

/-- The number of bytes in front of the first equals sign of a line, if it has one. -/
def equalsColumn? (line : List Char) : Option Nat :=
  (Text.cutAt? ['='] line).map fun parts => byteCount parts.1

/-- The line of a declaration with some spaces between the alias and ` = `. -/
def spacedLine (spaces : Nat) (declaration : AliasDecl) : List Char :=
  keyword ++ ['('] ++ declaration.name.text.toList ++ List.replicate spaces ' ' ++
    [' ', '=', ' '] ++ declaration.target.text.toList ++ [')', ';']

/-- The lines are those of the declarations, in their order, with the equals signs in the
first column that all of them can have. -/
structure Aligned (lines : List (List Char)) (declarations : List AliasDecl) (column : Nat)
    (spaces : AliasDecl → Nat) : Prop where
  lines_eq : lines =
    declarations.map fun declaration => spacedLine (spaces declaration) declaration
  one_equals : ∀ declaration ∈ declarations,
    (spacedLine (spaces declaration) declaration).count '=' = 1
  same_column : ∀ declaration ∈ declarations,
    equalsColumn? (spacedLine (spaces declaration) declaration) = some column
  tight : ∃ declaration ∈ declarations, spaces declaration = 0
  least : ∀ (other : Nat) (otherSpaces : AliasDecl → Nat),
    (∀ declaration ∈ declarations,
      equalsColumn? (spacedLine (otherSpaces declaration) declaration) = some other) →
    column ≤ other

section Bytes

theorem byteCount_append (first second : List Char) :
    byteCount (first ++ second) = byteCount first + byteCount second := by
  rw [byteCount, String.ofList_append, String.utf8ByteSize_append]
  rfl

/-- ASCII characters take one byte each. -/
theorem byteCount_eq_length {text : List Char}
    (ascii : ∀ character ∈ text, character.toNat < 0x80) : byteCount text = text.length := by
  induction text with
  | nil => rfl
  | cons first rest ih =>
      rw [List.forall_mem_cons] at ascii
      have one : byteCount [first] = 1 := by
        rw [byteCount, ← String.singleton_eq_ofList, String.utf8ByteSize_singleton,
          Char.utf8Size_eq_one_iff]
        exact Nat.lt_succ_iff.mp ascii.1
      rw [← List.singleton_append, byteCount_append, ih ascii.2, one, List.length_append,
        List.length_singleton]

theorem byteCount_replicate_space (count : Nat) :
    byteCount (List.replicate count ' ') = count := by
  have ascii : ∀ character ∈ List.replicate count ' ', character.toNat < 0x80 := by
    intro character member
    rw [List.eq_of_mem_replicate member]
    decide
  rw [byteCount_eq_length ascii, List.length_replicate]

/-- The name of an alias takes as many bytes as it has characters. -/
theorem utf8ByteSize_of_isValid {name : SymbolName} (valid : name.isValid = true) :
    name.text.utf8ByteSize = name.text.length := by
  have ascii : ∀ character ∈ name.text.toList, character.toNat < 0x80 := by
    intro character member
    have range := SymbolName.toNat_of_canContinue
      (SymbolName.canContinue_of_mem valid member)
    omega
  have bytes := byteCount_eq_length ascii
  rwa [byteCount, String.ofList_toList, String.length_toList] at bytes

end Bytes

section Width

variable {declarations : List AliasDecl}

theorem utf8ByteSize_le_aliasWidth {declaration : AliasDecl}
    (member : declaration ∈ declarations) :
    declaration.name.text.utf8ByteSize ≤ aliasWidth declarations := by
  have listed := List.mem_map_of_mem
    (f := fun declaration : AliasDecl => declaration.name.text.utf8ByteSize) member
  rw [aliasWidth, List.foldl_max_eq_max (List.ne_nil_of_mem listed)]
  exact Nat.le_trans (List.le_max_of_mem listed) (Nat.le_max_right _ _)

/-- The width is that of some alias. -/
theorem exists_utf8ByteSize_eq_aliasWidth (declared : declarations ≠ []) :
    ∃ declaration ∈ declarations,
      declaration.name.text.utf8ByteSize = aliasWidth declarations := by
  have notEmpty : declarations.map
      (fun declaration : AliasDecl => declaration.name.text.utf8ByteSize) ≠ [] := by
    simpa using declared
  obtain ⟨declaration, member, isMax⟩ := List.mem_map.mp (List.max_mem notEmpty)
  refine ⟨declaration, member, ?_⟩
  rw [aliasWidth, List.foldl_max_eq_max notEmpty, isMax, Nat.zero_max]

end Width

section Lines

variable {declaration : AliasDecl}

theorem toList_statement_eq_spacedLine (width : Nat) (declaration : AliasDecl) :
    (statement width declaration).toList =
      spacedLine (width - declaration.name.text.length) declaration := by
  rw [toList_statement, statementBody, statementArguments, paddedName, spacedLine,
    List.replicate_succ']
  simp only [List.append_assoc, List.cons_append, List.nil_append]

/-- The part of a line in front of the equals sign. -/
def front (spaces : Nat) (declaration : AliasDecl) : List Char :=
  keyword ++ ['('] ++ declaration.name.text.toList ++ List.replicate spaces ' ' ++ [' ']

/-- The part of a line behind the equals sign. -/
def back (declaration : AliasDecl) : List Char :=
  [' '] ++ declaration.target.text.toList ++ [')', ';']

theorem spacedLine_eq (spaces : Nat) (declaration : AliasDecl) :
    spacedLine spaces declaration = front spaces declaration ++ '=' :: back declaration := by
  rw [spacedLine, front, back]
  simp only [List.append_assoc, List.cons_append, List.nil_append]

theorem not_mem_front (wellFormed : declaration.WellFormed) (spaces : Nat) :
    '=' ∉ front spaces declaration := by
  have notInName := SymbolName.not_mem_of_isValid wellFormed.validName
    (by decide : SymbolName.canContinue '=' = false)
  simp [front, keyword, notInName]

theorem not_mem_back (wellFormed : declaration.WellFormed) : '=' ∉ back declaration := by
  have notInTarget := SymbolName.not_mem_of_isValid wellFormed.validTarget
    (by decide : SymbolName.canContinue '=' = false)
  simp [back, notInTarget]

theorem count_equals_spacedLine (wellFormed : declaration.WellFormed) (spaces : Nat) :
    (spacedLine spaces declaration).count '=' = 1 := by
  rw [spacedLine_eq, List.count_append, List.count_cons_self,
    List.count_eq_zero_of_not_mem (not_mem_front wellFormed spaces),
    List.count_eq_zero_of_not_mem (not_mem_back wellFormed)]

/-- The column of the equals sign counts the mark in front of the alias and the last
space with it. -/
theorem equalsColumn?_spacedLine (wellFormed : declaration.WellFormed) (spaces : Nat) :
    equalsColumn? (spacedLine spaces declaration) =
      some (8 + declaration.name.text.utf8ByteSize + spaces + 1) := by
  have divided : Text.cutAt? ['='] (spacedLine spaces declaration) =
      some (front spaces declaration, back declaration) :=
    Text.cutAt?_singleton_eq_some_iff.mpr
      ⟨spacedLine_eq spaces declaration, not_mem_front wellFormed spaces⟩
  have mark : byteCount (keyword ++ ['(']) = 8 := by decide
  have space : byteCount [' '] = 1 := by decide
  have name : byteCount declaration.name.text.toList =
      declaration.name.text.utf8ByteSize := by
    rw [byteCount, String.ofList_toList]
  rw [equalsColumn?, divided, Option.map_some, front, byteCount_append, byteCount_append,
    byteCount_append, mark, name, byteCount_replicate_space, space]

end Lines

/-- The lines of a fragment from the thirteenth on are the declarations of the registry,
with the equals signs in one column and no further to the right than the longest alias
asks for. -/
theorem aligned_of_render {registry : AliasRegistry capacity}
    (reachable : registry.Reachable) (declared : registry.declarations ≠ [])
    {guard : String} (oneLine : '\n' ∉ guard.toList) :
    ∃ column spaces,
      Aligned (((Text.lines (render guard registry).toList).drop 12).take registry.size)
        registry.declarations column spaces := by
  have wellFormed := reachable.wellFormed
  refine ⟨8 + aliasWidth registry.declarations + 1,
    fun declaration => aliasWidth registry.declarations - declaration.name.text.length,
    ?_, ?_, ?_, ?_, ?_⟩
  · have headerSize : ((header guard).map lineOf).length = 12 := by simp [header]
    have statementsSize :
        ((statements registry.declarations).map lineOf).length = registry.size := by
      simp [statements, AliasRegistry.size]
    rw [lines_render oneLine wellFormed, List.append_assoc, ← headerSize, List.drop_left,
      ← statementsSize, List.take_left, map_lineOf_statements]
    exact List.map_congr_left fun declaration _ => toList_statement_eq_spacedLine _ declaration
  · intro declaration member
    exact count_equals_spacedLine (wellFormed.declarations declaration member) _
  · intro declaration member
    have names := wellFormed.declarations declaration member
    have room := utf8ByteSize_le_aliasWidth member
    have ascii := utf8ByteSize_of_isValid names.validName
    rw [equalsColumn?_spacedLine names, Option.some.injEq]
    omega
  · obtain ⟨longest, member, isWidth⟩ := exists_utf8ByteSize_eq_aliasWidth declared
    have ascii := utf8ByteSize_of_isValid
      (wellFormed.declarations longest member).validName
    refine ⟨longest, member, ?_⟩
    omega
  · intro other otherSpaces sameColumn
    obtain ⟨longest, member, isWidth⟩ := exists_utf8ByteSize_eq_aliasWidth declared
    have here := sameColumn longest member
    rw [equalsColumn?_spacedLine (wellFormed.declarations longest member),
      Option.some.injEq] at here
    omega

theorem aligned_of_render_imageVars :
    AliasRegistry.imageVars.Reachable ∧ AliasRegistry.imageVars.declarations ≠ [] ∧
      '\n' ∉ "IMAGE\r;VARS".toList ∧
      ∃ column spaces,
        Aligned (((Text.lines (render "IMAGE\r;VARS" .imageVars).toList).drop 12).take
            AliasRegistry.imageVars.size)
          AliasRegistry.imageVars.declarations column spaces := by
  have declared : AliasRegistry.imageVars.declarations ≠ [] :=
    List.ne_nil_of_length_pos (by decide)
  have oneLine : '\n' ∉ "IMAGE\r;VARS".toList := by decide
  exact ⟨.imageVars, declared, oneLine, aligned_of_render .imageVars declared oneLine⟩

end Fragment
end EarlyBoot
