import EarlyBoot.Proofs.Alias.WellFormed
import EarlyBoot.Proofs.Text

/-!
# The grammar of statements

The reader finds the parts of a statement by looking for one keyword and then another,
by trimming and by cutting.  The grammar says what the parts are and how they stand
together, and names the order in which statements are judged.  Both agree on every
piece of code: the reader accepts what the grammar accepts, and nothing else.
-/

namespace EarlyBoot
namespace Fragment

variable {capacity : Nat} {line : Nat}

/-- Nothing but blanks. -/
def AllBlank (text : List Char) : Prop :=
  ∀ character ∈ text, Text.isBlank character = true

def IsKeyword (word : List Char) : Prop :=
  word = "PROVIDE".toList ∨ word = "PROVIDE_HIDDEN".toList

/-- A statement has a keyword, and its parentheses stand around some text. -/
def Encloses (statement inner : List Char) : Prop :=
  ∃ front word gap back, AllBlank front ∧ IsKeyword word ∧ AllBlank gap ∧ AllBlank back ∧
    statement = front ++ word ++ gap ++ '(' :: (inner ++ ')' :: back)

/-- There are an alias and a target around an equals sign between the parentheses of a
statement, with any blanks around each of them. -/
def Provides (statement : List Char) (name target : SymbolName) : Prop :=
  ∃ beforeName afterName beforeTarget afterTarget,
    AllBlank beforeName ∧ AllBlank afterName ∧ AllBlank beforeTarget ∧ AllBlank afterTarget ∧
      Encloses statement (beforeName ++ name.text.toList ++ afterName ++
        '=' :: (beforeTarget ++ target.text.toList ++ afterTarget))

/-- A statement provides an alias that a registry can take in. -/
structure Declares (registry : AliasRegistry capacity) (statement : List Char)
    (name target : SymbolName) : Prop where
  provides : Provides statement name target
  plainName : name.IsPlain
  plainTarget : target.IsPlain
  earlyName : ∃ first rest, name.text.toList = "__pi_".toList ++ first :: rest
  finalTarget : ¬ "__pi_".toList <+: target.text.toList
  fresh : ∀ declaration ∈ registry.declarations, declaration.name ≠ name
  room : registry.size < capacity

/-- What becomes of one statement that is not blank. -/
inductive Judged (line : Nat) (registry : AliasRegistry capacity) (statement : List Char) :
    Except FragmentError (AliasRegistry capacity) → Prop where
  | accepted {name target : SymbolName} (declares : Declares registry statement name target) :
      Judged line registry statement (.ok ⟨registry.declarations ++ [⟨name, target⟩]⟩)
  /-- There is no equals sign between parentheses behind a keyword. -/
  | malformed (lacks : ∀ left right, ¬ Encloses statement (left ++ '=' :: right)) :
      Judged line registry statement
        (.error (.malformed line (String.ofList (Text.trim statement))))
  /-- The registry refuses what stands around the first equals sign. -/
  | refused {left right : List Char} {cause : AliasError}
      (encloses : Encloses statement (left ++ '=' :: right)) (isFirst : '=' ∉ left)
      (refuses : registry.declare ⟨String.ofList (Text.trim left)⟩
        ⟨String.ofList (Text.trim right)⟩ = .error cause) :
      Judged line registry statement (.error (.refused line cause))

/-- What becomes of the statements of some code, from left to right.  Each ends with a
semicolon; blank ones are skipped, and the first that is not accepted ends the run. -/
inductive Runs (line : Nat) : AliasRegistry capacity → List Char →
    Except FragmentError (AliasRegistry capacity) → Prop where
  | done {registry : AliasRegistry capacity} {rest : List Char} (isLast : ';' ∉ rest)
      (blank : AllBlank rest) : Runs line registry rest (.ok registry)
  | unfinished {registry : AliasRegistry capacity} {rest : List Char} (isLast : ';' ∉ rest)
      (notBlank : ¬ AllBlank rest) :
      Runs line registry rest
        (.error (.missingSemicolon line (String.ofList (Text.trim rest))))
  | skip {registry : AliasRegistry capacity} {statement later : List Char}
      {outcome : Except FragmentError (AliasRegistry capacity)} (isFirst : ';' ∉ statement)
      (blank : AllBlank statement) (runs : Runs line registry later outcome) :
      Runs line registry (statement ++ ';' :: later) outcome
  | accept {registry next : AliasRegistry capacity} {statement later : List Char}
      {outcome : Except FragmentError (AliasRegistry capacity)} (isFirst : ';' ∉ statement)
      (notBlank : ¬ AllBlank statement) (judged : Judged line registry statement (.ok next))
      (runs : Runs line next later outcome) :
      Runs line registry (statement ++ ';' :: later) outcome
  | stop {registry : AliasRegistry capacity} {statement later : List Char}
      {cause : FragmentError} (isFirst : ';' ∉ statement) (notBlank : ¬ AllBlank statement)
      (judged : Judged line registry statement (.error cause)) :
      Runs line registry (statement ++ ';' :: later) (.error cause)

section Parts

variable {statement inner rest : List Char}

/-- A character that is no blank does not stand among blanks. -/
theorem not_mem_of_allBlank {text : List Char} {mark : Char} (blank : AllBlank text)
    (plain : Text.isBlank mark = false) : mark ∉ text := by
  intro member
  rw [blank mark member] at plain
  contradiction

theorem afterKeyword?_append {word : List Char} (isKeyword : IsKeyword word)
    (notUnderscore : '_' ∉ rest.head?) : afterKeyword? (word ++ rest) = some rest := by
  rw [afterKeyword?, Option.orElse_eq_orElse, Option.orElse_eq_or, Option.or_eq_some_iff]
  rcases isKeyword with rfl | rfl
  · refine Or.inr ⟨?_, Text.after?_eq_some_iff.mpr rfl⟩
    rw [Text.after?_eq_none_iff]
    have longer : "PROVIDE_HIDDEN".toList = "PROVIDE".toList ++ '_' :: "HIDDEN".toList := rfl
    rw [longer, List.prefix_append_right_inj]
    rintro ⟨following, rfl⟩
    exact notUnderscore rfl
  · exact Or.inl (Text.after?_eq_some_iff.mpr rfl)

theorem exists_keyword_of_afterKeyword? (found : afterKeyword? statement = some rest) :
    ∃ word, IsKeyword word ∧ statement = word ++ rest := by
  rw [afterKeyword?, Option.orElse_eq_orElse, Option.orElse_eq_or,
    Option.or_eq_some_iff] at found
  rcases found with hidden | ⟨-, plain⟩
  · exact ⟨_, Or.inr rfl, Text.after?_eq_some_iff.mp hidden⟩
  · exact ⟨_, Or.inl rfl, Text.after?_eq_some_iff.mp plain⟩

/-- The reader finds what stands between the parentheses of a statement. -/
theorem arguments?_trim_eq_some_iff :
    arguments? (Text.trim statement) = some inner ↔ Encloses statement inner := by
  constructor
  · intro found
    simp only [arguments?, Option.bind_eq_bind, Option.bind_eq_some_iff] at found
    obtain ⟨rest, afterWord, opened, isOpened, isClosed⟩ := found
    obtain ⟨word, isKeyword, isWord⟩ := exists_keyword_of_afterKeyword? afterWord
    obtain ⟨front, back, blankFront, blankBack, whole⟩ := Text.exists_eq_append_trim statement
    obtain ⟨gap, blankGap, isGap⟩ := Text.exists_eq_append_trimStart rest
    obtain ⟨gapBehind, blankBehind, isBehind⟩ := Text.exists_eq_append_trimEnd opened
    rw [Text.after?_eq_some_iff] at isOpened
    rw [Text.before?_eq_some_iff] at isClosed
    refine ⟨front, word, gap, gapBehind ++ back, blankFront, isKeyword, blankGap, ?_, ?_⟩
    · intro character member
      rcases List.mem_append.mp member with inBehind | inBack
      · exact blankBehind character inBehind
      · exact blankBack character inBack
    · rw [whole, isWord, isGap, isOpened, isBehind, isClosed]
      simp
  · rintro ⟨front, word, gap, back, blankFront, isKeyword, blankGap, blankBack, rfl⟩
    have trimmed : Text.trim (front ++ word ++ gap ++ '(' :: (inner ++ ')' :: back)) =
        word ++ (gap ++ '(' :: (inner ++ [')'])) := by
      have regrouped : front ++ word ++ gap ++ '(' :: (inner ++ ')' :: back) =
          front ++ (word ++ (gap ++ '(' :: (inner ++ [')']))) ++ back := by
        simp
      rw [regrouped]
      refine Text.trim_append_append_of_ends blankFront ?_ ?_ blankBack
      · rcases isKeyword with rfl | rfl <;> simp <;> decide
      · have endsClosed : word ++ (gap ++ '(' :: (inner ++ [')'])) =
            word ++ gap ++ '(' :: inner ++ [')'] := by
          simp
        rw [endsClosed, List.getLast?_concat]
        simp
        decide
    have notUnderscore : '_' ∉ (gap ++ '(' :: (inner ++ [')'])).head? := by
      cases gap with
      | nil => simp
      | cons first gap =>
          have notFirst := not_mem_of_allBlank blankGap (by decide : Text.isBlank '_' = false)
          rw [List.mem_cons, not_or] at notFirst
          simpa using Ne.symm notFirst.1
    have opened : Text.trimStart (gap ++ '(' :: (inner ++ [')'])) =
        '(' :: (inner ++ [')']) := by
      rw [Text.trimStart_append blankGap]
      exact Text.trimStart_eq_self (by simp; decide)
    have closed : Text.trimEnd (inner ++ [')']) = inner ++ [')'] :=
      Text.trimEnd_eq_self (by simp; decide)
    rw [trimmed, arguments?, afterKeyword?_append isKeyword notUnderscore]
    simp [opened, Text.after?, closed, Text.before?_eq_some_iff]

/-- The alias and the target stand around the first equals sign. -/
theorem names?_trim_eq_some_iff {name target : SymbolName} :
    names? (Text.trim statement) = some (name, target) ↔
      ∃ left right, Encloses statement (left ++ '=' :: right) ∧ '=' ∉ left ∧
        name = ⟨String.ofList (Text.trim left)⟩ ∧
        target = ⟨String.ofList (Text.trim right)⟩ := by
  constructor
  · intro found
    simp only [names?, Option.bind_eq_bind, Option.bind_eq_some_iff] at found
    obtain ⟨inner, isInner, ⟨left, right⟩, cut, isNames⟩ := found
    rw [Text.cutAt?_singleton_eq_some_iff] at cut
    obtain ⟨rfl, isFirst⟩ := cut
    simp only [Option.pure_def, Option.some.injEq, Prod.mk.injEq] at isNames
    exact ⟨left, right, arguments?_trim_eq_some_iff.mp isInner, isFirst, isNames.1.symm,
      isNames.2.symm⟩
  · rintro ⟨left, right, encloses, isFirst, rfl, rfl⟩
    have cut : Text.cutAt? ['='] (left ++ '=' :: right) = some (left, right) :=
      Text.cutAt?_singleton_eq_some_iff.mpr ⟨rfl, isFirst⟩
    rw [names?, arguments?_trim_eq_some_iff.mpr encloses]
    simp [cut]

/-- A statement without names has no equals sign at its place. -/
theorem names?_trim_eq_none_iff :
    names? (Text.trim statement) = none ↔
      ∀ left right, ¬ Encloses statement (left ++ '=' :: right) := by
  rw [Option.eq_none_iff_forall_ne_some]
  constructor
  · intro noNames left right encloses
    obtain ⟨before, after, isSplit, isFirst⟩ :=
      List.eq_append_cons_of_mem (by simp : '=' ∈ left ++ '=' :: right)
    rw [isSplit] at encloses
    exact noNames _ (names?_trim_eq_some_iff.mpr ⟨before, after, encloses, isFirst, rfl, rfl⟩)
  · rintro lacks ⟨name, target⟩ found
    obtain ⟨left, right, encloses, -⟩ := names?_trim_eq_some_iff.mp found
    exact lacks left right encloses

end Parts

section Statements

variable {registry : AliasRegistry capacity} {statement : List Char}
  {name target : SymbolName}

theorem notBlank_of_isPlain (plain : name.IsPlain) :
    ∀ character ∈ name.text.toList, Text.isBlank character = false := by
  intro character member
  exact SymbolName.isBlank_eq_false_of_canContinue
    (SymbolName.canContinue_of_mem (SymbolName.isValid_iff.mpr plain) member)

/-- The parts of a statement that provides plain names are its names. -/
theorem names?_trim_of_provides (provides : Provides statement name target)
    (plainName : name.IsPlain) (plainTarget : target.IsPlain) :
    names? (Text.trim statement) = some (name, target) := by
  obtain ⟨beforeName, afterName, beforeTarget, afterTarget, blankBeforeName, blankAfterName,
    blankBeforeTarget, blankAfterTarget, encloses⟩ := provides
  have isFirst : '=' ∉ beforeName ++ name.text.toList ++ afterName := by
    have notInName := SymbolName.not_mem_of_isValid (SymbolName.isValid_iff.mpr plainName)
      (by decide : SymbolName.canContinue '=' = false)
    have notBlank : Text.isBlank '=' = false := by decide
    simp [notInName, not_mem_of_allBlank blankBeforeName notBlank,
      not_mem_of_allBlank blankAfterName notBlank]
  refine names?_trim_eq_some_iff.mpr ⟨_, _, encloses, isFirst, ?_, ?_⟩
  · rw [Text.trim_append_append blankBeforeName (notBlank_of_isPlain plainName)
      blankAfterName, String.ofList_toList]
  · rw [Text.trim_append_append blankBeforeTarget (notBlank_of_isPlain plainTarget)
      blankAfterTarget, String.ofList_toList]

/-- A statement provides what stands around an equals sign in it, up to blanks. -/
theorem provides_of_encloses {left right : List Char}
    (encloses : Encloses statement (left ++ '=' :: right)) :
    Provides statement ⟨String.ofList (Text.trim left)⟩ ⟨String.ofList (Text.trim right)⟩ := by
  obtain ⟨beforeName, afterName, blankBeforeName, blankAfterName, isLeft⟩ :=
    Text.exists_eq_append_trim left
  obtain ⟨beforeTarget, afterTarget, blankBeforeTarget, blankAfterTarget, isRight⟩ :=
    Text.exists_eq_append_trim right
  refine ⟨beforeName, afterName, beforeTarget, afterTarget, blankBeforeName, blankAfterName,
    blankBeforeTarget, blankAfterTarget, ?_⟩
  rw [String.toList_ofList, String.toList_ofList, ← isLeft, ← isRight]
  exact encloses

/-- A declaration is accepted when the grammar asks no more of its names. -/
theorem declares_iff :
    Declares registry statement name target ↔
      Provides statement name target ∧
        registry.declare name target = .ok ⟨registry.declarations ++ [⟨name, target⟩]⟩ := by
  rw [AliasRegistry.declare_eq_ok_iff]
  constructor
  · intro declares
    refine ⟨declares.provides, ⟨?_, ?_, ?_, ?_⟩, declares.fresh, declares.room, rfl⟩
    · exact SymbolName.isValid_iff.mpr declares.plainName
    · exact SymbolName.isValid_iff.mpr declares.plainTarget
    · exact SymbolName.isSome_final?_iff.mpr declares.earlyName
    · rw [← Bool.not_eq_true, SymbolName.isEarly_iff]
      exact declares.finalTarget
  · rintro ⟨provides, wellFormed, fresh, room, -⟩
    refine ⟨provides, ?_, ?_, ?_, ?_, fresh, room⟩
    · exact SymbolName.isValid_iff.mp wellFormed.validName
    · exact SymbolName.isValid_iff.mp wellFormed.validTarget
    · exact SymbolName.isSome_final?_iff.mp wellFormed.earlyName
    · rw [← SymbolName.isEarly_iff, wellFormed.finalTarget]
      exact Bool.false_ne_true

theorem readStatement_of_names?_eq_none (notBlank : ¬ AllBlank statement)
    (noNames : names? (Text.trim statement) = none) :
    readStatement line registry (Text.trim statement) =
      .error (.malformed line (String.ofList (Text.trim statement))) := by
  have notEmpty : Text.trim statement ≠ [] :=
    fun isEmpty => notBlank (Text.trim_eq_nil_iff.mp isEmpty)
  simp only [readStatement, if_neg notEmpty, noNames]

theorem readStatement_of_names?_eq_some
    (names : names? (Text.trim statement) = some (name, target)) :
    readStatement line registry (Text.trim statement) =
      (registry.declare name target).mapError (.refused line) := by
  have notEmpty : Text.trim statement ≠ [] := by
    intro isEmpty
    rw [isEmpty] at names
    contradiction
  simp only [readStatement, if_neg notEmpty, names]

/-- What the reader makes of a statement is what becomes of it. -/
theorem judged_readStatement (line : Nat) (registry : AliasRegistry capacity)
    (notBlank : ¬ AllBlank statement) :
    Judged line registry statement
      (readStatement line registry (Text.trim statement)) := by
  cases names : names? (Text.trim statement) with
  | none =>
      rw [readStatement_of_names?_eq_none notBlank names]
      exact .malformed (names?_trim_eq_none_iff.mp names)
  | some both =>
      obtain ⟨name, target⟩ := both
      rw [readStatement_of_names?_eq_some names]
      obtain ⟨left, right, encloses, isFirst, rfl, rfl⟩ := names?_trim_eq_some_iff.mp names
      cases declared : registry.declare ⟨String.ofList (Text.trim left)⟩
          ⟨String.ofList (Text.trim right)⟩ with
      | error cause => exact .refused encloses isFirst declared
      | ok next =>
          obtain ⟨-, -, -, rfl⟩ := AliasRegistry.declare_eq_ok_iff.mp declared
          exact .accepted (declares_iff.mpr ⟨provides_of_encloses encloses, declared⟩)

/-- The reader makes of a statement what becomes of it. -/
theorem readStatement_of_judged {outcome : Except FragmentError (AliasRegistry capacity)}
    (notBlank : ¬ AllBlank statement) (judged : Judged line registry statement outcome) :
    readStatement line registry (Text.trim statement) = outcome := by
  cases judged with
  | accepted declares =>
      have names := names?_trim_of_provides declares.provides declares.plainName
        declares.plainTarget
      rw [readStatement_of_names?_eq_some names, (declares_iff.mp declares).2]
      rfl
  | malformed lacks =>
      exact readStatement_of_names?_eq_none notBlank (names?_trim_eq_none_iff.mpr lacks)
  | refused encloses isFirst refuses =>
      have names := names?_trim_eq_some_iff.mpr ⟨_, _, encloses, isFirst, rfl, rfl⟩
      rw [readStatement_of_names?_eq_some names, refuses]
      rfl

theorem readStatement_of_allBlank (line : Nat) (registry : AliasRegistry capacity)
    (blank : AllBlank statement) :
    readStatement line registry (Text.trim statement) = .ok registry := by
  rw [readStatement, if_pos (Text.trim_eq_nil_iff.mpr blank)]

end Statements

section Code

variable {registry : AliasRegistry capacity} {statement rest : List Char}
  {outcome : Except FragmentError (AliasRegistry capacity)}

/-- Code is what stands after the last semicolon, or a statement in front of code. -/
theorem code_induction {holds : List Char → Prop}
    (last : ∀ rest, ';' ∉ rest → holds rest)
    (next : ∀ statement later, ';' ∉ statement → holds later →
      holds (statement ++ ';' :: later)) (code : List Char) : holds code := by
  induction length : code.length using Nat.strongRecOn generalizing code with
  | ind count ih =>
      by_cases member : ';' ∈ code
      · obtain ⟨statement, later, rfl, isFirst⟩ := List.eq_append_cons_of_mem member
        have shorter : later.length < count := by
          rw [← length, List.length_append, List.length_cons]
          omega
        exact next statement later isFirst (ih later.length shorter later rfl)
      · exact last code member

theorem readStatements_of_not_mem (line : Nat) (registry : AliasRegistry capacity)
    (isLast : ';' ∉ rest) :
    readStatements line registry rest = endCode line (Text.trim rest) registry := by
  rw [readStatements_eq, Text.Terminated.split_of_not_mem isLast]
  rfl

theorem readStatements_append_semicolon (line : Nat) (registry : AliasRegistry capacity)
    (isFirst : ';' ∉ statement) (later : List Char) :
    readStatements line registry (statement ++ ';' :: later) =
      readStatement line registry (Text.trim statement) >>= fun next =>
        readStatements line next later := by
  rw [readStatements_eq, Text.Terminated.split_append_mark isFirst]
  simp only [List.map_cons, List.foldlM_cons, bind_assoc, readStatements_eq]

/-- Blanks in front of code belong to its first statement. -/
theorem readStatements_blank_append {blanks : List Char} (blank : AllBlank blanks)
    (line : Nat) (registry : AliasRegistry capacity) (code : List Char) :
    readStatements line registry (blanks ++ code) = readStatements line registry code := by
  have noSemicolon := not_mem_of_allBlank blank (by decide : Text.isBlank ';' = false)
  induction code using code_induction with
  | last rest isLast =>
      have absent : ';' ∉ blanks ++ rest := by simp [noSemicolon, isLast]
      rw [readStatements_of_not_mem _ _ absent, readStatements_of_not_mem _ _ isLast,
        Text.trim_append_of_blank_front blank]
  | next statement later isFirst ih =>
      have absent : ';' ∉ blanks ++ statement := by simp [noSemicolon, isFirst]
      rw [← List.append_assoc, readStatements_append_semicolon _ _ absent,
        readStatements_append_semicolon _ _ isFirst, Text.trim_append_of_blank_front blank]

/-- Blanks behind code belong to what stands after its last semicolon. -/
theorem readStatements_append_blank {blanks : List Char} (blank : AllBlank blanks)
    (line : Nat) (registry : AliasRegistry capacity) (code : List Char) :
    readStatements line registry (code ++ blanks) = readStatements line registry code := by
  have noSemicolon := not_mem_of_allBlank blank (by decide : Text.isBlank ';' = false)
  induction code using code_induction generalizing registry with
  | last rest isLast =>
      have absent : ';' ∉ rest ++ blanks := by simp [noSemicolon, isLast]
      rw [readStatements_of_not_mem _ _ absent, readStatements_of_not_mem _ _ isLast,
        Text.trim_append_of_blank_back blank]
  | next statement later isFirst ih =>
      rw [List.append_assoc, List.cons_append, readStatements_append_semicolon _ _ isFirst,
        readStatements_append_semicolon _ _ isFirst]
      simp only [ih]

/-- Trimming code makes no difference to its statements. -/
theorem readStatements_trim (line : Nat) (registry : AliasRegistry capacity)
    (code : List Char) :
    readStatements line registry (Text.trim code) = readStatements line registry code := by
  obtain ⟨front, back, blankFront, blankBack, whole⟩ := Text.exists_eq_append_trim code
  calc
    readStatements line registry (Text.trim code) =
        readStatements line registry (front ++ Text.trim code) :=
      (readStatements_blank_append blankFront line registry _).symm
    _ = readStatements line registry (front ++ Text.trim code ++ back) :=
      (readStatements_append_blank blankBack line registry _).symm
    _ = readStatements line registry code := by rw [← whole]

theorem runs_readStatements (line : Nat) (registry : AliasRegistry capacity)
    (code : List Char) : Runs line registry code (readStatements line registry code) := by
  induction code using code_induction generalizing registry with
  | last rest isLast =>
      rw [readStatements_of_not_mem _ _ isLast, endCode]
      split
      · next isEmpty => exact .done isLast (Text.trim_eq_nil_iff.mp isEmpty)
      · next notEmpty =>
          exact .unfinished isLast fun blank => notEmpty (Text.trim_eq_nil_iff.mpr blank)
  | next statement later isFirst ih =>
      rw [readStatements_append_semicolon _ _ isFirst]
      by_cases blank : AllBlank statement
      · rw [readStatement_of_allBlank _ _ blank]
        exact .skip isFirst blank (ih registry)
      · have judged := judged_readStatement line registry blank
        generalize readStatement line registry (Text.trim statement) = result at judged ⊢
        cases result with
        | ok next => exact .accept isFirst blank judged (ih next)
        | error cause => exact .stop isFirst blank judged

theorem readStatements_of_runs (runs : Runs line registry rest outcome) :
    readStatements line registry rest = outcome := by
  induction runs with
  | done isLast blank =>
      rw [readStatements_of_not_mem _ _ isLast, endCode,
        if_pos (Text.trim_eq_nil_iff.mpr blank)]
  | unfinished isLast notBlank =>
      rw [readStatements_of_not_mem _ _ isLast, endCode,
        if_neg fun isEmpty => notBlank (Text.trim_eq_nil_iff.mp isEmpty)]
  | skip isFirst blank runs ih =>
      rw [readStatements_append_semicolon _ _ isFirst, readStatement_of_allBlank _ _ blank]
      exact ih
  | accept isFirst notBlank judged runs ih =>
      rw [readStatements_append_semicolon _ _ isFirst, readStatement_of_judged notBlank judged]
      exact ih
  | stop isFirst notBlank judged =>
      rw [readStatements_append_semicolon _ _ isFirst, readStatement_of_judged notBlank judged]
      rfl

theorem existsUnique_judged (line : Nat) (registry : AliasRegistry capacity)
    (notBlank : ¬ AllBlank statement) : ∃! outcome, Judged line registry statement outcome := by
  refine ⟨_, judged_readStatement line registry notBlank, ?_⟩
  intro outcome judged
  exact (readStatement_of_judged notBlank judged).symm

/-- The reader accepts the grammar and nothing else.  A piece of code that is neither
empty nor a directive ends with what becomes of its statements, from left to right; and
one thing becomes of each statement: it is accepted, it has another form, or the
registry refuses what stands around its first equals sign. -/
theorem readPiece_eq_iff_runs (registry : AliasRegistry capacity) {piece : Piece}
    (notEmpty : Text.trim piece.code ≠ [])
    (noDirective : (Text.trim piece.code).head? ≠ some '#') :
    (∀ outcome, readPiece registry piece = outcome ↔
      Runs piece.line registry piece.code outcome) ∧
    ∀ (state : AliasRegistry capacity) (statement : List Char), ¬ AllBlank statement →
      ∃! outcome, Judged piece.line state statement outcome := by
  have kept : isSkipped (Text.trim piece.code) = false := by
    cases code : Text.trim piece.code with
    | nil => exact absurd code notEmpty
    | cons first rest =>
        rw [code, List.head?_cons, ne_eq, Option.some.injEq] at noDirective
        simpa [isSkipped] using noDirective
  constructor
  · intro outcome
    rw [readPiece_of_not_isSkipped kept, readStatements_trim]
    constructor
    · rintro rfl
      exact runs_readStatements piece.line registry piece.code
    · exact readStatements_of_runs
  · intro state statement notBlank
    exact existsUnique_judged piece.line state notBlank

/-- A blank statement and one of many blanks come before one with two equals signs: its
target begins with the second, and what follows is not looked at. -/
theorem readPiece_eq_iff_runs_two_equals :
    let piece : Piece :=
      ⟨3, " ;PROVIDE ( __pi_a = b ) ; PROVIDE_HIDDEN(__pi_c==d);x".toList⟩
    Text.trim piece.code ≠ [] ∧ (Text.trim piece.code).head? ≠ some '#' ∧
      readPiece (.empty : AliasRegistry 4) piece =
        .error (.refused 3 (.invalidName ⟨"=d"⟩)) ∧
      Runs 3 (.empty : AliasRegistry 4) piece.code
        (.error (.refused 3 (.invalidName ⟨"=d"⟩))) := by
  intro piece
  have notEmpty : Text.trim piece.code ≠ [] := by decide +kernel
  have noDirective : (Text.trim piece.code).head? ≠ some '#' := by decide +kernel
  have stopped : readPiece (.empty : AliasRegistry 4) piece =
      .error (.refused 3 (.invalidName ⟨"=d"⟩)) := by decide +kernel
  obtain ⟨reading, -⟩ := readPiece_eq_iff_runs (.empty : AliasRegistry 4) notEmpty noDirective
  exact ⟨notEmpty, noDirective, stopped, (reading _).mp stopped⟩

end Code

end Fragment
end EarlyBoot
