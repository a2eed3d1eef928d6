import EarlyBoot.Proofs.Elf.RoundTrip

/-!
# The strings of a table

A string of a table stands between an index of the table and the first zero byte from
there on, and the table has to lie in the data as a whole.  `EndsAt` and `Stands` say
this byte by byte.  A string is read exactly where one stands; bytes that are no UTF-8
are told apart from a string that is not there.

The bounds of a table are words of a file, which may be as large as words can be.  Sums
of such words are checked, and `readInWords` reads a string with these checks only; it
always agrees with the bounds taken as numbers.
-/

namespace EarlyBoot
namespace Elf

open Format

/-- The text that some bytes encode, or the fault of the string at an index whose bytes
encode none. -/
def decode (index : Nat) (bytes : ByteArray) : Except Error String :=
  match String.fromUTF8? bytes with
  | none => .error (.invalidString index)
  | some text => .ok text

section Places

variable {data : ByteArray} {table : SectionHeader} {index stop : Nat} {text : String}

/-- The first zero byte from an index of the table on, which lies in the data, stands
at a position of the table. -/
structure EndsAt (data : ByteArray) (table : SectionHeader) (index stop : Nat) : Prop where
  index_inside : index < table.size
  table_inside : table.offset + table.size ≤ data.size
  start_le : table.offset + index ≤ stop
  stop_inside : stop < table.offset + table.size
  zero : data[stop]? = some 0
  before : ∀ position, table.offset + index ≤ position → position < stop →
    data[position]? ≠ some 0

/-- The bytes from an index of the table up to a first zero byte are those of a text. -/
def Stands (data : ByteArray) (table : SectionHeader) (index : Nat) (text : String) : Prop :=
  ∃ stop, EndsAt data table index stop ∧
    text.toUTF8 = data.extract (table.offset + index) stop

theorem zeroAt?_eq_some_iff {start count : Nat} :
    zeroAt? data start count = some stop ↔
      (start ≤ stop ∧ stop < start + count) ∧ data[stop]? = some 0 ∧
        ∀ position, start ≤ position → position < stop → data[position]? ≠ some 0 := by
  induction count generalizing start with
  | zero =>
      simp only [zeroAt?, reduceCtorEq, false_iff]
      omega
  | succ count ih =>
      rw [zeroAt?]
      by_cases zero : data[start]? = some 0
      · rw [if_pos zero, Option.some.injEq]
        constructor
        · rintro rfl
          exact ⟨by omega, zero, by omega⟩
        · rintro ⟨inside, -, before⟩
          rcases Nat.eq_or_lt_of_le inside.1 with same | later
          · exact same
          · exact absurd zero (before start (Nat.le_refl start) later)
      · rw [if_neg zero, ih]
        constructor
        · rintro ⟨inside, here, before⟩
          refine ⟨by omega, here, fun position above below => ?_⟩
          by_cases isStart : position = start
          · rwa [isStart]
          · exact before position (by omega) below
        · rintro ⟨inside, here, before⟩
          have differs : stop ≠ start := by
            rintro rfl
            exact zero here
          exact ⟨by omega, here, fun position above => before position (by omega)⟩

theorem fromUTF8?_eq_some_iff {bytes : ByteArray} :
    String.fromUTF8? bytes = some text ↔ text.toUTF8 = bytes := by
  constructor
  · intro decoded
    unfold String.fromUTF8? at decoded
    split at decoded
    · obtain rfl := Option.some.inj decoded
      rfl
    · contradiction
  · rintro rfl
    exact fromUTF8?_toUTF8 text

/-- Where the bytes of a string end, only its encoding can be at fault. -/
theorem readString_of_endsAt (ends : EndsAt data table index stop) :
    readString data table index =
      decode index (data.extract (table.offset + index) stop) := by
  have indexInside := ends.index_inside
  have stopInside := ends.stop_inside
  have found : zeroAt? data (table.offset + index) (table.size - index) = some stop :=
    zeroAt?_eq_some_iff.mpr ⟨⟨ends.start_le, by omega⟩, ends.zero, ends.before⟩
  rw [readString, if_pos ⟨ends.index_inside, ends.table_inside⟩, found]
  rfl

theorem readString_of_not_endsAt (endless : ∀ stop, ¬ EndsAt data table index stop) :
    readString data table index = .error (.stringOutOfBounds index) := by
  unfold readString
  dsimp only
  split
  · next inside =>
      cases zero : zeroAt? data (table.offset + index) (table.size - index) with
      | none => rfl
      | some stop =>
          obtain ⟨⟨start_le, stop_lt⟩, isZero, before⟩ := zeroAt?_eq_some_iff.mp zero
          exact absurd ⟨inside.1, inside.2, start_le, by omega, isZero, before⟩ (endless stop)
  · rfl

theorem EndsAt.unique (first : EndsAt data table index stop) {other : Nat}
    (second : EndsAt data table index other) : stop = other := by
  rcases Nat.lt_trichotomy stop other with less | same | greater
  · exact absurd first.zero (second.before stop first.start_le less)
  · exact same
  · exact absurd second.zero (first.before other second.start_le greater)

/-- How a string is read: it stands in the table, its bytes are no text, or they do not
end in the table. -/
theorem readString_cases_stands (data : ByteArray) (table : SectionHeader) (index : Nat) :
    (∃ text, Stands data table index text ∧ readString data table index = .ok text) ∨
    ((∃ stop, EndsAt data table index stop) ∧ (∀ text, ¬ Stands data table index text) ∧
      readString data table index = .error (.invalidString index)) ∨
    ((∀ stop, ¬ EndsAt data table index stop) ∧
      readString data table index = .error (.stringOutOfBounds index)) := by
  by_cases ended : ∃ stop, EndsAt data table index stop
  · obtain ⟨stop, ends⟩ := ended
    have read := readString_of_endsAt ends
    cases decoded : String.fromUTF8? (data.extract (table.offset + index) stop) with
    | some text =>
        rw [decode, decoded] at read
        exact Or.inl ⟨text, ⟨stop, ends, fromUTF8?_eq_some_iff.mp decoded⟩, read⟩
    | none =>
        rw [decode, decoded] at read
        refine Or.inr (Or.inl ⟨⟨stop, ends⟩, ?_, read⟩)
        rintro text ⟨other, otherEnds, bytes⟩
        rw [← ends.unique otherEnds, ← fromUTF8?_eq_some_iff, decoded] at bytes
        contradiction
  · have endless := not_exists.mp ended
    exact Or.inr (Or.inr ⟨endless, readString_of_not_endsAt endless⟩)

theorem Stands.unique (first : Stands data table index text) {other : String}
    (second : Stands data table index other) : text = other := by
  obtain ⟨stop, ends, bytes⟩ := first
  obtain ⟨otherStop, otherEnds, otherBytes⟩ := second
  rw [← ends.unique otherEnds, ← bytes] at otherBytes
  exact String.toByteArray_inj.mp otherBytes.symm

/-- A byte of a stretch of the data is the byte at some position of it. -/
theorem exists_position_of_mem_extract {start : Nat} {byte : UInt8}
    (member : byte ∈ (data.extract start stop).data.toList) :
    ∃ position, start ≤ position ∧ position < stop ∧ data[position]? = some byte := by
  rw [ByteArray.data_extract, Array.toList_extract, List.extract_eq_take_drop,
    List.mem_iff_getElem?] at member
  obtain ⟨place, found⟩ := member
  rw [List.getElem?_take] at found
  split at found
  · next inside =>
      rw [List.getElem?_drop] at found
      obtain ⟨here, isByte⟩ := List.getElem?_eq_some_iff.mp found
      refine ⟨start + place, by omega, by omega, ?_⟩
      rw [getElem?_eq_some_getElem here, isByte]
  · contradiction

theorem zero_mem_toUTF8 (member : '\x00' ∈ text.toList) : 0 ∈ text.toUTF8.data.toList := by
  rw [Text.toList_data_toUTF8, Text.mem_bytes]
  exact ⟨'\x00', member, by decide⟩

/-- A string that stands in a table has no zero character, and it lies with its zero byte
in the table and in the data. -/
theorem Stands.plain (stands : Stands data table index text) :
    '\x00' ∉ text.toList ∧
      index + text.utf8ByteSize < table.size ∧
      table.offset + table.size ≤ data.size := by
  obtain ⟨stop, ends, bytes⟩ := stands
  have stopInside := ends.stop_inside
  have tableInside := ends.table_inside
  refine ⟨fun member => ?_, ?_, tableInside⟩
  · have zero := zero_mem_toUTF8 member
    rw [bytes] at zero
    obtain ⟨position, above, below, isZero⟩ := exists_position_of_mem_extract zero
    exact ends.before position above below isZero
  · have startBelow := ends.start_le
    have size := congrArg ByteArray.size bytes
    rw [String.toUTF8_eq_toByteArray, String.size_toByteArray, ByteArray.size_extract] at size
    omega

end Places

section Words

variable {data : ByteArray} {table : SectionHeader} {offset size : UInt64} {index : UInt32}

/-- The sum of two words, unless it is too large for a word. -/
def checkedSum? (first second : UInt64) : Option UInt64 :=
  if first ≤ first + second then some (first + second) else none

/-- The bytes from an index of a table up to its end.  Each bound is a checked sum of
words. -/
def bytesInWords? (data : ByteArray) (offset size : UInt64) (index : UInt32) :
    Option (List UInt8) :=
  match (checkedSum? offset index.toUInt64).filter fun _ => index.toUInt64 < size,
      checkedSum? offset size with
  | some start, some stop =>
      if start ≤ stop ∧ stop.toNat ≤ data.size then
        some (data.extract start.toNat stop.toNat).data.toList
      else
        none
  | _, _ => none

/-- The string at an index of a table whose offset and size are words. -/
def readInWords (data : ByteArray) (offset size : UInt64) (index : UInt32) :
    Except Error String :=
  match bytesInWords? data offset size index with
  | none => .error (.stringOutOfBounds index.toNat)
  | some bytes =>
      match bytes.findIdx? (· = 0) with
      | none => .error (.stringOutOfBounds index.toNat)
      | some length => decode index.toNat (bytes.take length).toByteArray

theorem word_le_add_iff {first second : UInt64} :
    first ≤ first + second ↔ first.toNat + second.toNat < UInt64.size := by
  have firstFits := first.toNat_lt
  have secondFits := second.toNat_lt
  have wordSize : UInt64.size = 2 ^ 64 := rfl
  rw [UInt64.le_iff_toNat_le, UInt64.toNat_add]
  omega

theorem checkedSum?_cases (first second : UInt64) :
    (∃ sum, checkedSum? first second = some sum ∧
      sum.toNat = first.toNat + second.toNat) ∨
    checkedSum? first second = none ∧ UInt64.size ≤ first.toNat + second.toNat := by
  by_cases fits : first ≤ first + second
  · refine Or.inl ⟨first + second, if_pos fits, ?_⟩
    rw [UInt64.toNat_add]
    exact Nat.mod_eq_of_lt (word_le_add_iff.mp fits)
  · exact Or.inr ⟨if_neg fits, Nat.not_lt.mp (mt word_le_add_iff.mpr fits)⟩

/-- Data of a file is shorter than the words go, so that a table whose end is no word
does not lie in it. -/
theorem bytesInWords?_eq (addressable : data.size < UInt64.size) :
    bytesInWords? data offset size index =
      if index.toNat < size.toNat ∧ offset.toNat + size.toNat ≤ data.size then
        some ((data.data.toList.drop (offset.toNat + index.toNat)).take
          (size.toNat - index.toNat))
      else
        none := by
  have inside : index.toUInt64 < size ↔ index.toNat < size.toNat := by
    rw [UInt64.lt_iff_toNat_lt, UInt32.toNat_toUInt64]
  unfold bytesInWords?
  rcases checkedSum?_cases offset size with ⟨stop, stopSum, isStop⟩ | ⟨noStop, tooLarge⟩
  · rcases checkedSum?_cases offset index.toUInt64 with
      ⟨start, startSum, isStart⟩ | ⟨noStart, startTooLarge⟩
    · rw [UInt32.toNat_toUInt64] at isStart
      by_cases inTable : index.toNat < size.toNat
      · have startLe : start ≤ stop := by
          rw [UInt64.le_iff_toNat_le]
          omega
        have length : stop.toNat - start.toNat = size.toNat - index.toNat := by omega
        simp only [startSum, stopSum, Option.filter_some, inside, inTable, decide_true,
          if_true, startLe, true_and]
        rw [isStop]
        split
        · rw [ByteArray.data_extract, Array.toList_extract, List.extract_eq_take_drop,
            ← isStop, length, isStart]
        · rfl
      · simp [startSum, stopSum, inside, inTable]
    · rw [UInt32.toNat_toUInt64] at startTooLarge
      have outside : ¬ (index.toNat < size.toNat ∧
          offset.toNat + size.toNat ≤ data.size) := by
        omega
      rw [if_neg outside, noStart]
      rfl
  · have outside : ¬ (index.toNat < size.toNat ∧
        offset.toNat + size.toNat ≤ data.size) := by
      omega
    rw [if_neg outside, noStop]
    split
    · contradiction
    · rfl

/-- The first zero byte of a stretch of the data is found at its place among the bytes of
the stretch. -/
theorem zeroAt?_eq_findIdx? {start count : Nat} (inside : start + count ≤ data.size) :
    zeroAt? data start count =
      (((data.data.toList.drop start).take count).findIdx? (· = 0)).map (start + ·) := by
  induction count generalizing start with
  | zero => simp [zeroAt?]
  | succ count ih =>
      have here : start < data.data.toList.length := by
        rw [Array.length_toList, ByteArray.size_data]
        omega
      rw [zeroAt?, getElem?_eq_some_getElem here, List.drop_eq_getElem_cons here,
        List.take_succ_cons, List.findIdx?_cons]
      by_cases isZero : data.data.toList[start] = 0
      · simp [isZero]
      · rw [if_neg (by simpa using isZero), ih (by omega), if_neg (by simpa using isZero),
          Option.map_map]
        congr 1
        funext place
        simp only [Function.comp_apply]
        omega

/-- Strings are read alike with checked sums of words and with numbers. -/
theorem readString_eq_readInWords (addressable : data.size < UInt64.size)
    (isOffset : table.offset = offset.toNat) (isSize : table.size = size.toNat)
    (index : UInt32) :
    readString data table index.toNat = readInWords data offset size index := by
  rw [readInWords, bytesInWords?_eq addressable, readString, isOffset, isSize]
  by_cases inside : index.toNat < size.toNat ∧ offset.toNat + size.toNat ≤ data.size
  · rw [if_pos inside, if_pos inside, zeroAt?_eq_findIdx? (by omega)]
    dsimp only
    cases found : ((data.data.toList.drop (offset.toNat + index.toNat)).take
        (size.toNat - index.toNat)).findIdx? (· = 0) with
    | none => rfl
    | some length =>
        have upTo : data.extract (offset.toNat + index.toNat)
            (offset.toNat + index.toNat + length) =
            (((data.data.toList.drop (offset.toNat + index.toNat)).take
              (size.toNat - index.toNat)).take length).toByteArray := by
          have shorter := List.findIdx?_eq_some_iff_findIdx_eq.mp found
          rw [extract_eq_toByteArray, List.take_take, Nat.min_eq_left]
          have bound := shorter.1
          rw [List.length_take] at bound
          omega
        rw [Option.map_some]
        exact congrArg (decode index.toNat) upTo
  · rw [if_neg inside, if_neg inside]

/-- A string is read exactly where one stands in the table.  The fault of a string that
ends in the table is its encoding, and any other string is out of bounds.  With checked
sums of words the outcome is the same. -/
theorem readString_iff_stands (addressable : data.size < UInt64.size)
    (isOffset : table.offset = offset.toNat) (isSize : table.size = size.toNat)
    (index : UInt32) :
    (∀ text, readString data table index.toNat = .ok text ↔
      Stands data table index.toNat text) ∧
    (readString data table index.toNat = .error (.invalidString index.toNat) ↔
      (∃ stop, EndsAt data table index.toNat stop) ∧
        ∀ text, ¬ Stands data table index.toNat text) ∧
    (readString data table index.toNat = .error (.stringOutOfBounds index.toNat) ↔
      ∀ stop, ¬ EndsAt data table index.toNat stop) ∧
    (∀ text, Stands data table index.toNat text →
      '\x00' ∉ text.toList ∧ index.toNat + text.utf8ByteSize < table.size ∧
        table.offset + table.size ≤ data.size) ∧
    readInWords data offset size index = readString data table index.toNat := by
  have sameInWords := (readString_eq_readInWords addressable isOffset isSize index).symm
  rcases readString_cases_stands data table index.toNat with
    ⟨found, stands, read⟩ | ⟨⟨stop, ends⟩, noText, read⟩ | ⟨endless, read⟩
  · have ⟨stop, ends, _⟩ := stands
    refine ⟨fun text => ?_, ?_, ?_, fun _ => Stands.plain, sameInWords⟩
    · rw [read, Except.ok.injEq]
      constructor
      · rintro rfl
        exact stands
      · exact stands.unique
    · rw [read]
      exact iff_of_false (by simp) fun invalid => invalid.2 found stands
    · rw [read]
      exact iff_of_false (by simp) fun endless => endless stop ends
  · refine ⟨fun text => ?_, ?_, ?_, fun _ => Stands.plain, sameInWords⟩
    · rw [read]
      exact iff_of_false (by simp) (noText text)
    · exact iff_of_true read ⟨⟨stop, ends⟩, noText⟩
    · rw [read]
      exact iff_of_false (by simp) fun endless => endless stop ends
  · refine ⟨fun text => ?_, ?_, ?_, fun _ => Stands.plain, sameInWords⟩
    · rw [read]
      exact iff_of_false (by simp) fun ⟨stop, ends, _⟩ => endless stop ends
    · rw [read]
      exact iff_of_false (by simp) fun ⟨⟨stop, ends⟩, _⟩ => endless stop ends
    · exact iff_of_true read endless

/-- The last string of a table that ends with the data is read, and a table whose end is
no word has no strings. -/
theorem readString_iff_stands_last_index :
    let data : ByteArray := ⟨#[0x61, 0, 0xC3, 0xA9, 0]⟩
    data.size < UInt64.size ∧
      readString data ⟨0, 3, 1, 4, 0, 0⟩ 1 = .ok "é" ∧
      readString data ⟨0, 3, 0xFFFFFFFFFFFFFFFF, 2, 0, 0⟩ 1 =
        .error (.stringOutOfBounds 1) := by
  intro data
  have addressable : data.size < UInt64.size := by decide
  refine ⟨addressable, ?_, ?_⟩
  · have isOffset : (⟨0, 3, 1, 4, 0, 0⟩ : SectionHeader).offset = (1 : UInt64).toNat := rfl
    have isSize : (⟨0, 3, 1, 4, 0, 0⟩ : SectionHeader).size = (4 : UInt64).toNat := rfl
    obtain ⟨isOk, -⟩ := readString_iff_stands addressable isOffset isSize 1
    refine (isOk "é").mpr ⟨4, ⟨by decide, by decide, by decide, by decide, rfl, ?_⟩, rfl⟩
    intro position above below
    have which : position = 2 ∨ position = 3 := by
      change 2 ≤ position at above
      omega
    rcases which with rfl | rfl <;> decide
  · have isOffset : (⟨0, 3, 0xFFFFFFFFFFFFFFFF, 2, 0, 0⟩ : SectionHeader).offset =
        (0xFFFFFFFFFFFFFFFF : UInt64).toNat := rfl
    have isSize : (⟨0, 3, 0xFFFFFFFFFFFFFFFF, 2, 0, 0⟩ : SectionHeader).size =
        (2 : UInt64).toNat := rfl
    obtain ⟨-, -, outOfBounds, -⟩ := readString_iff_stands addressable isOffset isSize 1
    refine outOfBounds.mpr fun stop ends => ?_
    have inside := ends.table_inside
    exact absurd inside (by decide)

end Words

end Elf
end EarlyBoot
