/-!
# Numbers and records in a byte string

A record is a slice of a byte string; a field of a record is a number whose
lowest byte comes first.
-/

namespace EarlyBoot
namespace Elf

/-- Some bytes of the data from an offset on, if the data has that many. -/
def slice? (data : ByteArray) (offset size : Nat) : Option (List UInt8) :=
  if offset + size ≤ data.size then
    some (data.extract offset (offset + size)).data.toList
  else
    none

/-- The number that bytes stand for, the lowest byte first. -/
def number (bytes : List UInt8) : Nat :=
  bytes.foldr (fun byte higher => byte.toNat + 256 * higher) 0

/-- The number in some bytes of a record. -/
def field (record : List UInt8) (offset width : Nat) : Nat :=
  number ((record.drop offset).take width)

/-- The position of the first zero byte among the next bytes from a position. -/
def zeroAt? (data : ByteArray) (position : Nat) : (count : Nat) → Option Nat
  | 0 => none
  | count + 1 =>
      if data[position]? = some 0 then
        some position
      else
        zeroAt? data (position + 1) count

end Elf
end EarlyBoot
