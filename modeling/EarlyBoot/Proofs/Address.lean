import EarlyBoot.Address
import EarlyBoot.Proofs.Hex

/-!
# Printed addresses

An address is printed as two groups of eight digits, or as the shortest numeral with its
mark.  Either text shows the address and no other one, and the texts in groups are ordered
byte by byte as the addresses are.
-/

namespace EarlyBoot
namespace Address

/-- What the texts of an address look like and which number they show. -/
structure Printed (address : Address) : Prop where
  groups : ∃ high low, Hex.IsGroup high ∧ Hex.IsGroup low ∧
    address.groupedText = "0x" ++ String.ofList high ++ "'" ++ String.ofList low ∧
    Hex.value? (high ++ low) = some address.toNat
  /-- A word and an address are printed alike. -/
  like_word : ∀ form, Hex.grouped form address.value = address.groupedIn form
  /-- The forms differ in the mark alone. -/
  marked_eq : address.groupedIn .marked = "0x" ++ address.groupedIn .plain
  mark_iff : ∀ form, "0x".toList <+: (address.groupedIn form).toList ↔ form = .marked
  shortest : ∃ digits, address.text = "0x" ++ String.ofList digits ∧
    (∀ character ∈ digits, Hex.IsDigit character) ∧
    (digits.head? = some '0' → digits = ['0']) ∧
    Hex.value? digits = some address.toNat
  reads_back : ofText? address.text = some address

theorem text_inj {first second : Address} : first.text = second.text ↔ first = second := by
  constructor
  · intro same
    have read := ofText?_text first
    rw [same, ofText?_text second] at read
    exact (Option.some.inj read).symm
  · rintro rfl
    rfl

theorem groupedIn_inj {form : Hex.Form} {first second : Address} :
    first.groupedIn form = second.groupedIn form ↔ first = second := by
  rw [groupedIn, groupedIn, Hex.grouped_inj]
  exact ⟨fun same => toNat_inj.mp (congrArg UInt64.toNat same), congrArg value⟩

theorem printed (address : Address) : address.Printed where
  groups := ⟨Hex.highGroup address.value, Hex.lowGroup address.value,
    Hex.isGroup_highGroup address.value, Hex.isGroup_lowGroup address.value, rfl,
    Hex.value?_groups address.value⟩
  like_word := fun _ => rfl
  marked_eq := by
    simp [groupedIn, Hex.grouped, Hex.Form.opening, Hex.mark, String.append_assoc]
  mark_iff := Hex.mark_prefix_grouped_iff address.value
  shortest := ⟨Hex.digits address.toNat, rfl,
    Hex.isDigit_of_continue? (Hex.continue?_digits address.toNat),
    Hex.digits_eq_of_head?_zero, Hex.value?_digits address.toNat⟩
  reads_back := ofText?_text address

/-- The texts of an address show it faithfully: the groups and the shortest numeral read
back as the address, the groups are ordered byte by byte as the addresses, and addresses
that are not the same are not printed alike in any form. -/
theorem printed_in_order (first second : Address) :
    first.Printed ∧
      compare first.groupedText.toUTF8.data.toList second.groupedText.toUTF8.data.toList =
        compare first second ∧
      (first.text = second.text ↔ first = second) ∧
      ∀ form, first.groupedIn form = second.groupedIn form ↔ first = second :=
  ⟨first.printed, Hex.compare_grouped .marked first.value second.value, text_inj,
    fun _ => groupedIn_inj⟩

example : (⟨0xFFFF800000001000⟩ : Address).groupedText = "0xffff8000'00001000" := by
  decide

end Address
end EarlyBoot
