/-!
# Hexadecimal text

Bytes as lower-case hexadecimal, two digits a byte.
-/

namespace PureContracts.Text

/-- The two digits of a byte. -/
def hexDigits (byte : UInt8) : List Char :=
  [Nat.digitChar (byte.toNat / 16), Nat.digitChar (byte.toNat % 16)]

/-- The digits of some bytes. -/
def hex (bytes : List UInt8) : String := String.ofList (bytes.flatMap hexDigits)

theorem length_hex (bytes : List UInt8) : (hex bytes).length = 2 * bytes.length := by
  rw [← String.length_toList, hex, String.toList_ofList]
  induction bytes with
  | nil => rfl
  | cons byte bytes ih => simp only [List.flatMap_cons, List.length_append, ih, hexDigits,
      List.length_cons, List.length_nil]; omega

end PureContracts.Text
