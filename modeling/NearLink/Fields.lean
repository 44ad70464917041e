import NearLink.Bytes

/-!
# Lists of length-type-value fields

A length byte `k`, a type byte, and `k - 1` bytes of value.
-/

namespace NearLink

structure Field where
  type : Byte
  value : List Byte
  fits : value.length < 255
  deriving DecidableEq, Repr

namespace Field

def encode (f : Field) : List Byte := UInt8.ofNat (f.value.length + 1) :: f.type :: f.value

/-- The fields, if the bytes are fields with nothing left over. -/
def decode : List Byte → Option (List Field)
  | [] => some []
  | [_] => none
  | k :: type :: rest =>
    if k ≠ 0 ∧ k.toNat - 1 ≤ rest.length then
      (decode (rest.drop (k.toNat - 1))).map fun fields =>
        ⟨type, rest.take (k.toNat - 1), by
          have hk := k.toNat_lt
          rw [List.length_take]
          omega⟩ :: fields
    else none
termination_by bytes => bytes.length
decreasing_by
  rw [List.length_drop, List.length_cons, List.length_cons]
  omega

theorem length_toNat (f : Field) : (UInt8.ofNat (f.value.length + 1)).toNat = f.value.length + 1 := by
  have hfits := f.fits
  rw [UInt8.toNat_ofNat', Nat.mod_eq_of_lt]
  simp only [Nat.reducePow]
  omega

theorem decode_encode_append (f : Field) (bytes : List Byte) :
    decode (f.encode ++ bytes) = (decode bytes).map (f :: ·) := by
  have hk := f.length_toNat
  have hne : UInt8.ofNat (f.value.length + 1) ≠ 0 := by
    intro h
    rw [h] at hk
    cases hk
  have hsub : (UInt8.ofNat (f.value.length + 1)).toNat - 1 = f.value.length := by
    rw [hk, Nat.add_sub_cancel]
  simp only [encode, List.cons_append]
  rw [decode, if_pos ⟨hne, by rw [hsub, List.length_append]; omega⟩]
  simp only [hsub, List.drop_left, List.take_left]

/-- **Encoded fields are read back.** -/
theorem decode_flatMap_encode (fields : List Field) :
    decode (fields.flatMap encode) = some fields := by
  induction fields with
  | nil => simp [decode]
  | cons f fields ih => rw [List.flatMap_cons, decode_encode_append, ih, Option.map_some]

end Field

end NearLink
