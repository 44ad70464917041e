import NearLink.CString
import NearLink.Fields

/-!
# The scan response of the throughput server

`sle_set_scan_response_data` of `sle_speed_server_adv.c`. The name is a byte array that is read as
a string.
-/

namespace NearLink.Speed

open CString

def nameMaxLength : Nat := 15
def sleAdvTxPower : Byte := 20
def sleAdvDataLenMax : Nat := 251
def sleAdvDataTypeCompleteLocalName : Byte := 0x0B
def sleAdvDataTypeTxPowerLevel : Byte := 0x0C

/-- Assignment to a `uint8_t`. -/
def u8 (n : Nat) : Nat := n % 256

structure SleAdvCommonValue where
  length : Byte
  type : Byte
  value : Byte

/-- The structure in memory. -/
def SleAdvCommonValue.bytes (v : SleAdvCommonValue) : List Byte := [v.length, v.type, v.value]

/-- `sizeof(struct sle_adv_common_value)`. -/
def SleAdvCommonValue.size : Nat := 3

/-- The initialiser "sle_uart_server" of `sle_local_name`. -/
def sleLocalName : Block Byte nameMaxLength where
  cells := [0x73, 0x6C, 0x65, 0x5F, 0x75, 0x61, 0x72, 0x74, 0x5F, 0x73, 0x65, 0x72, 0x76, 0x65, 0x72]
  size := rfl

/-! ## The code -/

section Code

variable (localName : Block Byte nameMaxLength) (after : List Byte)

/-- `local_name_len`. Behind the array comes the memory `after`. -/
def localNameLen : Nat := u8 (strlen 0 (localName.cells ++ after))

/-- How far `strlen`, and then the loop and the copy, read from the start of the name. -/
def localNameReads : Nat :=
  max (strlenReads 0 (localName.cells ++ after)) (localNameLen localName after)

/-- Writes the name field at `off` of the data, and returns its length. -/
def sleSetAdvLocalName (advData : Block Byte sleAdvDataLenMax) (off maxLen : Nat) :
    Block Byte sleAdvDataLenMax × Nat :=
  let len := localNameLen localName after
  let advData := advData.write off [UInt8.ofNat (len + 1)]
  let advData := advData.write (off + 1) [sleAdvDataTypeCompleteLocalName]
  let index := 2
  match memcpyS advData (off + index) (maxLen - index) ((localName.cells ++ after).take len) with
  | (advData, false) => (advData, 0)
  | (advData, true) => (advData, u16 (index + len))

def sleSetScanResponseData (scanRspData : Block Byte sleAdvDataLenMax) :
    Block Byte sleAdvDataLenMax × Nat :=
  let len := SleAdvCommonValue.size
  let txPowerLevel : SleAdvCommonValue :=
    ⟨UInt8.ofNat (len - 1), sleAdvDataTypeTxPowerLevel, sleAdvTxPower⟩
  match memcpyS scanRspData 0 sleAdvDataLenMax txPowerLevel.bytes with
  | (scanRspData, false) => (scanRspData, 0)
  | (scanRspData, true) =>
    let idx := len
    let (scanRspData, n) :=
      sleSetAdvLocalName localName after scanRspData idx (u16 (sleAdvDataLenMax - idx))
    (scanRspData, u16 (idx + n))

end Code

/-! ## A name that ends in its array -/

theorem localNameReads_le_iff (localName : Block Byte nameMaxLength) (after : List Byte) :
    localNameReads localName after ≤ nameMaxLength ↔ 0 ∈ localName.cells := by
  have hlen : localNameLen localName after ≤ strlen 0 (localName.cells ++ after) := Nat.mod_le _ _
  have hreads : localNameReads localName after = strlenReads 0 (localName.cells ++ after) := by
    unfold localNameReads strlenReads
    omega
  have hfits : nameMaxLength ≤ (localName.cells ++ after).length := by
    rw [List.length_append, localName.size]
    omega
  rw [hreads, strlenReads_le_iff hfits, List.take_left' localName.size]

section Ended

variable {localName : Block Byte nameMaxLength}

theorem str_length_lt (hnul : 0 ∈ localName.cells) :
    (str 0 localName.cells).length < nameMaxLength := by
  have hall : localName.cells.take nameMaxLength = localName.cells :=
    List.take_of_length_le (Nat.le_of_eq localName.size)
  have hreads : strlenReads 0 localName.cells ≤ nameMaxLength := by
    rwa [strlenReads_le_iff (Nat.le_of_eq localName.size.symm), hall]
  exact hreads

theorem localNameLen_eq (hnul : 0 ∈ localName.cells) (after : List Byte) :
    localNameLen localName after = (str 0 localName.cells).length := by
  have hlt : (str 0 localName.cells).length < 15 := str_length_lt hnul
  rw [localNameLen, strlen, str_append hnul, u8]
  omega

theorem take_localName (after : List Byte) :
    (localName.cells ++ after).take (str 0 localName.cells).length = str 0 localName.cells := by
  rw [List.take_append_of_le_length (str_front _).length_le]
  exact (List.prefix_iff_eq_take.mp (str_front _)).symm

end Ended

/-! ## The fields -/

def txPowerField : Field := ⟨sleAdvDataTypeTxPowerLevel, [sleAdvTxPower], by decide⟩

/-- The name up to the first zero byte, or all of the array if there is none. -/
def localNameField (localName : Block Byte nameMaxLength) : Field where
  type := sleAdvDataTypeCompleteLocalName
  value := str 0 localName.cells
  fits := by
    have hle : (str 0 localName.cells).length ≤ localName.cells.length := (str_front _).length_le
    rw [localName.size] at hle
    exact Nat.lt_of_le_of_lt hle (by decide)

/-- What `sle_set_scan_response_data` should return and leave in the data. -/
structure WellFormedResponse (localName : Block Byte nameMaxLength) (after : List Byte)
    (scanRspData : Block Byte sleAdvDataLenMax) : Prop where
  inside : localNameReads localName after ≤ nameMaxLength
  short : (sleSetScanResponseData localName after scanRspData).2 ≤ sleAdvDataLenMax
  fields : Field.decode ((sleSetScanResponseData localName after scanRspData).1.cells.take
      (sleSetScanResponseData localName after scanRspData).2) =
    some [txPowerField, localNameField localName]

theorem sleSetAdvLocalName_spec {localName : Block Byte nameMaxLength} (hnul : 0 ∈ localName.cells)
    (after : List Byte) (advData : Block Byte sleAdvDataLenMax) {off maxLen : Nat}
    (hoff : off + 17 ≤ sleAdvDataLenMax) (hmax : 17 ≤ maxLen) :
    sleSetAdvLocalName localName after advData off maxLen =
      (advData.write off (localNameField localName).encode,
        (localNameField localName).encode.length) := by
  have hlt : (str 0 localName.cells).length < 15 := str_length_lt hnul
  have hcopy : (str 0 localName.cells).length ≤ maxLen - 2 := by omega
  have hencode : (localNameField localName).encode =
      [UInt8.ofNat ((str 0 localName.cells).length + 1)] ++ [sleAdvDataTypeCompleteLocalName] ++
        str 0 localName.cells := rfl
  have hlen : (localNameField localName).encode.length = 2 + (str 0 localName.cells).length := by
    rw [hencode, List.length_append]
    rfl
  simp only [sleSetAdvLocalName, localNameLen_eq hnul, take_localName]
  rw [memcpyS_ok _ _ (by omega) hcopy, hlen, u16_of_lt (by omega), hencode,
    ← advData.write_write (by simp; omega), ← advData.write_write (by simp; omega)]
  rfl

theorem sleSetScanResponseData_spec {localName : Block Byte nameMaxLength}
    (hnul : 0 ∈ localName.cells) (after : List Byte)
    (scanRspData : Block Byte sleAdvDataLenMax) :
    sleSetScanResponseData localName after scanRspData =
      (scanRspData.write 0 (txPowerField.encode ++ (localNameField localName).encode),
        txPowerField.encode.length + (localNameField localName).encode.length) ∧
      txPowerField.encode.length + (localNameField localName).encode.length ≤ sleAdvDataLenMax := by
  have hlt : (str 0 localName.cells).length < 15 := str_length_lt hnul
  have hpower : txPowerField.encode.length = 3 := rfl
  have hname : (localNameField localName).encode.length = (str 0 localName.cells).length + 2 := rfl
  have hmax : sleAdvDataLenMax = 251 := rfl
  refine ⟨?_, by omega⟩
  have hcode : sleSetScanResponseData localName after scanRspData =
      ((scanRspData.write 0 txPowerField.encode).write (0 + txPowerField.encode.length)
        (localNameField localName).encode,
        u16 (txPowerField.encode.length + (localNameField localName).encode.length)) := by
    have hcopy : memcpyS scanRspData 0 sleAdvDataLenMax txPowerField.encode =
        (scanRspData.write 0 txPowerField.encode, true) :=
      memcpyS_ok scanRspData 0 (by decide) (by decide)
    have hbytes : SleAdvCommonValue.bytes ⟨UInt8.ofNat (SleAdvCommonValue.size - 1),
        sleAdvDataTypeTxPowerLevel, sleAdvTxPower⟩ = txPowerField.encode := rfl
    simp only [sleSetScanResponseData, hbytes, hcopy]
    rw [sleSetAdvLocalName_spec hnul after _ (by decide) (by decide)]
    rfl
  rw [hcode, scanRspData.write_write (by omega), u16_of_lt (by omega)]

/-! ## The condition -/

/-- **The scan response is right exactly when the array holds a zero byte.** -/
theorem wellFormedResponse_iff (localName : Block Byte nameMaxLength) (after : List Byte)
    (scanRspData : Block Byte sleAdvDataLenMax) :
    WellFormedResponse localName after scanRspData ↔ 0 ∈ localName.cells := by
  constructor
  · intro h
    exact (localNameReads_le_iff localName after).mp h.inside
  · intro hnul
    obtain ⟨hcode, hshort⟩ := sleSetScanResponseData_spec hnul after scanRspData
    refine ⟨(localNameReads_le_iff localName after).mpr hnul, ?_, ?_⟩
    · rw [hcode]
      exact hshort
    · have htake := scanRspData.take_write 0 (txPowerField.encode ++ (localNameField localName).encode)
      rw [List.length_append, Nat.zero_add, List.take_zero, List.nil_append] at htake
      have hfields : txPowerField.encode ++ (localNameField localName).encode =
          [txPowerField, localNameField localName].flatMap Field.encode := by
        rw [List.flatMap_cons, List.flatMap_singleton]
      rw [hcode, htake hshort, hfields, Field.decode_flatMap_encode]

/-- The initialiser fills the array. -/
theorem initialiser_not_ended :
    ¬ ∀ (localName : Block Byte nameMaxLength) (after : List Byte)
      (scanRspData : Block Byte sleAdvDataLenMax),
      WellFormedResponse localName after scanRspData := by
  intro h
  have hinside := (h sleLocalName [] (Block.fill _ 0)).inside
  exact absurd hinside (by decide)

end NearLink.Speed
