import NearLink.Speed.Advertise
import NearLink.Stack

/-!
# What the throughput server announces

Even where the name runs off its array, the stack is given fields that can be read back.
-/

namespace NearLink.Speed

open CString Stack

def sleAdvDataTypeDiscoveryLevel : Byte := 0x01
def sleAdvDataTypeAccessMode : Byte := 0x02
def sleAdvHandleDefault : Nat := 1

/-! ## The code -/

section Code

-- `SLE_ANNOUNCE_LEVEL_NORMAL` is a value of the stack.
variable (sleAnnounceLevelNormal : Byte)

def sleSetAdvData (advData : Block Byte sleAdvDataLenMax) : Block Byte sleAdvDataLenMax × Nat :=
  let len := SleAdvCommonValue.size
  let idx := 0
  let advDiscLevel : SleAdvCommonValue :=
    ⟨UInt8.ofNat (len - 1), sleAdvDataTypeDiscoveryLevel, sleAnnounceLevelNormal⟩
  match memcpyS advData idx (sleAdvDataLenMax - idx) advDiscLevel.bytes with
  | (advData, false) => (advData, 0)
  | (advData, true) =>
    let idx := u16 (idx + len)
    let advAccessMode : SleAdvCommonValue :=
      ⟨UInt8.ofNat (len - 1), sleAdvDataTypeAccessMode, 0⟩
    match memcpyS advData idx (sleAdvDataLenMax - idx) advAccessMode.bytes with
    | (advData, false) => (advData, 0)
    | (advData, true) => (advData, u16 (idx + len))

variable (localName : Block Byte nameMaxLength) (after : List Byte)

/-- The arrays are the caller's, and their lengths are stored in a `uint8_t`. -/
def sleSetDefaultAnnounceData : Program Nat := do
  let (announceData, announceDataLen) := sleSetAdvData sleAnnounceLevelNormal (Block.fill _ 0)
  let (seekRspData, seekDataLen) := sleSetScanResponseData localName after (Block.fill _ 0)
  let _ ← setAnnounceData sleAdvHandleDefault ⟨.own announceData.cells, u8 announceDataLen⟩
    ⟨.own seekRspData.cells, u8 seekDataLen⟩
  return errcodeSleSuccess

def sleUuidServerAdvInit : Program Nat := do
  let _ ← setup .announceRegisterCbks
  let _ ← setup .setAnnounceParam
  let _ ← sleSetDefaultAnnounceData sleAnnounceLevelNormal localName after
  let _ ← startAnnounce sleAdvHandleDefault
  return errcodeSleSuccess

end Code

/-! ## The announce data -/

def discLevelField (level : Byte) : Field :=
  ⟨sleAdvDataTypeDiscoveryLevel, [level], show 1 < 255 by decide⟩

def accessModeField : Field := ⟨sleAdvDataTypeAccessMode, [0], by decide⟩

/-- The bytes of the fields are at the front of the block, and the length is theirs. -/
def Holds (data : Block Byte sleAdvDataLenMax × Nat) (fields : List Field) : Prop :=
  data.2 ≤ sleAdvDataLenMax ∧ data.1.cells.take data.2 = fields.flatMap Field.encode

theorem Holds.append {data : Block Byte sleAdvDataLenMax} {n : Nat} {fields : List Field}
    (h : Holds (data, n) fields) (f : Field) (hfits : n + f.encode.length ≤ sleAdvDataLenMax) :
    Holds (data.write n f.encode, n + f.encode.length) (fields ++ [f]) := by
  refine ⟨hfits, ?_⟩
  rw [data.take_write n f.encode hfits, h.2, List.flatMap_append, List.flatMap_singleton]

theorem holds_nil (data : Block Byte sleAdvDataLenMax) : Holds (data, 0) [] :=
  ⟨Nat.zero_le _, List.take_zero⟩

theorem sleSetAdvData_holds (level : Byte) (advData : Block Byte sleAdvDataLenMax) :
    Holds (sleSetAdvData level advData) [discLevelField level, accessModeField] := by
  have hlevel : SleAdvCommonValue.bytes ⟨UInt8.ofNat (SleAdvCommonValue.size - 1),
      sleAdvDataTypeDiscoveryLevel, level⟩ = (discLevelField level).encode := rfl
  have hmode : SleAdvCommonValue.bytes ⟨UInt8.ofNat (SleAdvCommonValue.size - 1),
      sleAdvDataTypeAccessMode, 0⟩ = accessModeField.encode := rfl
  have hfirst : memcpyS advData 0 (sleAdvDataLenMax - 0) (discLevelField level).encode =
      (advData.write 0 (discLevelField level).encode, true) :=
    memcpyS_ok advData 0 (by decide) (show 3 ≤ 251 by decide)
  have hsecond : ∀ data : Block Byte sleAdvDataLenMax,
      memcpyS data 3 (sleAdvDataLenMax - 3) accessModeField.encode =
        (data.write 3 accessModeField.encode, true) :=
    fun data => memcpyS_ok data 3 (by decide) (by decide)
  have hidx : u16 (0 + SleAdvCommonValue.size) = 3 := rfl
  simp only [sleSetAdvData, hlevel, hmode, hfirst, hidx, hsecond]
  have hlevelHeld := (holds_nil advData).append (discLevelField level) (show 3 ≤ 251 by decide)
  exact hlevelHeld.append accessModeField (show 6 ≤ 251 by decide)

/-! ## The scan response -/

/-- The bytes that are taken for the name: an array that does not end, and what lies behind it. -/
def announcedName (localName : Block Byte nameMaxLength) (after : List Byte) : List Byte :=
  (localName.cells ++ after).take (localNameLen localName after)

theorem announcedName_length (localName : Block Byte nameMaxLength) (after : List Byte) :
    (announcedName localName after).length = localNameLen localName after := by
  have hmod : localNameLen localName after ≤ strlen 0 (localName.cells ++ after) := Nat.mod_le _ _
  have hlen := hmod.trans (str_front (localName.cells ++ after)).length_le
  rw [announcedName, List.length_take, Nat.min_eq_left hlen]

def announcedNameField {localName : Block Byte nameMaxLength} {after : List Byte}
    (h : (announcedName localName after).length ≤ 246) : Field :=
  ⟨sleAdvDataTypeCompleteLocalName, announcedName localName after, by omega⟩

/-- A name for which the data have no room is left out. -/
def nameFields (localName : Block Byte nameMaxLength) (after : List Byte) : List Field :=
  if h : (announcedName localName after).length ≤ 246 then [announcedNameField h] else []

theorem take_write_of_le {α : Type*} {n k off : Nat} (b : Block α n) (src : List α) (hk : k ≤ off)
    (hoff : off ≤ n) : (b.write off src).cells.take k = b.cells.take k := by
  have hfront : (b.cells.take off).length = off := by rw [List.length_take, b.size, Nat.min_eq_left hoff]
  simp only [Block.write]
  rw [List.append_assoc, List.take_append_of_le_length (hfront.symm ▸ hk), List.take_take,
    Nat.min_eq_left hk]

theorem sleSetAdvLocalName_holds (localName : Block Byte nameMaxLength) (after : List Byte)
    {data : Block Byte sleAdvDataLenMax} {fields : List Field}
    (h : Holds (data, 3) fields) :
    Holds ((sleSetAdvLocalName localName after data 3 248).1,
      u16 (3 + (sleSetAdvLocalName localName after data 3 248).2))
      (fields ++ nameFields localName after) := by
  have hlen := announcedName_length localName after
  have hmax : sleAdvDataLenMax = 251 := rfl
  simp only [sleSetAdvLocalName, ← hlen]
  rw [show (localName.cells ++ after).take (announcedName localName after).length =
    announcedName localName after by rw [hlen, announcedName]]
  by_cases hfits : (announcedName localName after).length ≤ 246
  · have hencode : (announcedNameField hfits).encode =
        [UInt8.ofNat ((announcedName localName after).length + 1)] ++
          [sleAdvDataTypeCompleteLocalName] ++ announcedName localName after := rfl
    have hsize : (announcedNameField hfits).encode.length =
        2 + (announcedName localName after).length := by
      rw [hencode, List.length_append]
      rfl
    have hwrite : ((data.write 3 [UInt8.ofNat ((announcedName localName after).length + 1)]).write
        (3 + 1) [sleAdvDataTypeCompleteLocalName]).write (3 + 2) (announcedName localName after) =
          data.write 3 (announcedNameField hfits).encode := by
      rw [hencode, ← data.write_write (by simp; omega),
        ← data.write_write (show 3 + 1 + 1 ≤ 251 by decide)]
      rfl
    rw [memcpyS_ok _ _ (by omega) hfits]
    simp only [nameFields, dif_pos hfits, hwrite]
    rw [u16_of_lt (n := 2 + _) (by omega), u16_of_lt (by omega), ← hsize]
    exact h.append _ (by omega)
  · rw [memcpyS, if_neg (by omega), if_pos (by omega)]
    simp only [nameFields, dif_neg hfits, List.append_nil, Nat.add_zero]
    refine ⟨show 3 ≤ 251 by decide, ?_⟩
    show List.take 3 _ = _
    rw [take_write_of_le _ _ (by omega) (by omega), take_write_of_le _ _ (by omega) (by omega),
      take_write_of_le _ _ (by omega) (by omega)]
    exact h.2

theorem sleSetScanResponseData_holds (localName : Block Byte nameMaxLength) (after : List Byte)
    (scanRspData : Block Byte sleAdvDataLenMax) :
    Holds (sleSetScanResponseData localName after scanRspData)
      (txPowerField :: nameFields localName after) := by
  have hcopy : memcpyS scanRspData 0 sleAdvDataLenMax txPowerField.encode =
      (scanRspData.write 0 txPowerField.encode, true) :=
    memcpyS_ok scanRspData 0 (by decide) (by decide)
  have hbytes : SleAdvCommonValue.bytes ⟨UInt8.ofNat (SleAdvCommonValue.size - 1),
      sleAdvDataTypeTxPowerLevel, sleAdvTxPower⟩ = txPowerField.encode := rfl
  have hpower : Holds (scanRspData.write 0 txPowerField.encode, 3) [txPowerField] :=
    (holds_nil scanRspData).append txPowerField (by decide)
  have hname := sleSetAdvLocalName_holds localName after hpower
  simp only [sleSetScanResponseData, hbytes, hcopy]
  exact hname

/-! ## What the stack is given -/

theorem Holds.read {data : Block Byte sleAdvDataLenMax × Nat} {fields : List Field}
    (h : Holds data fields) (e : Env) :
    e.read ⟨.own data.1.cells, u8 data.2⟩ = some (fields.flatMap Field.encode) := by
  have hlen : u8 data.2 = data.2 := Nat.mod_eq_of_lt (Nat.lt_of_le_of_lt h.1 (by decide))
  have hfits : data.2 ≤ data.1.cells.length := by
    rw [data.1.size]
    exact h.1
  simp only [Env.read, hlen, if_pos hfits, h.2]

/-- The announcement, with fields that read back as they were meant. -/
def Announces (level : Byte) (localName : Block Byte nameMaxLength) (after : List Byte)
    (e t : Env) : Prop :=
  ∃ dataRet startRet announceData seekRspData,
    Field.decode announceData = some [discLevelField level, accessModeField] ∧
    Field.decode seekRspData = some (txPowerField :: nameFields localName after) ∧
    t = (e.announce dataRet (.data sleAdvHandleDefault announceData seekRspData)).announce startRet
      (.start sleAdvHandleDefault)

theorem advInit_safe (level : Byte) (localName : Block Byte nameMaxLength) (after : List Byte)
    (e : Env) :
    contract.Safe (sleUuidServerAdvInit level localName after) e fun ret t =>
      ret = errcodeSleSuccess ∧ Announces level localName after e t := by
  have hdata := (sleSetAdvData_holds level (Block.fill _ 0)).read e
  have hrsp := (sleSetScanResponseData_holds localName after (Block.fill _ 0)).read e
  unfold sleUuidServerAdvInit sleSetDefaultAnnounceData
  simp only [Contract.safe_bind, safe_setup, safe_setAnnounceData, safe_startAnnounce,
    Contract.safe_pure, hdata, hrsp]
  intro _ _
  refine ⟨⟨rfl, rfl⟩, fun dataRet startRet => ⟨trivial, dataRet, startRet, _, _, ?_, ?_, rfl⟩⟩
  · exact Field.decode_flatMap_encode _
  · exact Field.decode_flatMap_encode _

end NearLink.Speed
