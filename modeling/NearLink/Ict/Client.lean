import NearLink.Bytes

/-!
# The ict_sle client

`ProcessFrame` of `sle_uart_client.c` and the two callbacks that call it.
-/

namespace NearLink.Ict

def Client.audioFrameHeader : Nat := 0x55AA
def Client.audioFrameTail : Nat := 0xAA55
def Client.audioFrameOverhead : Nat := 8

/-- The globals that frames change, and all calls of `uapi_uart_write`. -/
structure Client where
  expectedSeq : Nat
  totalRecvPktCount : Nat
  lostPktCount : Nat
  seqInitialized : Bool
  notificationCount : Nat
  written : List (List Byte)
  deriving DecidableEq, Repr

def Client.start : Client := ⟨0, 0, 0, false, 0, []⟩

/-- `data[i] | (data[i + 1] << 8)`. -/
def word (data : List Byte) (i : Nat) : Nat :=
  u16 ((data.getD i 0).toNat ||| (data.getD (i + 1) 0).toNat <<< 8)

/-- The numbers that were skipped. More than 1000 of them are not counted. -/
def countLoss (recvSeq : Nat) (c : Client) : Client :=
  if recvSeq ≠ c.expectedSeq then
    let gap :=
      if recvSeq > c.expectedSeq then u16 (recvSeq - c.expectedSeq)
      else u16 (0x10000 + recvSeq - c.expectedSeq)
    if gap ≤ 1000 then { c with lostPktCount := u32 (c.lostPktCount + gap) } else c
  else c

def processFrame (data : List Byte) (c : Client) : Client :=
  let dataLen := data.length
  if dataLen < Client.audioFrameOverhead then c
  else
    let header := word data 0
    let tail := word data (dataLen - 2)
    if header ≠ Client.audioFrameHeader ∨ tail ≠ Client.audioFrameTail then c
    else
      let recvSeq := word data 2
      let payloadLen := word data 4
      let c := { c with totalRecvPktCount := u32 (c.totalRecvPktCount + 1) }
      let c :=
        if c.seqInitialized then c else { c with expectedSeq := recvSeq, seqInitialized := true }
      let c := { countLoss recvSeq c with expectedSeq := u16 (recvSeq + 1) }
      if payloadLen > 0 ∧ payloadLen ≤ dataLen - Client.audioFrameOverhead then
        { c with written := c.written ++ [(data.drop 6).take payloadLen] }
      else c

inductive Arrival
  | notification
  | indication
  deriving DecidableEq, Repr

def sleClientNotificationCbk (data : List Byte) (c : Client) : Client :=
  processFrame data { c with notificationCount := u32 (c.notificationCount + 1) }

def sleClientIndicationCbk (data : List Byte) (c : Client) : Client := processFrame data c

def receive (c : Client) : Arrival × List Byte → Client
  | (.notification, data) => sleClientNotificationCbk data c
  | (.indication, data) => sleClientIndicationCbk data c

end NearLink.Ict
