import NearLink.Bytes

/-!
# The UART receiver of the throughput server

`uart1_rx_callback` of `sle_speed_server.c`. It appends each chunk to `g_reassemble_buf`,
offers the frames it finds to the message queue and moves the rest to the front.
-/

namespace NearLink.Speed

def uart1RxBufSize : Nat := 1500
def uartQueueBufSize : Nat := uart1RxBufSize
def reassembleBufSize : Nat := uart1RxBufSize * 4
def audioHeader : Nat := 0x55AA
def audioTail : Nat := 0xAA55
def audioFrameHdrLen : Nat := 6
def audioFrameTailLen : Nat := 2
def audioFrameMinLen : Nat := audioFrameHdrLen + audioFrameTailLen

@[simp] theorem uartQueueBufSize_val : uartQueueBufSize = 1500 := rfl
@[simp] theorem reassembleBufSize_val : reassembleBufSize = 6000 := rfl
@[simp] theorem audioFrameMinLen_val : audioFrameMinLen = 8 := rfl

/-- `uart_msg_t`: the first `len` bytes of `data`, the only ones that are written. -/
structure UartMsg where
  data : List Byte
  fits : data.length ≤ uartQueueBufSize
  deriving DecidableEq, Repr

def UartMsg.len (m : UartMsg) : Nat := m.data.length

structure Rx where
  reassembleBuf : Block Byte reassembleBufSize
  reassembleLen : Nat
  uartRxFrmOk : Nat
  uartRxFrmDrop : Nat
  deriving DecidableEq, Repr

def Rx.start : Rx := ⟨Block.fill _ 0, 0, 0, 0⟩

/-- `g_reassemble_buf[0 .. g_reassemble_len)`. -/
def Rx.received (rx : Rx) : List Byte := rx.reassembleBuf.cells.take rx.reassembleLen

/-- One call, with what its surroundings answer: the value that a read outside the array yields
in iteration `k` of the loop, and whether the queue takes the `i`-th message. -/
structure Call where
  buffer : Option (List Byte)
  error : Bool
  outside : Nat → Nat → Byte
  accept : Nat → Bool

/-- What a call brings. With the error flag it brings nothing. -/
def Call.bytes (c : Call) : List Byte := if c.error then [] else c.buffer.getD []

/-- A call without an error, for which the queue has room. -/
def Call.ok (data : List Byte) : Call := ⟨some data, false, fun _ _ => 0, fun _ => true⟩

/-! ## The extraction loop -/

inductive Iter
  | stop
  | skip
  | frame (total : Nat)
  deriving DecidableEq, Repr

/-- `memcpy(&x, g_reassemble_buf + i, 2)` into a `uint16_t`. -/
def read16 (outside : Nat → Byte) (buf : Block Byte reassembleBufSize) (i : Nat) : Nat :=
  le16 (buf.read outside i) (buf.read outside (i + 1))

/-- `size` bytes of `g_reassemble_buf` are read from `off` on. -/
structure Access where
  off : Nat
  size : Nat
  deriving DecidableEq, Repr

/-- An iteration of the loop, with what it reads before it copies a frame. -/
def extractIterReads (outside : Nat → Byte) (buf : Block Byte reassembleBufSize) (len pos : Nat) :
    Iter × List Access :=
  if pos + audioFrameMinLen ≤ len then
    let hdr := read16 outside buf pos
    if hdr ≠ audioHeader then (.skip, [⟨pos, 2⟩])
    else if pos + 6 > len then (.stop, [⟨pos, 2⟩])
    else
      let payloadLen := read16 outside buf (pos + 4)
      -- The cast wraps for a payload length of 65528 or more. The tail address does not.
      let frameTotal := u16 (6 + payloadLen + 2)
      if frameTotal > uartQueueBufSize then (.skip, [⟨pos, 2⟩, ⟨pos + 4, 2⟩])
      else if pos + frameTotal > len then (.stop, [⟨pos, 2⟩, ⟨pos + 4, 2⟩])
      else
        let tail := read16 outside buf (pos + 6 + payloadLen)
        (if tail ≠ audioTail then .skip else .frame frameTotal,
          [⟨pos, 2⟩, ⟨pos + 4, 2⟩, ⟨pos + 6 + payloadLen, 2⟩])
  else (.stop, [])

def extractIter (outside : Nat → Byte) (buf : Block Byte reassembleBufSize) (len pos : Nat) :
    Iter :=
  (extractIterReads outside buf len pos).1

/-- A message given to `osal_msg_queue_write_copy`, and where its frame starts in the buffer. -/
structure Offer where
  pos : Nat
  msg : UartMsg
  deriving DecidableEq, Repr

/-- The message of an accepted frame, if `memcpy_s` can copy it. -/
def offer (buf : Block Byte reassembleBufSize) (pos total : Nat) : List Offer :=
  if h : (buf.slice pos total).length ≤ uartQueueBufSize then [⟨pos, ⟨buf.slice pos total, h⟩⟩] else []

/-- How the loop ends, or that it is still running when the fuel is spent. -/
structure Extract where
  pos : Nat
  offers : List Offer
  returned : Bool
  deriving DecidableEq, Repr

def extractLoop (outside : Nat → Nat → Byte) (buf : Block Byte reassembleBufSize) (len : Nat) :
    (fuel k pos : Nat) → Extract
  | 0, _, pos => ⟨pos, [], false⟩
  | fuel + 1, k, pos =>
    match extractIter (outside k) buf len pos with
    | .stop => ⟨pos, [], true⟩
    | .skip => extractLoop outside buf len fuel (k + 1) (u16 (pos + 1))
    | .frame total =>
      let rest := extractLoop outside buf len fuel (k + 1) (u16 (pos + total))
      { rest with offers := offer buf pos total ++ rest.offers }

/-! ## The callback -/

/-- Keeps the bytes from `pos` on. -/
def compact (rx : Rx) (pos : Nat) : Rx :=
  if 0 < pos ∧ pos < rx.reassembleLen then
    let len := rx.reassembleLen - pos
    { rx with
      reassembleLen := len
      reassembleBuf := rx.reassembleBuf.write 0 (rx.reassembleBuf.slice pos len) }
  else if pos ≥ rx.reassembleLen then { rx with reassembleLen := 0 }
  else rx

structure Outcome where
  rx : Rx
  /-- the buffer was full, and its content was discarded -/
  overflowed : Bool
  /-- `memcpy_s` did not append the chunk -/
  copyFailed : Bool
  pos : Nat
  offers : List Offer
  returned : Bool
  deriving DecidableEq, Repr

def Outcome.frames (o : Outcome) : List (List Byte) := o.offers.map fun o => o.msg.data

def taken (accept : Nat → Bool) (offers : List Offer) : List Offer :=
  (offers.zipIdx.filter fun o => accept o.2).map (·.1)

/-- The callback from the loop on, when the chunk has been appended. -/
def extractFrames (fuel uartQueueId : Nat) (c : Call) (overflowed : Bool) (rx : Rx) : Outcome :=
  let loop := extractLoop c.outside rx.reassembleBuf rx.reassembleLen fuel 0 0
  let offers := if uartQueueId ≠ 0 then loop.offers else []
  let ok := (taken c.accept offers).length
  let rx :=
    { rx with
      uartRxFrmOk := u32 (rx.uartRxFrmOk + ok)
      uartRxFrmDrop := u32 (rx.uartRxFrmDrop + (offers.length - ok)) }
  -- While the loop runs on, nothing behind it happens.
  ⟨if loop.returned then compact rx loop.pos else rx, overflowed, false, loop.pos, offers,
    loop.returned⟩

/-- What a callback has done when it comes to its loop, or returns before it. -/
inductive LoopStart
  | ignored
  | copyFailed (overflowed : Bool) (rx : Rx)
  | reached (overflowed : Bool) (rx : Rx)

def loopStart (c : Call) (rx : Rx) : LoopStart :=
  match c.buffer with
  | none => .ignored
  | some data =>
    if c.error ∨ data.length = 0 then .ignored
    else
      let overflowed := decide (rx.reassembleLen + data.length > reassembleBufSize)
      let len := if overflowed then 0 else rx.reassembleLen
      let copy := memcpyS rx.reassembleBuf len (reassembleBufSize - len) data
      if copy.2 then
        .reached overflowed
          { rx with reassembleBuf := copy.1, reassembleLen := u16 (len + data.length) }
      else .copyFailed overflowed { rx with reassembleBuf := copy.1, reassembleLen := len }

def uart1RxCallback (fuel uartQueueId : Nat) (c : Call) (rx : Rx) : Outcome :=
  match loopStart c rx with
  | .ignored => ⟨rx, false, false, 0, [], true⟩
  | .copyFailed overflowed rx => ⟨rx, overflowed, true, 0, [], true⟩
  | .reached overflowed rx => extractFrames fuel uartQueueId c overflowed rx

/-- Calls one after another, with the outcome of each. -/
def runCalls (fuel uartQueueId : Nat) : Rx → List Call → Rx × List Outcome
  | rx, [] => (rx, [])
  | rx, c :: cs =>
    let o := uart1RxCallback fuel uartQueueId c rx
    ((runCalls fuel uartQueueId o.rx cs).1, o :: (runCalls fuel uartQueueId o.rx cs).2)

end NearLink.Speed
