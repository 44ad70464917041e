import NearLink.Bytes
import NearLink.Machine

/-!
# The byte parser of the ict_sle server

`FrameParseByte` of `sle_uart_server.c`: a state machine over globals that outlive a frame.
-/

namespace NearLink.Ict

def audioFrameOverhead : Nat := 8
def audioChunkSamples : Nat := 512
def audioFrameMaxSize : Nat := audioChunkSamples * 2 + audioFrameOverhead
def frameBufSize : Nat := audioFrameMaxSize + 16

@[simp] theorem audioFrameOverhead_val : audioFrameOverhead = 8 := rfl
@[simp] theorem audioChunkSamples_val : audioChunkSamples = 512 := rfl
@[simp] theorem frameBufSize_val : frameBufSize = 1048 := rfl

inductive FrameParseState
  | waitHeaderLow
  | waitHeaderHigh
  | readSeqLow
  | readSeqHigh
  | readLenLow
  | readLenHigh
  | readPayload
  | waitTailLow
  | waitTailHigh
  deriving DecidableEq, Repr

structure Parser where
  frameBuf : Block Byte frameBufSize
  frameIdx : Nat
  payloadLen : Nat
  payloadRecv : Nat
  frameSeq : Nat
  parseState : FrameParseState
  deriving DecidableEq, Repr

namespace Parser

def start : Parser := ⟨Block.fill _ 0, 0, 0, 0, 0, .waitHeaderLow⟩

/-- `g_frameBuf[g_frameIdx++] = byte`. -/
def push (p : Parser) (byte : Byte) : Parser :=
  { p with frameBuf := p.frameBuf.write p.frameIdx [byte], frameIdx := u16 (p.frameIdx + 1) }

/-- The bytes that `OnFrameComplete` copies. -/
def frame (p : Parser) : List Byte := p.frameBuf.slice 0 (p.payloadLen + audioFrameOverhead)

end Parser

/-- One byte, and whether `OnFrameComplete` is called. -/
def frameParseByte (p : Parser) (byte : Byte) : Parser × Bool :=
  match p.parseState with
  | .waitHeaderLow =>
    if byte = 0xAA then
      ({ Parser.push { p with frameIdx := 0 } byte with parseState := .waitHeaderHigh }, false)
    else (p, false)
  | .waitHeaderHigh =>
    if byte = 0x55 then ({ p.push byte with parseState := .readSeqLow }, false)
    else if byte = 0xAA then (Parser.push { p with frameIdx := 0 } byte, false)
    else ({ p with parseState := .waitHeaderLow }, false)
  | .readSeqLow =>
    ({ p.push byte with frameSeq := byte.toNat, parseState := .readSeqHigh }, false)
  | .readSeqHigh =>
    ({ p.push byte with
        frameSeq := u16 (p.frameSeq ||| byte.toNat <<< 8)
        parseState := .readLenLow }, false)
  | .readLenLow =>
    ({ p.push byte with payloadLen := byte.toNat, parseState := .readLenHigh }, false)
  | .readLenHigh =>
    let payloadLen := u16 (p.payloadLen ||| byte.toNat <<< 8)
    ({ p.push byte with
        payloadLen := payloadLen
        payloadRecv := 0
        parseState :=
          if payloadLen > audioChunkSamples * 2 ∨ payloadLen = 0 then .waitHeaderLow
          else .readPayload }, false)
  | .readPayload =>
    let q := if p.frameIdx < frameBufSize then p.push byte else p
    let payloadRecv := u16 (p.payloadRecv + 1)
    ({ q with
        payloadRecv := payloadRecv
        parseState := if payloadRecv ≥ p.payloadLen then .waitTailLow else .readPayload }, false)
  | .waitTailLow =>
    ({ p.push byte with
        parseState := if byte = 0x55 then .waitTailHigh else .waitHeaderLow }, false)
  | .waitTailHigh =>
    -- `OnFrameComplete` runs before the state changes, and does not look at the state.
    ({ p.push byte with parseState := .waitHeaderLow }, byte = 0xAA)

/-- The same, with the frame that `OnFrameComplete` finds. -/
def frameParseEmit (p : Parser) (byte : Byte) : Parser × Option (List Byte) :=
  let r := frameParseByte p byte
  (r.1, if r.2 then some r.1.frame else none)

/-- The loop of `server_uart_rx_callback`, with the frames that were completed. The error flag is
not looked at. -/
def frameParseBytes (p : Parser) (data : List Byte) : Parser × List (List Byte) :=
  emitAll frameParseEmit p data

def Parser.reset (p : Parser) : Parser := { p with parseState := .waitHeaderLow }

end NearLink.Ict
