import NearLink.Speed.Server

/-!
# The throughput client

The notification callback, the change of the connection and the UART thread of
`sle_speed_client.c`, as steps on its globals, its message queue and the thread.
-/

namespace NearLink.Speed

def Client.frameHeader : Nat := 0x55AA
def Client.frameTail : Nat := 0xAA55
def Client.frameHdrSize : Nat := 8
def Client.uartTxBufSize : Nat := 1500

@[simp] theorem Client.frameHdrSize_val : Client.frameHdrSize = 8 := rfl
@[simp] theorem Client.uartTxBufSize_val : Client.uartTxBufSize = 1500 := rfl

/-- `uart_tx_msg_t`: the first `len` bytes of `data`, the only ones that are written. -/
structure UartTxMsg where
  data : List Byte
  fits : data.length ≤ Client.uartTxBufSize
  deriving DecidableEq, Repr

def UartTxMsg.len (m : UartTxMsg) : Nat := m.data.length

inductive TxPhase
  | reading
  /-- has taken `msg` from the queue -/
  | writing (msg : UartTxMsg)
  deriving DecidableEq, Repr

/-- The thread in `uart_tx_thread_function`, with its local counters. -/
structure TxThread where
  phase : TxPhase
  txOk : Nat
  txFail : Nat
  deriving DecidableEq, Repr

structure Client where
  uartTxQueueId : Nat
  /-- `g_expect_seq`, -1 while no number is expected -/
  expectSeq : Int
  lostPkts : Nat
  totalRxPkts : Nat
  connId : Nat
  uartOk : Nat
  uartFail : Nat
  queue : List UartTxMsg
  thread : Option TxThread
  /-- bookkeeping: what the calls of `uapi_uart_write` were given -/
  written : List (List Byte)
  deriving DecidableEq, Repr

namespace Client

/-- After `sle_speed_init` has created the queue. `created` says whether the thread was. -/
def start (uartTxQueueId : Nat) (created : Bool) : Client :=
  ⟨uartTxQueueId, -1, 0, 0, 0, 0, 0, [], if created then some ⟨.reading, 0, 0⟩ else none, []⟩

/-! ## The notification callback -/

/-- `memcpy(&x, buf + i, 2)` into a `uint16_t`. -/
def word (buf : List Byte) (i : Nat) : Nat := le16 (buf.getD i 0) (buf.getD (i + 1) 0)

/-- The number of the frame, if the check of the callback takes the notification for one. -/
def recognised (buf : List Byte) : Option Nat :=
  let rxLen := buf.length
  if rxLen ≥ frameHdrSize then
    let hdr := word buf 0
    let seq := word buf 2
    let payloadLen := word buf 4
    let tailOffset := u16 (6 + payloadLen)
    let tailVal := if tailOffset + 2 ≤ rxLen then word buf tailOffset else 0
    if hdr = frameHeader ∧ tailVal = frameTail then some seq else none
  else none

def countFrame (seq : Nat) (c : Client) : Client :=
  let c := { c with totalRxPkts := u32 (c.totalRxPkts + 1) }
  if c.expectSeq < 0 then { c with expectSeq := ((seq + 1) % 65536 : Nat) }
  else
    let expected : Nat := (c.expectSeq % 65536).toNat
    let c :=
      if seq ≠ expected then
        let lost := (((seq : Int) - expected) % 65536).toNat
        { c with lostPkts := u32 (c.lostPkts + lost) }
      else c
    { c with expectSeq := ((seq + 1) % 65536 : Nat) }

/-- Whether there is room in the queue is left to `accept`. -/
def forward (accept : Bool) (buf : List Byte) (c : Client) : Client :=
  if c.uartTxQueueId ≠ 0 then
    let copyLen := if buf.length > uartTxBufSize then uartTxBufSize else buf.length
    if h : (buf.take copyLen).length ≤ uartTxBufSize then
      if accept then
        { c with queue := c.queue ++ [⟨buf.take copyLen, h⟩], uartOk := u32 (c.uartOk + 1) }
      else { c with uartFail := u32 (c.uartFail + 1) }
    else c
  else c

def sleSpeedNotificationCb (accept : Bool) (data : Option (List Byte)) (c : Client) : Client :=
  match data with
  | none => c
  | some buf =>
    if buf.length = 0 then c
    else
      forward accept buf <|
        match recognised buf with
        | some seq => countFrame seq c
        | none => c

/-! ## The connection -/

def sleSampleConnectStateChangedCbk (connId : Nat) (connState : AcbState) (c : Client) : Client :=
  match connState with
  | .connected => { c with connId := connId }
  | .disconnected => { c with expectSeq := -1 }
  | .other => c

/-! ## The UART thread -/

/-- `osal_msg_queue_read_copy`. An empty message sends the thread back to its read. -/
def txRead (success : Bool) (c : Client) : Option Client :=
  match c.thread with
  | some ⟨.reading, ok, fail⟩ =>
    if success then
      match c.queue with
      | [] => none
      | msg :: rest =>
        let phase := if msg.len = 0 then .reading else .writing msg
        some { c with queue := rest, thread := some ⟨phase, ok, fail⟩ }
    else some c
  | _ => none

def txWrite (uartRet : Int) (c : Client) : Option Client :=
  match c.thread with
  | some ⟨.writing msg, ok, fail⟩ =>
    let t : TxThread :=
      if uartRet > 0 then ⟨.reading, u32 (ok + 1), fail⟩ else ⟨.reading, ok, u32 (fail + 1)⟩
    some { c with thread := some t, written := c.written ++ [msg.data] }
  | _ => none

/-! ## Steps -/

inductive Action
  | notification (accept : Bool) (data : Option (List Byte))
  | connectState (connId : Nat) (connState : AcbState)
  | txRead (success : Bool)
  | txWrite (uartRet : Int)

def step (c : Client) : Action → Option Client
  | .notification accept data => some (sleSpeedNotificationCb accept data c)
  | .connectState connId connState => some (sleSampleConnectStateChangedCbk connId connState c)
  | .txRead success => Client.txRead success c
  | .txWrite uartRet => Client.txWrite uartRet c

end Client

end NearLink.Speed
