import NearLink.Ict.Parser
import NearLink.Stack

/-!
# The ict_sle server

The callbacks and `SleTask` of `sle_uart_server.c`, as steps on its globals, its message queue
and the task.
-/

namespace NearLink.Ict

def txMsgMaxSize : Nat := 256

/-- `SleAcbStateType`, as far as the server tells the states apart. -/
inductive SleAcbStateType
  | connected
  | disconnected
  | other
  deriving DecidableEq, Repr

/-! ## Messages and the task -/

/-- `TxMsg`: the first `len` bytes of `data`, the only ones that are written. -/
structure TxMsg where
  data : List Byte
  fits : data.length ≤ txMsgMaxSize
  deriving DecidableEq, Repr

def TxMsg.len (m : TxMsg) : Nat := m.data.length

/-- Bookkeeping: a frame for which `OnFrameComplete` was called, and how many there were before. -/
structure Completed where
  serial : Nat
  bytes : List Byte
  deriving DecidableEq, Repr

/-- A queued message. Bookkeeping: the frame that it carries, and the link at that moment. -/
structure Item where
  serial : Nat
  link : Option Nat
  msg : TxMsg
  deriving DecidableEq, Repr

def Item.completed (i : Item) : Completed := ⟨i.serial, i.msg.data⟩

/-- A call of `SsapsNotifyIndicate`. Bookkeeping: the link at that moment. -/
structure Notify where
  item : Item
  connId : Nat
  link : Option Nat
  deriving DecidableEq, Repr

inductive Phase
  | starting
  | reading
  /-- has taken `msg` from the queue -/
  | sending (item : Item)
  /-- has returned, because there was no queue -/
  | ended
  deriving DecidableEq, Repr

def Phase.held : Phase → List Item
  | .sending item => [item]
  | _ => []

/-- Bookkeeping: what a link has been through since it was connected. -/
structure Progress where
  mtuExchanged : Bool
  paired : Bool
  deriving DecidableEq, Repr

structure Server where
  sleConnHdl : Nat
  slePairHdl : Nat
  negotiatedMtu : Nat
  sleReady : Nat
  sleSendCount : Nat
  parser : Parser
  /-- `g_txQueue`, `none` while it is NULL -/
  txQueue : Option (List Item)
  txQueueDropCount : Nat
  task : Phase
  /-- bookkeeping: the connected links, by their ids -/
  links : Nat → Option Progress
  /-- bookkeeping: the links that have been connected so far are numbered -/
  connections : Nat
  /-- bookkeeping: the number of the link that was connected last, unless it is gone -/
  link : Option Nat
  /-- bookkeeping: all calls of `OnFrameComplete` -/
  completed : List Completed
  /-- bookkeeping: all messages that were queued -/
  enqueued : List Item
  /-- bookkeeping: all calls of `SsapsNotifyIndicate` -/
  notified : List Notify

def Server.start : Server :=
  ⟨0, 0, 0, 0, 0, .start, none, 0, .starting, fun _ => none, 0, none, [], [], []⟩

/-! ## The UART -/

/-- `osMessageQueuePut`. Whether there is room is left to `accept`. -/
def osMessageQueuePut (accept : Bool) (item : Item) (s : Server) : Server × Bool :=
  match s.txQueue with
  | some queue =>
    if accept then
      ({ s with txQueue := some (queue ++ [item]), enqueued := s.enqueued ++ [item] }, true)
    else (s, false)
  | none => (s, false)

/-- The copy that `memcpy_s` makes of the frame, if it fits. -/
def copyMsg (p : Parser) (totalLen : Nat) : Option TxMsg :=
  if h : (p.frameBuf.slice 0 totalLen).length ≤ txMsgMaxSize then some ⟨_, h⟩ else none

def onFrameComplete (accept : Bool) (s : Server) : Server :=
  let totalLen := u16 (s.parser.payloadLen + audioFrameOverhead)
  if s.sleReady = 0 then s
  else if totalLen > txMsgMaxSize then s
  else
    match copyMsg s.parser totalLen with
    | none => s
    | some msg =>
      let put := osMessageQueuePut accept ⟨s.completed.length, s.link, msg⟩ s
      if put.2 then put.1 else { put.1 with txQueueDropCount := u32 (put.1.txQueueDropCount + 1) }

def noteCompleted (s : Server) : Server :=
  { s with completed := s.completed ++ [⟨s.completed.length, s.parser.frame⟩] }

/-- `FrameParseByte` with its call of `OnFrameComplete`. -/
def frameParse (accept : Bool) (s : Server) (byte : Byte) : Server :=
  let r := frameParseByte s.parser byte
  let s := { s with parser := r.1 }
  if r.2 then noteCompleted (onFrameComplete accept s) else s

/-- `accept i` is the answer of the queue if the `i`-th byte completes a frame. -/
def serverUartRxCallback (data : List Byte) (accept : Nat → Bool) (s : Server) : Server :=
  data.zipIdx.foldl (fun s b => frameParse (accept b.2) s b.1) s

/-! ## Callbacks of the stack -/

def ssapsMtuChangedCbk (connId mtuSize : Nat) (_status : Nat) (s : Server) : Server :=
  { s with
    negotiatedMtu := u16 mtuSize
    sleReady := 1
    slePairHdl := if s.slePairHdl = 0 then u16 (connId + 1) else s.slePairHdl }

def sleConnectStateChangedCbk (connId : Nat) (connState : SleAcbStateType) (s : Server) : Server :=
  match connState with
  | .connected => { s with sleConnHdl := connId, sleSendCount := 0, sleReady := 0 }
  | .disconnected =>
    { s with
      sleConnHdl := 0
      slePairHdl := 0
      negotiatedMtu := 0
      sleReady := 0
      parser := s.parser.reset
      -- The queue is read without waiting until it is empty.
      txQueue := s.txQueue.map fun _ => [] }
  | .other => s

def slePairCompleteCbk (connId : Nat) (_status : Nat) (s : Server) : Server :=
  { s with slePairHdl := u16 (connId + 1) }

/-! ## The task -/

/-- `osMessageQueueNew`, and the loop if there is a queue. -/
def sleTaskStart (created : Bool) (s : Server) : Option Server :=
  match s.task with
  | .starting =>
    if created then some { s with txQueue := some [], task := .reading }
    else some { s with task := .ended }
  | _ => none

def sleTaskGet (success : Bool) (s : Server) : Option Server :=
  match s.task with
  | .reading =>
    if success then
      match s.txQueue with
      | some (item :: rest) =>
        some { s with
          txQueue := some rest
          sleSendCount := u32 (s.sleSendCount + 1)
          task := .sending item }
      | _ => none
    else some s
  | _ => none

/-- The calls of `SsapsNotifyIndicate` that are made, and what is returned. -/
def sleUartServerSendReportByHandle (allocated : Bool) (notifyRet : Nat) (item : Item)
    (s : Server) : List Notify × Nat :=
  if allocated then ([⟨item, s.sleConnHdl, s.link⟩], notifyRet) else ([], errcodeSleFail)

/-- A failure is only printed. -/
def sleTaskSend (allocated : Bool) (notifyRet : Nat) (s : Server) : Option Server :=
  match s.task with
  | .sending item =>
    some { s with
      task := .reading
      notified := s.notified ++ (sleUartServerSendReportByHandle allocated notifyRet item s).1 }
  | _ => none

/-! ## Bookkeeping of the links -/

def setLink (s : Server) (connId : Nat) (p : Option Progress) : Server :=
  { s with links := fun i => if i = connId then p else s.links i }

def trackConnect (connId : Nat) (connState : SleAcbStateType) (s : Server) : Server :=
  match connState with
  | .connected =>
    { setLink s connId (some ⟨false, false⟩) with
      link := some s.connections
      connections := s.connections + 1 }
  | .disconnected => { setLink s connId none with link := none }
  | .other => s

def trackMtu (connId status : Nat) (s : Server) : Server :=
  if status = errcodeSleSuccess then
    setLink s connId ((s.links connId).map fun p => { p with mtuExchanged := true })
  else s

def trackPair (connId status : Nat) (s : Server) : Server :=
  if status = errcodeSleSuccess then
    setLink s connId ((s.links connId).map fun p => { p with paired := true })
  else s

/-! ## Steps -/

inductive Action
  | taskStart (created : Bool)
  | uart (data : List Byte) (accept : Nat → Bool)
  | connectState (connId : Nat) (connState : SleAcbStateType)
  | mtuChanged (connId mtuSize status : Nat)
  | pairComplete (connId status : Nat)
  | get (success : Bool)
  | send (allocated : Bool) (notifyRet : Nat)

def step (s : Server) : Action → Option Server
  | .taskStart created => sleTaskStart created s
  | .uart data accept => some (serverUartRxCallback data accept s)
  | .connectState connId connState =>
    some (trackConnect connId connState (sleConnectStateChangedCbk connId connState s))
  | .mtuChanged connId mtuSize status =>
    some (trackMtu connId status (ssapsMtuChangedCbk connId mtuSize status s))
  | .pairComplete connId status =>
    some (trackPair connId status (slePairCompleteCbk connId status s))
  | .get success => sleTaskGet success s
  | .send allocated notifyRet => sleTaskSend allocated notifyRet s

end NearLink.Ict
