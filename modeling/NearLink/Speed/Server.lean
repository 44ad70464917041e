import NearLink.Speed.Uart
import NearLink.Stack

/-!
# The throughput server

The callbacks and the sender threads of `sle_speed_server.c`, as steps on its globals, its
message queue and its threads.
-/

namespace NearLink.Speed

/-- `sle_acb_state_t`, as far as the server tells the states apart. -/
inductive AcbState
  | connected
  | disconnected
  | other
  deriving DecidableEq, Repr

/-- `sle_pair_state_t`, as far as the server tells the states apart. -/
inductive PairState
  | paired
  | other
  deriving DecidableEq, Repr

/-! ## Messages and threads -/

/-- A queued message. Bookkeeping: how many messages were queued before it, and where in the
stream of delivered bytes its frame starts. -/
structure Item where
  serial : Nat
  origin : Nat
  msg : UartMsg
  deriving DecidableEq, Repr

inductive Phase
  | reading
  /-- waits for the flow control, with the message in `msg` -/
  | waiting (item : Item)
  /-- about to call `ssaps_notify_indicate` -/
  | sending (item : Item)
  deriving DecidableEq, Repr

/-- A thread in `send_data_thread_function`, with its local counters. The function has no exit. -/
structure Sender where
  phase : Phase
  sleTxOk : Nat
  sleTxFail : Nat
  deriving DecidableEq, Repr

def Sender.start : Sender := ⟨.reading, 0, 0⟩

/-- The message that a thread has taken from the queue and not handed on. -/
def Sender.held (t : Sender) : Option Item :=
  match t.phase with
  | .reading => none
  | .waiting item => some item
  | .sending item => some item

/-- A call of `ssaps_notify_indicate`. Bookkeeping: where in the stream of delivered bytes the
link began, if one was connected. -/
structure Notify where
  item : Item
  connId : Nat
  link : Option Nat
  deriving DecidableEq, Repr

structure Server where
  uartQueueId : Nat
  sleConnHdl : Nat
  sendThreadStarted : Bool
  /-- `uart1_init` has registered `uart1_rx_callback` -/
  uartReady : Bool
  /-- a UART callback is still in its loop -/
  uartBusy : Bool
  rx : Rx
  queue : List Item
  senders : List Sender
  /-- bookkeeping: all bytes that UART callbacks delivered -/
  delivered : List Byte
  /-- bookkeeping: how many bytes were delivered before the connected link began -/
  link : Option Nat
  /-- bookkeeping: all messages that were queued -/
  enqueued : List Item
  /-- bookkeeping: all calls of `ssaps_notify_indicate` -/
  notified : List Notify
  deriving DecidableEq, Repr

/-- After `sle_speed_init` has created the queue. -/
def Server.start (uartQueueId : Nat) : Server :=
  ⟨uartQueueId, 0, false, false, false, Rx.start, [], [], [], none, [], []⟩

def Server.held (s : Server) : List Item := s.senders.filterMap Sender.held

/-! ## Callbacks -/

/-- `g_send_thread_started = true; uart1_init(); osal_kthread_create(...)`. -/
def startSendThread (created : Bool) (s : Server) : Server :=
  { s with
    sendThreadStarted := true
    uartReady := true
    senders := if created then s.senders ++ [Sender.start] else s.senders }

def sleConnectStateChangedCbk (connId : Nat) (connState : AcbState) (pairState : PairState)
    (created : Bool) (s : Server) : Server :=
  let s := { s with sleConnHdl := connId }
  match connState with
  | .connected =>
    if pairState = .paired ∧ s.sendThreadStarted = false then startSendThread created s else s
  | .disconnected =>
    { s with
      sendThreadStarted := false
      -- The queue is read without waiting until it is empty.
      queue := if s.uartQueueId ≠ 0 then [] else s.queue }
  | .other => s

def slePairCompleteCbk (status : Nat) (created : Bool) (s : Server) : Server :=
  if status ≠ 0 ∨ s.sendThreadStarted = true then s else startSendThread created s

/-- Starts a thread whatever the guard says. -/
def ssapsReadRequestCbk (created : Bool) (s : Server) : Server :=
  { s with senders := if created then s.senders ++ [Sender.start] else s.senders }

def trackLink (connState : AcbState) (s : Server) : Server :=
  match connState with
  | .connected => { s with link := some s.delivered.length }
  | .disconnected => { s with link := none }
  | .other => s

/-- Numbers the messages that the queue takes. -/
def numbered (serial base : Nat) : List Offer → List Item
  | [] => []
  | o :: rest => ⟨serial, base + o.pos, o.msg⟩ :: numbered (serial + 1) base rest

/-- One UART callback, seen after `fuel` iterations of its loop at most. It runs in a context
of its own, so the next one waits until it returns. Which messages find room in the queue is
left to `c.accept`. -/
def uartStep (fuel : Nat) (c : Call) (s : Server) : Option Server :=
  if s.uartReady = true ∧ s.uartBusy = false then
    let o := uart1RxCallback fuel s.uartQueueId c s.rx
    let kept := if o.overflowed then 0 else s.rx.reassembleLen
    let items := numbered s.enqueued.length (s.delivered.length - kept) (taken c.accept o.offers)
    some { s with
      rx := o.rx
      uartBusy := !o.returned
      delivered := s.delivered ++ c.bytes
      queue := s.queue ++ items
      enqueued := s.enqueued ++ items }
  else none

/-! ## The sender threads -/

/-- The wrapper drops the result of `ssaps_notify_indicate`. -/
def sleUuidServerSendReportByHandleId (_notifyRet : Nat) : Nat := errcodeSleSuccess

/-- `osal_msg_queue_read_copy`. An empty message sends the thread back to its read. -/
def senderRead (i : Nat) (success : Bool) (s : Server) : Option Server :=
  match s.senders[i]? with
  | some ⟨.reading, ok, fail⟩ =>
    if success then
      match s.queue with
      | [] => none
      | item :: rest =>
        let phase := if item.msg.len = 0 then .reading else .waiting item
        some { s with queue := rest, senders := s.senders.set i ⟨phase, ok, fail⟩ }
    else some s
  | _ => none

/-- One look at `sle_flow_ctrl_flag`. -/
def senderFlowCtrl (i flag : Nat) (s : Server) : Option Server :=
  match s.senders[i]? with
  | some ⟨.waiting item, ok, fail⟩ =>
    if flag = 0 then some s
    else some { s with senders := s.senders.set i ⟨.sending item, ok, fail⟩ }
  | _ => none

def senderNotify (i notifyRet : Nat) (s : Server) : Option Server :=
  match s.senders[i]? with
  | some ⟨.sending item, ok, fail⟩ =>
    let t : Sender :=
      if sleUuidServerSendReportByHandleId notifyRet ≠ errcodeSleSuccess then
        ⟨.reading, ok, u32 (fail + 1)⟩
      else ⟨.reading, u32 (ok + 1), fail⟩
    some { s with
      senders := s.senders.set i t
      notified := s.notified ++ [⟨item, s.sleConnHdl, s.link⟩] }
  | _ => none

/-! ## Steps -/

/-- What can happen next. `created` says whether `osal_kthread_create` returned a thread. -/
inductive Action
  | uart (fuel : Nat) (c : Call)
  | connectState (connId : Nat) (connState : AcbState) (pairState : PairState) (created : Bool)
  | pairComplete (connId status : Nat) (created : Bool)
  | readRequest (created : Bool)
  | read (i : Nat) (success : Bool)
  | flowCtrl (i flag : Nat)
  | notify (i notifyRet : Nat)

def step (s : Server) : Action → Option Server
  | .uart fuel c => uartStep fuel c s
  | .connectState connId connState pairState created =>
    some (trackLink connState (sleConnectStateChangedCbk connId connState pairState created s))
  | .pairComplete _ status created => some (slePairCompleteCbk status created s)
  | .readRequest created => some (ssapsReadRequestCbk created s)
  | .read i success => senderRead i success s
  | .flowCtrl i flag => senderFlowCtrl i flag s
  | .notify i notifyRet => senderNotify i notifyRet s

end NearLink.Speed
