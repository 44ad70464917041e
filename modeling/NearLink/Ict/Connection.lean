import NearLink.CString
import NearLink.Ict.Client
import NearLink.Ict.Server

/-!
# The callbacks of the ict_sle client

Scanning, connecting and receiving in `sle_uart_client.c`, as steps on its globals.
-/

namespace NearLink.Ict

/-- `SLE_UART_SERVER_NAME`, "sle_uart_server". -/
def sleUartServerName : List Byte :=
  [0x73, 0x6C, 0x65, 0x5F, 0x75, 0x61, 0x72, 0x74, 0x5F, 0x73, 0x65, 0x72, 0x76, 0x65, 0x72]

structure SleAddr where
  type : Byte
  addr : Block Byte 6
  deriving DecidableEq, Repr

def SleAddr.zero : SleAddr := ⟨0, Block.fill _ 0⟩

/-- `sle_seek_result_info_t`. `data` is the memory at the pointer, which `strstr` may read past
`dataLength`. -/
structure SeekResult where
  addr : SleAddr
  data : Option (List Byte)
  dataLength : Nat
  deriving DecidableEq, Repr

/-- The test on the data of a result. -/
def SeekResult.serverFound (r : SeekResult) : Bool :=
  match r.data with
  | none => false
  | some data => decide (r.dataLength > 0) && (CString.strstr 0 sleUartServerName data).isSome

/-- A call of `sle_connect_remote_device`. Bookkeeping: the addresses that had been found since
the scan started. -/
structure Connect where
  addr : SleAddr
  found : List SleAddr
  deriving DecidableEq, Repr

structure UartClient where
  client : Client
  foundServer : Bool
  remoteAddr : SleAddr
  connId : Nat
  negotiatedMtu : Nat
  /-- bookkeeping: the addresses that were found since the last call of `SleUartStartScan` -/
  found : List SleAddr
  /-- bookkeeping: all calls of `sle_connect_remote_device` -/
  connects : List Connect
  deriving DecidableEq, Repr

/-- What CONNECTED does to the counters. -/
def Client.reset (c : Client) : Client :=
  { c with
    expectedSeq := 0
    totalRecvPktCount := 0
    lostPktCount := 0
    seqInitialized := false
    notificationCount := 0 }

namespace UartClient

def start : UartClient := ⟨Client.start, false, .zero, 0, 0, [], []⟩

/-! ## Callbacks -/

def sleUartStartScan (u : UartClient) : UartClient := { u with foundServer := false, found := [] }

def sleClientEnableCbk (status : Nat) (u : UartClient) : UartClient :=
  if status = 0 then sleUartStartScan u else u

def sleClientSeekResultCbk (seekResult : Option SeekResult) (u : UartClient) : UartClient :=
  match seekResult with
  | none => u
  | some r =>
    if u.foundServer then u
    else if r.serverFound then { u with foundServer := true, remoteAddr := r.addr }
    else u

def sleClientSeekDisableCbk (status : Nat) (u : UartClient) : UartClient :=
  if status = 0 then { u with connects := u.connects ++ [⟨u.remoteAddr, u.found⟩] } else u

def sleClientConnectStateChangedCbk (connId : Nat) (connState : SleAcbStateType)
    (u : UartClient) : UartClient :=
  let u := { u with connId := connId }
  match connState with
  | .connected => { u with client := u.client.reset }
  | .disconnected => sleUartStartScan { u with negotiatedMtu := 0 }
  | .other => u

def sleClientExchangeInfoCbk (mtuSize : Nat) (u : UartClient) : UartClient :=
  { u with negotiatedMtu := u16 mtuSize }

/-- Notes the address of a result that passes the test, also when the callback ignores it. -/
def trackFound (seekResult : Option SeekResult) (u : UartClient) : UartClient :=
  match seekResult with
  | none => u
  | some r => if r.serverFound then { u with found := u.found ++ [r.addr] } else u

/-! ## Steps -/

inductive Action
  | enable (status : Nat)
  | seekResult (seekResult : Option SeekResult)
  | seekDisable (status : Nat)
  | connectState (connId : Nat) (connState : SleAcbStateType)
  | exchangeInfo (mtuSize : Nat)
  | receive (arrival : Arrival) (data : List Byte)

def step (u : UartClient) : Action → Option UartClient
  | .enable status => some (sleClientEnableCbk status u)
  | .seekResult seekResult => some (trackFound seekResult (sleClientSeekResultCbk seekResult u))
  | .seekDisable status => some (sleClientSeekDisableCbk status u)
  | .connectState connId connState => some (sleClientConnectStateChangedCbk connId connState u)
  | .exchangeInfo mtuSize => some (sleClientExchangeInfoCbk mtuSize u)
  | .receive arrival data => some { u with client := Ict.receive u.client (arrival, data) }

end UartClient

end NearLink.Ict
