import NearLink.Ict.Connection
import NearLink.Speed.Client

/-!
# Whom the throughput client calls

Scanning, connecting, pairing and the exchange of `sle_speed_client.c`. What the client asks of the
stack is a function of what it has been told, oldest first.
-/

namespace NearLink.Speed.Client

open Ict (SleAddr)

def sleMtuSizeDefault : Nat := 1500

/-- The array `mac` of `sle_sample_seek_result_info_cbk`. -/
def serverMac : Block Byte 6 := ⟨[0x11, 0x22, 0x33, 0x44, 0x55, 0x66], rfl⟩

/-- What the client asks of the stack. -/
inductive Request
  | startSeek
  | stopSeek
  | connect (addr : SleAddr)
  | pair (addr : SleAddr)
  | exchangeInfo (clientId connId mtuSize : Nat)
  | findStructure (clientId connId : Nat)
  deriving DecidableEq, Repr

def Request.target : Request → Option SleAddr
  | .connect addr | .pair addr => some addr
  | .startSeek | .stopSeek | .exchangeInfo _ _ _ | .findStructure _ _ => none

/-- The client with its search for the server. -/
structure Seeker where
  client : Client
  remoteAddr : SleAddr
  /-- bookkeeping: all requests -/
  requests : List Request
  deriving DecidableEq, Repr

namespace Seeker

def start (uartTxQueueId : Nat) (created : Bool) : Seeker :=
  ⟨Client.start uartTxQueueId created, .zero, []⟩

def ask (u : Seeker) (r : Request) : Seeker := { u with requests := u.requests ++ [r] }

/-! ## Callbacks -/

def sleStartScan (u : Seeker) : Seeker := u.ask .startSeek

def sleSampleSleEnableCbk (status : Nat) (u : Seeker) : Seeker :=
  if status = 0 then sleStartScan u else u

def sleSampleSeekDisableCbk (status : Nat) (u : Seeker) : Seeker :=
  if status = 0 then u.ask (.connect u.remoteAddr) else u

/-- Of a result, only the address matters. -/
def sleSampleSeekResultInfoCbk (seekResult : Option SleAddr) (u : Seeker) : Seeker :=
  match seekResult with
  | none => u
  | some addr => if addr.addr = serverMac then ask { u with remoteAddr := addr } .stopSeek else u

/-- The counters are those of the client. `pairNone` is `pair_state == SLE_PAIR_NONE`. -/
def sleSampleConnectStateChangedCbk (connId : Nat) (connState : AcbState) (pairNone : Bool)
    (u : Seeker) : Seeker :=
  let client := Client.sleSampleConnectStateChangedCbk connId connState u.client
  match connState with
  | .connected =>
    let u := if pairNone then u.ask (.pair u.remoteAddr) else u
    { u with client := client }
  | .disconnected => sleStartScan { u with client := client }
  | .other => u

/-- The exchange goes to `g_conn_id`, not to the connection that was paired. -/
def sleSamplePairCompleteCbk (_connId status : Nat) (u : Seeker) : Seeker :=
  if status = 0 then u.ask (.exchangeInfo 1 u.client.connId sleMtuSizeDefault) else u

def sleSampleExchangeInfoCbk (connId : Nat) (u : Seeker) : Seeker := u.ask (.findStructure 0 connId)

/-! ## Steps -/

inductive Event
  | enable (status : Nat)
  | seekResult (seekResult : Option SleAddr)
  | seekDisable (status : Nat)
  | connectState (connId : Nat) (connState : AcbState) (pairNone : Bool)
  | pairComplete (connId status : Nat)
  | exchangeInfo (connId : Nat)
  | notification (accept : Bool) (data : Option (List Byte))
  | txRead (success : Bool)
  | txWrite (uartRet : Int)
  deriving DecidableEq

def step (u : Seeker) : Event → Option Seeker
  | .enable status => some (sleSampleSleEnableCbk status u)
  | .seekResult seekResult => some (sleSampleSeekResultInfoCbk seekResult u)
  | .seekDisable status => some (sleSampleSeekDisableCbk status u)
  | .connectState connId connState pairNone =>
    some (sleSampleConnectStateChangedCbk connId connState pairNone u)
  | .pairComplete connId status => some (sleSamplePairCompleteCbk connId status u)
  | .exchangeInfo connId => some (sleSampleExchangeInfoCbk connId u)
  | .notification accept data =>
    some { u with client := sleSpeedNotificationCb accept data u.client }
  | .txRead success => (Client.txRead success u.client).map fun c => { u with client := c }
  | .txWrite uartRet => (Client.txWrite uartRet u.client).map fun c => { u with client := c }

/-! ## What the events say -/

/-- The address of the server, in a result that shows it. -/
def Event.found : Event → Option SleAddr
  | .seekResult (some addr) => if addr.addr = serverMac then some addr else none
  | .seekResult none | .enable _ | .seekDisable _ | .connectState _ _ _ | .pairComplete _ _
  | .exchangeInfo _ | .notification _ _ | .txRead _ | .txWrite _ => none

def Event.connected : Event → Option Nat
  | .connectState connId .connected _ => some connId
  | .connectState _ .disconnected _ | .connectState _ .other _ | .enable _ | .seekResult _
  | .seekDisable _ | .pairComplete _ _ | .exchangeInfo _ | .notification _ _ | .txRead _
  | .txWrite _ => none

/-- The server as it was found last, in whatever scan, or the zero address. -/
def lastFound (events : List Event) : SleAddr := ((events.filterMap Event.found).getLast?).getD .zero

def lastConnected (events : List Event) : Nat := ((events.filterMap Event.connected).getLast?).getD 0

/-- What an event asks for, after the others. -/
def asked (before : List Event) : Event → List Request
  | .enable status => if status = 0 then [.startSeek] else []
  | .seekResult (some addr) => if addr.addr = serverMac then [.stopSeek] else []
  | .seekResult none => []
  | .seekDisable status => if status = 0 then [.connect (lastFound before)] else []
  | .connectState _ .connected pairNone => if pairNone then [.pair (lastFound before)] else []
  | .connectState _ .disconnected _ => [.startSeek]
  | .connectState _ .other _ => []
  | .pairComplete _ status =>
    if status = 0 then [.exchangeInfo 1 (lastConnected before) sleMtuSizeDefault] else []
  | .exchangeInfo connId => [.findStructure 0 connId]
  | .notification _ _ | .txRead _ | .txWrite _ => []

def askedBy (events : List Event) : List Request :=
  (events.foldl (fun h e => (h.1 ++ [e], h.2 ++ asked h.1 e)) ([], [])).2

/-- The part of an event that concerns the client. -/
def Event.action : Event → Option Action
  | .connectState connId connState _ => some (.connectState connId connState)
  | .notification accept data => some (.notification accept data)
  | .txRead success => some (.txRead success)
  | .txWrite uartRet => some (.txWrite uartRet)
  | .enable _ | .seekResult _ | .seekDisable _ | .pairComplete _ _ | .exchangeInfo _ => none

/-! ## One more event -/

theorem getLast?_toList {α : Type*} (xs : List α) (x : Option α) (d : α) :
    ((xs ++ x.toList).getLast?).getD d = x.getD ((xs.getLast?).getD d) := by
  cases x <;> simp

theorem lastFound_snoc (events : List Event) (e : Event) :
    lastFound (events ++ [e]) = e.found.getD (lastFound events) := by
  unfold lastFound
  rw [filterMap_snoc, getLast?_toList]

theorem lastConnected_snoc (events : List Event) (e : Event) :
    lastConnected (events ++ [e]) = e.connected.getD (lastConnected events) := by
  unfold lastConnected
  rw [filterMap_snoc, getLast?_toList]

theorem askedBy_snoc (events : List Event) (e : Event) :
    askedBy (events ++ [e]) = askedBy events ++ asked events e := by
  have hall : (events.foldl (fun h e => (h.1 ++ [e], h.2 ++ asked h.1 e)) ([], [])).1 = events := by
    induction events using List.reverseRecOn with
    | nil => rfl
    | append_singleton events e ih => rw [List.foldl_append, List.foldl_cons, List.foldl_nil, ih]
  unfold askedBy
  rw [List.foldl_append, List.foldl_cons, List.foldl_nil, hall]

/-- What the state is after these events. -/
structure Knows (uartTxQueueId : Nat) (created : Bool) (events : List Event) (u : Seeker) : Prop where
  remoteAddr : u.remoteAddr = lastFound events
  connId : u.client.connId = lastConnected events
  requests : u.requests = askedBy events
  client : run Client.step (Client.start uartTxQueueId created) (events.filterMap Event.action) =
    some u.client

section Knows

variable {uartTxQueueId : Nat} {created : Bool} {events : List Event} {u v : Seeker}

theorem Knows.aside (h : Knows uartTxQueueId created events u) {e : Event}
    (hremote : v.remoteAddr = e.found.getD u.remoteAddr)
    (hrequests : v.requests = u.requests ++ asked events e) (hclient : v.client = u.client)
    (hconnected : e.connected = none) (haction : e.action = none) :
    Knows uartTxQueueId created (events ++ [e]) v := by
  refine ⟨?_, ?_, ?_, ?_⟩
  · rw [lastFound_snoc, hremote, h.remoteAddr]
  · rw [lastConnected_snoc, hconnected, hclient, h.connId]
    rfl
  · rw [askedBy_snoc, hrequests, h.requests]
  · rw [filterMap_snoc, haction, Option.toList_none, List.append_nil, hclient]
    exact h.client

theorem Knows.along (h : Knows uartTxQueueId created events u) {e : Event} {a : Action}
    (haction : e.action = some a) (hfound : e.found = none)
    (hstep : Client.step u.client a = some v.client) (hremote : v.remoteAddr = u.remoteAddr)
    (hconn : v.client.connId = e.connected.getD u.client.connId)
    (hrequests : v.requests = u.requests ++ asked events e) :
    Knows uartTxQueueId created (events ++ [e]) v := by
  refine ⟨?_, ?_, ?_, ?_⟩
  · rw [lastFound_snoc, hfound, hremote, h.remoteAddr]
    rfl
  · rw [lastConnected_snoc, hconn, h.connId]
  · rw [askedBy_snoc, hrequests, h.requests]
  · rw [filterMap_snoc, haction, Option.toList_some]
    exact run_snoc.mpr ⟨u.client, h.client, hstep⟩

theorem notification_connId (accept : Bool) (data : Option (List Byte)) (c : Client) :
    (sleSpeedNotificationCb accept data c).connId = c.connId := by
  have hcount : ∀ (seq : Nat) (c : Client), (countFrame seq c).connId = c.connId := by
    intro seq c
    simp only [countFrame]
    split_ifs <;> rfl
  have hforward : ∀ (buf : List Byte) (c : Client), (forward accept buf c).connId = c.connId := by
    intro buf c
    simp only [forward]
    split_ifs <;> rfl
  unfold sleSpeedNotificationCb
  cases data with
  | none => rfl
  | some buf =>
    simp only
    split_ifs
    · rfl
    · rw [hforward]
      cases recognised buf with
      | none => rfl
      | some seq => exact hcount seq c

theorem txRead_connId {success : Bool} {c d : Client} (h : Client.txRead success c = some d) :
    d.connId = c.connId := by
  unfold Client.txRead at h
  split at h
  · split_ifs at h
    · split at h
      · cases h
      · obtain rfl := Option.some.inj h; rfl
    · obtain rfl := Option.some.inj h; rfl
  · cases h

theorem txWrite_connId {uartRet : Int} {c d : Client} (h : Client.txWrite uartRet c = some d) :
    d.connId = c.connId := by
  unfold Client.txWrite at h
  split at h
  · obtain rfl := Option.some.inj h; rfl
  · cases h

theorem step_knows (events : List Event) (e : Event) (u v : Seeker)
    (h : Knows uartTxQueueId created events u) (hstep : step u e = some v) :
    Knows uartTxQueueId created (events ++ [e]) v := by
  have hremote := h.remoteAddr
  have hconn := h.connId
  cases e with
  | enable status =>
    obtain rfl := Option.some.inj hstep
    unfold sleSampleSleEnableCbk
    split_ifs with hstatus
    · exact h.aside rfl (by rw [asked, if_pos hstatus]; rfl) rfl rfl rfl
    · exact h.aside rfl (by rw [asked, if_neg hstatus, List.append_nil]) rfl rfl rfl
  | seekResult seekResult =>
    obtain rfl := Option.some.inj hstep
    cases seekResult with
    | none => exact h.aside rfl (List.append_nil _).symm rfl rfl rfl
    | some addr =>
      simp only [sleSampleSeekResultInfoCbk]
      split_ifs with hmac
      · refine h.aside ?_ (by rw [asked, if_pos hmac]; rfl) rfl rfl rfl
        rw [Event.found, if_pos hmac]
        rfl
      · refine h.aside ?_ (by rw [asked, if_neg hmac, List.append_nil]) rfl rfl rfl
        rw [Event.found, if_neg hmac]
        rfl
  | seekDisable status =>
    obtain rfl := Option.some.inj hstep
    unfold sleSampleSeekDisableCbk
    split_ifs with hstatus
    · exact h.aside rfl (by rw [asked, if_pos hstatus, ← hremote]; rfl) rfl rfl rfl
    · exact h.aside rfl (by rw [asked, if_neg hstatus, List.append_nil]) rfl rfl rfl
  | connectState connId connState pairNone =>
    obtain rfl := Option.some.inj hstep
    cases connState with
    | connected =>
      cases pairNone with
      | true => exact h.along rfl rfl rfl rfl rfl (by rw [asked, if_pos rfl, ← hremote]; rfl)
      | false => exact h.along rfl rfl rfl rfl rfl (List.append_nil _).symm
    | disconnected => exact h.along rfl rfl rfl rfl rfl rfl
    | other => exact h.along rfl rfl rfl rfl rfl (List.append_nil _).symm
  | pairComplete connId status =>
    obtain rfl := Option.some.inj hstep
    unfold sleSamplePairCompleteCbk
    split_ifs with hstatus
    · exact h.aside rfl (by rw [asked, if_pos hstatus, ← hconn]; rfl) rfl rfl rfl
    · exact h.aside rfl (by rw [asked, if_neg hstatus, List.append_nil]) rfl rfl rfl
  | exchangeInfo connId =>
    obtain rfl := Option.some.inj hstep
    exact h.aside rfl rfl rfl rfl rfl
  | notification accept data =>
    obtain rfl := Option.some.inj hstep
    exact h.along rfl rfl rfl rfl (notification_connId accept data u.client) (List.append_nil _).symm
  | txRead success =>
    obtain ⟨c, hc, rfl⟩ := Option.map_eq_some_iff.mp hstep
    exact h.along rfl rfl hc rfl (txRead_connId hc) (List.append_nil _).symm
  | txWrite uartRet =>
    obtain ⟨c, hc, rfl⟩ := Option.map_eq_some_iff.mp hstep
    exact h.along rfl rfl hc rfl (txWrite_connId hc) (List.append_nil _).symm

theorem knows_start (uartTxQueueId : Nat) (created : Bool) :
    Knows uartTxQueueId created [] (start uartTxQueueId created) := ⟨rfl, rfl, rfl, rfl⟩

end Knows

/-! ## The targets -/

theorem lastFound_found (events : List Event) :
    lastFound events = .zero ∨
      (lastFound events).addr = serverMac ∧ .seekResult (some (lastFound events)) ∈ events := by
  unfold lastFound
  cases hlast : (events.filterMap Event.found).getLast? with
  | none => exact .inl rfl
  | some addr =>
    obtain ⟨e, he, hfound⟩ := List.mem_filterMap.mp (List.mem_of_getLast? hlast)
    cases e with
    | seekResult seekResult =>
      cases seekResult with
      | none => cases hfound
      | some found =>
        rw [Event.found] at hfound
        split_ifs at hfound with hmac
        obtain rfl := Option.some.inj hfound
        exact .inr ⟨hmac, he⟩
    | enable | seekDisable | connectState | pairComplete | exchangeInfo | notification | txRead
    | txWrite => cases hfound

theorem asked_targets (before : List Event) (e : Event) :
    (asked before e).filterMap Request.target ⊆ [lastFound before] := by
  cases e with
  | enable status | seekDisable status | pairComplete connId status =>
    rw [asked]
    split_ifs <;> simp [Request.target]
  | seekResult seekResult =>
    cases seekResult with
    | none => simp [asked]
    | some addr =>
      rw [asked]
      split_ifs <;> simp [Request.target]
  | connectState connId connState pairNone =>
    cases connState <;> cases pairNone <;> simp [asked, Request.target]
  | exchangeInfo | notification | txRead | txWrite => simp [asked, Request.target]

theorem askedBy_target {events : List Event} {r : Request} {addr : SleAddr}
    (hr : r ∈ askedBy events) (htarget : r.target = some addr) :
    addr = .zero ∨ addr.addr = serverMac ∧ .seekResult (some addr) ∈ events := by
  induction events using List.reverseRecOn with
  | nil => cases hr
  | append_singleton events e ih =>
    rw [askedBy_snoc] at hr
    rcases List.mem_append.mp hr with hr | hr
    · exact (ih hr).imp_right fun h => ⟨h.1, List.mem_append_left _ h.2⟩
    · have htargets := asked_targets events e (List.mem_filterMap.mpr ⟨r, hr, htarget⟩)
      rw [List.mem_singleton.mp htargets]
      exact (lastFound_found events).imp_right fun h => ⟨h.1, List.mem_append_left _ h.2⟩

/-- The server, under one of its address types. -/
def theServer : SleAddr := ⟨1, serverMac⟩

/-- The first scan ends too early, and the one after the disconnection finds nothing. -/
def threeScans : List Event :=
  [.enable 0, .seekDisable 0, .connectState 0 .disconnected true, .seekResult (some theServer),
    .seekDisable 0, .connectState 4 .connected true, .pairComplete 4 0, .exchangeInfo 4,
    .connectState 4 .disconnected false, .seekDisable 0]

end Seeker

end NearLink.Speed.Client
