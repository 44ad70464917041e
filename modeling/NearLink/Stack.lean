import NearLink.Bytes
import NearLink.Calls

/-!
# What the servers call

The memory of the OSAL and the SSAP server of the SLE stack, and what both may rely on. Nothing is
assumed about which calls of the stack succeed.
-/

namespace NearLink

def errcodeSleSuccess : Nat := 0

/-- `ERRCODE_SLE_FAIL`. All that matters is that it is not 0. -/
def errcodeSleFail : Nat := 1

end NearLink

namespace NearLink.Stack

abbrev Ptr := Nat

/-! ## What is handed over -/

def uuidLen2 : Nat := 2
def sleUuidLen : Nat := 16

structure SleUuid where
  len : Nat
  uuid : Block Byte sleUuidLen
  deriving DecidableEq

def SleUuid.zero : SleUuid := ⟨0, Block.fill sleUuidLen 0⟩

/-- A 16-bit identifier, at the end of the base identifier that both servers use. -/
def shortUuid (u2 : Nat) : SleUuid where
  len := uuidLen2
  uuid := ⟨[0x37, 0xBE, 0xA8, 0x80, 0xFC, 0x70, 0x11, 0xEA, 0xB7, 0x20, 0, 0, 0, 0, loByte u2, hiByte u2],
    rfl⟩

inductive Permission
  | read
  | write
  deriving DecidableEq

/-- `SSAP_OPERATE_INDICATION_BIT_*`. -/
inductive Indication
  | read
  | write
  | notify
  deriving DecidableEq

inductive DescriptorType
  | userDescription
  | clientConfiguration
  deriving DecidableEq

/-- Where a value is: in allocated memory, or in an array of the caller. -/
inductive Source
  | heap (p : Ptr)
  | own (bytes : List Byte)
  deriving DecidableEq

/-- The members `value` and `value_len`. -/
structure Buffer where
  value : Source
  valueLen : Nat
  deriving DecidableEq

/-- `ssaps_property_info_t`. The stack keeps a copy with the bytes of the value. -/
structure PropertyInfo (V : Type) where
  uuid : SleUuid
  permissions : List Permission
  operateIndication : List Indication
  value : V
  deriving DecidableEq

/-- `ssaps_desc_info_t`. -/
structure DescInfo (V : Type) where
  permissions : List Permission
  operateIndication : List Indication
  type : DescriptorType
  value : V
  deriving DecidableEq

/-- `ssaps_ntf_ind_t`. Only values are sent. -/
structure NtfInd (V : Type) where
  handle : Nat
  value : V
  deriving DecidableEq

/-! ## Calls -/

/-- Calls that are made for their effect on the stack alone. -/
inductive Setup
  | watchdogDisable
  | enableSle
  | setNv
  | connRegisterCbks
  | ssapsRegisterCbks
  | announceRegisterCbks
  | setAnnounceParam
  | ssapsSetInfo (serverId mtuSize : Nat)
  | transmissionRegisterCbks
  | connectParamInit
  | setLocalAddr
  deriving DecidableEq

inductive Op
  | vmalloc (size : Nat)
  | vfree (p : Ptr)
  | memcpyS (dest : Ptr) (destMax : Nat) (src : List Byte)
  | registerServer (appUuid : SleUuid)
  | unregisterServer (serverId : Nat)
  | addServiceSync (serverId : Nat) (uuid : SleUuid) (isPrimary : Bool)
  | addPropertySync (serverId serviceHandle : Nat) (property : PropertyInfo Buffer)
  | addDescriptorSync (serverId serviceHandle propertyHandle : Nat) (descriptor : DescInfo Buffer)
  | startService (serverId serviceHandle : Nat)
  | notifyIndicate (serverId connId : Nat) (param : NtfInd Buffer)
  | setAnnounceData (announceId : Nat) (announceData seekRspData : Buffer)
  | startAnnounce (announceId : Nat)
  | setup (call : Setup)

/-- What a call returns. Where it also sets an id or a handle of the caller, this is the value
after the call. -/
def Ans : Op → Type
  | .vmalloc _ => Option Ptr
  | .vfree _ => Unit
  | .registerServer _ | .addServiceSync _ _ _ | .addPropertySync _ _ _ => Nat × Nat
  | .memcpyS _ _ _ | .unregisterServer _ | .addDescriptorSync _ _ _ _ | .startService _ _
  | .notifyIndicate _ _ _ | .setAnnounceData _ _ _ | .startAnnounce _ | .setup _ => Nat

abbrev Program := Prog Op Ans

def vmalloc (size : Nat) : Program (Option Ptr) := Prog.ask (Op.vmalloc size)
def vfree (p : Ptr) : Program Unit := Prog.ask (Op.vfree p)
def memcpyToHeap (dest : Ptr) (destMax : Nat) (src : List Byte) : Program Nat :=
  Prog.ask (Op.memcpyS dest destMax src)
def registerServer (appUuid : SleUuid) : Program (Nat × Nat) := Prog.ask (Op.registerServer appUuid)
def unregisterServer (serverId : Nat) : Program Nat := Prog.ask (Op.unregisterServer serverId)
def addServiceSync (serverId : Nat) (uuid : SleUuid) (isPrimary : Bool) : Program (Nat × Nat) :=
  Prog.ask (Op.addServiceSync serverId uuid isPrimary)
def addPropertySync (serverId serviceHandle : Nat) (property : PropertyInfo Buffer) :
    Program (Nat × Nat) :=
  Prog.ask (Op.addPropertySync serverId serviceHandle property)
def addDescriptorSync (serverId serviceHandle propertyHandle : Nat) (descriptor : DescInfo Buffer) :
    Program Nat :=
  Prog.ask (Op.addDescriptorSync serverId serviceHandle propertyHandle descriptor)
def startService (serverId serviceHandle : Nat) : Program Nat :=
  Prog.ask (Op.startService serverId serviceHandle)
def notifyIndicate (serverId connId : Nat) (param : NtfInd Buffer) : Program Nat :=
  Prog.ask (Op.notifyIndicate serverId connId param)
def setAnnounceData (announceId : Nat) (announceData seekRspData : Buffer) : Program Nat :=
  Prog.ask (Op.setAnnounceData announceId announceData seekRspData)
def startAnnounce (announceId : Nat) : Program Nat := Prog.ask (Op.startAnnounce announceId)
def setup (call : Setup) : Program Nat := Prog.ask (Op.setup call)

/-! ## Around the calls -/

/-- What the stack was told with success. -/
inductive Entry
  | server (serverId : Nat) (appUuid : SleUuid)
  | service (serverId handle : Nat) (uuid : SleUuid) (isPrimary : Bool)
  | property (serverId serviceHandle handle : Nat) (info : PropertyInfo (List Byte))
  | descriptor (serverId serviceHandle propertyHandle : Nat) (info : DescInfo (List Byte))
  | started (serverId serviceHandle : Nat)
  deriving DecidableEq

def Entry.serverId : Entry → Nat
  | .server id _ | .service id _ _ _ | .property id _ _ _ | .descriptor id _ _ _ | .started id _ => id

inductive Announcement
  | data (announceId : Nat) (announceData seekRspData : List Byte)
  | start (announceId : Nat)
  deriving DecidableEq

/-- An allocated block. `none` is a cell that was not written. -/
abbrev Cells := List (Option Byte)

structure Env where
  heap : Ptr → Option Cells
  entries : List Entry
  /-- the servers that were to be unregistered, each with the answer -/
  unregistered : List (Nat × Nat)
  /-- the notifications that were asked for, each with its connection -/
  notified : List (Nat × NtfInd (List Byte))
  /-- the announcements that were asked for, each with the answer -/
  announcements : List (Announcement × Nat)

def Env.set (e : Env) (p : Ptr) (cells : Option Cells) : Env :=
  { e with heap := fun q => if q = p then cells else e.heap q }

/-- What the stack reads of a buffer: it has to be there, as long as `valueLen`, and written. -/
def Env.read (e : Env) (b : Buffer) : Option (List Byte) :=
  match b.value with
  | .own bytes => if b.valueLen ≤ bytes.length then some (bytes.take b.valueLen) else none
  | .heap p => (e.heap p).bind fun cells =>
    if b.valueLen ≤ cells.length then (cells.take b.valueLen).mapM id else none

def Env.add (e : Env) (entries : List Entry) : Env := { e with entries := e.entries ++ entries }

/-- Without all that belongs to this server. -/
def Env.withdraw (e : Env) (serverId : Nat) : Env :=
  { e with entries := e.entries.filter fun entry => entry.serverId ≠ serverId }

/-- The stack withdraws the server only if it answers with success. -/
def Env.unregister (e : Env) (serverId ret : Nat) : Env :=
  { (if ret = errcodeSleSuccess then e.withdraw serverId else e) with
    unregistered := e.unregistered ++ [(serverId, ret)] }

def Env.notify (e : Env) (connId : Nat) (param : NtfInd (List Byte)) : Env :=
  { e with notified := e.notified ++ [(connId, param)] }

def Env.announce (e : Env) (ret : Nat) (a : Announcement) : Env :=
  { e with announcements := e.announcements ++ [(a, ret)] }

/-- The entry is kept if the call that asks for it returns success. -/
def kept (ret : Nat) (entry : Entry) : List Entry :=
  if ret = errcodeSleSuccess then [entry] else []

def PropertyInfo.stored (info : PropertyInfo Buffer) (e : Env) : PropertyInfo (List Byte) :=
  { info with value := (e.read info.value).getD [] }

def DescInfo.stored (info : DescInfo Buffer) (e : Env) : DescInfo (List Byte) :=
  { info with value := (e.read info.value).getD [] }

/-- Only what is allocated may be freed, written, or read by the stack. -/
def asks (e : Env) : Op → Prop
  | .vfree p => (e.heap p).isSome
  | .memcpyS dest destMax _ => ∃ cells, e.heap dest = some cells ∧ destMax ≤ cells.length
  | .addPropertySync _ _ property => (e.read property.value).isSome
  | .addDescriptorSync _ _ _ descriptor => (e.read descriptor.value).isSome
  | .notifyIndicate _ _ param => (e.read param.value).isSome
  | .setAnnounceData _ announceData seekRspData =>
    (e.read announceData).isSome ∧ (e.read seekRspData).isSome
  | .vmalloc _ | .registerServer _ | .unregisterServer _ | .addServiceSync _ _ _
  | .startService _ _ | .startAnnounce _ | .setup _ => True

/-- A new block is not an allocated one, and a copy that does not fit fails. -/
def gives (e : Env) : (op : Op) → Ans op → Prop
  | .vmalloc _, (r : Option Ptr) => ∀ p, r = some p → e.heap p = none
  | .memcpyS _ destMax src, (r : Nat) => r = 0 → src.length ≤ destMax
  | .vfree _, _ | .registerServer _, _ | .unregisterServer _, _ | .addServiceSync _ _ _, _
  | .addPropertySync _ _ _, _ | .addDescriptorSync _ _ _ _, _ | .startService _ _, _
  | .notifyIndicate _ _ _, _ | .setAnnounceData _ _ _, _ | .startAnnounce _, _ | .setup _, _ => True

def next (e : Env) : (op : Op) → Ans op → Env
  | .vmalloc size, (r : Option Ptr) =>
    match r with
    | none => e
    | some p => e.set p (some (List.replicate size none))
  | .vfree p, _ => e.set p none
  | .memcpyS dest _ src, (r : Nat) =>
    e.set dest ((e.heap dest).map fun cells =>
      if r = 0 then src.map some ++ cells.drop src.length else cells.map fun _ => none)
  | .registerServer appUuid, (r : Nat × Nat) => e.add (kept r.1 (.server r.2 appUuid))
  | .unregisterServer id, (r : Nat) => e.unregister id r
  | .addServiceSync id uuid isPrimary, (r : Nat × Nat) =>
    e.add (kept r.1 (.service id r.2 uuid isPrimary))
  | .addPropertySync id service info, (r : Nat × Nat) =>
    e.add (kept r.1 (.property id service r.2 (info.stored e)))
  | .addDescriptorSync id service property info, (r : Nat) =>
    e.add (kept r (.descriptor id service property (info.stored e)))
  | .startService id service, (r : Nat) => e.add (kept r (.started id service))
  | .notifyIndicate _ connId param, _ =>
    e.notify connId ⟨param.handle, (e.read param.value).getD []⟩
  | .setAnnounceData id announceData seekRspData, (r : Nat) =>
    e.announce r (.data id ((e.read announceData).getD []) ((e.read seekRspData).getD []))
  | .startAnnounce id, (r : Nat) => e.announce r (.start id)
  | .setup _, _ => e

def contract : Contract Op Ans Env := ⟨asks, gives, next⟩

instance (e : Env) : ∀ (op : Op) (r : Ans op), Decidable (contract.gives e op r)
  | .vmalloc _, (none : Option Ptr) => .isTrue fun _ h => nomatch h
  | .vmalloc _, (some p : Option Ptr) =>
    decidable_of_iff (e.heap p = none) ⟨fun h _ hp => Option.some.inj hp ▸ h, fun h => h p rfl⟩
  | .memcpyS _ destMax src, (r : Nat) => inferInstanceAs (Decidable (r = 0 → src.length ≤ destMax))
  | .vfree _, _ | .registerServer _, _ | .unregisterServer _, _ | .addServiceSync _ _ _, _
  | .addPropertySync _ _ _, _ | .addDescriptorSync _ _ _ _, _ | .startService _ _, _
  | .notifyIndicate _ _ _, _ | .setAnnounceData _ _ _, _ | .startAnnounce _, _ | .setup _, _ =>
    .isTrue trivial

def Env.start : Env := ⟨fun _ => none, [], [], [], []⟩

def granted : (op : Op) → Ans op
  | .vmalloc _ => some 100
  | .vfree _ => ()
  | .registerServer _ => (errcodeSleSuccess, 1)
  | .addServiceSync _ _ _ => (errcodeSleSuccess, 16)
  | .addPropertySync _ _ _ => (errcodeSleSuccess, 17)
  | .memcpyS _ _ _ | .unregisterServer _ | .addDescriptorSync _ _ _ _ | .startService _ _
  | .notifyIndicate _ _ _ | .setAnnounceData _ _ _ | .startAnnounce _ | .setup _ =>
    errcodeSleSuccess

/-! ## What is read back -/

section Env

variable {e : Env} {p : Ptr} {cells : Option Cells} {entries : List Entry}

@[simp] theorem set_heap_self : (e.set p cells).heap p = cells := if_pos rfl

@[simp] theorem set_set (cells' : Option Cells) : (e.set p cells).set p cells' = e.set p cells' := by
  simp only [Env.set, Env.mk.injEq, and_self, and_true]
  funext q
  split <;> rfl

theorem set_none (h : e.heap p = none) : e.set p none = e := by
  have hheap : (fun q => if q = p then none else e.heap q) = e.heap := by
    funext q
    split_ifs with hq
    · rw [hq, h]
    · rfl
  rw [Env.set, hheap]

theorem free_new (h : e.heap p = none) : (e.set p cells).set p none = e :=
  (set_set none).trans (set_none h)

@[simp] theorem add_nil : e.add [] = e := by simp [Env.add]

@[simp] theorem add_add (entries' : List Entry) :
    (e.add entries).add entries' = e.add (entries ++ entries') := by
  simp [Env.add]

theorem withdraw_add {id : Nat} (h : ∀ x ∈ entries, x.serverId = id) :
    (e.add entries).withdraw id = e.withdraw id := by
  have hnone : entries.filter (fun entry => entry.serverId ≠ id) = [] :=
    List.filter_eq_nil_iff.mpr fun x hx => by simp [h x hx]
  rw [Env.withdraw, Env.add, List.filter_append, hnone, List.append_nil]
  rfl

theorem unregister_add {id : Nat} (h : ∀ x ∈ entries, x.serverId = id) (ret : Nat) :
    (e.add entries).unregister id ret =
      (if ret = errcodeSleSuccess then e else e.add entries).unregister id ret := by
  unfold Env.unregister
  split_ifs
  · rw [withdraw_add h]
    rfl
  · rfl

@[simp] theorem unregister_heap (id ret : Nat) : (e.unregister id ret).heap = e.heap := by
  unfold Env.unregister
  split_ifs <;> rfl

theorem kept_eq (ret : Nat) (entry : Entry) : kept ret entry = [] ∨ kept ret entry = [entry] := by
  unfold kept
  split_ifs
  · exact .inr rfl
  · exact .inl rfl

@[simp] theorem set_add : (e.set p cells).add entries = (e.add entries).set p cells := rfl

@[simp] theorem set_notify (connId : Nat) (param : NtfInd (List Byte)) :
    (e.set p cells).notify connId param = (e.notify connId param).set p cells := rfl

@[simp] theorem read_own (bytes : List Byte) :
    e.read ⟨.own bytes, bytes.length⟩ = some bytes := by
  simp [Env.read]

theorem read_set (n : Nat) (bytes : List Byte) (h : n ≤ bytes.length) :
    (e.set p (some (bytes.map some))).read ⟨.heap p, n⟩ = some (bytes.take n) := by
  have hall : ∀ l : List Byte, (l.map some).mapM id = some l := fun l => by
    induction l with
    | nil => rfl
    | cons b l ih => simp [ih]
  simp only [Env.read, set_heap_self, Option.bind_some, List.length_map, if_pos h, ← List.map_take]
  exact hall _

end Env

/-! ## What each call comes to -/

section Calls

variable {e : Env}

theorem safe_vmalloc {size : Nat} {Q : Option Ptr → Env → Prop} :
    contract.Safe (vmalloc size) e Q ↔
      Q none e ∧ ∀ p, e.heap p = none → Q (some p) (e.set p (some (List.replicate size none))) := by
  constructor
  · rintro ⟨-, h⟩
    refine ⟨h none (fun p hp => by cases hp), fun p hp => h (some p) fun q hq => ?_⟩
    obtain rfl := Option.some.inj hq
    exact hp
  · rintro ⟨hnone, hsome⟩
    refine ⟨trivial, fun r hr => ?_⟩
    cases r with
    | none => exact hnone
    | some p => exact hsome p (hr p rfl)

theorem safe_vfree {p : Ptr} {Q : Unit → Env → Prop} :
    contract.Safe (vfree p) e Q ↔ (e.heap p).isSome ∧ Q () (e.set p none) :=
  and_congr_right fun _ => ⟨fun h => h () trivial, fun h _ _ => h⟩

theorem safe_memcpyToHeap {p : Ptr} {cells : Cells} {destMax : Nat} {src : List Byte}
    {Q : Nat → Env → Prop} (hp : e.heap p = some cells) (hfits : destMax ≤ cells.length)
    (hfail : ∀ r, r ≠ 0 → Q r (e.set p (some (cells.map fun _ => none))))
    (hok : src.length ≤ destMax → Q 0 (e.set p (some (src.map some ++ cells.drop src.length)))) :
    contract.Safe (memcpyToHeap p destMax src) e Q := by
  refine ⟨⟨cells, hp, hfits⟩, fun (r : Nat) hr => ?_⟩
  show Q r (e.set p ((e.heap p).map fun cells =>
    if r = 0 then src.map some ++ cells.drop src.length else cells.map fun _ => none))
  by_cases hzero : r = 0
  · subst hzero
    rw [hp, Option.map_some, if_pos rfl]
    exact hok (hr rfl)
  · rw [hp, Option.map_some, if_neg hzero]
    exact hfail r hzero

theorem safe_registerServer {appUuid : SleUuid} {Q : Nat × Nat → Env → Prop} :
    contract.Safe (registerServer appUuid) e Q ↔
      ∀ r, Q r (e.add (kept r.1 (.server r.2 appUuid))) :=
  ⟨fun h r => h.2 r trivial, fun h => ⟨trivial, fun r _ => h r⟩⟩

theorem safe_unregisterServer {id : Nat} {Q : Nat → Env → Prop} :
    contract.Safe (unregisterServer id) e Q ↔ ∀ r, Q r (e.unregister id r) :=
  ⟨fun h r => h.2 r trivial, fun h => ⟨trivial, fun r _ => h r⟩⟩

theorem safe_addServiceSync {id : Nat} {uuid : SleUuid} {isPrimary : Bool}
    {Q : Nat × Nat → Env → Prop} :
    contract.Safe (addServiceSync id uuid isPrimary) e Q ↔
      ∀ r, Q r (e.add (kept r.1 (.service id r.2 uuid isPrimary))) :=
  ⟨fun h r => h.2 r trivial, fun h => ⟨trivial, fun r _ => h r⟩⟩

theorem safe_addPropertySync {id service : Nat} {info : PropertyInfo Buffer}
    {Q : Nat × Nat → Env → Prop} :
    contract.Safe (addPropertySync id service info) e Q ↔ (e.read info.value).isSome ∧
      ∀ r, Q r (e.add (kept r.1 (.property id service r.2 (info.stored e)))) :=
  and_congr_right fun _ => ⟨fun h r => h r trivial, fun h r _ => h r⟩

theorem safe_addDescriptorSync {id service property : Nat} {info : DescInfo Buffer}
    {Q : Nat → Env → Prop} :
    contract.Safe (addDescriptorSync id service property info) e Q ↔ (e.read info.value).isSome ∧
      ∀ r, Q r (e.add (kept r (.descriptor id service property (info.stored e)))) :=
  and_congr_right fun _ => ⟨fun h r => h r trivial, fun h r _ => h r⟩

theorem safe_startService {id service : Nat} {Q : Nat → Env → Prop} :
    contract.Safe (startService id service) e Q ↔ ∀ r, Q r (e.add (kept r (.started id service))) :=
  ⟨fun h r => h.2 r trivial, fun h => ⟨trivial, fun r _ => h r⟩⟩

theorem safe_notifyIndicate {id connId : Nat} {param : NtfInd Buffer} {Q : Nat → Env → Prop} :
    contract.Safe (notifyIndicate id connId param) e Q ↔ (e.read param.value).isSome ∧
      ∀ r, Q r (e.notify connId ⟨param.handle, (e.read param.value).getD []⟩) :=
  and_congr_right fun _ => ⟨fun h r => h r trivial, fun h r _ => h r⟩

theorem safe_setAnnounceData {id : Nat} {announceData seekRspData : Buffer} {Q : Nat → Env → Prop} :
    contract.Safe (setAnnounceData id announceData seekRspData) e Q ↔
      ((e.read announceData).isSome ∧ (e.read seekRspData).isSome) ∧ ∀ r, Q r (e.announce r
        (.data id ((e.read announceData).getD []) ((e.read seekRspData).getD []))) :=
  and_congr_right fun _ => ⟨fun h r => h r trivial, fun h r _ => h r⟩

theorem safe_startAnnounce {id : Nat} {Q : Nat → Env → Prop} :
    contract.Safe (startAnnounce id) e Q ↔ ∀ r, Q r (e.announce r (.start id)) :=
  ⟨fun h r => h.2 r trivial, fun h => ⟨trivial, fun r _ => h r⟩⟩

theorem safe_setup {call : Setup} {Q : Nat → Env → Prop} :
    contract.Safe (setup call) e Q ↔ ∀ r, Q r e :=
  ⟨fun h r => h.2 r trivial, fun h => ⟨trivial, fun r _ => h r⟩⟩

/-- A block that takes a copy of `src`. Where there is no block, or the copy fails, the code goes
another way. -/
theorem safe_copied {α : Type} {src : List Byte} {none' : Program α} {fail ok : Ptr → Program α}
    {Q : α → Env → Prop} (hnone : contract.Safe none' e Q)
    (hfail : ∀ p, e.heap p = none →
      contract.Safe (fail p) (e.set p (some (List.replicate src.length none))) Q)
    (hok : ∀ p, e.heap p = none → contract.Safe (ok p) (e.set p (some (src.map some))) Q) :
    contract.Safe (do
      match ← vmalloc src.length with
      | none => none'
      | some p =>
        let ret ← memcpyToHeap p src.length src
        if ret ≠ 0 then fail p else ok p) e Q := by
  refine Contract.safe_bind.mpr (safe_vmalloc.mpr ⟨hnone, fun p hp => ?_⟩)
  refine Contract.safe_bind.mpr (safe_memcpyToHeap set_heap_self (by simp) ?_ ?_)
  · intro r hr
    rw [if_pos hr, set_set, List.map_const', List.length_replicate]
    exact hfail p hp
  · intro _
    rw [if_neg (by simp), set_set, List.drop_eq_nil_of_le (by simp), List.append_nil]
    exact hok p hp

end Calls

end NearLink.Stack
