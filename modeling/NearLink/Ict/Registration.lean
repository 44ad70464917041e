import NearLink.Ict.Server
import NearLink.Registration

/-!
# The service of the ict_sle server

`sle_uart_server_add` of `sle_uart_server.c`. A property that could not be added is not noticed.
-/

namespace NearLink.Ict

open Stack

def octetBitLen : Nat := 8
def uuidIndex : Nat := 14
def sleUuidServerService : Nat := 0x2222
def sleUuidServerNtfReport : Nat := 0x2323
def sleUuidTestProperties : List Permission := [.read, .write]
def sleUuidTestOperationIndication : List Indication := [.read, .write]
def sleUuidTestDescriptor : List Permission := [.read, .write]

def sleUuidAppUuid : List Byte := [0x12, 0x34]

/-- `g_slePropertyValue`. -/
def slePropertyValue : List Byte := List.replicate octetBitLen 0

def ntfValue : List Byte := [0x01, 0x02]

/-! ## Identifiers -/

def sleUartBase : List Byte :=
  [0x37, 0xBE, 0xA8, 0x80, 0xFC, 0x70, 0x11, 0xEA, 0xB7, 0x20, 0x00, 0x00, 0x00, 0x00, 0x00, 0x00]

def sleUuidSetBase (out : SleUuid) : SleUuid :=
  match memcpyS out.uuid 0 sleUuidLen sleUartBase with
  | (uuid, false) => ⟨0, uuid⟩
  | (uuid, true) => ⟨uuidLen2, uuid⟩

def sleUuidSetu2 (u2 : Nat) (out : SleUuid) : SleUuid :=
  let out := sleUuidSetBase out
  ⟨uuidLen2, encode2byteLittle out.uuid uuidIndex u2⟩

/-! ## The code -/

def sleUuidServerServiceAdd (h : Handles) : Program (Nat × Handles) :=
  serviceAdd (sleUuidSetu2 sleUuidServerService .zero) h

def sleProperty (value : Ptr) : PropertyInfo Buffer where
  uuid := sleUuidSetu2 sleUuidServerNtfReport .zero
  permissions := sleUuidTestProperties
  operateIndication := sleUuidTestOperationIndication
  value := ⟨.heap value, octetBitLen⟩

/-- The length of the value keeps the 0 of the initialiser. -/
def sleDescriptor (value : Ptr) : DescInfo Buffer where
  permissions := sleUuidTestDescriptor
  operateIndication := sleUuidTestOperationIndication
  type := .clientConfiguration
  value := ⟨.heap value, 0⟩

def addPropertySync (h : Handles) : Program (Nat × Handles) := do
  match ← vmalloc slePropertyValue.length with
  | none => return (errcodeSleFail, h)
  | some value =>
    let ret ← memcpyToHeap value slePropertyValue.length slePropertyValue
    if ret ≠ 0 then do
      vfree value
      return (errcodeSleFail, h)
    else do
      let ret ← Stack.addPropertySync h.serverId h.serviceHandle (sleProperty value)
      let h := { h with propertyHandle := ret.2 }
      if ret.1 ≠ errcodeSleSuccess then do
        vfree value
        return (errcodeSleFail, h)
      else do
        vfree value
        return (errcodeSleSuccess, h)

/-- What `add_property_sync` returns is not looked at. -/
def sleUuidServerPropertyAdd (h : Handles) : Program (Nat × Handles) := do
  let (_, h) ← addPropertySync h
  match ← vmalloc ntfValue.length with
  | none => return (errcodeSleFail, h)
  | some value =>
    let ret ← memcpyToHeap value ntfValue.length ntfValue
    if ret ≠ 0 then do
      vfree value
      return (errcodeSleFail, h)
    else do
      let ret ← addDescriptorSync h.serverId h.serviceHandle h.propertyHandle (sleDescriptor value)
      if ret ≠ errcodeSleSuccess then do
        vfree value
        return (errcodeSleFail, h)
      else do
        vfree value
        return (errcodeSleSuccess, h)

def sleUartServerAdd (h : Handles) : Program (Nat × Handles) :=
  serverAdd (appUuidOf sleUuidAppUuid) sleUuidServerServiceAdd sleUuidServerPropertyAdd h

/-- `sle_uart_server_adv_init` is not among the sources. -/
def sleEnableServerCbk (sleUartServerAdvInit : Program Nat) (h : Handles) :
    Program (Nat × Handles) := do
  let (ret, h) ← sleUartServerAdd h
  if ret ≠ errcodeSleSuccess then return (ret, h)
  else do
    let ret ← sleUartServerAdvInit
    if ret ≠ errcodeSleSuccess then return (ret, h)
    else return (errcodeSleSuccess, h)

/-! ## What is registered -/

theorem sleUuidSetu2_eq (u2 : Nat) (out : SleUuid) : sleUuidSetu2 u2 out = shortUuid u2 := by
  have hcopy : memcpyS out.uuid 0 sleUuidLen sleUartBase = (⟨sleUartBase, rfl⟩, true) := by
    rw [memcpyS_ok _ _ (by decide) (by decide), Prod.mk.injEq]
    refine ⟨Block.eq_of_cells ?_, rfl⟩
    rw [Block.write_cells _ (by decide)]
    simp [sleUartBase, sleUuidLen]
  simp only [sleUuidSetu2, sleUuidSetBase, hcopy]
  rfl

def propertyEntry (h : Handles) : Entry :=
  .property h.serverId h.serviceHandle h.propertyHandle
    ⟨shortUuid sleUuidServerNtfReport, sleUuidTestProperties, sleUuidTestOperationIndication,
      slePropertyValue⟩

/-- Without the value that was copied for it. -/
def descriptorEntry (h : Handles) : Entry :=
  .descriptor h.serverId h.serviceHandle h.propertyHandle
    ⟨sleUuidTestDescriptor, sleUuidTestOperationIndication, .clientConfiguration, []⟩

/-- The descriptor, with or without its property. -/
def Attributes (h : Handles) (entries : List Entry) : Prop :=
  ∃ property, (property = [] ∨ property = [propertyEntry h]) ∧
    entries = property ++ [descriptorEntry h]

theorem sleProperty_read (p : Ptr) (e : Env) :
    (e.set p (some (slePropertyValue.map some))).read (sleProperty p).value =
      some slePropertyValue :=
  read_set octetBitLen slePropertyValue (by decide)

theorem sleProperty_stored (p : Ptr) (e : Env) :
    (sleProperty p).stored (e.set p (some (slePropertyValue.map some))) =
      ⟨shortUuid sleUuidServerNtfReport, sleUuidTestProperties, sleUuidTestOperationIndication,
        slePropertyValue⟩ := by
  rw [PropertyInfo.stored, sleProperty_read, sleProperty, sleUuidSetu2_eq]
  rfl

theorem sleDescriptor_read (p : Ptr) (e : Env) :
    (e.set p (some (ntfValue.map some))).read (sleDescriptor p).value = some [] :=
  read_set 0 ntfValue (Nat.zero_le _)

theorem sleDescriptor_stored (p : Ptr) (e : Env) :
    (sleDescriptor p).stored (e.set p (some (ntfValue.map some))) =
      ⟨sleUuidTestDescriptor, sleUuidTestOperationIndication, .clientConfiguration, []⟩ := by
  rw [DescInfo.stored, sleDescriptor_read]
  rfl

theorem addPropertySync_safe (h : Handles) (e : Env) :
    contract.Safe (addPropertySync h) e fun r t => ∃ handle entries,
      r.2 = { h with propertyHandle := handle } ∧
        (entries = [] ∨ entries = [propertyEntry { h with propertyHandle := handle }]) ∧
        t = e.add entries := by
  unfold addPropertySync
  apply safe_copied
  · exact ⟨_, [], rfl, .inl rfl, add_nil.symm⟩
  · intro p hp
    rw [Contract.safe_bind, safe_vfree]
    exact ⟨by simp, _, [], rfl, .inl rfl, (free_new hp).trans add_nil.symm⟩
  · intro p hp
    rw [Contract.safe_bind, safe_addPropertySync, sleProperty_read, sleProperty_stored]
    refine ⟨rfl, fun r => ?_⟩
    simp only
    split_ifs with hprop
    · rw [Contract.safe_bind, safe_vfree, kept, if_neg hprop, add_nil]
      exact ⟨by simp, r.2, [], rfl, .inl rfl, (free_new hp).trans add_nil.symm⟩
    · rw [Contract.safe_bind, safe_vfree, kept, if_pos (not_not.mp hprop), set_add]
      exact ⟨by simp, r.2, _, rfl, .inr rfl, free_new hp⟩

theorem propertyAdd_adds : Adds Attributes sleUuidServerPropertyAdd where
  attributes h := ⟨[descriptorEntry h], [], .inl rfl, rfl⟩
  own := by
    rintro h _ ⟨property, rfl | rfl, rfl⟩ <;> simp [propertyEntry, descriptorEntry, Entry.serverId]
  safe h e := by
    unfold sleUuidServerPropertyAdd
    rw [Contract.safe_bind]
    apply (addPropertySync_safe h e).mono
    rintro ⟨ret, _⟩ t ⟨handle, property, rfl, hproperty, rfl⟩
    apply safe_copied
    · exact ⟨handle, property, _, ⟨property, hproperty, rfl⟩, List.prefix_append _ _, rfl, .inr rfl⟩
    · intro p hp
      rw [Contract.safe_bind, safe_vfree]
      exact ⟨by simp, handle, property, _, ⟨property, hproperty, rfl⟩, List.prefix_append _ _,
        free_new hp, .inr rfl⟩
    · intro p hp
      rw [Contract.safe_bind, safe_addDescriptorSync, sleDescriptor_read, sleDescriptor_stored]
      refine ⟨rfl, fun ret => ?_⟩
      simp only
      split_ifs with hdesc
      · rw [Contract.safe_bind, safe_vfree, kept, if_neg hdesc, add_nil]
        exact ⟨by simp, handle, property, _, ⟨property, hproperty, rfl⟩, List.prefix_append _ _,
          free_new hp, .inr rfl⟩
      · rw [Contract.safe_bind, safe_vfree, kept, if_pos (not_not.mp hdesc), set_add, add_add]
        exact ⟨by simp, handle, _, _, ⟨property, hproperty, rfl⟩, List.prefix_rfl, free_new hp,
          .inl ⟨rfl, rfl⟩⟩

def RegistrationEnds : Env → Env → Nat → Handles → Prop :=
  Ends (appUuidOf sleUuidAppUuid).1 (shortUuid sleUuidServerService) Attributes

theorem sleUartServerAdd_safe (h : Handles) (e : Env) :
    contract.Safe (sleUartServerAdd h) e fun r t => RegistrationEnds e t r.1 r.2 := by
  have hservice : sleUuidServerServiceAdd = serviceAdd (shortUuid sleUuidServerService) := by
    funext h
    rw [sleUuidServerServiceAdd, sleUuidSetu2_eq]
  unfold sleUartServerAdd
  rw [hservice]
  exact serverAdd_safe propertyAdd_adds h e

/-- **Only a service that has started is announced.** The registration returns all its memory, and
no call follows one that does not end with success. -/
theorem announces_registered {advInit : Program Nat} {h h' : Handles} {ret : Nat}
    {calls : List (Called Op Ans)} {e : Env}
    (hrun : (sleEnableServerCbk advInit h).Runs calls (ret, h')) (hgives : contract.Gives e calls) :
    ∃ before after t registration, calls = before ++ after ∧ contract.Asks e before ∧
      run contract.step e before = some t ∧ t.heap = e.heap ∧
      RegistrationEnds e t registration h' ∧
      if registration = errcodeSleSuccess then advInit.Runs after ret
      else after = [] ∧ ret = registration := by
  unfold sleEnableServerCbk at hrun
  obtain ⟨before, after, ⟨registration, h₁⟩, rfl, hadd, hrest⟩ := hrun.split
  obtain ⟨hasks, t, ht, hends⟩ := (sleUartServerAdd_safe h e).sound hadd hgives.of_append
  simp only at hrest
  split_ifs at hrest with hret
  · cases hrest
    exact ⟨before, [], t, ret, rfl, hasks, ht, hends.heap, hends, by rw [if_neg hret]; exact ⟨rfl, rfl⟩⟩
  · obtain ⟨advertised, after, advRet, rfl, hadv, hend⟩ := hrest.split
    have hlast : advRet = ret ∧ after = [] ∧ h₁ = h' := by
      split_ifs at hend with hadvRet <;> cases hend <;> simp_all
    obtain ⟨rfl, rfl, rfl⟩ := hlast
    rw [List.append_nil]
    refine ⟨before, advertised, t, registration, rfl, hasks, ht, hends.heap, hends, ?_⟩
    rwa [if_pos (not_not.mp hret)]

def noProperty : (op : Op) → Ans op
  | .addPropertySync _ _ _ => (errcodeSleFail, 0)
  | op => granted op

theorem announces_registered_without_property :
    ∃ before after t, (sleEnableServerCbk (startAnnounce 1) ⟨0, 0, 0⟩).Runs (before ++ after)
        (errcodeSleSuccess, ⟨1, 16, 0⟩) ∧
      run contract.step .start before = some t ∧ t.heap = Env.start.heap ∧
      RegistrationEnds .start t errcodeSleSuccess ⟨1, 16, 0⟩ ∧
      (startAnnounce 1).Runs after errcodeSleSuccess := by
  have hrun := Prog.runs_trace noProperty (sleEnableServerCbk (startAnnounce 1) ⟨0, 0, 0⟩)
  have hresult : (sleEnableServerCbk (startAnnounce 1) ⟨0, 0, 0⟩).result noProperty =
      (errcodeSleSuccess, ⟨1, 16, 0⟩) := rfl
  obtain ⟨before, after, t, registration, hcalls, -, ht, hheap, hends, hlast⟩ :=
    announces_registered (e := .start) (hresult ▸ hrun) (by decide +kernel)
  have hregistered : registration = errcodeSleSuccess := by
    by_contra hfail
    rw [if_neg hfail] at hlast
    exact hfail hlast.2.symm
  rw [if_pos hregistered] at hlast
  rw [hcalls, hresult] at hrun
  exact ⟨before, after, t, hrun, ht, hheap, hregistered ▸ hends, hlast⟩

end NearLink.Ict
