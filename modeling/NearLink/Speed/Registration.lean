import NearLink.Registration

/-!
# The service of the throughput server

`sle_uuid_server_add` of `sle_speed_server.c`, whatever the stack and the memory answer.
-/

namespace NearLink.Speed

open Stack

def octetBitLen : Nat := 8
def sleUuidServerService : Nat := 0xABCD
def sleUuidServerNtfReport : Nat := 0x1122
def sleUuidTestProperties : List Permission := [.read, .write]
def sleUuidTestDescriptor : List Permission := [.read, .write]

def sleUuidAppUuid : List Byte := [0, 0]

/-- `g_sle_property_value`. -/
def slePropertyValue : List Byte := List.replicate octetBitLen 0

/-! ## Identifiers -/

def sleUuidBase : List Byte :=
  [0x37, 0xBE, 0xA8, 0x80, 0xFC, 0x70, 0x11, 0xEA, 0xB7, 0x20, 0x00, 0x00, 0x00, 0x00, 0x00, 0x00]

/-- A failure of the copy is ignored. -/
def sleUuidSetBase (out : SleUuid) : SleUuid :=
  ⟨uuidLen2, (memcpyS out.uuid 0 sleUuidLen sleUuidBase).1⟩

def sleUuidSetu2 (u2 : Nat) (out : SleUuid) : SleUuid :=
  let out := sleUuidSetBase out
  ⟨uuidLen2, encode2byteLittle out.uuid 14 u2⟩

/-! ## The code -/

def sleUuidServerServiceAdd (h : Handles) : Program (Nat × Handles) :=
  serviceAdd (sleUuidSetu2 sleUuidServerService .zero) h

/-- `value_len` keeps the 0 of the initialiser. -/
def sleProperty (value : Ptr) : PropertyInfo Buffer where
  uuid := sleUuidSetu2 sleUuidServerNtfReport .zero
  permissions := sleUuidTestProperties
  operateIndication := [.read, .notify]
  value := ⟨.heap value, 0⟩

/-- An array of the caller. -/
def ntfValue : List Byte := [0x01, 0x0]

def sleDescriptor : DescInfo Buffer where
  permissions := sleUuidTestDescriptor
  operateIndication := [.read, .write]
  type := .userDescription
  value := ⟨.own ntfValue, ntfValue.length⟩

def sleUuidServerPropertyAdd (h : Handles) : Program (Nat × Handles) := do
  match ← vmalloc slePropertyValue.length with
  | none => return (errcodeSleFail, h)
  | some value =>
    let ret ← memcpyToHeap value slePropertyValue.length slePropertyValue
    if ret ≠ 0 then do
      vfree value
      return (errcodeSleFail, h)
    else do
      let ret ← addPropertySync h.serverId h.serviceHandle (sleProperty value)
      let h := { h with propertyHandle := ret.2 }
      if ret.1 ≠ errcodeSleSuccess then do
        vfree value
        return (errcodeSleFail, h)
      else do
        let ret ← addDescriptorSync h.serverId h.serviceHandle h.propertyHandle sleDescriptor
        if ret ≠ errcodeSleSuccess then do
          vfree value
          return (errcodeSleFail, h)
        else do
          vfree value
          return (errcodeSleSuccess, h)

def sleUuidServerAdd (h : Handles) : Program (Nat × Handles) :=
  serverAdd (appUuidOf sleUuidAppUuid) sleUuidServerServiceAdd sleUuidServerPropertyAdd h

/-! ## What is registered -/

theorem sleUuidSetu2_eq (u2 : Nat) (out : SleUuid) : sleUuidSetu2 u2 out = shortUuid u2 := by
  have hbase : (memcpyS out.uuid 0 sleUuidLen sleUuidBase).1 = ⟨sleUuidBase, rfl⟩ := by
    rw [memcpyS_ok _ _ (by decide) (by decide)]
    apply Block.eq_of_cells
    rw [Block.write_cells _ (by decide)]
    simp [sleUuidBase, sleUuidLen]
  rw [sleUuidSetu2, sleUuidSetBase, hbase]
  rfl

/-- The property comes with the descriptor, and without a value. -/
def Attributes (h : Handles) (entries : List Entry) : Prop :=
  entries = [.property h.serverId h.serviceHandle h.propertyHandle
      ⟨shortUuid sleUuidServerNtfReport, sleUuidTestProperties, [.read, .notify], []⟩,
    .descriptor h.serverId h.serviceHandle h.propertyHandle
      ⟨sleUuidTestDescriptor, [.read, .write], .userDescription, ntfValue⟩]

theorem sleProperty_read (p : Ptr) (e : Env) :
    (e.set p (some (slePropertyValue.map some))).read (sleProperty p).value = some [] :=
  read_set 0 slePropertyValue (Nat.zero_le _)

theorem sleProperty_stored (p : Ptr) (e : Env) :
    (sleProperty p).stored (e.set p (some (slePropertyValue.map some))) =
      ⟨shortUuid sleUuidServerNtfReport, sleUuidTestProperties, [.read, .notify], []⟩ := by
  rw [PropertyInfo.stored, sleProperty_read, sleProperty, sleUuidSetu2_eq]
  rfl

theorem sleDescriptor_read (e : Env) : e.read sleDescriptor.value = some ntfValue :=
  read_own ntfValue

theorem sleDescriptor_stored (e : Env) :
    sleDescriptor.stored e =
      ⟨sleUuidTestDescriptor, [.read, .write], .userDescription, ntfValue⟩ := by
  rw [DescInfo.stored, sleDescriptor_read]
  rfl

theorem propertyAdd_adds : Adds Attributes sleUuidServerPropertyAdd where
  attributes _ := ⟨_, rfl⟩
  own hentries := by
    rw [Attributes] at hentries
    simp [hentries, Entry.serverId]
  safe h e := by
    unfold sleUuidServerPropertyAdd
    apply safe_copied
    · exact ⟨_, [], _, rfl, List.nil_prefix, add_nil.symm, .inr rfl⟩
    · intro p hp
      rw [Contract.safe_bind, safe_vfree]
      exact ⟨by simp, _, [], _, rfl, List.nil_prefix, (free_new hp).trans add_nil.symm, .inr rfl⟩
    · intro p hp
      rw [Contract.safe_bind, safe_addPropertySync, sleProperty_read, sleProperty_stored]
      refine ⟨rfl, fun r => ?_⟩
      simp only
      split_ifs with hprop
      · rw [Contract.safe_bind, safe_vfree, kept, if_neg hprop, add_nil]
        exact ⟨by simp, r.2, [], _, rfl, List.nil_prefix, (free_new hp).trans add_nil.symm, .inr rfl⟩
      · rw [kept, if_pos (not_not.mp hprop), set_add, Contract.safe_bind, safe_addDescriptorSync,
          sleDescriptor_read, sleDescriptor_stored]
        refine ⟨rfl, fun ret => ?_⟩
        split_ifs with hdesc
        · rw [Contract.safe_bind, safe_vfree, kept, if_neg hdesc, add_nil]
          exact ⟨by simp, r.2, _, _, rfl, List.prefix_append [_] [_], free_new hp, .inr rfl⟩
        · rw [Contract.safe_bind, safe_vfree, kept, if_pos (not_not.mp hdesc), set_add, add_add]
          exact ⟨by simp, r.2, _, _, rfl, List.prefix_rfl, free_new hp, .inl ⟨rfl, rfl⟩⟩

def RegistrationEnds : Env → Env → Nat → Handles → Prop :=
  Ends (appUuidOf sleUuidAppUuid).1 (shortUuid sleUuidServerService) Attributes

theorem sleUuidServerAdd_safe (h : Handles) (e : Env) :
    contract.Safe (sleUuidServerAdd h) e fun r t => RegistrationEnds e t r.1 r.2 := by
  have hservice : sleUuidServerServiceAdd = serviceAdd (shortUuid sleUuidServerService) := by
    funext h
    rw [sleUuidServerServiceAdd, sleUuidSetu2_eq]
  unfold sleUuidServerAdd
  rw [hservice]
  exact serverAdd_safe propertyAdd_adds h e

/-- **The registration returns all its memory.** It leaves a whole service, started or not, or asks to
unregister the server. Each block is freed once, and the stack reads allocated memory only. -/
theorem registration_outcome {h h' : Handles} {ret : Nat} {calls : List (Called Op Ans)} {e : Env}
    (hrun : (sleUuidServerAdd h).Runs calls (ret, h')) (hgives : contract.Gives e calls) :
    contract.Asks e calls ∧ ∃ t, run contract.step e calls = some t ∧ t.heap = e.heap ∧
      RegistrationEnds e t ret h' := by
  obtain ⟨hasks, t, ht, hends⟩ := (sleUuidServerAdd_safe h e).sound hrun hgives
  exact ⟨hasks, t, ht, hends.heap, hends⟩

def noDescriptor : (op : Op) → Ans op
  | .addDescriptorSync _ _ _ _ => errcodeSleFail
  | op => granted op

theorem registration_outcome_no_descriptor :
    ∃ calls t, (sleUuidServerAdd ⟨0, 0, 0⟩).Runs calls (errcodeSleFail, ⟨1, 16, 17⟩) ∧
      contract.Asks .start calls ∧ run contract.step .start calls = some t ∧
      t.heap = Env.start.heap ∧ t.entries = [] := by
  have hrun := Prog.runs_trace noDescriptor (sleUuidServerAdd ⟨0, 0, 0⟩)
  obtain ⟨hasks, t, ht, hheap, -⟩ := registration_outcome (e := .start) hrun (by decide +kernel)
  have hentries : (run contract.step .start ((sleUuidServerAdd ⟨0, 0, 0⟩).trace noDescriptor)).map
      Env.entries = some [] := by decide +kernel
  rw [ht] at hentries
  exact ⟨_, t, hrun, hasks, ht, hheap, Option.some.inj hentries⟩

end NearLink.Speed
