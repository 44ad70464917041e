import NearLink.Stack

/-!
# Registering a service

`sle_uuid_server_add` of the throughput server and `sle_uart_server_add` of the ict_sle server are
one function over different identifiers and different ways to add the property.
-/

namespace NearLink.Stack

/-- The id of the server, and the handles of its service and its property. -/
structure Handles where
  serverId : Nat
  serviceHandle : Nat
  propertyHandle : Nat

/-! ## The code -/

/-- `encode2byte_little` and `Encode2byteLittle`. -/
def encode2byteLittle (uuid : Block Byte sleUuidLen) (off data : Nat) : Block Byte sleUuidLen :=
  let uuid := uuid.write (off + 1) [hiByte data]
  uuid.write off [loByte data]

/-- A copy of the application's identifier into a structure that is zero. It may not fit. -/
def appUuidOf (bytes : List Byte) : SleUuid × Bool :=
  let appUuid : SleUuid := { SleUuid.zero with len := bytes.length }
  let (uuid, ok) := memcpyS appUuid.uuid 0 appUuid.len bytes
  ({ appUuid with uuid := uuid }, ok)

def serviceAdd (serviceUuid : SleUuid) (h : Handles) : Program (Nat × Handles) := do
  let ret ← addServiceSync h.serverId serviceUuid true
  let h := { h with serviceHandle := ret.2 }
  if ret.1 ≠ errcodeSleSuccess then return (errcodeSleFail, h)
  else return (errcodeSleSuccess, h)

/-- What the registration of the server returns is not looked at. -/
def serverAdd (appUuid : SleUuid × Bool) (serviceAdd propertyAdd : Handles → Program (Nat × Handles))
    (h : Handles) : Program (Nat × Handles) := do
  if appUuid.2 = false then return (errcodeSleFail, h)
  else do
    let ret ← registerServer appUuid.1
    let h := { h with serverId := ret.2 }
    let (ret, h) ← serviceAdd h
    if ret ≠ errcodeSleSuccess then do
      let _ ← unregisterServer h.serverId
      return (errcodeSleFail, h)
    else do
      let (ret, h) ← propertyAdd h
      if ret ≠ errcodeSleSuccess then do
        let _ ← unregisterServer h.serverId
        return (errcodeSleFail, h)
      else do
        let ret ← startService h.serverId h.serviceHandle
        if ret ≠ errcodeSleSuccess then return (errcodeSleFail, h)
        else return (errcodeSleSuccess, h)

/-! ## What is registered -/

section Registered

variable (appUuid serviceUuid : SleUuid) (Attributes : Handles → List Entry → Prop)

/-- With `Attributes` added to the service when the addition of the property succeeds. Since the
registration of the server may have failed, the server itself may be missing in front of them. -/
def Provides (h : Handles) (entries : List Entry) : Prop :=
  ∃ registered attributes, (registered = [] ∨ registered = [.server h.serverId appUuid]) ∧
    Attributes h attributes ∧
    entries = registered ++ .service h.serverId h.serviceHandle serviceUuid true :: attributes

/-- The first entries of a registration, up to where it stopped. -/
def Begins (h : Handles) (part : List Entry) : Prop :=
  ∃ entries, Provides appUuid serviceUuid Attributes h entries ∧ part <+: entries

/-- How the registration ends: with a service, with a service that did not start, or with an
attempt to unregister the server. If the stack refuses that too, what it has stays there. -/
def Ends (e t : Env) (ret : Nat) (h : Handles) : Prop :=
  ret = errcodeSleSuccess ∧ (∃ entries, Provides appUuid serviceUuid Attributes h entries ∧
      t = e.add (entries ++ [.started h.serverId h.serviceHandle])) ∨
    ret = errcodeSleFail ∧ (∃ entries, Provides appUuid serviceUuid Attributes h entries ∧
      t = e.add entries) ∨
    ret = errcodeSleFail ∧ ∃ part answer, Begins appUuid serviceUuid Attributes h part ∧
      t = (if answer = errcodeSleSuccess then e else e.add part).unregister h.serverId answer

/-- What is asked of the way to add the property: it adds the attributes, or the first of them. -/
structure Adds (propertyAdd : Handles → Program (Nat × Handles)) : Prop where
  attributes (h : Handles) : ∃ entries, Attributes h entries
  own {h : Handles} {entries : List Entry} (hentries : Attributes h entries) :
    ∀ x ∈ entries, x.serverId = h.serverId
  safe (h : Handles) (e : Env) : contract.Safe (propertyAdd h) e fun r t => ∃ handle part entries,
    Attributes { h with propertyHandle := handle } entries ∧ part <+: entries ∧ t = e.add part ∧
      (r = (errcodeSleSuccess, { h with propertyHandle := handle }) ∧ part = entries ∨
        r = (errcodeSleFail, { h with propertyHandle := handle }))

variable {appUuid serviceUuid Attributes}

theorem Ends.heap {e t : Env} {ret : Nat} {h : Handles}
    (hends : Ends appUuid serviceUuid Attributes e t ret h) : t.heap = e.heap := by
  obtain ⟨-, _, -, rfl⟩ | ⟨-, _, -, rfl⟩ | ⟨-, _, _, -, rfl⟩ := hends
  · rfl
  · rfl
  · rw [unregister_heap]
    split_ifs <;> rfl

theorem serviceAdd_safe (h : Handles) (e : Env) :
    contract.Safe (serviceAdd serviceUuid h) e fun r t =>
      ∃ handle, r = (errcodeSleSuccess, { h with serviceHandle := handle }) ∧
          t = e.add [.service h.serverId handle serviceUuid true] ∨
        r = (errcodeSleFail, { h with serviceHandle := handle }) ∧ t = e := by
  unfold serviceAdd
  rw [Contract.safe_bind, safe_addServiceSync]
  intro r
  simp only
  split_ifs with hret
  · exact ⟨r.2, .inr ⟨rfl, by rw [kept, if_neg hret, add_nil]⟩⟩
  · exact ⟨r.2, .inl ⟨rfl, by rw [kept, if_pos (not_not.mp hret)]⟩⟩

section ServerAdd

variable {propertyAdd : Handles → Program (Nat × Handles)} (hadds : Adds Attributes propertyAdd)

include hadds

theorem Provides.own {h : Handles} {entries : List Entry}
    (hprovides : Provides appUuid serviceUuid Attributes h entries) :
    ∀ x ∈ entries, x.serverId = h.serverId := by
  obtain ⟨registered, attributes, hregistered, hattributes, rfl⟩ := hprovides
  intro x hx
  rcases List.mem_append.mp hx with hx | hx
  · rcases hregistered with rfl | rfl
    · cases hx
    · exact List.mem_singleton.mp hx ▸ rfl
  · rcases List.mem_cons.mp hx with rfl | hx
    · rfl
    · exact hadds.own hattributes x hx

theorem unregister_safe {e : Env} {h : Handles} {part : List Entry}
    (hbegins : Begins appUuid serviceUuid Attributes h part) :
    contract.Safe (do
      let _ ← unregisterServer h.serverId
      return (errcodeSleFail, h)) (e.add part) fun r t =>
        Ends appUuid serviceUuid Attributes e t r.1 r.2 := by
  have hown : ∀ x ∈ part, x.serverId = h.serverId := by
    obtain ⟨entries, hprovides, hpart⟩ := hbegins
    exact fun x hx => hprovides.own hadds x (hpart.subset hx)
  rw [Contract.safe_bind, safe_unregisterServer]
  exact fun answer => .inr (.inr ⟨rfl, part, answer, hbegins, unregister_add hown answer⟩)

theorem serverAdd_safe (h : Handles) (e : Env) :
    contract.Safe (serverAdd (appUuid, true) (serviceAdd serviceUuid) propertyAdd h) e fun r t =>
      Ends appUuid serviceUuid Attributes e t r.1 r.2 := by
  unfold serverAdd
  rw [if_neg (by simp), Contract.safe_bind, safe_registerServer]
  rintro ⟨registration, id⟩
  have hregistered := kept_eq registration (.server id appUuid)
  generalize kept registration (.server id appUuid) = registered at hregistered
  rw [Contract.safe_bind]
  apply (serviceAdd_safe _ _).mono
  rintro _ _ ⟨service, ⟨rfl, rfl⟩ | ⟨rfl, rfl⟩⟩
  swap
  · obtain ⟨attributes, hattributes⟩ := hadds.attributes ⟨id, service, h.propertyHandle⟩
    have hprovides : Provides appUuid serviceUuid Attributes ⟨id, service, h.propertyHandle⟩
        (registered ++ .service id service serviceUuid true :: attributes) :=
      ⟨registered, attributes, hregistered, hattributes, rfl⟩
    exact unregister_safe hadds ⟨_, hprovides, List.prefix_append _ _⟩
  simp only [ne_eq, not_true_eq_false, if_false]
  rw [Contract.safe_bind]
  apply (hadds.safe _ _).mono
  rintro ⟨ret, _⟩ _ ⟨property, part, entries, hattributes, hpart, rfl, hret⟩
  have hprovides : Provides appUuid serviceUuid Attributes ⟨id, service, property⟩
      (registered ++ .service id service serviceUuid true :: entries) :=
    ⟨registered, entries, hregistered, hattributes, rfl⟩
  have hsofar : ((e.add registered).add [.service id service serviceUuid true]).add part =
      e.add (registered ++ .service id service serviceUuid true :: part) := by
    simp
  rw [hsofar]
  obtain ⟨⟨rfl, rfl⟩, rfl⟩ | ⟨rfl, rfl⟩ := hret.imp (And.imp_left Prod.mk.inj) Prod.mk.inj
  swap
  · have hbegins : registered ++ .service id service serviceUuid true :: part <+:
        registered ++ .service id service serviceUuid true :: entries :=
      (List.prefix_append_right_inj _).mpr (List.cons_prefix_cons.mpr ⟨rfl, hpart⟩)
    exact unregister_safe hadds ⟨_, hprovides, hbegins⟩
  simp only [not_true_eq_false, if_false]
  rw [Contract.safe_bind, safe_startService]
  intro ret
  split_ifs with hstart
  · exact .inl ⟨rfl, _, hprovides, by rw [kept, if_pos hstart, add_add]⟩
  · exact .inr (.inl ⟨rfl, _, hprovides, by rw [kept, if_neg hstart, add_nil]⟩)

end ServerAdd

end Registered

end NearLink.Stack
