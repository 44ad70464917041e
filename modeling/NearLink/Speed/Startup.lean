import NearLink.Speed.Announce
import NearLink.Speed.Registration

/-!
# How the throughput server starts

`sle_speed_server_init` of `sle_speed_server.c`. It looks at none of the results, so the server is
announced with or without a service.
-/

namespace NearLink.Speed

open Stack

def defaultSleSpeedMtuSize : Nat := 1500

/-- Under `#ifdef SLE_QOS_FLOWCTRL_FUNCTION_SWITCH`, which none of the sources defines. -/
def sleTransmissionRegisterCbks (sleQosFlowctrlFunctionSwitch : Bool) : Program Unit := do
  if sleQosFlowctrlFunctionSwitch then do
    let _ ← setup .transmissionRegisterCbks
    return ()
  else return ()

def sleSpeedServerInit (sleQosFlowctrlFunctionSwitch : Bool) (sleAnnounceLevelNormal : Byte)
    (localName : Block Byte nameMaxLength) (after : List Byte) (h : Handles) :
    Program (Nat × Handles) := do
  let _ ← setup .watchdogDisable
  let _ ← setup .enableSle
  let _ ← setup .setNv
  let _ ← setup .connRegisterCbks
  let _ ← setup .ssapsRegisterCbks
  let ret ← sleUuidServerAdd h
  let h := ret.2
  let _ ← sleUuidServerAdvInit sleAnnounceLevelNormal localName after
  let _ ← setup (.ssapsSetInfo h.serverId defaultSleSpeedMtuSize)
  let _ ← sleTransmissionRegisterCbks sleQosFlowctrlFunctionSwitch
  let _ ← setup .connectParamInit
  let _ ← setup .setLocalAddr
  return (errcodeSleSuccess, h)

theorem transmissionRegisterCbks_safe {switch : Bool} {e : Env} {Q : Unit → Env → Prop}
    (h : Q () e) : contract.Safe (sleTransmissionRegisterCbks switch) e Q := by
  cases switch with
  | false => exact h
  | true => exact Contract.safe_bind.mpr (safe_setup.mpr fun _ => h)

theorem init_safe (switch : Bool) (level : Byte) (localName : Block Byte nameMaxLength)
    (after : List Byte) (h : Handles) (e : Env) :
    contract.Safe (sleSpeedServerInit switch level localName after h) e fun r t =>
      r.1 = errcodeSleSuccess ∧
        ∃ ret u, RegistrationEnds e u ret r.2 ∧ Announces level localName after u t := by
  unfold sleSpeedServerInit
  simp only [Contract.safe_bind, safe_setup, Contract.safe_pure]
  intro _ _ _ _ _
  apply (sleUuidServerAdd_safe h e).mono
  intro r u hregistered
  apply (advInit_safe level localName after u).mono
  rintro _ t ⟨-, hannounced⟩ _
  apply transmissionRegisterCbks_safe
  exact fun _ _ => ⟨trivial, r.1, u, hregistered, hannounced⟩

/-- **The start always returns success, and always asks for the announcement.** All memory is
returned, the fields of the announcement read back, and the service may be missing. -/
theorem init_announces {switch : Bool} {level : Byte} {localName : Block Byte nameMaxLength}
    {after : List Byte} {h h' : Handles} {ret : Nat} {calls : List (Called Op Ans)} {e : Env}
    (hrun : (sleSpeedServerInit switch level localName after h).Runs calls (ret, h'))
    (hgives : contract.Gives e calls) :
    contract.Asks e calls ∧ ret = errcodeSleSuccess ∧ ∃ t, run contract.step e calls = some t ∧
      t.heap = e.heap ∧
      ∃ ret' u, RegistrationEnds e u ret' h' ∧ Announces level localName after u t := by
  obtain ⟨hasks, t, ht, hret, ret', u, hends, hann⟩ :=
    (init_safe switch level localName after h e).sound hrun hgives
  refine ⟨hasks, hret, t, ht, ?_, ret', u, hends, hann⟩
  obtain ⟨_, _, _, _, -, -, rfl⟩ := hann
  exact hends.heap

def noMemory : (op : Op) → Ans op
  | .vmalloc _ => (none : Option Ptr)
  | op => granted op

theorem init_announces_no_memory :
    ∃ calls t, (sleSpeedServerInit false 1 sleLocalName [0] ⟨0, 0, 0⟩).Runs calls
        (errcodeSleSuccess, ⟨1, 16, 0⟩) ∧
      run contract.step .start calls = some t ∧ t.entries = [] ∧
      (Announcement.start sleAdvHandleDefault, errcodeSleSuccess) ∈ t.announcements := by
  have hrun := Prog.runs_trace noMemory (sleSpeedServerInit false 1 sleLocalName [0] ⟨0, 0, 0⟩)
  obtain ⟨-, -, t, ht, -⟩ := init_announces (e := .start) hrun (by decide +kernel)
  have hfacts : (run contract.step .start
      ((sleSpeedServerInit false 1 sleLocalName [0] ⟨0, 0, 0⟩).trace noMemory)).map (fun t =>
        (t.entries, decide ((Announcement.start sleAdvHandleDefault, errcodeSleSuccess) ∈
          t.announcements))) = some ([], true) := by decide +kernel
  rw [ht] at hfacts
  obtain ⟨hentries, hstarted⟩ := Prod.mk.inj (Option.some.inj hfacts)
  exact ⟨_, t, hrun, ht, hentries, of_decide_eq_true hstarted⟩

end NearLink.Speed
