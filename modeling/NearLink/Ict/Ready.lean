import NearLink.Ict.ServerProofs

/-!
# When the ict_sle server is ready

`g_sleReady` is set whenever an MTU exchange is reported, whatever its status, its link and the
pairing.
-/

namespace NearLink.Ict

/-- Ready means that the link of `g_sleConnHdl` is connected, that an MTU exchange with it has
succeeded, and that it is paired. -/
def ReadyOk (s : Server) : Prop := s.sleReady = 1 → s.links s.sleConnHdl = some ⟨true, true⟩

/-- When an MTU exchange is reported, the link of `g_sleConnHdl` is connected and paired, and an
exchange with it has succeeded, before or now. -/
def MtuLast (s : Server) : Action → Prop
  | .mtuChanged connId _ status => ∃ p, s.links s.sleConnHdl = some p ∧ p.paired = true ∧
      (p.mtuExchanged = true ∨ connId = s.sleConnHdl ∧ status = errcodeSleSuccess)
  | _ => True

/-! ## Steps -/

theorem ReadyOk.congr {s t : Server} (h : ReadyOk s) (hready : t.sleReady = s.sleReady)
    (hconn : t.sleConnHdl = s.sleConnHdl) (hlinks : t.links = s.links) : ReadyOk t := by
  rw [ReadyOk, hready, hconn, hlinks]
  exact h

theorem ReadyOk.of_not_ready {s : Server} (h : s.sleReady = 0) : ReadyOk s := by
  intro h1
  omega

theorem frameParse_link (accept : Bool) (s : Server) (b : Byte) :
    (frameParse accept s b).sleReady = s.sleReady ∧
      (frameParse accept s b).sleConnHdl = s.sleConnHdl ∧
      (frameParse accept s b).links = s.links := by
  obtain ⟨-, -, hready, hconn, hlinks⟩ :=
    onFrameComplete_keeps accept { s with parser := (frameParseByte s.parser b).1 }
  simp only [frameParse]
  split_ifs
  · exact ⟨hready, hconn, hlinks⟩
  · exact ⟨rfl, rfl, rfl⟩

theorem serverUartRxCallback_ready {s : Server} (h : ReadyOk s) (data : List Byte)
    (accept : Nat → Bool) : ReadyOk (serverUartRxCallback data accept s) := by
  refine serverUartRxCallback_preserves ReadyOk (fun accept s b h => ?_) h data accept
  obtain ⟨hready, hconn, hlinks⟩ := frameParse_link accept s b
  exact h.congr hready hconn hlinks

theorem connectState_ready {s : Server} (h : ReadyOk s) (connId : Nat)
    (connState : SleAcbStateType) :
    ReadyOk (trackConnect connId connState (sleConnectStateChangedCbk connId connState s)) := by
  cases connState with
  | connected => exact .of_not_ready rfl
  | disconnected => exact .of_not_ready rfl
  | other => exact h

theorem pairComplete_ready {s : Server} (h : ReadyOk s) (connId status : Nat) :
    ReadyOk (trackPair connId status (slePairCompleteCbk connId status s)) := by
  unfold trackPair
  split_ifs
  · intro hready
    have hlink := h hready
    simp only [setLink, slePairCompleteCbk]
    split_ifs with hid
    · rw [← hid, hlink]; rfl
    · exact hlink
  · exact h.congr rfl rfl rfl

theorem mtuChanged_ready (s : Server) (connId mtuSize status : Nat) :
    ReadyOk (trackMtu connId status (ssapsMtuChangedCbk connId mtuSize status s)) ↔
      MtuLast s (.mtuChanged connId mtuSize status) := by
  have hready : (trackMtu connId status (ssapsMtuChangedCbk connId mtuSize status s)).sleReady = 1 := by
    unfold trackMtu
    split_ifs <;> rfl
  have hlink : (trackMtu connId status (ssapsMtuChangedCbk connId mtuSize status s)).links s.sleConnHdl =
      if s.sleConnHdl = connId ∧ status = errcodeSleSuccess then
        (s.links s.sleConnHdl).map fun p => { p with mtuExchanged := true }
      else s.links s.sleConnHdl := by
    unfold trackMtu ssapsMtuChangedCbk
    by_cases hs : status = errcodeSleSuccess
    · by_cases hid : s.sleConnHdl = connId <;> simp [hs, hid, setLink]
    · simp [hs]
  have hconn : (trackMtu connId status (ssapsMtuChangedCbk connId mtuSize status s)).sleConnHdl =
      s.sleConnHdl := by
    unfold trackMtu
    split_ifs <;> rfl
  simp only [ReadyOk, hready, hconn, hlink, MtuLast, forall_const]
  cases s.links s.sleConnHdl with
  | none => simp
  | some p =>
    rcases p with ⟨mtu, paired⟩
    split_ifs with hnow
    · simp [hnow.1, hnow.2]
    · have hnot : ¬ (connId = s.sleConnHdl ∧ status = errcodeSleSuccess) := fun h =>
        hnow ⟨h.1.symm, h.2⟩
      simp [hnot, and_comm]

theorem step_ready {s t : Server} {a : Action} (h : ReadyOk s) (hstep : step s a = some t) :
    ReadyOk t ↔ MtuLast s a := by
  cases a with
  | mtuChanged connId mtuSize status =>
    obtain rfl := Option.some.inj hstep
    exact mtuChanged_ready s connId mtuSize status
  | taskStart created =>
    refine iff_of_true ?_ trivial
    obtain ⟨-, rfl | rfl⟩ := sleTaskStart_spec hstep
    · exact h.congr rfl rfl rfl
    · exact h.congr rfl rfl rfl
  | uart data accept =>
    obtain rfl := Option.some.inj hstep
    exact iff_of_true (serverUartRxCallback_ready h data accept) trivial
  | connectState connId connState =>
    obtain rfl := Option.some.inj hstep
    exact iff_of_true (connectState_ready h connId connState) trivial
  | pairComplete connId status =>
    obtain rfl := Option.some.inj hstep
    exact iff_of_true (pairComplete_ready h connId status) trivial
  | get success =>
    refine iff_of_true ?_ trivial
    rcases sleTaskGet_spec hstep with rfl | ⟨_, _, -, -, rfl⟩
    · exact h
    · exact h.congr rfl rfl rfl
  | send allocated notifyRet =>
    refine iff_of_true ?_ trivial
    obtain ⟨_, -, rfl⟩ := sleTaskSend_spec hstep
    exact h.congr rfl rfl rfl

/-- **Ready means ready throughout a run exactly when every MTU exchange is reported last.** -/
theorem ready_iff (acts : List Action) :
    (∀ k s, run step Server.start (acts.take k) = some s → ReadyOk s) ↔
      Meets step MtuLast Server.start acts := by
  refine always_iff_meets (fun _ _ _ => step_ready) (fun s a hstuck => ?_) (.of_not_ready rfl) acts
  cases a with
  | mtuChanged connId mtuSize status => cases hstuck
  | _ => trivial

theorem ready_after_failed_mtu :
    ¬ ∀ acts s, run step Server.start acts = some s → ReadyOk s := by
  intro h
  have hready := h [.connectState 1 .connected, .mtuChanged 1 1400 1] _ rfl rfl
  exact absurd hready (by decide)

end NearLink.Ict
