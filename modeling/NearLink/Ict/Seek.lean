import NearLink.Ict.Connection

/-!
# Whom the ict_sle client connects to

The end of a scan starts a connection whether or not the scan has found the server.
-/

namespace NearLink.Ict.UartClient

/-- Each connection goes to an address that was found since the last scan started. -/
def ConnectsToFound (u : UartClient) : Prop := ∀ c ∈ u.connects, c.addr ∈ c.found

instance (u : UartClient) : Decidable u.ConnectsToFound :=
  inferInstanceAs (Decidable (∀ c ∈ u.connects, c.addr ∈ c.found))

/-- When a scan is reported as ended with success, `g_foundServer` is set. -/
def EndsFound (u : UartClient) : Action → Prop
  | .seekDisable status => status = 0 → u.foundServer = true
  | _ => True

/-- `g_foundServer` says whether an address was found, and it is the remembered one. -/
structure Scanning (u : UartClient) : Prop where
  found : u.foundServer = true → u.remoteAddr ∈ u.found
  not_found : u.foundServer = false → u.found = []

theorem scanning_start : Scanning start := ⟨by simp [start], fun _ => rfl⟩

theorem Scanning.congr {u v : UartClient} (h : Scanning u) (hflag : v.foundServer = u.foundServer)
    (haddr : v.remoteAddr = u.remoteAddr) (hfound : v.found = u.found) : Scanning v := by
  refine ⟨fun hv => ?_, fun hv => ?_⟩
  · rw [haddr, hfound]
    exact h.found (hflag.symm.trans hv)
  · rw [hfound]
    exact h.not_found (hflag.symm.trans hv)

theorem scanning_startScan (u : UartClient) : Scanning (sleUartStartScan u) :=
  ⟨by simp [sleUartStartScan], fun _ => rfl⟩

theorem scanning_seekResult {u : UartClient} (h : Scanning u) (seekResult : Option SeekResult) :
    Scanning (trackFound seekResult (sleClientSeekResultCbk seekResult u)) := by
  cases seekResult with
  | none => exact h
  | some r =>
    cases hflag : u.foundServer with
    | true =>
      simp only [trackFound, sleClientSeekResultCbk, hflag, if_true]
      -- The callback ignores the result, but its address is a found one.
      split_ifs
      · exact ⟨fun _ => List.mem_append_left _ (h.found hflag), by simp⟩
      · exact h
    | false =>
      simp only [trackFound, sleClientSeekResultCbk, hflag, Bool.false_eq_true, if_false]
      split_ifs
      · exact ⟨fun _ => List.mem_append_right _ (by simp), by simp⟩
      · exact h

theorem step_scanning {u v : UartClient} {a : Action} (h : Scanning u) (hstep : step u a = some v) :
    Scanning v := by
  cases a with
  | enable status =>
    obtain rfl := Option.some.inj hstep
    unfold sleClientEnableCbk
    split
    · exact scanning_startScan u
    · exact h
  | seekResult r =>
    obtain rfl := Option.some.inj hstep
    exact scanning_seekResult h r
  | seekDisable status =>
    obtain rfl := Option.some.inj hstep
    unfold sleClientSeekDisableCbk
    split
    · exact h.congr rfl rfl rfl
    · exact h
  | connectState connId connState =>
    obtain rfl := Option.some.inj hstep
    cases connState with
    | connected => exact h.congr rfl rfl rfl
    | disconnected => exact scanning_startScan _
    | other => exact h.congr rfl rfl rfl
  | exchangeInfo mtuSize => obtain rfl := Option.some.inj hstep; exact h.congr rfl rfl rfl
  | receive arrival data => obtain rfl := Option.some.inj hstep; exact h.congr rfl rfl rfl

theorem step_connects {u v : UartClient} {a : Action} (h : Scanning u) (hu : u.ConnectsToFound)
    (hstep : step u a = some v) : v.ConnectsToFound ↔ EndsFound u a := by
  cases a with
  | seekDisable status =>
    obtain rfl := Option.some.inj hstep
    unfold sleClientSeekDisableCbk
    split_ifs with hstatus
    · have hlast : u.remoteAddr ∈ u.found ↔ u.foundServer = true := by
        cases hflag : u.foundServer with
        | true => exact iff_of_true (h.found hflag) rfl
        | false => simp [h.not_found hflag]
      simp only [ConnectsToFound, EndsFound, hstatus, forall_const, List.mem_append,
        List.mem_singleton]
      constructor
      · intro hall
        exact hlast.mp (hall _ (Or.inr rfl))
      · rintro hfound c (hc | rfl)
        · exact hu c hc
        · exact hlast.mpr hfound
    · exact iff_of_true hu fun h0 => absurd h0 hstatus
  | enable status =>
    obtain rfl := Option.some.inj hstep
    refine iff_of_true ?_ trivial
    unfold sleClientEnableCbk
    split <;> exact hu
  | seekResult r =>
    obtain rfl := Option.some.inj hstep
    refine iff_of_true ?_ trivial
    cases r with
    | none => exact hu
    | some r =>
      simp only [trackFound, sleClientSeekResultCbk]
      split_ifs <;> exact hu
  | connectState connId connState =>
    obtain rfl := Option.some.inj hstep
    cases connState <;> exact iff_of_true hu trivial
  | exchangeInfo mtuSize => obtain rfl := Option.some.inj hstep; exact iff_of_true hu trivial
  | receive arrival data => obtain rfl := Option.some.inj hstep; exact iff_of_true hu trivial

/-- **The client connects to what it has found exactly when every scan ends with the server
found.** -/
theorem connects_iff (acts : List Action) :
    (∀ k u, run step start (acts.take k) = some u → u.ConnectsToFound) ↔
      Meets step EndsFound start acts := by
  have hboth : (∀ k u, run step start (acts.take k) = some u → Scanning u ∧ u.ConnectsToFound) ↔
      Meets step EndsFound start acts := by
    refine always_iff_meets (fun u a v hu hstep => ?_) (fun u a hstuck => by cases a <;> cases hstuck)
      ⟨scanning_start, by simp [ConnectsToFound, start]⟩ acts
    rw [← step_connects hu.1 hu.2 hstep]
    exact and_iff_right (step_scanning hu.1 hstep)
  rw [← hboth]
  refine forall_congr' fun k => forall_congr' fun u => forall_congr' fun hrun => ?_
  exact (and_iff_right (run_preserves (fun _ _ _ => step_scanning) scanning_start hrun)).symm

/-- A scan ends before anything is found, and the client connects to the zero address. -/
theorem connects_to_nobody :
    ¬ ∀ acts u, run step start acts = some u → u.ConnectsToFound := by
  intro h
  exact absurd (h [.enable 0, .seekDisable 0] _ rfl) (by decide)

end NearLink.Ict.UartClient
