import NearLink.Ict.EndToEnd

/-!
# Sessions of the ict_sle server

A DISCONNECTED event empties the queue, but not the hands of the task.
-/

namespace NearLink.Ict

/-! ## What a step changes -/

/-- The frames that wait in the queue or in the task. -/
def Server.pending (s : Server) : List Item := s.txQueue.getD [] ++ s.task.held

/-- Frames come from the UART, and what is sent had been waiting. -/
structure Moves (s t : Server) (a : Action) : Prop where
  completed : s.completed.length ≤ t.completed.length
  pending : ∀ item ∈ t.pending, item ∈ s.pending ∨
    (∃ data accept, a = .uart data accept) ∧ s.sleReady ≠ 0 ∧ item.link = s.link ∧
      s.completed.length ≤ item.serial
  notified : ∃ later, t.notified = s.notified ++ later ∧
    ∀ n ∈ later, n.item ∈ s.pending ∧ n.link = s.link

theorem Moves.quiet {s t : Server} {a : Action} (hcompleted : t.completed = s.completed)
    (hpending : ∀ item ∈ t.pending, item ∈ s.pending) (hnotified : t.notified = s.notified) :
    Moves s t a :=
  ⟨by rw [hcompleted], fun item h => Or.inl (hpending item h), ⟨[], by simp [hnotified], by simp⟩⟩

theorem taskStart_moves {s t : Server} {created : Bool} (hstep : sleTaskStart created s = some t) :
    Moves s t (.taskStart created) ∧ t.link = s.link := by
  obtain ⟨htask, rfl | rfl⟩ := sleTaskStart_spec hstep
  · exact ⟨.quiet rfl (by simp [Server.pending, Phase.held]) rfl, rfl⟩
  · exact ⟨.quiet rfl (by simp [Server.pending, Phase.held, htask]) rfl, rfl⟩

theorem get_moves {s t : Server} {success : Bool} (hstep : sleTaskGet success s = some t) :
    Moves s t (.get success) ∧ t.link = s.link := by
  rcases sleTaskGet_spec hstep with rfl | ⟨item, rest, -, hq, rfl⟩
  · exact ⟨.quiet rfl (fun _ h => h) rfl, rfl⟩
  refine ⟨.quiet rfl ?_ rfl, rfl⟩
  intro other hother
  simp only [Server.pending, hq, Option.getD_some, Phase.held, List.mem_append, List.mem_cons,
    List.not_mem_nil, or_false] at hother ⊢
  exact Or.inl hother.symm

theorem send_moves {s t : Server} {allocated : Bool} {notifyRet : Nat}
    (hstep : sleTaskSend allocated notifyRet s = some t) :
    Moves s t (.send allocated notifyRet) ∧ t.link = s.link := by
  obtain ⟨item, htask, rfl⟩ := sleTaskSend_spec hstep
  refine ⟨⟨le_refl _, ?_, _, rfl, ?_⟩, rfl⟩
  · intro other hother
    apply Or.inl
    simp only [Server.pending, Phase.held, List.append_nil] at hother ⊢
    exact List.mem_append_left _ hother
  · intro n hn
    have hheld : item ∈ s.pending := by simp [Server.pending, htask, Phase.held]
    unfold sleUartServerSendReportByHandle at hn
    split at hn
    · obtain rfl := List.mem_singleton.mp hn
      exact ⟨hheld, rfl⟩
    · cases hn

theorem connectState_moves (connId : Nat) (connState : SleAcbStateType) (s : Server) :
    Moves s (trackConnect connId connState (sleConnectStateChangedCbk connId connState s))
      (.connectState connId connState) := by
  cases connState with
  | connected => exact .quiet rfl (fun _ h => h) rfl
  | disconnected =>
    refine .quiet rfl ?_ rfl
    intro item hitem
    have hheld : item ∈ s.task.held := by
      simp only [trackConnect, sleConnectStateChangedCbk, setLink, Server.pending] at hitem
      cases hq : s.txQueue <;> simpa [hq] using hitem
    exact List.mem_append_right _ hheld
  | other => exact .quiet rfl (fun _ h => h) rfl

theorem step_moves {s t : Server} {a : Action} (hstep : step s a = some t) : Moves s t a := by
  cases a with
  | taskStart created => exact (taskStart_moves hstep).1
  | uart data accept =>
    obtain rfl := Option.some.inj hstep
    have h := serverUartRxCallback_puts data accept s
    obtain ⟨items, hq, hitems⟩ := h.items
    refine ⟨h.completed, ?_, [], by simp [h.notified], by simp⟩
    intro item hitem
    rw [Server.pending, hq, h.task, List.append_assoc, List.mem_append, List.mem_append] at hitem
    rcases hitem with hold | hnew | hheld
    · exact Or.inl (List.mem_append_left _ hold)
    · exact Or.inr ⟨⟨data, accept, rfl⟩, hitems item hnew⟩
    · exact Or.inl (List.mem_append_right _ hheld)
  | connectState connId connState =>
    obtain rfl := Option.some.inj hstep
    exact connectState_moves connId connState s
  | mtuChanged connId mtuSize status =>
    obtain rfl := Option.some.inj hstep
    unfold trackMtu
    split <;> exact .quiet rfl (fun _ h => h) rfl
  | pairComplete connId status =>
    obtain rfl := Option.some.inj hstep
    unfold trackPair
    split <;> exact .quiet rfl (fun _ h => h) rfl
  | get success => exact (get_moves hstep).1
  | send allocated notifyRet => exact (send_moves hstep).1

/-- Only a change of the connection changes the link. -/
theorem step_link {s t : Server} {a : Action} (hstep : step s a = some t)
    (ha : ∀ connId connState, a = .connectState connId connState → connState = .other) :
    t.link = s.link := by
  cases a with
  | taskStart created => exact (taskStart_moves hstep).2
  | uart data accept =>
    obtain rfl := Option.some.inj hstep
    exact (serverUartRxCallback_puts data accept s).link
  | connectState connId connState =>
    obtain rfl := Option.some.inj hstep
    obtain rfl := ha connId connState rfl
    rfl
  | mtuChanged connId mtuSize status =>
    obtain rfl := Option.some.inj hstep
    unfold trackMtu
    split <;> rfl
  | pairComplete connId status =>
    obtain rfl := Option.some.inj hstep
    unfold trackPair
    split <;> rfl
  | get success => exact (get_moves hstep).2
  | send allocated notifyRet => exact (send_moves hstep).2

/-! ## Sessions -/

/-- A frame is sent while a link is connected that was connected when the frame was queued. -/
def Isolated (s : Server) : Prop := ∀ n ∈ s.notified, n.link ≠ none ∧ n.item.link = n.link

/-- No frame waits when a link is connected, the task holds none when one is disconnected, and the
UART delivers nothing between links while `g_sleReady` is set. -/
def CleanSession (s : Server) : Action → Prop
  | .connectState _ .connected => s.txQueue.getD [] = [] ∧ s.task.held = []
  | .connectState _ .disconnected => s.task.held = []
  | .uart _ _ => s.sleReady ≠ 0 → s.link ≠ none
  | _ => True

instance (s : Server) : ∀ a, Decidable (CleanSession s a)
  | .connectState _ .connected =>
    inferInstanceAs (Decidable (s.txQueue.getD [] = [] ∧ s.task.held = []))
  | .connectState _ .disconnected => inferInstanceAs (Decidable (s.task.held = []))
  | .uart _ _ => inferInstanceAs (Decidable (s.sleReady ≠ 0 → s.link ≠ none))
  | .connectState _ .other | .taskStart _ | .mtuChanged _ _ _ | .pairComplete _ _ | .get _
  | .send _ _ => .isTrue trivial

/-- What waits belongs to the connected link. -/
structure Session (s : Server) : Prop where
  isolated : Isolated s
  pending : ∀ item ∈ s.pending, s.link ≠ none ∧ item.link = s.link

theorem Moves.isolated {s t : Server} {a : Action} (h : Moves s t a) (hs : Session s) : Isolated t := by
  obtain ⟨later, hnot, hlater⟩ := h.notified
  intro n hn
  rw [hnot, List.mem_append] at hn
  rcases hn with hold | hnew
  · exact hs.isolated n hold
  · obtain ⟨hitem, hlink⟩ := hlater n hnew
    rw [hlink]
    exact hs.pending n.item hitem

theorem step_session {s t : Server} {a : Action} (h : Session s) (hok : CleanSession s a)
    (hstep : step s a = some t) : Session t := by
  have hmoves := step_moves hstep
  refine ⟨hmoves.isolated h, fun item hitem => ?_⟩
  by_cases ha : ∀ connId connState, a = .connectState connId connState → connState = .other
  · rw [step_link hstep ha]
    rcases hmoves.pending item hitem with hold | ⟨⟨data, accept, rfl⟩, hready, hlink, -⟩
    · exact h.pending item hold
    · exact ⟨hok hready, hlink⟩
  · -- Nothing waits when the connection changes.
    push Not at ha
    obtain ⟨connId, connState, rfl, hother⟩ := ha
    obtain rfl := Option.some.inj hstep
    cases connState with
    | connected =>
      obtain ⟨hq, hheld⟩ := hok
      simp [Server.pending, trackConnect, sleConnectStateChangedCbk, setLink, hq, hheld] at hitem
    | disconnected =>
      have hheld : s.task.held = [] := hok
      cases hq : s.txQueue <;>
        simp [Server.pending, trackConnect, sleConnectStateChangedCbk, setLink, hq, hheld] at hitem
    | other => exact absurd rfl hother

/-! ## After a DISCONNECTED event -/

/-- Since a moment at which `n` frames had been completed, only later frames wait or are sent. -/
structure Since (n : Nat) (before : List Notify) (s : Server) : Prop where
  completed : n ≤ s.completed.length
  pending : ∀ item ∈ s.pending, n ≤ item.serial
  notified : ∃ later, s.notified = before ++ later ∧ ∀ x ∈ later, n ≤ x.item.serial

theorem step_since {n : Nat} {before : List Notify} {s t : Server} {a : Action}
    (h : Since n before s) (hstep : step s a = some t) : Since n before t := by
  have hmoves := step_moves hstep
  obtain ⟨later, hnot, hlater⟩ := h.notified
  obtain ⟨more, hmore, hmore'⟩ := hmoves.notified
  refine ⟨h.completed.trans hmoves.completed, fun item hitem => ?_,
    later ++ more, by rw [hmore, hnot, List.append_assoc], fun x hx => ?_⟩
  · rcases hmoves.pending item hitem with hold | ⟨-, -, -, hserial⟩
    · exact h.pending item hold
    · exact h.completed.trans hserial
  · rcases List.mem_append.mp hx with hx | hx
    · exact hlater x hx
    · exact h.pending x.item (hmore' x hx).1

theorem enqueued_serial {acts : List Action} {s : Server}
    (hrun : run step Server.start acts = some s) :
    ∀ item ∈ s.enqueued, item.serial < s.completed.length := by
  obtain ⟨hframes, -⟩ := run_preserves (fun _ _ _ => step_relayed) relayed_start hrun
  intro item hitem
  have hmem : item.completed ∈ s.completed := hframes.queued.subset (List.mem_map_of_mem hitem)
  have hserial : item.serial ∈ List.range' 0 s.completed.length := by
    rw [← hframes.serials]
    exact List.mem_map_of_mem (f := Completed.serial) hmem
  simpa using hserial

/-- What the sessions of a run have to do with each other: nothing. -/
structure SessionIsolation (acts : List Action) (s : Server) : Prop where
  isolated : Isolated s
  drained : ∀ before connId after r, acts = before ++ .connectState connId .disconnected :: after →
    run step Server.start before = some r →
      ∃ later, s.notified = r.notified ++ later ∧ ∀ n ∈ later, n.item ∉ r.enqueued

/-- **Sessions are isolated** if the task holds no frame at a DISCONNECTED event and none is queued
between links. -/
theorem session_isolation {acts : List Action} {s : Server}
    (hok : Meets step CleanSession Server.start acts)
    (hrun : run step Server.start acts = some s) : SessionIsolation acts s := by
  have hstart : Session Server.start := ⟨by simp [Isolated, Server.start], by
    simp [Server.pending, Server.start, Phase.held]⟩
  refine ⟨(run_invariant (fun _ _ _ => step_session) hstart hok hrun).isolated, ?_⟩
  rintro before connId after r rfl hbefore
  have hheld : r.task.held = [] := hok.at_split hbefore
  rw [run_append, hbefore, Option.bind_some, run_cons rfl] at hrun
  have hsince : Since r.completed.length r.notified
      (trackConnect connId .disconnected (sleConnectStateChangedCbk connId .disconnected r)) := by
    refine ⟨le_refl _, fun item hitem => ?_, [], by simp [trackConnect, sleConnectStateChangedCbk,
      setLink], by simp⟩
    cases hq : r.txQueue <;>
      simp [Server.pending, trackConnect, sleConnectStateChangedCbk, setLink, hq, hheld] at hitem
  obtain ⟨later, hnot, hlater⟩ :=
    (run_preserves (fun _ _ _ => step_since) hsince hrun).notified
  refine ⟨later, hnot, fun n hn hmem => ?_⟩
  have hlt := enqueued_serial hbefore n.item hmem
  have hle := hlater n hn
  omega

/-- A frame is sent, and another one is queued when the link ends. -/
def twoSessions : List Action :=
  relayOne ++ [.uart oneByte fun _ => true, .connectState 1 .disconnected, .connectState 2 .connected,
    .mtuChanged 2 1400 0, .uart oneByte fun _ => true, .get true, .send true 0]

theorem session_isolation_two_sessions :
    ∃ s, run step Server.start twoSessions = some s ∧ s.notified.length = 2 ∧
      SessionIsolation twoSessions s := by
  have hrun : (run step Server.start twoSessions).map (fun s => s.notified.length) = some 2 := by
    decide +kernel
  obtain ⟨s, hs, hlen⟩ := Option.map_eq_some_iff.mp hrun
  exact ⟨s, hs, hlen, session_isolation (by decide +kernel) hs⟩

/-- The link ends while the task holds a frame. -/
def cutOff : List Action :=
  [.taskStart true, .connectState 1 .connected, .mtuChanged 1 1400 0, .uart oneByte fun _ => true,
    .get true, .connectState 1 .disconnected, .send true 0]

theorem session_leak_cut_off :
    ¬ ∀ acts s, run step Server.start acts = some s → SessionIsolation acts s := by
  intro h
  have hrun : (run step Server.start cutOff).map (fun s => s.notified.map Notify.link) =
      some [none] := by decide +kernel
  obtain ⟨s, hs, hlinks⟩ := Option.map_eq_some_iff.mp hrun
  obtain ⟨n, hn, hnone⟩ : ∃ n ∈ s.notified, n.link = none :=
    List.mem_map.mp (by rw [hlinks]; exact List.mem_singleton_self _)
  exact ((h cutOff s hs).isolated n hn).1 hnone

end NearLink.Ict
