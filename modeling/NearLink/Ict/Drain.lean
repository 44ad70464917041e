import NearLink.Ict.Network

/-!
# Nothing under way is stuck in the ict_sle relay

From every state that is reached, the task and the link can bring what is under way to the client,
in order.
-/

namespace NearLink.Ict

/-- While the task does not run, there is no queue. -/
def Idle (s : Server) : Prop := s.task = .starting ∨ s.task = .ended → s.txQueue = none

theorem serverUartRxCallback_noQueue {s : Server} (h : s.txQueue = none) (data : List Byte)
    (accept : Nat → Bool) : (serverUartRxCallback data accept s).txQueue = none := by
  refine serverUartRxCallback_preserves (fun s => s.txQueue = none) (fun accept s b h => ?_) h data
    accept
  simp only [frameParse]
  split_ifs
  · rcases onFrameComplete_cases accept { s with parser := (frameParseByte s.parser b).1 } with
      ⟨drops, heq⟩ | ⟨queue, msg, hq, -⟩
    · rw [heq]
      exact h
    · exact absurd (h.symm.trans hq) (Option.some_ne_none _).symm
  · exact h

theorem step_idle {s t : Server} {a : Action} (h : Idle s) (hstep : step s a = some t) : Idle t := by
  cases a with
  | taskStart created =>
    obtain ⟨htask, rfl | rfl⟩ := sleTaskStart_spec hstep
    · intro hno
      simp at hno
    · exact fun _ => h (Or.inl htask)
  | uart data accept =>
    obtain rfl := Option.some.inj hstep
    intro hno
    rw [(serverUartRxCallback_puts data accept s).task] at hno
    exact serverUartRxCallback_noQueue (h hno) data accept
  | connectState connId connState =>
    obtain rfl := Option.some.inj hstep
    cases connState with
    | connected => exact h
    | disconnected => exact fun hno => Option.map_eq_none_iff.mpr (h hno)
    | other => exact h
  | mtuChanged connId mtuSize status =>
    obtain rfl := Option.some.inj hstep
    unfold trackMtu
    split <;> exact h
  | pairComplete connId status =>
    obtain rfl := Option.some.inj hstep
    unfold trackPair
    split <;> exact h
  | get success =>
    rcases sleTaskGet_spec hstep with rfl | ⟨item, rest, -, -, rfl⟩
    · exact h
    · intro hno
      simp at hno
  | send allocated notifyRet =>
    obtain ⟨item, -, rfl⟩ := sleTaskSend_spec hstep
    intro hno
    simp at hno

namespace Network

/-- Each message counts for the steps that it has yet to take. -/
def load (n : Network) : Nat :=
  n.air.length + 2 * n.server.task.held.length + 3 * (n.server.txQueue.getD []).length

theorem underWay_of_load {n : Network} (h : n.load = 0) : n.underWay = [] := by
  unfold load at h
  have hair : n.air = [] := List.length_eq_zero_iff.mp (by omega)
  have hheld : n.server.task.held = [] := List.length_eq_zero_iff.mp (by omega)
  have hqueue : n.server.txQueue.getD [] = [] := List.length_eq_zero_iff.mp (by omega)
  rw [underWay, hair, hheld, hqueue]
  rfl

/-- A step of the task, or a delivery. No bytes come from the UART, and the connection stays. -/
def inner : Action → Bool
  | .server (.get _) | .server (.send _ _) | .deliver _ _ => true
  | .server _ | .client _ | .lose _ => false

/-- A step that brings the oldest message further. -/
structure Further (n : Network) (a : Action) (n' : Network) : Prop where
  inner : inner a
  step : step n a = some n'
  order : n'.arrived ++ n'.underWay = n.arrived ++ n.underWay
  completed : n'.server.completed = n.server.completed
  load : n'.load < n.load

section Step

variable {n : Network}

theorem further_deliver {item : Item} {rest : List Item} (hair : n.air = item :: rest) :
    ∃ n', Further n (.deliver 0 .notification) n' := by
  have hitem : n.air[0]? = some item := by rw [hair]; rfl
  refine ⟨_, rfl, Sides.step_deliver hitem .notification, ?_, rfl, ?_⟩
  · rw [Link.arrived, Link.arrived_arrival]
    simp [underWay, hair, Link.arrived]
  · simp only [load, hair, List.eraseIdx_zero, List.tail_cons, List.length_cons]
    omega

theorem further_send {item : Item} (htask : n.server.task = .sending item) :
    ∃ n', Further n (.server (.send true 0)) n' := by
  have hs : Ict.step n.server (.send true 0) = some { n.server with
      task := .reading
      notified := n.server.notified ++ [⟨item, n.server.sleConnHdl, n.server.link⟩] } := by
    simp [Ict.step, sleTaskSend, htask, sleUartServerSendReportByHandle]
  refine ⟨_, rfl, Sides.step_serve hs, ?_, rfl, ?_⟩
  · simp [underWay, Link.arrived, sides, succeeds, handed, htask, Phase.held, errcodeSleSuccess]
  · simp only [load, sides, succeeds, handed, htask, Phase.held, errcodeSleSuccess, decide_true,
      if_true, List.length_append, List.length_singleton, List.length_nil]
    omega

theorem further_get {item : Item} {rest : List Item} (htask : n.server.task = .reading)
    (hq : n.server.txQueue = some (item :: rest)) : ∃ n', Further n (.server (.get true)) n' := by
  have hs : Ict.step n.server (.get true) = some { n.server with
      txQueue := some rest
      sleSendCount := u32 (n.server.sleSendCount + 1)
      task := .sending item } := by
    simp [Ict.step, sleTaskGet, htask, hq]
  refine ⟨_, rfl, Sides.step_serve hs, ?_, rfl, ?_⟩
  · simp [underWay, Link.arrived, sides, succeeds, handed, htask, hq, Phase.held]
  · simp only [load, sides, succeeds, handed, htask, hq, Phase.held, if_true, Option.getD_some,
      List.length_append, List.length_cons, List.length_nil]
    omega

theorem exists_further (hidle : Idle n.server) (hload : n.load ≠ 0) : ∃ a n', Further n a n' := by
  cases hair : n.air with
  | cons item rest => exact ⟨_, further_deliver hair⟩
  | nil =>
    cases htask : n.server.task with
    | sending item => exact ⟨_, further_send htask⟩
    | reading =>
      cases hq : n.server.txQueue with
      | none => exact absurd (by simp [load, hair, htask, hq, Phase.held]) hload
      | some queue =>
        cases queue with
        | nil => exact absurd (by simp [load, hair, htask, hq, Phase.held]) hload
        | cons item rest => exact ⟨_, further_get htask hq⟩
    | starting =>
      exact absurd (by simp [load, hair, htask, hidle (Or.inl htask), Phase.held]) hload
    | ended => exact absurd (by simp [load, hair, htask, hidle (Or.inr htask), Phase.held]) hload

end Step

/-- **Nothing under way is stuck.** Whatever has happened before, the task and the link alone can
bring it about that all that is under way is written, in order. -/
theorem payloads_drain {acts : List Action} {n : Network} (hrun : run step start acts = some n) :
    ∃ more n', (∀ a ∈ more, inner a) ∧ run step n more = some n' ∧ n'.underWay = [] ∧
      n'.server.completed = n.server.completed ∧
      n'.client.client.written = n.client.client.written ++ n.underWay.map Item.payload := by
  have hfurther : ∀ m : Network, ((∃ acts, run step start acts = some m) ∧
      m.arrived ++ m.underWay = n.arrived ++ n.underWay ∧
      m.server.completed = n.server.completed) → m.load ≠ 0 →
      ∃ a m', inner a ∧ step m a = some m' ∧ ((∃ acts, run step start acts = some m') ∧
        m'.arrived ++ m'.underWay = n.arrived ++ n.underWay ∧
        m'.server.completed = n.server.completed) ∧ m'.load < m.load := by
    rintro m ⟨⟨acts, hm⟩, horder, hcompleted⟩ hload
    have hidle : Idle m.server :=
      run_preserves (fun _ _ _ => step_idle) (fun _ => rfl) (Sides.run_served hm)
    obtain ⟨a, m', hm'⟩ := exists_further hidle hload
    exact ⟨a, m', hm'.inner, hm'.step, ⟨⟨acts ++ [a], run_snoc.mpr ⟨m, hm, hm'.step⟩⟩,
      hm'.order.trans horder, hm'.completed.trans hcompleted⟩, hm'.load⟩
  obtain ⟨more, n', hinner, hmore, ⟨⟨all, hall⟩, horder, hcompleted⟩, hload⟩ :=
    exists_run_to_zero hfurther ⟨⟨acts, hrun⟩, rfl, rfl⟩
  have hnone := underWay_of_load hload
  rw [hnone, List.append_nil] at horder
  refine ⟨more, n', hinner, hmore, hnone, hcompleted, ?_⟩
  rw [run_written hall, run_written hrun, horder, List.map_append]

theorem payloads_drain_half_way :
    ∃ n, run step start halfWay = some n ∧ n.client.client.written = [[7], [8]] ∧
      ∃ more n', (∀ a ∈ more, inner a) ∧ run step n more = some n' ∧
        n'.client.client.written = [[7], [8], [9], [10]] := by
  have hrun : (run step start halfWay).map (fun n =>
      (n.client.client.written, n.underWay.map Item.payload)) =
      some ([[7], [8]], [[9], [10]]) := by decide +kernel
  obtain ⟨n, hn, hfacts⟩ := Option.map_eq_some_iff.mp hrun
  simp only [Prod.mk.injEq] at hfacts
  obtain ⟨hwritten, hway⟩ := hfacts
  obtain ⟨more, n', hinner, hmore, -, -, hall⟩ := payloads_drain hn
  exact ⟨n, hn, hwritten, more, n', hinner, hmore, by rw [hall, hwritten, hway]; rfl⟩

end Network

end NearLink.Ict
