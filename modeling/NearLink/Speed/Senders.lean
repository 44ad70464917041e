import NearLink.Speed.ServerProofs

/-!
# How many sender threads there are

A sender thread never ends, and a disconnection clears the guard. What a history of callbacks
starts is all that counts.
-/

namespace NearLink.Speed

/-! ## What a history starts -/

/-- The events at which the guarded callbacks start the sender: whether the thread was created. -/
@[simp] def Action.trigger : Action → Option Bool
  | .connectState _ .connected .paired created => some created
  | .pairComplete _ 0 created => some created
  | _ => none

/-- Whether a trigger after the action finds the guard down. -/
@[simp] def guardAfter (down : Bool) (a : Action) : Bool :=
  a.disconnects || (down && a.trigger.isNone)

@[simp] def starts (down : Bool) : Action → Nat
  | .readRequest created => created.toNat
  | a => if down then (a.trigger.getD false).toNat else 0

/-- Every read request starts a thread, and so does the first trigger after the boot and after
each disconnection. -/
def senderStarts : Bool → List Action → Nat
  | _, [] => 0
  | down, a :: as => starts down a + senderStarts (guardAfter down a) as

/-! ## What a step does to the threads -/

theorem started_length (ts : List Sender) (created : Bool) :
    (if created then ts ++ [Sender.start] else ts).length = ts.length + created.toNat := by
  cases created <;> simp

theorem sleConnectStateChangedCbk_senders (connId : Nat) (connState : AcbState)
    (pairState : PairState) (created : Bool) (s : Server) :
    let a := Action.connectState connId connState pairState created
    let t := trackLink connState (sleConnectStateChangedCbk connId connState pairState created s)
    t.senders.length = s.senders.length + starts (!s.sendThreadStarted) a ∧
      (!t.sendThreadStarted) = guardAfter (!s.sendThreadStarted) a := by
  cases connState with
  | connected =>
    cases pairState with
    | paired =>
      cases hg : s.sendThreadStarted <;>
        simp [trackLink, sleConnectStateChangedCbk, startSendThread, started_length, hg]
    | other => simp [trackLink, sleConnectStateChangedCbk]
  | disconnected => simp [trackLink, sleConnectStateChangedCbk]
  | other => simp [trackLink, sleConnectStateChangedCbk]

theorem slePairCompleteCbk_senders (connId status : Nat) (created : Bool) (s : Server) :
    let a := Action.pairComplete connId status created
    let t := slePairCompleteCbk status created s
    t.senders.length = s.senders.length + starts (!s.sendThreadStarted) a ∧
      (!t.sendThreadStarted) = guardAfter (!s.sendThreadStarted) a := by
  cases status with
  | zero =>
    cases hg : s.sendThreadStarted <;>
      simp [slePairCompleteCbk, startSendThread, started_length, hg]
  | succ n => simp [slePairCompleteCbk]

theorem step_senders {s t : Server} {a : Action} (hstep : step s a = some t) :
    t.senders.length = s.senders.length + starts (!s.sendThreadStarted) a ∧
      (!t.sendThreadStarted) = guardAfter (!s.sendThreadStarted) a := by
  cases a with
  | uart fuel c =>
    obtain ⟨items, -, -, -, -, -, hsenders, -, -, -, hguard⟩ := uartStep_spec hstep
    rw [hsenders, hguard]
    simp
  | connectState connId connState pairState created =>
    obtain rfl := Option.some.inj hstep
    exact sleConnectStateChangedCbk_senders connId connState pairState created s
  | pairComplete connId status created =>
    obtain rfl := Option.some.inj hstep
    exact slePairCompleteCbk_senders connId status created s
  | readRequest created =>
    obtain rfl := Option.some.inj hstep
    exact ⟨started_length _ _, by simp [ssapsReadRequestCbk]⟩
  | read i success =>
    rcases senderRead_spec hstep with rfl | ⟨-, _, _, _, _, _, _, -, hl, -, -, rfl⟩
    · simp
    · simp [hl]
  | flowCtrl i flag =>
    obtain ⟨_, rfl, hlen, -⟩ := senderFlowCtrl_spec hstep
    simp [hlen]
  | notify i notifyRet =>
    obtain ⟨_, _, _, _, _, -, -, -, hl, rfl⟩ := senderNotify_spec hstep
    simp [hl]

theorem run_senders {acts : List Action} {s t : Server} (hrun : run step s acts = some t) :
    t.senders.length = s.senders.length + senderStarts (!s.sendThreadStarted) acts := by
  induction acts generalizing s with
  | nil => obtain rfl := Option.some.inj hrun; rfl
  | cons a as ih =>
    cases h : step s a with
    | none => simp [run, h] at hrun
    | some u =>
      obtain ⟨hlen, hguard⟩ := step_senders h
      rw [run_cons h] at hrun
      rw [ih hrun, hlen, hguard, senderStarts, Nat.add_assoc]

/-! ## One sender -/

/-- **There is one sender at most exactly when the history starts one at most.** -/
theorem one_sender_iff {uartQueueId : Nat} {acts : List Action} {s : Server}
    (hrun : run step (Server.start uartQueueId) acts = some s) :
    s.senders.length ≤ 1 ↔ senderStarts true acts ≤ 1 := by
  have h : s.senders.length = 0 + senderStarts true acts := run_senders hrun
  rw [h, Nat.zero_add]

/-- Two pairings of one link, and a read request that finds no memory for a thread. -/
def pairedTwice : List Action :=
  [.connectState 1 .connected .other true, .pairComplete 1 0 true, .pairComplete 1 0 true,
    .readRequest false]

theorem one_sender_paired_twice :
    ∃ s, run step (Server.start 1) pairedTwice = some s ∧ s.senders.length ≤ 1 :=
  ⟨_, rfl, (one_sender_iff (show run step (Server.start 1) pairedTwice = some _ from rfl)).mpr
    (by decide)⟩

/-- The peer comes back: the thread of the first link is still there. -/
theorem two_senders_reconnect :
    ¬ ∀ uartQueueId acts s, run step (Server.start uartQueueId) acts = some s →
      s.senders.length ≤ 1 := by
  intro h
  have hlen := h 1 [.connectState 1 .connected .paired true,
    .connectState 1 .disconnected .paired true, .connectState 1 .connected .paired true] _ rfl
  exact absurd hlen (by decide)

/-! ## When no thread can be created -/

/-- While the guard is up, there is a thread to send. -/
def Served (s : Server) : Prop := s.sendThreadStarted = true → s.senders ≠ []

/-- A guarded callback wants to start the sender, and `osal_kthread_create` returns NULL. -/
def FailedStart (s : Server) (a : Action) : Prop :=
  s.sendThreadStarted = false ∧ a.trigger = some false

instance (s : Server) (a : Action) : Decidable (FailedStart s a) :=
  inferInstanceAs (Decidable (s.sendThreadStarted = false ∧ a.trigger = some false))

theorem trigger_cases {a : Action} {created : Bool} (h : a.trigger = some created) :
    (∃ connId, a = .connectState connId .connected .paired created) ∨
      ∃ connId, a = .pairComplete connId 0 created := by
  unfold Action.trigger at h
  split at h
  · exact Or.inl ⟨_, by rw [Option.some.inj h]⟩
  · exact Or.inr ⟨_, by rw [Option.some.inj h]⟩
  · cases h

theorem step_of_trigger {a : Action} {created : Bool} (h : a.trigger = some created) (s : Server) :
    ∃ t, step s a = some t := by
  rcases trigger_cases h with ⟨connId, rfl⟩ | ⟨connId, rfl⟩
  · exact ⟨_, rfl⟩
  · exact ⟨_, rfl⟩

theorem step_of_lowered {s t : Server} {a : Action} {created : Bool}
    (hguard : s.sendThreadStarted = false) (h : a.trigger = some created)
    (hstep : step s a = some t) :
    t.sendThreadStarted = true ∧ t.senders.length = s.senders.length + created.toNat := by
  obtain ⟨hlen, hafter⟩ := step_senders hstep
  rw [hguard] at hlen hafter
  rcases trigger_cases h with ⟨connId, rfl⟩ | ⟨connId, rfl⟩
  · exact ⟨by simpa using hafter, hlen⟩
  · exact ⟨by simpa using hafter, hlen⟩

theorem step_served {s t : Server} {a : Action} (hs : Served s) (hstep : step s a = some t) :
    Served t ↔ (FailedStart s a → s.senders ≠ []) := by
  obtain ⟨hlen, hafter⟩ := step_senders hstep
  have hgrows : s.senders ≠ [] → t.senders ≠ [] := by
    simp only [ne_eq, ← List.length_eq_zero_iff, hlen]
    omega
  by_cases hguard : s.sendThreadStarted = true
  · -- The guard was up, so there was a thread.
    refine iff_of_true (fun _ => hgrows (hs hguard)) ?_
    rintro ⟨hdown, -⟩
    rw [hguard] at hdown
    cases hdown
  rw [Bool.not_eq_true] at hguard
  cases htrigger : a.trigger with
  | none =>
    refine iff_of_true (fun hup => ?_) fun ⟨_, hfailed⟩ => by rw [htrigger] at hfailed; cases hfailed
    rw [hup, hguard, guardAfter, htrigger] at hafter
    simp only [Option.isNone_none, Bool.and_true, Bool.not_false, Bool.or_true] at hafter
    cases hafter
  | some created =>
    obtain ⟨hup, hadded⟩ := step_of_lowered hguard htrigger hstep
    rw [Served, FailedStart, htrigger, ne_eq, ne_eq, ← List.length_eq_zero_iff,
      ← List.length_eq_zero_iff, hadded]
    cases created with
    | true => simp
    | false => simp [hup, hguard]

/-- While there are threads of earlier links, a failure leaves the guard up over one of them. -/
theorem served_iff (uartQueueId : Nat) (acts : List Action) :
    (∀ k s, run step (Server.start uartQueueId) (acts.take k) = some s → Served s) ↔
      Meets step (fun s a => FailedStart s a → s.senders ≠ []) (Server.start uartQueueId) acts := by
  refine always_iff_meets (fun s a t => step_served) (fun s a hstuck hfailed => ?_) ?_ acts
  · obtain ⟨t, ht⟩ := step_of_trigger hfailed.2 s
    rw [hstuck] at ht
    cases ht
  · intro hguard
    cases hguard

/-- The guard is down again after every failed creation. -/
def Retriable (s : Server) (acts : List Action) : Prop :=
  ∀ before a after t u, acts = before ++ a :: after → run step s before = some t →
    step t a = some u → FailedStart t a → u.sendThreadStarted = false

theorem retriable_iff (s : Server) (acts : List Action) :
    Retriable s acts ↔ Meets step (fun s a => ¬ FailedStart s a) s acts := by
  rw [meets_iff_splits]
  constructor
  · intro h before a after t hsplit hrun hfailed
    obtain ⟨u, hu⟩ := step_of_trigger hfailed.2 t
    have hdown := h before a after t u hsplit hrun hu hfailed
    rw [(step_of_lowered hfailed.1 hfailed.2 hu).1] at hdown
    cases hdown
  · intro h before a after t u hsplit hrun _ hfailed
    exact absurd hfailed (h before a after t hsplit hrun)

/-- **The guard says that there is a sender, and comes down after a failure, exactly in the runs in
which no guarded creation fails.** -/
theorem recovery_iff (uartQueueId : Nat) (acts : List Action) :
    ((∀ k s, run step (Server.start uartQueueId) (acts.take k) = some s → Served s) ∧
        Retriable (Server.start uartQueueId) acts) ↔
      Meets step (fun s a => ¬ FailedStart s a) (Server.start uartQueueId) acts := by
  rw [served_iff, retriable_iff]
  refine and_iff_right_of_imp fun h => h.mono ?_
  intro s a hnot hfailed
  exact absurd hfailed hnot

/-- No thread for the first pairing, and none for the second: the guard is up all the same. -/
theorem guard_without_sender :
    ¬ ∀ uartQueueId acts s, run step (Server.start uartQueueId) acts = some s → Served s := by
  intro h
  have hserved := h 1 [.connectState 1 .connected .other true, .pairComplete 1 0 false,
    .pairComplete 1 0 true] _ rfl
  exact hserved rfl rfl

end NearLink.Speed
