import Mathlib.Algebra.BigOperators.Group.Multiset.Basic
import Mathlib.Tactic.Abel
import NearLink.Flow
import NearLink.Ict.Queue

/-!
# Where the frames of the ict_sle server are

A frame that the parser has completed is sent, in the hands of the task, queued, or lost: it was
completed too early, is too long, found no room, was in the queue when a link ended, or the task
found no memory for it.
-/

namespace NearLink.Ict

/-- The frames that were sent, that the task holds, or that are queued, in this order. -/
def Server.places (s : Server) : List Item :=
  s.notified.map Notify.item ++ s.task.held ++ s.txQueue.getD []

/-! ## What is lost -/

/-- `OnFrameComplete` puts the frame in the queue. -/
def Queues (accept : Bool) (s : Server) (frame : List Byte) : Prop :=
  s.sleReady ≠ 0 ∧ frame.length ≤ txMsgMaxSize ∧ s.txQueue.isSome = true ∧ accept = true

instance (accept : Bool) (s : Server) (frame : List Byte) : Decidable (Queues accept s frame) :=
  inferInstanceAs (Decidable (_ ∧ _ ∧ _ ∧ _))

/-- The frame that a byte completes, if it is not queued. -/
def lostByte (s : Server) (b : Byte × Bool) : Multiset Completed :=
  (frameParseEmit s.parser b.1).2.elim 0 fun frame =>
    if Queues b.2 s frame then 0 else {⟨s.completed.length, frame⟩}

def byteStep (s : Server) (b : Byte × Bool) : Option Server := some (frameParse b.2 s b.1)

/-- The bytes of a callback, each with the answer of the queue. -/
def answered (data : List Byte) (accept : Nat → Bool) : List (Byte × Bool) :=
  data.zipIdx.map fun b => (b.1, accept b.2)

def lost (s : Server) : Action → Multiset Completed
  | .uart data accept => flow byteStep lostByte s (answered data accept)
  | .connectState _ .disconnected => ↑((s.txQueue.getD []).map Item.completed)
  | .send allocated _ => if allocated then 0 else ↑(s.task.held.map Item.completed)
  | .connectState _ .connected | .connectState _ .other | .taskStart _ | .mtuChanged _ _ _
  | .pairComplete _ _ | .get _ => 0

theorem run_byteStep (s : Server) (bs : List (Byte × Bool)) :
    run byteStep s bs = some (bs.foldl (fun s b => frameParse b.2 s b.1) s) := by
  induction bs generalizing s with
  | nil => rfl
  | cons b bs ih => exact ih (frameParse b.2 s b.1)

theorem run_answered (s : Server) (data : List Byte) (accept : Nat → Bool) :
    run byteStep s (answered data accept) = some (serverUartRxCallback data accept s) := by
  rw [run_byteStep, answered, List.foldl_map]
  rfl

/-! ## The balance -/

structure Conserves (m : Multiset Completed) (s : Server) : Prop where
  relayed : Relayed s
  /-- before the task has started there is no queue -/
  starting : s.task = .starting → s.txQueue = none
  all : ↑s.completed = (↑(s.places.map Item.completed) : Multiset Completed) + m

theorem conserves_start : Conserves 0 Server.start := ⟨relayed_start, fun _ => rfl, rfl⟩

theorem Conserves.same {m : Multiset Completed} {s t : Server} (h : Conserves m s) (ht : Relayed t)
    (hstarting : t.task = .starting → t.txQueue = none) (hcompleted : t.completed = s.completed)
    (hplaces : t.places = s.places) : Conserves (m + 0) t :=
  ⟨ht, hstarting, by rw [hcompleted, hplaces, add_zero]; exact h.all⟩

/-! ### The UART -/

theorem onFrameComplete_queues (accept : Bool) {s : Server}
    (hlen : s.parser.payloadLen + audioFrameOverhead = s.parser.frame.length)
    (h16 : s.parser.frame.length < 65536) :
    if Queues accept s s.parser.frame then
      ∃ queue item, s.txQueue = some queue ∧
        item.completed = ⟨s.completed.length, s.parser.frame⟩ ∧ onFrameComplete accept s =
          { s with txQueue := some (queue ++ [item]), enqueued := s.enqueued ++ [item] }
    else ∃ drops, onFrameComplete accept s = { s with txQueueDropCount := drops } := by
  split_ifs with hqueues
  · obtain ⟨hready, hfits, hsome, rfl⟩ := hqueues
    obtain ⟨queue, hq⟩ := Option.isSome_iff_exists.mp hsome
    have hcopy : copyMsg s.parser (s.parser.payloadLen + audioFrameOverhead) =
        some ⟨s.parser.frame, hfits⟩ := dif_pos hfits
    refine ⟨queue, ⟨s.completed.length, s.link, ⟨s.parser.frame, hfits⟩⟩, hq, rfl, ?_⟩
    simp only [onFrameComplete, if_neg hready, u16_of_lt (hlen.trans_lt h16),
      if_neg (show ¬ s.parser.payloadLen + audioFrameOverhead > txMsgMaxSize by omega), hcopy,
      osMessageQueuePut, hq, if_true]
  · rcases onFrameComplete_cases accept s with hdrop | ⟨queue, msg, hq, hready, hcopy, -⟩
    · exact hdrop
    · -- The frame is copied and the queue is there, so the queue has refused it.
      have hfits : s.parser.frame.length ≤ txMsgMaxSize := by
        rw [u16_of_lt (hlen.trans_lt h16)] at hcopy
        rw [← copyMsg_data hcopy]
        exact msg.fits
      have hfull : accept = false := by
        by_contra htrue
        exact hqueues ⟨hready, hfits, by rw [hq]; rfl, by simpa using htrue⟩
      subst hfull
      have hput : ∀ item, osMessageQueuePut false item s = (s, false) := by
        intro item
        rw [osMessageQueuePut, hq]
        rfl
      simp only [onFrameComplete, if_neg hready, hcopy, hput, Bool.false_eq_true, if_false]
      split
      · exact ⟨s.txQueueDropCount, rfl⟩
      · exact ⟨_, rfl⟩

theorem frameParse_conserves {m : Multiset Completed} {s : Server} (h : Conserves m s)
    (b : Byte × Bool) : Conserves (m + lostByte s b) (frameParse b.2 s b.1) := by
  obtain ⟨part, htracks⟩ := h.relayed.1.parser
  have hrelayed := frameParse_relayed h.relayed b.2 b.1
  have hplaces : ∀ {t : Server}, t.notified = s.notified → t.task = s.task →
      t.txQueue = s.txQueue → t.places = s.places := by
    intro t hnot htask hq
    rw [Server.places, hnot, htask, hq]
    rfl
  by_cases hdone : (frameParseByte s.parser b.1).2 = true
  swap
  · have hsame : frameParse b.2 s b.1 = { s with parser := (frameParseByte s.parser b.1).1 } :=
      if_neg hdone
    have hlost : lostByte s b = 0 := by rw [lostByte, frameParseEmit, if_neg hdone]; rfl
    rw [hlost]
    exact h.same hrelayed (by rw [hsame]; exact h.starting) (by rw [hsame])
      (by rw [hsame]; exact hplaces rfl rfl rfl)
  obtain ⟨f, hf, hpay⟩ := frameParseByte_done htracks hdone
  have hle := f.le_hi
  have hlen : (frameParseByte s.parser b.1).1.payloadLen + audioFrameOverhead =
      (frameParseByte s.parser b.1).1.frame.length := by
    rw [← hf, hpay, f.encode_length, Nat.add_comm, audioFrameOverhead_val]
  have hcases := onFrameComplete_queues b.2
    (s := { s with parser := (frameParseByte s.parser b.1).1 }) hlen
    (by simp only [← hf, f.encode_length]; omega)
  have hparse : frameParse b.2 s b.1 = noteCompleted
      (onFrameComplete b.2 { s with parser := (frameParseByte s.parser b.1).1 }) := if_pos hdone
  have hlost : lostByte s b = if Queues b.2 s (frameParseByte s.parser b.1).1.frame then 0
      else {⟨s.completed.length, (frameParseByte s.parser b.1).1.frame⟩} := by
    rw [lostByte, frameParseEmit, if_pos hdone]
    rfl
  have hsnoc : ∀ c : Completed, (↑(s.completed ++ [c]) : Multiset Completed) = ↑s.completed + {c} :=
    fun c => (Multiset.coe_add _ _).symm
  by_cases hqueues : Queues b.2 s (frameParseByte s.parser b.1).1.frame
  · rw [if_pos (show Queues b.2 { s with parser := (frameParseByte s.parser b.1).1 } _ from hqueues)]
      at hcases
    obtain ⟨queue, item, hq, hitem, hput⟩ := hcases
    rw [hput] at hparse
    rw [hparse] at hrelayed ⊢
    rw [hlost, if_pos hqueues, add_zero]
    refine ⟨hrelayed, fun hstart => ?_, ?_⟩
    · have hnone := h.starting hstart
      rw [hnone] at hq
      cases hq
    · have hq' : s.txQueue = some queue := hq
      simp only [noteCompleted, hsnoc, h.all, Server.places, hq', Option.getD_some, List.map_append,
        List.map_cons, List.map_nil, hitem, ← Multiset.coe_add, Multiset.coe_singleton]
      abel
  · rw [if_neg (show ¬ Queues b.2 { s with parser := (frameParseByte s.parser b.1).1 } _ from hqueues)]
      at hcases
    obtain ⟨drops, hdrop⟩ := hcases
    rw [hdrop] at hparse
    rw [hparse] at hrelayed ⊢
    rw [hlost, if_neg hqueues]
    refine ⟨hrelayed, h.starting, ?_⟩
    rw [← add_assoc]
    exact (hsnoc _).trans (congrArg (· + _) h.all)

theorem uart_conserves {m : Multiset Completed} {s : Server} (h : Conserves m s) (data : List Byte)
    (accept : Nat → Bool) :
    Conserves (m + lost s (.uart data accept)) (serverUartRxCallback data accept s) := by
  refine run_flow (fun m s b t h hstep => ?_) h (run_answered s data accept)
  obtain rfl := Option.some.inj hstep
  exact frameParse_conserves h b

/-! ### The other steps -/

theorem taskStart_conserves {m : Multiset Completed} {s t : Server} {created : Bool}
    (h : Conserves m s) (hstep : sleTaskStart created s = some t) : Conserves (m + 0) t := by
  have hrelayed := sleTaskStart_relayed h.relayed hstep
  obtain ⟨htask, rfl | rfl⟩ := sleTaskStart_spec hstep
  · exact h.same hrelayed (fun hstart => by cases hstart) rfl
      (by simp [Server.places, h.starting htask, htask, Phase.held])
  · exact h.same hrelayed (fun hstart => by cases hstart) rfl
      (by simp [Server.places, htask, Phase.held])

theorem connectState_conserves {m : Multiset Completed} {s : Server} (h : Conserves m s)
    (connId : Nat) (connState : SleAcbStateType) :
    Conserves (m + lost s (.connectState connId connState))
      (trackConnect connId connState (sleConnectStateChangedCbk connId connState s)) := by
  have hrelayed := connectState_relayed h.relayed connId connState
  cases connState with
  | connected => exact h.same hrelayed h.starting rfl rfl
  | other => exact h.same hrelayed h.starting rfl rfl
  | disconnected =>
    refine ⟨hrelayed, fun hstart => ?_, ?_⟩
    · simp only [trackConnect, sleConnectStateChangedCbk, setLink, h.starting hstart, Option.map_none]
    · have hempty : (s.txQueue.map fun _ => ([] : List Item)).getD [] = [] := by
        cases s.txQueue <;> rfl
      simp only [trackConnect, sleConnectStateChangedCbk, setLink, Server.places, hempty,
        List.append_nil, lost, h.all, List.map_append, ← Multiset.coe_add]
      abel

theorem get_conserves {m : Multiset Completed} {s t : Server} {success : Bool} (h : Conserves m s)
    (hstep : sleTaskGet success s = some t) : Conserves (m + 0) t := by
  have hrelayed := sleTaskGet_relayed h.relayed hstep
  rcases sleTaskGet_spec hstep with rfl | ⟨item, rest, htask, hq, rfl⟩
  · rwa [add_zero]
  · exact h.same hrelayed (fun hstart => by cases hstart) rfl
      (by simp [Server.places, htask, hq, Phase.held])

theorem send_conserves {m : Multiset Completed} {s t : Server} {allocated : Bool} {notifyRet : Nat}
    (h : Conserves m s) (hstep : sleTaskSend allocated notifyRet s = some t) :
    Conserves (m + lost s (.send allocated notifyRet)) t := by
  have hrelayed := sleTaskSend_relayed h.relayed hstep
  obtain ⟨item, htask, rfl⟩ := sleTaskSend_spec hstep
  refine ⟨hrelayed, fun hstart => (by cases hstart), ?_⟩
  cases allocated with
  | true =>
    rw [h.all]
    simp [Server.places, lost, htask, Phase.held, sleUartServerSendReportByHandle]
  | false =>
    rw [h.all]
    simp only [Server.places, lost, htask, Phase.held, sleUartServerSendReportByHandle,
      Bool.false_eq_true, if_false, List.append_nil, List.map_append, List.map_cons, List.map_nil,
      ← Multiset.coe_add]
    abel

theorem step_conserves (m : Multiset Completed) (s : Server) (a : Action) (t : Server)
    (h : Conserves m s) (hstep : step s a = some t) : Conserves (m + lost s a) t := by
  cases a with
  | taskStart created => exact taskStart_conserves h hstep
  | uart data accept =>
    obtain rfl := Option.some.inj hstep
    exact uart_conserves h data accept
  | connectState connId connState =>
    obtain rfl := Option.some.inj hstep
    exact connectState_conserves h connId connState
  | mtuChanged connId mtuSize status =>
    obtain rfl := Option.some.inj hstep
    have hrelayed := mtuChanged_relayed h.relayed connId mtuSize status
    by_cases hstatus : status = errcodeSleSuccess
    · simp only [trackMtu, if_pos hstatus] at hrelayed ⊢
      exact h.same hrelayed h.starting rfl rfl
    · simp only [trackMtu, if_neg hstatus] at hrelayed ⊢
      exact h.same hrelayed h.starting rfl rfl
  | pairComplete connId status =>
    obtain rfl := Option.some.inj hstep
    have hrelayed := pairComplete_relayed h.relayed connId status
    by_cases hstatus : status = errcodeSleSuccess
    · simp only [trackPair, if_pos hstatus] at hrelayed ⊢
      exact h.same hrelayed h.starting rfl rfl
    · simp only [trackPair, if_neg hstatus] at hrelayed ⊢
      exact h.same hrelayed h.starting rfl rfl
  | get success => exact get_conserves h hstep
  | send allocated notifyRet => exact send_conserves h hstep

theorem run_conserves {acts : List Action} {s : Server}
    (hrun : run step Server.start acts = some s) : Conserves (flow step lost Server.start acts) s := by
  have h := run_flow step_conserves conserves_start hrun
  rwa [zero_add] at h

/-- **Every completed frame is sent once, waiting, or lost at one known place.** -/
theorem completed_conserved {acts : List Action} {s : Server}
    (hrun : run step Server.start acts = some s) :
    ↑s.completed = (↑(s.places.map Item.completed) : Multiset Completed) +
      flow step lost Server.start acts ∧ s.completed.Nodup :=
  ⟨(run_conserves hrun).all, (notified_sublist_completed hrun).2.1⟩

/-- The first frame comes before the MTU exchange, the second is sent, the third finds no memory,
and the fourth is in the queue when the link ends. -/
def fourFates : List Action :=
  [.taskStart true, .connectState 1 .connected, .uart oneByte fun _ => true, .mtuChanged 1 1400 0,
    .uart (oneByte ++ oneByte ++ oneByte) fun _ => true, .get true, .send true 0, .get true,
    .send false 0, .connectState 1 .disconnected]

theorem completed_conserved_four_fates :
    ∃ s, run step Server.start fourFates = some s ∧ s.completed.length = 4 ∧
      s.notified.length = 1 ∧ (flow step lost Server.start fourFates).card = 3 := by
  have hrun : (run step Server.start fourFates).map (fun s =>
      (s.completed.length, s.notified.length, s.task.held.length, (s.txQueue.getD []).length)) =
      some (4, 1, 0, 0) := by decide +kernel
  obtain ⟨s, hs, hlens⟩ := Option.map_eq_some_iff.mp hrun
  simp only [Prod.mk.injEq] at hlens
  have hcard := congrArg Multiset.card (completed_conserved hs).1
  simp only [Multiset.coe_card, Multiset.card_add, List.length_map, Server.places,
    List.length_append] at hcard
  exact ⟨s, hs, hlens.1, hlens.2.1, by omega⟩

/-! ## Without losses -/

/-- What a step does to the parser, if nothing else is looked at, and the frames it completes. -/
def parseStep (r : Parser × List (List Byte)) : Action → Parser × List (List Byte)
  | .uart data _ => ((frameParseBytes r.1 data).1, r.2 ++ (frameParseBytes r.1 data).2)
  | .connectState _ .disconnected => (r.1.reset, r.2)
  | .connectState _ .connected | .connectState _ .other | .taskStart _ | .mtuChanged _ _ _
  | .pairComplete _ _ | .get _ | .send _ _ => r

/-- The frames in the bytes of the UART, with a reset of the parser at each disconnection. -/
def parsed (acts : List Action) : List (List Byte) := (acts.foldl parseStep (.start, [])).2

theorem step_parses {s t : Server} {a : Action} (hstep : step s a = some t) :
    (t.parser, t.completed.map Completed.bytes) =
      parseStep (s.parser, s.completed.map Completed.bytes) a := by
  cases a with
  | taskStart created => obtain ⟨-, rfl | rfl⟩ := sleTaskStart_spec hstep <;> rfl
  | uart data accept =>
    obtain rfl := Option.some.inj hstep
    obtain ⟨hparser, hcompleted⟩ := serverUartRxCallback_parses data accept s
    rw [hparser, hcompleted]
    rfl
  | connectState connId connState =>
    obtain rfl := Option.some.inj hstep
    cases connState <;> rfl
  | mtuChanged connId mtuSize status =>
    obtain rfl := Option.some.inj hstep
    unfold trackMtu
    split <;> rfl
  | pairComplete connId status =>
    obtain rfl := Option.some.inj hstep
    unfold trackPair
    split <;> rfl
  | get success => rcases sleTaskGet_spec hstep with rfl | ⟨_, _, -, -, rfl⟩ <;> rfl
  | send allocated notifyRet => obtain ⟨_, -, rfl⟩ := sleTaskSend_spec hstep; rfl

theorem run_parses {acts : List Action} {s : Server} (hrun : run step Server.start acts = some s) :
    (s.parser, s.completed.map Completed.bytes) = acts.foldl parseStep (.start, []) := by
  rw [← List.map_id acts] at hrun
  refine run_records (fun acts s => (s.parser, s.completed.map Completed.bytes) =
    acts.foldl parseStep (.start, [])) ?_ rfl hrun
  intro acts a s t h hstep
  rw [List.foldl_append, ← h]
  exact step_parses hstep

theorem Relayed.places_sublist {s : Server} (h : Relayed s) :
    (s.places.map Item.completed).Sublist s.completed := by
  obtain ⟨hframes, r, hr⟩ := h
  have hord := hr.steps.ordered Relay.ordered_empty
  rw [Relay.Ordered, hr.put, hr.queue, hr.held, hr.sent] at hord
  exact (hord.map Item.completed).trans hframes.queued

def LosesNone (s : Server) (a : Action) : Prop := lost s a = 0

instance (s : Server) (a : Action) : Decidable (LosesNone s a) :=
  inferInstanceAs (Decidable (lost s a = 0))

/-- **Without losses, the schedule does not matter.** What is sent, and what waits behind it, are
the frames in the bytes of the UART, in order. -/
theorem schedule_independent {acts : List Action} {s : Server}
    (hnone : Meets step LosesNone Server.start acts) (hrun : run step Server.start acts = some s) :
    s.places.map (fun item => item.msg.data) = parsed acts := by
  obtain ⟨hrelayed, -, hall⟩ := run_conserves hrun
  rw [flow_eq_zero (fun _ _ h => h) hnone, add_zero] at hall
  have hcard := congrArg Multiset.card hall
  simp only [Multiset.coe_card] at hcard
  -- As many frames are in their places as were completed, so these are all.
  have hplaces := hrelayed.places_sublist.eq_of_length hcard.symm
  have hbytes := congrArg (List.map Completed.bytes) hplaces
  rw [List.map_map] at hbytes
  exact hbytes.trans (congrArg Prod.snd (run_parses hrun))

/-- The task sends the first frame while the second comes in, cut in two. -/
def overlapping : List Action :=
  [.taskStart true, .connectState 1 .connected, .mtuChanged 1 1400 0,
    .uart (oneByte ++ oneByte.take 4) fun _ => true, .get true, .uart (oneByte.drop 4) fun _ => true,
    .send true 0, .get true]

theorem schedule_independent_overlapping :
    ∃ s, run step Server.start overlapping = some s ∧
      s.places.map (fun item => item.msg.data) = [oneByte, oneByte] := by
  have hrun : (run step Server.start overlapping).isSome = true := by decide +kernel
  obtain ⟨s, hs⟩ := Option.isSome_iff_exists.mp hrun
  exact ⟨s, hs, (schedule_independent (by decide +kernel) hs).trans (by decide +kernel)⟩

end NearLink.Ict
