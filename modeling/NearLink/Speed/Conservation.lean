import Mathlib.Algebra.BigOperators.Group.Multiset.Basic
import Mathlib.Tactic.Abel
import NearLink.Flow
import NearLink.Speed.Accounting
import NearLink.Speed.Order

/-!
# Where the messages of the throughput server are

A message that was queued is sent, in the hands of a thread, still queued, or dropped. The
counters on both sides of the queue agree up to the messages in between.
-/

namespace NearLink.Speed

/-! ## Messages -/

/-- The messages that were sent, that a thread holds, or that are queued. -/
def Server.items (s : Server) : Multiset Item := ↑(s.notified.map Notify.item ++ s.held ++ s.queue)

/-- What a step drops: the queue when a link ends, or an empty message that a thread reads. -/
def dropped (s : Server) : Action → Multiset Item
  | .connectState _ .disconnected _ _ => if s.uartQueueId ≠ 0 then s.queue else 0
  | .read _ success =>
    if success = true then ↑(s.queue.head?.toList.filter fun item => item.msg.len = 0) else 0
  | _ => 0

/-- The queue holds what came in, less what has left it. -/
def Conserves (lost : Multiset Item) (s : Server) : Prop := ↑s.enqueued = s.items + lost

theorem Conserves.same {lost : Multiset Item} {s t : Server} (h : Conserves lost s)
    (hst : SameTraffic s t) (hq : t.queue = s.queue) : Conserves (lost + 0) t := by
  unfold Conserves Server.items at *
  rw [hst.enqueued, hst.notified, hst.held, hq, add_zero]
  exact h

theorem uartStep_conserves {lost : Multiset Item} {fuel : Nat} {c : Call} {s t : Server}
    (h : Conserves lost s) (hstep : uartStep fuel c s = some t) : Conserves (lost + 0) t := by
  obtain ⟨items, hq, henq, -, -, -, hsenders, hnot, -⟩ := uartStep_spec hstep
  have hheld : t.held = s.held := by unfold Server.held; rw [hsenders]
  unfold Conserves Server.items at *
  rw [henq, hnot, hheld, hq, ← List.append_assoc, ← Multiset.coe_add, h, ← Multiset.coe_add _ items,
    add_zero]
  abel

theorem connectState_conserves {lost : Multiset Item} {connId : Nat} {connState : AcbState}
    {pairState : PairState} {created : Bool} {s t : Server} (h : Conserves lost s)
    (hstep : step s (.connectState connId connState pairState created) = some t) :
    Conserves (lost + dropped s (.connectState connId connState pairState created)) t := by
  obtain rfl := Option.some.inj hstep
  obtain ⟨hsame, hq, -⟩ := connectState_spec connId connState pairState created s
  by_cases hdrain : connState = .disconnected ∧ s.uartQueueId ≠ 0
  · obtain ⟨rfl, hid⟩ := hdrain
    rw [if_pos ⟨rfl, hid⟩] at hq
    unfold Conserves Server.items at *
    rw [hsame.enqueued, hsame.notified, hsame.held, hq, dropped, if_pos hid, h, List.append_nil,
      ← Multiset.coe_add _ s.queue]
    abel
  · rw [if_neg hdrain] at hq
    have hnone : dropped s (.connectState connId connState pairState created) = 0 := by
      cases connState with
      | disconnected => exact if_neg fun hid => hdrain ⟨rfl, hid⟩
      | _ => rfl
    rw [hnone]
    exact h.same hsame hq

theorem senderRead_takes {i : Nat} {s t : Server} (h : senderRead i true s = some t) : t ≠ s := by
  unfold senderRead at h
  split at h
  · rw [if_pos rfl] at h
    split at h
    · cases h
    · rename_i hq
      obtain rfl := Option.some.inj h
      intro hsame
      have hlen := congrArg (fun u => u.queue.length) hsame
      simp [hq] at hlen
  · cases h

theorem items_split (s : Server) {before after : List Sender} {x : Sender}
    (h : s.senders = before ++ x :: after) :
    s.items = ↑(s.notified.map Notify.item) + (↑(before.filterMap Sender.held) +
      (↑x.held.toList + ↑(after.filterMap Sender.held))) + ↑s.queue := by
  unfold Server.items
  rw [held_split s h]
  simp only [Multiset.coe_add]

theorem senderRead_conserves {lost : Multiset Item} {i : Nat} {success : Bool} {s t : Server}
    (h : Conserves lost s) (hstep : senderRead i success s = some t) :
    Conserves (lost + dropped s (.read i success)) t := by
  cases success with
  | false =>
    rcases senderRead_spec hstep with rfl | ⟨hfalse, -⟩
    · simpa [dropped] using h
    · cases hfalse
  | true =>
    obtain ⟨-, item, rest, before, after, x, y, hq, hsenders, hx, hy, rfl⟩ :=
      (senderRead_spec hstep).resolve_left (senderRead_takes hstep)
    have hcons : (↑(item :: rest) : Multiset Item) = {item} + ↑rest := rfl
    unfold Conserves at *
    rw [items_split s hsenders, hx, hq, hcons] at h
    rw [items_split _ rfl, h]
    by_cases hempty : item.msg.len = 0
    · simp only [dropped, hq, hy, hempty, if_true, List.head?_cons, Option.toList_some,
        Option.toList_none, List.filter_cons, decide_true, List.filter_nil, Multiset.coe_nil,
        Multiset.coe_singleton]
      abel
    · simp only [dropped, hq, hy, hempty, if_true, if_false, List.head?_cons, Option.toList_some,
        Option.toList_none, List.filter_cons, decide_false, Bool.false_eq_true, List.filter_nil,
        Multiset.coe_nil, Multiset.coe_singleton]
      abel

theorem senderNotify_conserves {lost : Multiset Item} {i notifyRet : Nat} {s t : Server}
    (h : Conserves lost s) (hstep : senderNotify i notifyRet s = some t) :
    Conserves (lost + 0) t := by
  obtain ⟨item, before, after, x, y, -, hx, hy, hsenders, rfl⟩ := senderNotify_spec hstep
  unfold Conserves at *
  rw [items_split s hsenders, hx] at h
  rw [items_split _ rfl, h, hy]
  simp only [List.map_append, List.map_cons, List.map_nil, ← Multiset.coe_add, Option.toList_some,
    Option.toList_none, Multiset.coe_nil, Multiset.coe_singleton]
  abel

theorem step_conserves (lost : Multiset Item) (s : Server) (a : Action) (t : Server)
    (h : Conserves lost s) (hstep : step s a = some t) : Conserves (lost + dropped s a) t := by
  cases a with
  | uart fuel c => exact uartStep_conserves h hstep
  | connectState connId connState pairState created => exact connectState_conserves h hstep
  | pairComplete connId status created =>
    obtain rfl := Option.some.inj hstep
    obtain ⟨hsame, hq, -⟩ := slePairCompleteCbk_spec status created s
    exact h.same hsame hq
  | readRequest created =>
    obtain rfl := Option.some.inj hstep
    obtain ⟨hsame, hq, -⟩ := ssapsReadRequestCbk_spec created s
    exact h.same hsame hq
  | read i success => exact senderRead_conserves h hstep
  | flowCtrl i flag =>
    obtain ⟨senders, rfl, -, hheld⟩ := senderFlowCtrl_spec hstep
    exact h.same ⟨rfl, hheld, rfl, rfl, rfl, rfl⟩ rfl
  | notify i notifyRet => exact senderNotify_conserves h hstep

theorem run_conserves {uartQueueId : Nat} {acts : List Action} {s : Server}
    (hrun : run step (Server.start uartQueueId) acts = some s) :
    Conserves (flow step dropped (Server.start uartQueueId) acts) s := by
  have hstart : Conserves 0 (Server.start uartQueueId) := rfl
  have h := run_flow step_conserves hstart hrun
  rwa [zero_add] at h

/-- **Nothing is lost or duplicated but what a step drops.** The messages are numbered, so each is
in one place. -/
theorem messages_conserved {uartQueueId : Nat} {acts : List Action} {s : Server}
    (hrun : run step (Server.start uartQueueId) acts = some s) :
    ↑s.enqueued = s.items + flow step dropped (Server.start uartQueueId) acts ∧
      s.enqueued.Nodup := by
  refine ⟨run_conserves hrun, ?_⟩
  have hnum := run_preserves (fun _ _ _ => step_numbered) (numbered_start uartQueueId) hrun
  exact hnum.pairwise.imp fun hlt heq => Nat.ne_of_lt hlt (congrArg Item.serial heq)

/-- When the link ends, a thread holds the first of two messages. -/
def endedEarly : List Action :=
  [.pairComplete 1 0 true,
    .uart 100 (.ok ((Frame.bare 1492 7).encode ++ (Frame.bare 1492 8).encode)), .read 0 true,
    .connectState 1 .disconnected .paired false]

theorem messages_conserved_ended_early :
    ∃ s, run step (Server.start 1) endedEarly = some s ∧ s.held.length = 1 ∧
      (flow step dropped (Server.start 1) endedEarly).card = 1 ∧
      ↑s.enqueued = s.items + flow step dropped (Server.start 1) endedEarly := by
  have hrun : (run step (Server.start 1) endedEarly).map (fun s => s.held.length) = some 1 := by
    decide +kernel
  obtain ⟨s, hs, hheld⟩ := Option.map_eq_some_iff.mp hrun
  exact ⟨s, hs, hheld, by decide +kernel, (messages_conserved hs).1⟩

/-! ## Counters -/

/-- How many messages of a callback find no room in the queue. -/
def refused (s : Server) : Action → Nat
  | .uart fuel c =>
    let offers := (uart1RxCallback fuel s.uartQueueId c s.rx).offers
    offers.length - (taken c.accept offers).length
  | _ => 0

theorem compact_counts (rx : Rx) (pos : Nat) :
    (compact rx pos).uartRxFrmOk = rx.uartRxFrmOk ∧
      (compact rx pos).uartRxFrmDrop = rx.uartRxFrmDrop := by
  unfold compact
  split_ifs <;> exact ⟨rfl, rfl⟩

/-- Every offer is counted, as a success or as a drop, from `m` successes and `n` drops on. -/
def Outcome.Counted (o : Outcome) (c : Call) (m n : Nat) : Prop :=
  o.rx.uartRxFrmOk = u32 (m + (taken c.accept o.offers).length) ∧
    o.rx.uartRxFrmDrop = u32 (n + (o.offers.length - (taken c.accept o.offers).length))

theorem extractFrames_counts (fuel uartQueueId : Nat) (c : Call) (overflowed : Bool) {rx : Rx}
    {m n : Nat} (hok : rx.uartRxFrmOk = u32 m) (hdrop : rx.uartRxFrmDrop = u32 n) :
    (extractFrames fuel uartQueueId c overflowed rx).Counted c m n := by
  simp only [Outcome.Counted, extractFrames]
  split
  · rw [(compact_counts _ _).1, (compact_counts _ _).2, hok, hdrop]
    exact ⟨Nat.mod_add_mod _ _ _, Nat.mod_add_mod _ _ _⟩
  · rw [hok, hdrop]
    exact ⟨Nat.mod_add_mod _ _ _, Nat.mod_add_mod _ _ _⟩

theorem uart1RxCallback_counts (fuel uartQueueId : Nat) (c : Call) {rx : Rx} {m n : Nat}
    (hok : rx.uartRxFrmOk = u32 m) (hdrop : rx.uartRxFrmDrop = u32 n) :
    (uart1RxCallback fuel uartQueueId c rx).Counted c m n := by
  unfold uart1RxCallback loopStart
  cases c.buffer with
  | none => exact ⟨hok, hdrop⟩
  | some data =>
    -- Whether the buffer overflows or not, the copy may succeed or fail.
    simp only
    split_ifs
    · exact ⟨hok, hdrop⟩
    · exact extractFrames_counts fuel uartQueueId c _ hok hdrop
    · exact ⟨hok, hdrop⟩
    · exact extractFrames_counts fuel uartQueueId c _ hok hdrop
    · exact ⟨hok, hdrop⟩

/-- The successes that all threads have counted. -/
def sentCount (ts : List Sender) : Nat := (ts.map Sender.sleTxOk).sum

theorem sentCount_started (ts : List Sender) (created : Bool) :
    sentCount (if created then ts ++ [Sender.start] else ts) = sentCount ts := by
  unfold sentCount
  cases created <;> simp [Sender.start]

theorem sum_map_set {α : Type*} (f : α → Nat) {l : List α} {i : Nat} {x : α} (h : l[i]? = some x)
    (y : α) : ((l.set i y).map f).sum + f x = (l.map f).sum + f y := by
  obtain ⟨before, after, hl, hset⟩ := split_at h
  rw [hset, hl]
  simp only [List.map_append, List.map_cons, List.sum_append, List.sum_cons]
  omega

theorem sentCount_set {ts : List Sender} {i : Nat} {x : Sender} (h : ts[i]? = some x) (y : Sender) :
    sentCount (ts.set i y) + x.sleTxOk = sentCount ts + y.sleTxOk :=
  sum_map_set Sender.sleTxOk h y

theorem senderRead_sentCount {i : Nat} {success : Bool} {s t : Server}
    (h : senderRead i success s = some t) :
    sentCount t.senders = sentCount s.senders ∧ t.rx = s.rx ∧ t.enqueued = s.enqueued ∧
      t.notified = s.notified := by
  unfold senderRead at h
  split at h
  · rename_i ok fail hi
    split at h
    · split at h
      · cases h
      · obtain rfl := Option.some.inj h
        exact ⟨Nat.add_right_cancel (sentCount_set hi _), rfl, rfl, rfl⟩
    · obtain rfl := Option.some.inj h
      exact ⟨rfl, rfl, rfl, rfl⟩
  · cases h

theorem senderFlowCtrl_sentCount {i flag : Nat} {s t : Server}
    (h : senderFlowCtrl i flag s = some t) : sentCount t.senders = sentCount s.senders := by
  unfold senderFlowCtrl at h
  split at h
  · rename_i item ok fail hi
    split at h
    · obtain rfl := Option.some.inj h
      rfl
    · obtain rfl := Option.some.inj h
      exact Nat.add_right_cancel (sentCount_set hi _)
  · cases h

theorem senderNotify_sentCount {i notifyRet : Nat} {s t : Server}
    (h : senderNotify i notifyRet s = some t) (hcount : u32 (sentCount s.senders) = u32 s.notified.length) :
    u32 (sentCount t.senders) = u32 t.notified.length := by
  unfold senderNotify at h
  split at h
  · rename_i item ok fail hi
    rw [if_neg (show ¬ sleUuidServerSendReportByHandleId notifyRet ≠ errcodeSleSuccess from
      not_not_intro rfl)] at h
    obtain rfl := Option.some.inj h
    have hset := sentCount_set hi ⟨.reading, u32 (ok + 1), fail⟩
    simp only [List.length_append, List.length_singleton, u32] at hset hcount ⊢
    omega
  · cases h

/-- What the counters stand for. -/
structure Counts (refusals : Nat) (s : Server) : Prop where
  ok : s.rx.uartRxFrmOk = u32 s.enqueued.length
  drop : s.rx.uartRxFrmDrop = u32 refusals
  sent : u32 (sentCount s.senders) = u32 s.notified.length

theorem Counts.same {refusals : Nat} {s t : Server} (h : Counts refusals s) (hst : SameTraffic s t)
    (hsent : sentCount t.senders = sentCount s.senders) : Counts (refusals + 0) t := by
  refine ⟨?_, ?_, ?_⟩
  · rw [hst.rx, hst.enqueued]; exact h.ok
  · rw [hst.rx]; exact h.drop
  · rw [hsent, hst.notified]; exact h.sent

theorem connectState_sentCount (connId : Nat) (connState : AcbState) (pairState : PairState)
    (created : Bool) (s : Server) :
    sentCount (trackLink connState
      (sleConnectStateChangedCbk connId connState pairState created s)).senders =
        sentCount s.senders := by
  cases connState with
  | connected =>
    simp only [trackLink, sleConnectStateChangedCbk]
    split
    · exact sentCount_started _ _
    · rfl
  | disconnected => rfl
  | other => rfl

theorem step_counts (refusals : Nat) (s : Server) (a : Action) (t : Server) (h : Counts refusals s)
    (hstep : step s a = some t) : Counts (refusals + refused s a) t := by
  cases a with
  | uart fuel c =>
    obtain ⟨items, -, henq, hitems, hrx, -, hsenders, hnot, -⟩ := uartStep_spec hstep
    obtain ⟨hok, hdrop⟩ := uart1RxCallback_counts fuel s.uartQueueId c h.ok h.drop
    refine ⟨?_, ?_, ?_⟩
    · rw [hrx, hok, henq, List.length_append, hitems, numbered_length]
    · rw [hrx, hdrop, refused]
    · rw [hsenders, hnot]
      exact h.sent
  | connectState connId connState pairState created =>
    obtain rfl := Option.some.inj hstep
    exact h.same (connectState_spec connId connState pairState created s).1
      (connectState_sentCount connId connState pairState created s)
  | pairComplete connId status created =>
    obtain rfl := Option.some.inj hstep
    refine h.same (slePairCompleteCbk_spec status created s).1 ?_
    unfold slePairCompleteCbk
    split
    · rfl
    · exact sentCount_started _ _
  | readRequest created =>
    obtain rfl := Option.some.inj hstep
    exact h.same (ssapsReadRequestCbk_spec created s).1 (sentCount_started _ _)
  | read i success =>
    obtain ⟨hsent, hrx, henq, hnot⟩ := senderRead_sentCount hstep
    refine ⟨?_, ?_, ?_⟩
    · rw [hrx, henq]; exact h.ok
    · rw [hrx]; exact h.drop
    · rw [hsent, hnot]; exact h.sent
  | flowCtrl i flag =>
    have hsent := senderFlowCtrl_sentCount hstep
    obtain ⟨_, rfl, -, hheld⟩ := senderFlowCtrl_spec hstep
    exact h.same ⟨rfl, hheld, rfl, rfl, rfl, rfl⟩ hsent
  | notify i notifyRet =>
    have hsent := senderNotify_sentCount hstep h.sent
    obtain ⟨_, _, _, _, _, -, -, -, -, rfl⟩ := senderNotify_spec hstep
    exact ⟨h.ok, h.drop, hsent⟩

/-- **The counters of both ends agree up to what is in between.** What the receiver has counted as
queued, the threads have counted as sent, hold, or find in the queue, or it was dropped. -/
theorem counters_agree {uartQueueId : Nat} {acts : List Action} {s : Server}
    (hrun : run step (Server.start uartQueueId) acts = some s) :
    s.rx.uartRxFrmOk = u32 (sentCount s.senders + s.held.length + s.queue.length +
        (flow step dropped (Server.start uartQueueId) acts).card) ∧
      s.rx.uartRxFrmDrop = u32 (flow step refused (Server.start uartQueueId) acts) := by
  have hstart : Counts 0 (Server.start uartQueueId) := ⟨rfl, rfl, rfl⟩
  have hcounts := run_flow step_counts hstart hrun
  have hall := run_conserves hrun
  unfold Conserves at hall
  have hcard := congrArg Multiset.card hall
  simp only [Server.items, Multiset.coe_card, Multiset.card_add, List.length_append,
    List.length_map] at hcard
  rw [Nat.zero_add] at hcounts
  refine ⟨?_, hcounts.drop⟩
  have hsent := hcounts.sent
  rw [hcounts.ok, hcard]
  unfold u32 at hsent ⊢
  omega

/-- The queue refuses the second of two messages, and the first is sent. -/
def refusedOnce : List Action :=
  [.pairComplete 1 0 true,
    .uart 100 ⟨some ((Frame.bare 1492 7).encode ++ (Frame.bare 1492 8).encode), false,
      fun _ _ => 0, fun i => i = 0⟩,
    .read 0 true, .flowCtrl 0 1, .notify 0 1]

theorem counters_agree_refused_once :
    ∃ s, run step (Server.start 1) refusedOnce = some s ∧ s.rx.uartRxFrmOk = 1 ∧
      s.rx.uartRxFrmDrop = 1 ∧ sentCount s.senders = 1 := by
  have hrun : (run step (Server.start 1) refusedOnce).map (fun s =>
      (sentCount s.senders, s.held.length, s.queue.length)) = some (1, 0, 0) := by decide +kernel
  obtain ⟨s, hs, hcounts⟩ := Option.map_eq_some_iff.mp hrun
  obtain ⟨hok, hdrop⟩ := counters_agree hs
  simp only [Prod.mk.injEq] at hcounts
  refine ⟨s, hs, ?_, ?_, hcounts.1⟩
  · rw [hok, hcounts.1, hcounts.2.1, hcounts.2.2]
    decide +kernel
  · rw [hdrop]
    decide +kernel

end NearLink.Speed
