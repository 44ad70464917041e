import NearLink.Relay
import NearLink.Speed.ServerProofs

/-!
# The order of relayed frames

The server is a relay from the message queue to the link. With several sender threads, a thread
that waits for the flow control can be overtaken by one that read the queue after it.
-/

namespace NearLink.Speed

/-- When a thread calls `ssaps_notify_indicate`, no thread holds an older message. -/
def OldestFirst (s : Server) : Action → Prop
  | .notify i _ => ∀ item ∈ s.senders[i]?.bind Sender.held, ∀ other ∈ s.held,
      item.serial ≤ other.serial
  | _ => True

instance (s : Server) : ∀ a, Decidable (OldestFirst s a)
  | .notify i _ => inferInstanceAs (Decidable (∀ item ∈ s.senders[i]?.bind Sender.held,
      ∀ other ∈ s.held, item.serial ≤ other.serial))
  | .uart _ _ | .connectState _ _ _ _ | .pairComplete _ _ _ | .readRequest _ | .read _ _
  | .flowCtrl _ _ => .isTrue trivial

/-! ## Serial numbers -/

/-- Messages are numbered in the order in which they were queued. -/
def Numbered (s : Server) : Prop :=
  s.enqueued.map Item.serial = List.range' 0 s.enqueued.length

theorem numbered_start (uartQueueId : Nat) : Numbered (Server.start uartQueueId) := rfl

theorem step_numbered {s t : Server} {a : Action} (h : Numbered s) (hstep : step s a = some t) :
    Numbered t := by
  cases a with
  | uart fuel c =>
    obtain ⟨items, -, he, hitems, -⟩ := uartStep_spec hstep
    rw [Numbered, he, List.map_append, h, hitems, numbered_serials, List.length_append,
      ← List.range'_append_1, Nat.zero_add, numbered_length]
  | connectState connId connState pairState created =>
    obtain rfl := Option.some.inj hstep
    rw [Numbered, (connectState_spec connId connState pairState created s).1.enqueued]
    exact h
  | pairComplete connId status created =>
    obtain rfl := Option.some.inj hstep
    rw [Numbered, (slePairCompleteCbk_spec status created s).1.enqueued]
    exact h
  | readRequest created => obtain rfl := Option.some.inj hstep; exact h
  | read i success =>
    rcases senderRead_spec hstep with rfl | ⟨-, _, _, _, _, _, _, -, -, -, -, rfl⟩ <;> exact h
  | flowCtrl i flag => obtain ⟨_, rfl, -⟩ := senderFlowCtrl_spec hstep; exact h
  | notify i notifyRet =>
    obtain ⟨_, _, _, _, _, -, -, -, -, rfl⟩ := senderNotify_spec hstep
    exact h

theorem Numbered.pairwise {s : Server} (h : Numbered s) :
    s.enqueued.Pairwise fun a b => a.serial < b.serial := by
  rw [← List.pairwise_map, h]
  exact List.pairwise_lt_range'

/-! ## The server is a relay -/

/-- The relay that the server stands for, with the held messages in the order of the queue. -/
structure Relays (r : Relay Item) (s : Server) : Prop where
  steps : Relay.Steps .empty r
  put : r.put = s.enqueued
  queue : r.queue = s.queue
  sent : r.sent = s.notified.map Notify.item
  held : r.held.Perm s.held
  numbered : Numbered s

theorem Relays.start (uartQueueId : Nat) : Relays .empty (Server.start uartQueueId) :=
  ⟨.refl, rfl, rfl, rfl, .refl _, numbered_start _⟩

theorem Relays.pairwise {r : Relay Item} {s : Server} (h : Relays r s) :
    r.held.Pairwise fun a b => a.serial < b.serial := by
  have hord := h.steps.ordered Relay.ordered_empty
  rw [Relay.Ordered, h.put, List.append_assoc] at hord
  exact h.numbered.pairwise.sublist
    (((List.sublist_append_left _ _).trans (List.sublist_append_right _ _)).trans hord)

theorem Relays.same {r : Relay Item} {s t : Server} (h : Relays r s) (hst : SameTraffic s t)
    (hq : t.queue = s.queue) (hn : Numbered t) : Relays r t := by
  refine ⟨h.steps, ?_, ?_, ?_, ?_, hn⟩
  · rw [hst.enqueued]; exact h.put
  · rw [hq]; exact h.queue
  · rw [hst.notified]; exact h.sent
  · rw [hst.held]; exact h.held

theorem held_head {l m : List Item} {item : Item} (hperm : l.Perm m) (hmem : item ∈ m)
    (hold : ∀ other ∈ m, item.serial ≤ other.serial)
    (hsort : l.Pairwise fun a b => a.serial < b.serial) : ∃ rest, l = item :: rest := by
  cases l with
  | nil => exact absurd (hperm.mem_iff.mpr hmem) (by simp)
  | cons a rest =>
    refine ⟨rest, ?_⟩
    rcases List.mem_cons.mp (hperm.mem_iff.mpr hmem) with rfl | hrest
    · rfl
    · have hlt := (List.pairwise_cons.mp hsort).1 item hrest
      have hle := hold a (hperm.mem_iff.mp List.mem_cons_self)
      omega

theorem connectState_relays {r : Relay Item} {connId : Nat} {connState : AcbState}
    {pairState : PairState} {created : Bool} {s t : Server} (h : Relays r s)
    (ht : t = trackLink connState (sleConnectStateChangedCbk connId connState pairState created s))
    (hnum : Numbered t) : ∃ r', Relays r' t := by
  subst ht
  obtain ⟨hsame, hq, -⟩ := connectState_spec connId connState pairState created s
  by_cases hdrain : connState = .disconnected ∧ s.uartQueueId ≠ 0
  · rw [if_pos hdrain] at hq
    refine ⟨{ r with queue := [] }, h.steps.tail (.drain r), ?_, ?_, ?_, ?_, hnum⟩
    · rw [hsame.enqueued]; exact h.put
    · rw [hq]
    · rw [hsame.notified]; exact h.sent
    · rw [hsame.held]; exact h.held
  · rw [if_neg hdrain] at hq
    exact ⟨r, h.same hsame hq hnum⟩

theorem senderRead_relays {r : Relay Item} {i : Nat} {success : Bool} {s t : Server}
    (h : Relays r s) (hstep : senderRead i success s = some t) (hnum : Numbered t) :
    ∃ r', Relays r' t := by
  rcases senderRead_spec hstep with rfl | ⟨-, item, rest, before, after, x, y, hq, hl, hx, hy, rfl⟩
  · exact ⟨r, h⟩
  have hheld := h.held
  rw [held_split s hl, hx] at hheld
  have htake := Relay.Step.take r (h.queue.trans hq)
  split at hy
  · -- An empty message: the thread forgets it.
    refine ⟨_, (h.steps.tail htake).tail (.drop _ (h := r.held) (List.sublist_append_left _ _)),
      h.put, rfl, h.sent, ?_, hnum⟩
    rw [held_split _ rfl, hy]
    exact hheld
  · refine ⟨_, h.steps.tail htake, h.put, rfl, h.sent, ?_, hnum⟩
    rw [held_split _ rfl, hy]
    apply (List.perm_append_singleton item r.held).trans
    exact (hheld.cons item).trans List.perm_middle.symm

/-- The oldest message is the one that is sent. -/
theorem senderNotify_relays {r : Relay Item} {i notifyRet : Nat} {s t : Server} (h : Relays r s)
    (hok : OldestFirst s (.notify i notifyRet)) (hstep : senderNotify i notifyRet s = some t)
    (hnum : Numbered t) : ∃ r', Relays r' t := by
  obtain ⟨item, before, after, x, y, hi, hx, hy, hl, rfl⟩ := senderNotify_spec hstep
  have hmem : item ∈ s.held := by rw [held_split s hl, hx]; simp
  obtain ⟨rest, hrest⟩ := held_head h.held hmem (hok item (by rw [hi]; exact hx)) h.pairwise
  have hheld := h.held
  rw [held_split s hl, hx, hrest] at hheld
  refine ⟨_, h.steps.tail (.send r hrest), h.put, h.queue, ?_, ?_, hnum⟩
  · simp [h.sent]
  · rw [held_split _ rfl, hy]
    exact (hheld.trans List.perm_middle).cons_inv

theorem step_relays {r : Relay Item} {s t : Server} {a : Action} (h : Relays r s)
    (hok : OldestFirst s a) (hstep : step s a = some t) : ∃ r', Relays r' t := by
  have hnum := step_numbered h.numbered hstep
  cases a with
  | uart fuel c =>
    obtain ⟨items, hq, he, -, -, -, hsenders, hnot, -⟩ := uartStep_spec hstep
    refine ⟨_, h.steps.trans (Relay.steps_put r items), ?_, ?_, ?_, ?_, hnum⟩
    · rw [he, h.put]
    · rw [hq, h.queue]
    · rw [hnot, h.sent]
    · rw [Server.held, hsenders]; exact h.held
  | connectState connId connState pairState created =>
    exact connectState_relays h (Option.some.inj hstep).symm hnum
  | pairComplete connId status created =>
    obtain rfl := Option.some.inj hstep
    obtain ⟨hsame, hq, -⟩ := slePairCompleteCbk_spec status created s
    exact ⟨r, h.same hsame hq hnum⟩
  | readRequest created =>
    obtain rfl := Option.some.inj hstep
    obtain ⟨hsame, hq, -⟩ := ssapsReadRequestCbk_spec created s
    exact ⟨r, h.same hsame hq hnum⟩
  | read i success => exact senderRead_relays h hstep hnum
  | flowCtrl i flag =>
    obtain ⟨senders, rfl, -, hheld⟩ := senderFlowCtrl_spec hstep
    refine ⟨r, h.steps, h.put, h.queue, h.sent, ?_, hnum⟩
    rw [Server.held, hheld]
    exact h.held
  | notify i notifyRet => exact senderNotify_relays h hok hstep hnum

/-! ## The order of the link -/

/-- What the link carries is a subsequence of what was queued, and nothing was queued twice. -/
def InOrder (s : Server) : Prop :=
  (s.notified.map Notify.item).Sublist s.enqueued ∧ s.enqueued.Nodup

def twoFrames : Call :=
  .ok [0xAA, 0x55, 0, 0, 0, 0, 0x55, 0xAA, 0xAA, 0x55, 1, 0, 0, 0, 0x55, 0xAA]

/-- **Frames leave in the order in which they were queued**, as long as no sender thread is
overtaken. -/
theorem notified_in_order {uartQueueId : Nat} {acts : List Action} {s : Server}
    (hok : Meets step OldestFirst (Server.start uartQueueId) acts)
    (hrun : run step (Server.start uartQueueId) acts = some s) : InOrder s := by
  have hstep : ∀ s a t, (∃ r, Relays r s) → OldestFirst s a → step s a = some t →
      ∃ r, Relays r t := fun _ _ _ ⟨_, hr⟩ hok hstep => step_relays hr hok hstep
  obtain ⟨r, hr⟩ := run_invariant hstep ⟨_, Relays.start uartQueueId⟩ hok hrun
  refine ⟨?_, ?_⟩
  · rw [← hr.sent, ← hr.put]
    exact hr.steps.sent_sublist
  · exact hr.numbered.pairwise.imp fun hlt heq => absurd hlt (by rw [heq]; exact lt_irrefl _)

def oneThread : List Action :=
  [.pairComplete 1 0 true, .uart 100 twoFrames, .read 0 true, .flowCtrl 0 1, .notify 0 0,
    .read 0 true, .flowCtrl 0 1, .notify 0 0]

theorem notified_in_order_one_thread :
    ∃ s, run step (Server.start 1) oneThread = some s ∧ s.notified.length = 2 ∧ InOrder s := by
  have hrun : (run step (Server.start 1) oneThread).map (fun s => s.notified.length) = some 2 := by
    decide +kernel
  obtain ⟨s, hs, hlen⟩ := Option.map_eq_some_iff.mp hrun
  exact ⟨s, hs, hlen, notified_in_order (by decide +kernel) hs⟩

/-- A read request starts a second thread, which overtakes the first one. -/
def overtaking : List Action :=
  [.pairComplete 1 0 true, .readRequest true, .uart 100 twoFrames, .read 0 true, .read 1 true,
    .flowCtrl 1 1, .notify 1 0, .flowCtrl 0 1, .notify 0 0]

theorem notified_out_of_order :
    ¬ ∀ uartQueueId acts s, run step (Server.start uartQueueId) acts = some s → InOrder s := by
  intro h
  have hrun : (run step (Server.start 1) overtaking).map
      (fun s => decide ((s.notified.map Notify.item).Sublist s.enqueued)) = some false := by
    decide +kernel
  obtain ⟨s, hs, hord⟩ := Option.map_eq_some_iff.mp hrun
  exact of_decide_eq_false hord (h 1 _ s hs).1

/-- One thread is never overtaken. -/
theorem oldestFirst_of_one {s : Server} (h : s.senders.length ≤ 1) (a : Action) :
    OldestFirst s a := by
  cases a with
  | notify i notifyRet =>
    intro item hitem other hother
    obtain ⟨x, hi, hx⟩ := Option.bind_eq_some_iff.mp hitem
    obtain ⟨before, after, hl, -⟩ := split_at hi
    rw [hl, List.length_append, List.length_cons] at h
    obtain rfl : before = [] := List.length_eq_zero_iff.mp (by omega)
    obtain rfl : after = [] := List.length_eq_zero_iff.mp (by omega)
    rw [held_split s hl, hx] at hother
    simp at hother
    rw [hother]
  | _ => trivial

theorem send_now {s : Server} {item : Item} {j ok fail : Nat}
    (h : s.senders[j]? = some ⟨.sending item, ok, fail⟩) :
    ∃ t, step s (.notify j 0) = some t ∧ t.enqueued = s.enqueued ∧
      t.notified.map Notify.item = s.notified.map Notify.item ++ [item] := by
  simp only [step, senderNotify, h]
  exact ⟨_, rfl, rfl, by simp⟩

theorem send_held {s : Server} {item : Item} (h : item ∈ s.held) :
    ∃ more t, run step s more = some t ∧ t.enqueued = s.enqueued ∧
      t.notified.map Notify.item = s.notified.map Notify.item ++ [item] := by
  obtain ⟨y, hy, hheld⟩ := List.mem_filterMap.mp h
  obtain ⟨j, hj⟩ := List.getElem?_of_mem hy
  obtain ⟨hlt, -⟩ := List.getElem?_eq_some_iff.mp hj
  rcases y with ⟨phase, ok, fail⟩
  cases phase with
  | reading => cases hheld
  | waiting item' =>
    obtain rfl := Option.some.inj hheld
    have hflow : step s (.flowCtrl j 1) =
        some { s with senders := s.senders.set j ⟨.sending item', ok, fail⟩ } := by
      simp only [step, senderFlowCtrl, hj]
      rfl
    obtain ⟨t, ht, henq, hnot⟩ := send_now
      (s := { s with senders := s.senders.set j ⟨.sending item', ok, fail⟩ })
      (List.getElem?_set_self hlt)
    exact ⟨[.flowCtrl j 1, .notify j 0], t, by rw [run_cons hflow, run_cons ht, run_nil],
      henq, hnot⟩
  | sending item' =>
    obtain rfl := Option.some.inj hheld
    obtain ⟨t, ht, henq, hnot⟩ := send_now hj
    exact ⟨[.notify j 0], t, by rw [run_cons ht, run_nil], henq, hnot⟩

/-- A thread that overtakes another one leads to a link out of order. -/
theorem overtaken_out_of_order {uartQueueId : Nat} {acts : List Action} {s t : Server}
    {i notifyRet : Nat} (hrun : run step (Server.start uartQueueId) acts = some s)
    (hstep : step s (.notify i notifyRet) = some t)
    (hover : ¬ OldestFirst s (.notify i notifyRet)) :
    ∃ more u, run step t more = some u ∧ ¬ InOrder u := by
  simp only [OldestFirst, not_forall, not_le] at hover
  obtain ⟨item, hitem, other, hother, hlt⟩ := hover
  obtain ⟨x, hi, hx⟩ := Option.bind_eq_some_iff.mp hitem
  obtain ⟨item', before, after, x', y, hi', hx', hy, hl, rfl⟩ := senderNotify_spec hstep
  obtain rfl := Option.some.inj (hi.symm.trans hi')
  obtain rfl := Option.some.inj (hx.symm.trans hx')
  -- The older message is still held after the step.
  rw [held_split s hl, hx] at hother
  have hstill : other ∈ before.filterMap Sender.held ++ after.filterMap Sender.held := by
    simp only [Option.toList_some, List.mem_append, List.mem_singleton] at hother ⊢
    rcases hother with h | rfl | h
    · exact Or.inl h
    · exact absurd hlt (lt_irrefl _)
    · exact Or.inr h
  have hmem : other ∈ Server.held { s with
      senders := before ++ y :: after
      notified := s.notified ++ [⟨item, s.sleConnHdl, s.link⟩] } := by
    rw [held_split _ rfl, hy]
    exact hstill
  obtain ⟨more, u, hmore, henq, hnot⟩ := send_held hmem
  refine ⟨more, u, hmore, fun hord => ?_⟩
  have hnum : Numbered s := run_preserves (fun _ _ _ => step_numbered) (numbered_start _) hrun
  have hsorted := (henq ▸ hnum.pairwise).sublist hord.1
  rw [hnot, List.map_append, List.append_assoc] at hsorted
  have hpair := (List.pairwise_append.mp hsorted).2.1
  simp only [List.map_cons, List.map_nil, List.cons_append, List.nil_append,
    List.pairwise_cons] at hpair
  exact absurd (hpair.1 other (by simp)) (by omega)

end NearLink.Speed
