import NearLink.Speed.Reassembly
import NearLink.Speed.Server

/-!
# What a step of the throughput server can do

One spec per callback and per step of a sender thread.
-/

namespace NearLink.Speed

/-! ## Threads in a list -/

theorem split_at {α : Type*} {l : List α} {i : Nat} {x : α} (h : l[i]? = some x) :
    ∃ before after, l = before ++ x :: after ∧ ∀ y, l.set i y = before ++ y :: after := by
  obtain ⟨hi, rfl⟩ := List.getElem?_eq_some_iff.mp h
  refine ⟨l.take i, l.drop (i + 1), ?_, fun y => ?_⟩
  · rw [← List.drop_eq_getElem_cons hi, List.take_append_drop]
  · rw [List.set_eq_take_append_cons_drop, if_pos hi]

theorem held_start (ts : List Sender) (created : Bool) :
    (if created then ts ++ [Sender.start] else ts).filterMap Sender.held =
      ts.filterMap Sender.held := by
  cases created <;> simp [Sender.start, Sender.held]

/-! ## Callbacks -/

@[simp] def Action.disconnects : Action → Bool
  | .connectState _ .disconnected _ _ => true
  | _ => false

structure SameTraffic (s t : Server) : Prop where
  rx : t.rx = s.rx
  held : t.held = s.held
  delivered : t.delivered = s.delivered
  enqueued : t.enqueued = s.enqueued
  notified : t.notified = s.notified
  uartQueueId : t.uartQueueId = s.uartQueueId

theorem startSendThread_spec (created : Bool) (s : Server) :
    SameTraffic s (startSendThread created s) ∧ (startSendThread created s).queue = s.queue ∧
      (startSendThread created s).link = s.link :=
  ⟨⟨rfl, held_start _ _, rfl, rfl, rfl, rfl⟩, rfl, rfl⟩

theorem slePairCompleteCbk_spec (status : Nat) (created : Bool) (s : Server) :
    SameTraffic s (slePairCompleteCbk status created s) ∧
      (slePairCompleteCbk status created s).queue = s.queue ∧
      (slePairCompleteCbk status created s).link = s.link := by
  unfold slePairCompleteCbk
  split
  · exact ⟨⟨rfl, rfl, rfl, rfl, rfl, rfl⟩, rfl, rfl⟩
  · exact startSendThread_spec created s

theorem ssapsReadRequestCbk_spec (created : Bool) (s : Server) :
    SameTraffic s (ssapsReadRequestCbk created s) ∧
      (ssapsReadRequestCbk created s).queue = s.queue ∧
      (ssapsReadRequestCbk created s).link = s.link :=
  ⟨⟨rfl, held_start _ _, rfl, rfl, rfl, rfl⟩, rfl, rfl⟩

theorem connectState_spec (connId : Nat) (connState : AcbState) (pairState : PairState)
    (created : Bool) (s : Server) :
    let t := trackLink connState (sleConnectStateChangedCbk connId connState pairState created s)
    SameTraffic s t ∧
      t.queue = (if connState = .disconnected ∧ s.uartQueueId ≠ 0 then [] else s.queue) ∧
      t.link = match connState with
        | .connected => some s.delivered.length
        | .disconnected => none
        | .other => s.link := by
  cases connState with
  | connected =>
    simp only [trackLink, sleConnectStateChangedCbk]
    split
    · exact ⟨⟨rfl, held_start _ _, rfl, rfl, rfl, rfl⟩, by simp [startSendThread], rfl⟩
    · exact ⟨⟨rfl, rfl, rfl, rfl, rfl, rfl⟩, by simp, rfl⟩
  | disconnected =>
    exact ⟨⟨rfl, rfl, rfl, rfl, rfl, rfl⟩, by simp [trackLink, sleConnectStateChangedCbk], rfl⟩
  | other =>
    exact ⟨⟨rfl, rfl, rfl, rfl, rfl, rfl⟩, by simp [trackLink, sleConnectStateChangedCbk], rfl⟩

/-! ## The UART callback -/

theorem uartStep_spec {fuel : Nat} {c : Call} {s t : Server} (h : uartStep fuel c s = some t) :
    ∃ items, t.queue = s.queue ++ items ∧ t.enqueued = s.enqueued ++ items ∧
      items = numbered s.enqueued.length
        (s.delivered.length - (if (uart1RxCallback fuel s.uartQueueId c s.rx).overflowed then 0
          else s.rx.reassembleLen))
        (taken c.accept (uart1RxCallback fuel s.uartQueueId c s.rx).offers) ∧
      t.rx = (uart1RxCallback fuel s.uartQueueId c s.rx).rx ∧
      t.delivered = s.delivered ++ c.bytes ∧ t.senders = s.senders ∧ t.notified = s.notified ∧
      t.link = s.link ∧ t.uartQueueId = s.uartQueueId ∧ t.sendThreadStarted = s.sendThreadStarted := by
  simp only [uartStep, Option.ite_none_right_eq_some] at h
  obtain rfl := Option.some.inj h.2
  exact ⟨_, rfl, rfl, rfl, rfl, rfl, rfl, rfl, rfl, rfl, rfl⟩

theorem numbered_serials (serial base : Nat) (offers : List Offer) :
    (numbered serial base offers).map Item.serial = List.range' serial offers.length := by
  induction offers generalizing serial with
  | nil => rfl
  | cons o rest ih => simp [numbered, ih, List.range'_succ]

theorem mem_numbered {serial base : Nat} {offers : List Offer} {item : Item}
    (h : item ∈ numbered serial base offers) :
    ∃ o ∈ offers, item.origin = base + o.pos ∧ item.msg = o.msg := by
  induction offers generalizing serial with
  | nil => cases h
  | cons o rest ih =>
    rcases List.mem_cons.mp h with rfl | hrest
    · exact ⟨o, List.mem_cons_self, rfl, rfl⟩
    · obtain ⟨o', ho', heq⟩ := ih hrest
      exact ⟨o', List.mem_cons_of_mem o ho', heq⟩

theorem mem_of_mem_taken {accept : Nat → Bool} {offers : List Offer} {o : Offer}
    (h : o ∈ taken accept offers) : o ∈ offers := by
  obtain ⟨p, hp, rfl⟩ := List.mem_map.mp h
  exact List.fst_mem_of_mem_zipIdx (List.mem_of_mem_filter hp)

theorem numbered_length (serial base : Nat) (offers : List Offer) :
    (numbered serial base offers).length = offers.length := by
  have h := congrArg List.length (numbered_serials serial base offers)
  rwa [List.length_map, List.length_range'] at h

/-! ## The sender threads -/

theorem senderRead_spec {i : Nat} {success : Bool} {s t : Server}
    (h : senderRead i success s = some t) :
    t = s ∨ success = true ∧ ∃ item rest before after x y, s.queue = item :: rest ∧
      s.senders = before ++ x :: after ∧ x.held = none ∧
      y.held = (if item.msg.len = 0 then none else some item) ∧
      t = { s with queue := rest, senders := before ++ y :: after } := by
  unfold senderRead at h
  split at h
  · rename_i ok fail hi
    obtain ⟨before, after, hl, hset⟩ := split_at hi
    cases success with
    | false => exact Or.inl (Option.some.inj h).symm
    | true =>
      cases hq : s.queue with
      | nil => simp [hq] at h
      | cons item rest =>
        simp only [hq, if_true] at h
        refine Or.inr ⟨rfl, item, rest, before, after, _, ⟨_, ok, fail⟩, rfl, hl, rfl, ?_,
          by rw [← hset]; exact (Option.some.inj h).symm⟩
        split <;> rfl
  · cases h

theorem senderFlowCtrl_spec {i flag : Nat} {s t : Server} (h : senderFlowCtrl i flag s = some t) :
    ∃ senders, t = { s with senders := senders } ∧ senders.length = s.senders.length ∧
      senders.filterMap Sender.held = s.held := by
  unfold senderFlowCtrl at h
  split at h
  · rename_i item ok fail hi
    split at h
    · exact ⟨s.senders, (Option.some.inj h).symm, rfl, rfl⟩
    · obtain ⟨before, after, hl, hset⟩ := split_at hi
      refine ⟨_, (Option.some.inj h).symm, List.length_set, ?_⟩
      rw [hset, Server.held, hl]
      simp [List.filterMap_append, Sender.held]
  · cases h

theorem senderNotify_spec {i notifyRet : Nat} {s t : Server}
    (h : senderNotify i notifyRet s = some t) :
    ∃ item before after x y, s.senders[i]? = some x ∧ x.held = some item ∧ y.held = none ∧
      s.senders = before ++ x :: after ∧
      t = { s with
        senders := before ++ y :: after
        notified := s.notified ++ [⟨item, s.sleConnHdl, s.link⟩] } := by
  unfold senderNotify at h
  split at h
  · rename_i item ok fail hi
    obtain ⟨before, after, hl, hset⟩ := split_at hi
    refine ⟨item, before, after, _, _, hi, rfl, ?_, hl, by rw [← hset]; exact (Option.some.inj h).symm⟩
    split <;> rfl
  · cases h

theorem held_split (s : Server) {before after : List Sender} {x : Sender}
    (h : s.senders = before ++ x :: after) :
    s.held = before.filterMap Sender.held ++ (x.held.toList ++ after.filterMap Sender.held) := by
  rw [Server.held, h, filterMap_split]

end NearLink.Speed
