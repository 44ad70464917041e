import NearLink.Speed.ServerProofs

/-!
# One link after another

A frame that the server relays belongs to the link on which it is sent if nothing of an earlier
link is left when a link begins, and threads do not take messages from the queue between links.
-/

namespace NearLink.Speed

/-- Nothing of an earlier link is left when a link begins, nothing but the queue has to be
emptied when it ends, and no message is taken from the queue between links. -/
def CleanSwitch (s : Server) : Action → Prop
  | .connectState _ .connected _ _ => s.queue = [] ∧ s.held = [] ∧ Startless s.rx.received
  | .connectState _ .disconnected _ _ => s.held = [] ∧ s.rx.reassembleLen = 0
  | .read _ true => ∀ item ∈ s.queue.head?, item.msg.len ≠ 0 → s.link ≠ none
  | _ => True

instance (s : Server) : ∀ a, Decidable (CleanSwitch s a)
  | .connectState _ .connected _ _ => inferInstanceAs (Decidable
      (s.queue = [] ∧ s.held = [] ∧ Startless s.rx.received))
  | .connectState _ .disconnected _ _ => inferInstanceAs (Decidable
      (s.held = [] ∧ s.rx.reassembleLen = 0))
  | .read _ true => inferInstanceAs (Decidable
      (∀ item ∈ s.queue.head?, item.msg.len ≠ 0 → s.link ≠ none))
  | .uart _ _ | .connectState _ .other _ _ | .pairComplete _ _ _ | .readRequest _ | .read _ false
  | .flowCtrl _ _ | .notify _ _ => .isTrue trivial

/-- The message stands in the delivered bytes where its origin says. -/
def Placed (delivered : List Byte) (item : Item) : Prop :=
  item.msg.data <+: delivered.drop item.origin

theorem Placed.append {delivered : List Byte} {item : Item} (h : Placed delivered item)
    (bytes : List Byte) : Placed (delivered ++ bytes) item := by
  rw [Placed, List.drop_append]
  exact h.trans (List.prefix_append _ _)

/-- What holds in every state of a run whose links change cleanly. -/
structure Session (s : Server) : Prop where
  len_le : s.rx.reassembleLen ≤ 6000
  residue : s.rx.received <:+ s.delivered
  placed : ∀ item ∈ s.queue ++ s.held, Placed s.delivered item
  closed : s.uartQueueId = 0 → s.queue = []
  idle : s.link = none → s.held = []
  fresh : ∀ since, s.link = some since → since ≤ s.delivered.length ∧
    (∀ item ∈ s.queue ++ s.held, since ≤ item.origin) ∧
    Startless ((s.delivered.take since).drop (s.delivered.length - s.rx.reassembleLen))
  sent : ∀ n ∈ s.notified, Placed s.delivered n.item ∧
    ∃ since, n.link = some since ∧ since ≤ n.item.origin

theorem Session.start (uartQueueId : Nat) : Session (Server.start uartQueueId) where
  len_le := Nat.zero_le _
  residue := List.suffix_refl _
  placed := by simp [Server.start, Server.held]
  closed _ := rfl
  idle _ := rfl
  fresh := by simp [Server.start]
  sent := by simp [Server.start]

/-! ## The UART -/

theorem Session.drop_eq_seen {s : Server} (h : Session s) (overflowed : Bool) (c : Call) :
    (s.delivered ++ c.bytes).drop
      (s.delivered.length - (if overflowed then 0 else s.rx.reassembleLen)) =
        s.rx.seen overflowed c := by
  rw [List.drop_append_of_le_length (Nat.sub_le _ _), Rx.seen]
  congr 1
  cases overflowed with
  | true => simp [Rx.kept, Rx.received]
  | false =>
    have hdrop := List.suffix_iff_eq_drop.mp h.residue
    rw [Rx.received_length h.len_le] at hdrop
    exact hdrop.symm

theorem uartStep_session {fuel : Nat} {c : Call} {s t : Server} (h : Session s)
    (hstep : uartStep fuel c s = some t) : Session t := by
  obtain ⟨items, hq, -, hitems, hrx, hdel, hsenders, hnot, hlink, hid, -⟩ := uartStep_spec hstep
  obtain ⟨hoffers, hrec, hlen⟩ := uart1RxCallback_offers fuel s.uartQueueId c h.len_le
  simp only [← h.drop_eq_seen] at hoffers hrec
  generalize hbase : s.delivered.length - (if (uart1RxCallback fuel s.uartQueueId c s.rx).overflowed
    then 0 else s.rx.reassembleLen) = base at hitems hoffers hrec
  have hheld : t.held = s.held := by rw [Server.held, hsenders]; rfl
  have hb1 : s.delivered.length - s.rx.reassembleLen ≤ base := by
    rw [← hbase]; split <;> omega
  have hb2 : base ≤ s.delivered.length := by omega
  -- Every new message was found behind a header in what the loop may look at.
  have hnew : ∀ item ∈ items, Placed t.delivered item ∧ base ≤ item.origin ∧
      Headed (t.delivered.drop item.origin) := by
    intro item hitem
    rw [hitems] at hitem
    obtain ⟨o, ho, horigin, hmsg⟩ := mem_numbered hitem
    obtain ⟨hdata, hhead⟩ := hoffers o (mem_of_mem_taken ho)
    rw [List.drop_drop] at hdata hhead
    rw [Placed, hdel, hmsg, horigin]
    exact ⟨hdata, by omega, hhead⟩
  have hwaiting : ∀ item ∈ t.queue ++ t.held, item ∈ s.queue ++ s.held ∨ item ∈ items := by
    intro item hitem
    rw [hq, hheld, List.append_assoc, List.mem_append, List.mem_append] at hitem
    rcases hitem with hold | hitem | hold
    · exact Or.inl (List.mem_append_left _ hold)
    · exact Or.inr hitem
    · exact Or.inl (List.mem_append_right _ hold)
  refine ⟨by rw [hrx]; exact hlen, ?_, ?_, ?_, ?_, ?_, ?_⟩
  · rw [hrx, hdel]
    exact hrec.trans (List.drop_suffix _ _)
  · intro item hitem
    rcases hwaiting item hitem with hold | hitem
    · rw [hdel]; exact (h.placed item hold).append _
    · exact (hnew item hitem).1
  · intro h0
    rw [hid] at h0
    rw [h0, uart1RxCallback_closed fuel c s.rx] at hitems
    rw [hq, h.closed h0, hitems]
    rfl
  · intro hnone
    rw [hheld]
    exact h.idle (hlink.symm.trans hnone)
  · intro since hsince
    obtain ⟨hle, horigin, hstart⟩ := h.fresh since (hlink.symm.trans hsince)
    have htake : t.delivered.take since = s.delivered.take since := by
      rw [hdel, List.take_append_of_le_length hle]
    refine ⟨by rw [hdel, List.length_append]; omega, ?_, ?_⟩
    · intro item hitem
      rcases hwaiting item hitem with hold | hitem
      · exact horigin item hold
      · obtain ⟨-, hbase', hhead⟩ := hnew item hitem
        rw [← htake] at hstart
        exact hstart.le_of_headed (hb1.trans hbase') hhead
    · rw [htake]
      apply hstart.of_suffix
      have hlen' := hrec.length_le
      rw [Rx.received_length hlen, List.length_drop, ← hdel, ← hrx] at hlen'
      have hdl : base ≤ t.delivered.length := by rw [hdel, List.length_append]; omega
      obtain ⟨k, hk⟩ := Nat.exists_eq_add_of_le
        (show s.delivered.length - s.rx.reassembleLen ≤ t.delivered.length - t.rx.reassembleLen by
          have := h.len_le; omega)
      rw [hk, ← List.drop_drop]
      exact List.drop_suffix _ _
  · intro n hn
    rw [hnot] at hn
    rw [hdel]
    exact ⟨(h.sent n hn).1.append _, (h.sent n hn).2⟩

/-! ## The callbacks of the stack -/

theorem Session.same {s t : Server} (h : Session s) (hst : SameTraffic s t)
    (hq : t.queue = s.queue) (hlink : t.link = s.link) : Session t := by
  obtain ⟨hrx, hheld, hdel, -, hnot, hid⟩ := hst
  constructor
  · rw [hrx]; exact h.len_le
  · rw [hrx, hdel]; exact h.residue
  · rw [hq, hheld, hdel]; exact h.placed
  · rw [hid, hq]; exact h.closed
  · rw [hlink, hheld]; exact h.idle
  · rw [hlink, hq, hheld, hdel, hrx]; exact h.fresh
  · rw [hnot, hdel]; exact h.sent

theorem Session.connected {s t : Server} (h : Session s) (hst : SameTraffic s t)
    (hq : t.queue = s.queue) (hlink : t.link = some s.delivered.length)
    (hclean : s.queue = [] ∧ s.held = [] ∧ Startless s.rx.received) : Session t := by
  obtain ⟨hrx, hheld, hdel, -, hnot, hid⟩ := hst
  obtain ⟨hq0, hheld0, hstart⟩ := hclean
  constructor
  · rw [hrx]; exact h.len_le
  · rw [hrx, hdel]; exact h.residue
  · rw [hq, hheld, hdel]; exact h.placed
  · rw [hid, hq]; exact h.closed
  · rw [hlink]; simp
  · intro since hsince
    obtain rfl := Option.some.inj (hlink.symm.trans hsince)
    have hdrop := List.suffix_iff_eq_drop.mp h.residue
    rw [Rx.received_length h.len_le] at hdrop
    rw [hq, hheld, hdel, hrx, hq0, hheld0, List.take_length, ← hdrop]
    exact ⟨Nat.le_refl _, by simp, hstart⟩
  · rw [hnot, hdel]; exact h.sent

theorem Session.disconnected {s t : Server} (h : Session s) (hst : SameTraffic s t)
    (hq : t.queue = []) (hlink : t.link = none) (hheld0 : s.held = []) : Session t := by
  obtain ⟨hrx, hheld, hdel, -, hnot, hid⟩ := hst
  constructor
  · rw [hrx]; exact h.len_le
  · rw [hrx, hdel]; exact h.residue
  · rw [hq, hheld, hheld0]; simp
  · exact fun _ => hq
  · rw [hheld]; exact fun _ => hheld0
  · rw [hlink]; simp
  · rw [hnot, hdel]; exact h.sent

theorem Session.drained {s : Server} (h : Session s) :
    (if AcbState.disconnected = .disconnected ∧ s.uartQueueId ≠ 0 then [] else s.queue) = [] := by
  split_ifs with hid
  · rfl
  · exact h.closed (by simpa using hid)

theorem connectState_session {connId : Nat} {connState : AcbState} {pairState : PairState}
    {created : Bool} {s t : Server} (h : Session s)
    (hok : CleanSwitch s (.connectState connId connState pairState created))
    (hstep : step s (.connectState connId connState pairState created) = some t) : Session t := by
  obtain rfl := Option.some.inj hstep
  obtain ⟨hsame, hq, hlink⟩ := connectState_spec connId connState pairState created s
  cases connState with
  | connected => exact h.connected hsame (by simpa using hq) hlink hok
  | disconnected => exact h.disconnected hsame (hq.trans h.drained) hlink hok.1
  | other => exact h.same hsame (by simpa using hq) hlink

/-! ## The threads -/

theorem senderRead_session {i : Nat} {success : Bool} {s t : Server} (h : Session s)
    (hok : CleanSwitch s (.read i success)) (hstep : senderRead i success s = some t) :
    Session t := by
  rcases senderRead_spec hstep with rfl | ⟨rfl, item, rest, before, after, x, y, hq, hl, hx, hy, rfl⟩
  · exact h
  have hheld := held_split s hl
  rw [hx] at hheld
  -- The message moves from the queue to the thread, if it is not empty.
  have hsub : ∀ other ∈ rest ++ Server.held { s with queue := rest, senders := before ++ y :: after },
      other ∈ s.queue ++ s.held := by
    intro other hother
    rw [held_split _ rfl, hy] at hother
    rw [hq, hheld]
    split at hother <;>
      simp only [Option.toList_none, Option.toList_some, List.mem_append, List.mem_cons,
        List.not_mem_nil, or_false, false_or] at hother ⊢ <;>
      tauto
  refine ⟨h.len_le, h.residue, fun o ho => h.placed o (hsub o ho), fun h0 => ?_, fun hnone => ?_,
    fun since hsince => ?_, h.sent⟩
  · simp [h.closed h0] at hq
  · have h0 := h.idle hnone
    rw [hheld] at h0
    have hempty : item.msg.len = 0 := by
      by_contra hne
      exact hok item (by simp [hq]) hne hnone
    rw [held_split _ rfl, hy, if_pos hempty]
    exact h0
  · obtain ⟨hle, horigin, hstart⟩ := h.fresh since hsince
    exact ⟨hle, fun o ho => horigin o (hsub o ho), hstart⟩

theorem senderFlowCtrl_session {i flag : Nat} {s t : Server} (h : Session s)
    (hstep : senderFlowCtrl i flag s = some t) : Session t := by
  obtain ⟨senders, rfl, -, hheld⟩ := senderFlowCtrl_spec hstep
  exact h.same ⟨rfl, hheld, rfl, rfl, rfl, rfl⟩ rfl rfl

theorem senderNotify_session {i notifyRet : Nat} {s t : Server} (h : Session s)
    (hstep : senderNotify i notifyRet s = some t) : Session t := by
  obtain ⟨item, before, after, x, y, hi, hx, hy, hl, rfl⟩ := senderNotify_spec hstep
  have hheld := held_split s hl
  rw [hx] at hheld
  have hmem : item ∈ s.queue ++ s.held := by rw [hheld]; simp
  have hsub : ∀ other ∈ s.queue ++ (before ++ y :: after).filterMap Sender.held,
      other ∈ s.queue ++ s.held := by
    intro other hother
    rw [List.filterMap_append, List.filterMap_cons, hy] at hother
    rw [hheld]
    simp only [Option.toList_some, List.mem_append, List.mem_cons, List.not_mem_nil,
      or_false] at hother ⊢
    tauto
  refine ⟨h.len_le, h.residue, fun o ho => h.placed o (hsub o ho), h.closed, fun hnone => ?_,
    fun since hsince => ?_, ?_⟩
  · -- The thread held a message, so a link is connected.
    have h0 := h.idle hnone
    simp [hheld] at h0
  · obtain ⟨hle, horigin, hstart⟩ := h.fresh since hsince
    exact ⟨hle, fun o ho => horigin o (hsub o ho), hstart⟩
  · intro n hn
    rcases List.mem_append.mp hn with hold | hnew
    · exact h.sent n hold
    · obtain rfl := List.mem_singleton.mp hnew
      refine ⟨h.placed item hmem, ?_⟩
      cases hlink : s.link with
      | none => have h0 := h.idle hlink; simp [hheld] at h0
      | some since => exact ⟨since, rfl, (h.fresh since hlink).2.1 item hmem⟩

theorem step_session {s t : Server} {a : Action} (h : Session s) (hok : CleanSwitch s a)
    (hstep : step s a = some t) : Session t := by
  cases a with
  | uart fuel c => exact uartStep_session h hstep
  | connectState connId connState pairState created => exact connectState_session h hok hstep
  | pairComplete connId status created =>
    obtain rfl := Option.some.inj hstep
    obtain ⟨hsame, hq, hlink⟩ := slePairCompleteCbk_spec status created s
    exact h.same hsame hq hlink
  | readRequest created =>
    obtain rfl := Option.some.inj hstep
    obtain ⟨hsame, hq, hlink⟩ := ssapsReadRequestCbk_spec created s
    exact h.same hsame hq hlink
  | read i success => exact senderRead_session h hok hstep
  | flowCtrl i flag => exact senderFlowCtrl_session h hstep
  | notify i notifyRet => exact senderNotify_session h hstep

/-! ## No old data -/

/-- Each frame was sent while a link was connected, and its bytes were delivered after that
link had begun. -/
def OwnBytes (s : Server) : Prop :=
  ∀ n ∈ s.notified, Placed s.delivered n.item ∧ ∃ since, n.link = some since ∧ since ≤ n.item.origin

/-- Nothing is left in the queue, in a thread or in the buffer. -/
def Emptied (s : Server) : Prop := s.queue = [] ∧ s.held = [] ∧ s.rx.reassembleLen = 0

/-- What a run should come to: own bytes on every link, and nothing left when a link ends. -/
def Isolated (acts : List Action) (s : Server) : Prop :=
  OwnBytes s ∧ ∀ before a, acts = before ++ [a] → a.disconnects = true → Emptied s

theorem emptied_of_disconnects {s t : Server} {a : Action} (h : Session s) (hok : CleanSwitch s a)
    (ha : a.disconnects = true) (hstep : step s a = some t) : Emptied t := by
  match a, ha with
  | .connectState connId .disconnected pairState created, _ =>
    obtain rfl := Option.some.inj hstep
    obtain ⟨hsame, hq, -⟩ := connectState_spec connId .disconnected pairState created s
    exact ⟨hq.trans h.drained, hsame.held.trans hok.1, by rw [hsame.rx]; exact hok.2⟩

/-- **No old data after a reconnect**, as long as links change cleanly. -/
theorem links_isolated {uartQueueId : Nat} {acts : List Action} {s : Server}
    (hok : Meets step CleanSwitch (Server.start uartQueueId) acts)
    (hrun : run step (Server.start uartQueueId) acts = some s) : Isolated acts s := by
  have hinv : ∀ {as t}, Meets step CleanSwitch (Server.start uartQueueId) as →
      run step (Server.start uartQueueId) as = some t → Session t := fun hok hrun =>
    run_invariant (fun _ _ _ => step_session) (Session.start uartQueueId) hok hrun
  refine ⟨(hinv hok hrun).sent, ?_⟩
  rintro before a rfl ha
  obtain ⟨t, hbefore, hstep⟩ := run_snoc.mp hrun
  obtain ⟨hok', ha'⟩ := (meets_snoc a hbefore).mp hok
  exact emptied_of_disconnects (hinv hok' hbefore) ha' ha hstep

def oneFrame : Call := .ok [0xAA, 0x55, 0, 0, 0, 0, 0x55, 0xAA]

def twoLinks : List Action :=
  [.connectState 1 .connected .paired true, .uart 100 oneFrame, .read 0 true, .flowCtrl 0 1,
    .notify 0 0, .connectState 1 .disconnected .paired true, .connectState 1 .connected .paired false,
    .uart 100 oneFrame, .read 0 true, .flowCtrl 0 1, .notify 0 0]

theorem links_isolated_two_links :
    ∃ s, run step (Server.start 1) twoLinks = some s ∧ s.notified.length = 2 ∧
      Isolated twoLinks s := by
  have hrun : (run step (Server.start 1) twoLinks).map (fun s => s.notified.length) = some 2 := by
    decide +kernel
  obtain ⟨s, hs, hlen⟩ := Option.map_eq_some_iff.mp hrun
  exact ⟨s, hs, hlen, links_isolated (by decide +kernel) hs⟩

/-- The link ends while a thread waits for the flow control. -/
def heldAcross : List Action :=
  [.connectState 1 .connected .paired true, .uart 100 oneFrame, .read 0 true,
    .connectState 1 .disconnected .paired true, .connectState 1 .connected .paired false,
    .flowCtrl 0 1, .notify 0 0]

theorem links_not_isolated :
    ¬ ∀ uartQueueId acts s, run step (Server.start uartQueueId) acts = some s → Isolated acts s := by
  intro h
  have hrun : (run step (Server.start 1) heldAcross).map
      (fun s => s.notified.map fun n => (n.link, n.item.origin)) = some [(some 8, 0)] := by
    decide +kernel
  obtain ⟨s, hs, hsent⟩ := Option.map_eq_some_iff.mp hrun
  obtain ⟨n, hn, hpair⟩ := List.mem_map.mp (hsent ▸ List.mem_singleton_self (some 8, 0))
  obtain ⟨-, since, hlink, hle⟩ := (h 1 _ s hs).1 n hn
  obtain ⟨h8, h0⟩ := Prod.mk.inj hpair
  rw [h8] at hlink
  have := Option.some.inj hlink
  omega

end NearLink.Speed
