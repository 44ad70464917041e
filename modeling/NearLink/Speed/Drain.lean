import NearLink.Speed.Network

/-!
# Nothing under way is stuck

Once a sender thread has been started, the messages that are under way can all be written, whatever
has happened before.
-/

namespace NearLink.Speed

/-! ## How far the messages have to go -/

def Sender.load (t : Sender) : Nat :=
  match t.phase with
  | .reading => 0
  | .waiting _ => 5
  | .sending _ => 4

def TxThread.load (t : TxThread) : Nat :=
  match t.phase with
  | .reading => 0
  | .writing _ => 1

namespace Network

/-- Each message counts for the steps that it has yet to take. -/
def load (n : Network) : Nat :=
  6 * n.server.queue.length + (n.server.senders.map Sender.load).sum + 3 * n.air.length +
    2 * n.client.queue.length + (n.client.thread.map TxThread.load).getD 0

/-- Where a message can be that is not yet written, oldest place last. -/
def underWay (n : Network) : List (List Byte) :=
  n.client.pending ++ (n.air ++ n.server.held ++ n.server.queue).map Item.data

theorem underWay_of_load {n : Network} (h : n.load = 0) : n.underWay = [] := by
  unfold load at h
  have hqueue : n.server.queue = [] := List.length_eq_zero_iff.mp (by omega)
  have hair : n.air = [] := List.length_eq_zero_iff.mp (by omega)
  have hclient : n.client.queue = [] := List.length_eq_zero_iff.mp (by omega)
  have hsum : (n.server.senders.map Sender.load).sum = 0 := by omega
  have hheld : n.server.held = [] := by
    unfold Server.held
    rw [List.filterMap_eq_nil_iff]
    rintro ⟨phase, ok, fail⟩ ht
    have hzero := List.sum_eq_zero_iff_forall_eq_nat.mp hsum _ (List.mem_map_of_mem ht)
    cases phase with
    | reading => rfl
    | waiting item => cases hzero
    | sending item => cases hzero
  have hpending : n.client.pending = [] := by
    unfold Client.pending
    rw [hclient]
    cases hthread : n.client.thread with
    | none => rfl
    | some t =>
      obtain ⟨phase, ok, fail⟩ := t
      rw [hthread, Option.map_some, Option.getD_some] at h
      cases phase with
      | reading => rfl
      | writing msg => simp [TxThread.load] at h
  rw [underWay, hpending, hair, hheld, hqueue]
  rfl

/-! ## One step further -/

/-- A step of a thread, or a delivery. No bytes come from the UART, and the connection stays. -/
def inner : Action → Bool
  | .server (.read _ _) | .server (.flowCtrl _ _) | .server (.notify _ _) => true
  | .client (.txRead _) | .client (.txWrite _) => true
  | .deliver _ _ => true
  | .server _ | .client _ | .lose _ => false

/-- `rest` is what else was queued and is not in the hands of the relay, up to empty messages. -/
structure Drains (uartTxQueueId : Nat) (created : Bool) (enqueued : List Item)
    (rest : Multiset (List Byte)) (n : Network) : Prop where
  places : ∃ m, Places uartTxQueueId created m n ∧ (m.map Item.data).filter (· ≠ []) = rest
  enqueued : n.server.enqueued = enqueued
  sender : n.server.senders ≠ []
  thread : n.client.thread.isSome

/-- A step that brings the messages further and loses no message that carries anything. -/
structure Further (n : Network) (a : Action) (n' : Network) : Prop where
  inner : inner a
  step : step n a = some n'
  lost : ∀ item ∈ lost n a, item.data = []
  enqueued : n'.server.enqueued = n.server.enqueued
  sender : n'.server.senders.length = n.server.senders.length
  thread : n'.client.thread.isSome
  load : n'.load < n.load

theorem Drains.further {uartTxQueueId : Nat} {created : Bool} {enqueued : List Item}
    {rest : Multiset (List Byte)} {n n' : Network} {a : Action}
    (h : Drains uartTxQueueId created enqueued rest n) (hn : Further n a n') :
    Drains uartTxQueueId created enqueued rest n' := by
  obtain ⟨m, hplaces, hrest⟩ := h.places
  refine ⟨⟨m + Network.lost n a, step_places m n a n' hplaces hn.step, ?_⟩,
    hn.enqueued.trans h.enqueued, ?_, hn.thread⟩
  · have hnone : ((Network.lost n a).map Item.data).filter (· ≠ []) = 0 := by
      rw [Multiset.filter_eq_nil]
      intro bytes hbytes
      obtain ⟨item, hitem, rfl⟩ := Multiset.mem_map.mp hbytes
      exact not_not.mpr (hn.lost item hitem)
    rw [Multiset.map_add, Multiset.filter_add, hrest, hnone, add_zero]
  · rw [← List.length_pos_iff, hn.sender, List.length_pos_iff]
    exact h.sender

section Step

variable {n : Network}

theorem further_client {a : Client.Action} {c : Client} (hinner : inner (.client a))
    (hquiet : a.data.isNone) (hc : Client.step n.client a = some c) (hthread : c.thread.isSome)
    (hload : 2 * c.queue.length + (c.thread.map TxThread.load).getD 0 <
      2 * n.client.queue.length + (n.client.thread.map TxThread.load).getD 0) :
    ∃ n', Further n (.client a) n' := by
  refine ⟨_, hinner, Sides.step_hear hquiet hc, ?_, rfl, rfl, hthread, ?_⟩
  · simp [lost, Link.atServer, Sides.lost, lostArrived]
  · simp only [load]
    omega

theorem further_txWrite {msg : UartTxMsg} {ok fail : Nat}
    (hthread : n.client.thread = some ⟨.writing msg, ok, fail⟩) :
    ∃ n', Further n (.client (.txWrite 1)) n' := by
  refine further_client (c := { n.client with
    thread := some ⟨.reading, u32 (ok + 1), fail⟩
    written := n.client.written ++ [msg.data] }) rfl rfl ?_ rfl ?_
  · simp [Client.step, Client.txWrite, hthread]
  · simp [TxThread.load, hthread]

theorem further_txRead {msg : UartTxMsg} {rest : List UartTxMsg} {ok fail : Nat}
    (hthread : n.client.thread = some ⟨.reading, ok, fail⟩) (hq : n.client.queue = msg :: rest) :
    ∃ n', Further n (.client (.txRead true)) n' := by
  refine further_client (c := { n.client with
    queue := rest
    thread := some ⟨if msg.len = 0 then .reading else .writing msg, ok, fail⟩ }) rfl rfl ?_ rfl ?_
  · simp [Client.step, Client.txRead, hthread, hq]
  · have hload : TxThread.load ⟨if msg.len = 0 then .reading else .writing msg, ok, fail⟩ ≤ 1 := by
      split_ifs
      · exact Nat.zero_le 1
      · exact Nat.le_refl 1
    simp only [hq, List.length_cons, Option.map_some, Option.getD_some]
    omega

/-- A notification brings one message at most, and leaves the thread alone. -/
theorem notification_load (accept : Bool) (data : Option (List Byte)) (c : Client) :
    (Client.sleSpeedNotificationCb accept data c).queue.length ≤ c.queue.length + 1 ∧
      (Client.sleSpeedNotificationCb accept data c).thread = c.thread := by
  have hforward : ∀ buf d, (Client.forward accept buf d).queue.length ≤ d.queue.length + 1 ∧
      (Client.forward accept buf d).thread = d.thread := by
    intro buf d
    simp only [Client.forward]
    generalize (if buf.length > Client.uartTxBufSize then _ else buf.length) = copyLen
    split_ifs <;> simp
  unfold Client.sleSpeedNotificationCb
  cases data with
  | none => exact ⟨Nat.le_succ _, rfl⟩
  | some buf =>
    simp only
    split_ifs
    · exact ⟨Nat.le_succ _, rfl⟩
    · split
      · rename_i seq hseq
        have hkeeps := Client.countFrame_keepsQueue seq c
        obtain ⟨hlen, hthread⟩ := hforward buf (Client.countFrame seq c)
        rw [hkeeps.queue] at hlen
        exact ⟨hlen, hthread.trans hkeeps.thread⟩
      · exact hforward buf c

theorem further_deliver {item : Item} {rest : List Item} (hair : n.air = item :: rest)
    (hid : n.client.uartTxQueueId ≠ 0) (hthread : n.client.thread.isSome) :
    ∃ n', Further n (.deliver 0 true) n' := by
  have hitem : n.air[0]? = some item := by rw [hair]; rfl
  obtain ⟨hqueue, hsame⟩ := notification_load true (some item.data) n.client
  refine ⟨_, rfl, Sides.step_deliver hitem true, ?_, rfl, rfl, ?_, ?_⟩
  · simp [lost, Link.atServer, Sides.lost, lostArrived, hid]
  · change (Client.sleSpeedNotificationCb true (some item.data) n.client).thread.isSome
    rw [hsame]
    exact hthread
  · simp only [load, sides, hair, hsame, List.eraseIdx_zero, List.tail_cons, List.length_cons]
    omega

/-- A step of a sender thread that adds nothing to the traffic but what it hands on. -/
theorem further_sender {a : Speed.Action} {s : Server} (hinner : inner (.server a))
    (hs : Speed.step n.server a = some s) (hquiet : ∀ item ∈ dropped n.server a, item.data = [])
    (hsucceeds : succeeds a = true) (henq : s.enqueued = n.server.enqueued) (hlen : s.senders.length = n.server.senders.length)
    (hthread : n.client.thread.isSome)
    (hload : 6 * s.queue.length + (s.senders.map Sender.load).sum + 3 * (handed n.server a).length <
      6 * n.server.queue.length + (n.server.senders.map Sender.load).sum) :
    ∃ n', Further n (.server a) n' := by
  refine ⟨_, hinner, Sides.step_serve hs, ?_, henq, hlen, hthread, ?_⟩
  · simp only [lost, Link.atServer, Sides.lost, sides, hsucceeds, if_true, lostArrived, add_zero]
    exact hquiet
  · simp only [load, sides, hsucceeds, if_true, List.length_append]
    omega

theorem further_notify {i ok fail : Nat} {item : Item}
    (hi : n.server.senders[i]? = some ⟨.sending item, ok, fail⟩)
    (hthread : n.client.thread.isSome) : ∃ n', Further n (.server (.notify i 0)) n' := by
  have hsum := sum_map_set Sender.load hi ⟨.reading, u32 (ok + 1), fail⟩
  refine further_sender (s := { n.server with
    senders := n.server.senders.set i ⟨.reading, u32 (ok + 1), fail⟩
    notified := n.server.notified ++ [⟨item, n.server.sleConnHdl, n.server.link⟩] }) rfl ?_
    (by simp [dropped]) rfl rfl List.length_set hthread ?_
  · simp [Speed.step, senderNotify, hi, sleUuidServerSendReportByHandleId]
  · simp only [Sender.load] at hsum
    simp only [handed, hi, Option.bind_some, Sender.held, Option.toList_some, List.length_singleton]
    omega

theorem further_flowCtrl {i ok fail : Nat} {item : Item}
    (hi : n.server.senders[i]? = some ⟨.waiting item, ok, fail⟩)
    (hthread : n.client.thread.isSome) : ∃ n', Further n (.server (.flowCtrl i 1)) n' := by
  have hsum := sum_map_set Sender.load hi ⟨.sending item, ok, fail⟩
  refine further_sender (s := { n.server with
    senders := n.server.senders.set i ⟨.sending item, ok, fail⟩ }) rfl ?_ (by simp [dropped]) rfl rfl
    List.length_set hthread ?_
  · simp [Speed.step, senderFlowCtrl, hi]
  · simp only [Sender.load] at hsum
    simp only [handed, List.length_nil]
    omega

theorem further_read {i ok fail : Nat} {item : Item} {rest : List Item}
    (hi : n.server.senders[i]? = some ⟨.reading, ok, fail⟩) (hq : n.server.queue = item :: rest)
    (hthread : n.client.thread.isSome) : ∃ n', Further n (.server (.read i true)) n' := by
  have hsum := sum_map_set Sender.load hi
    ⟨if item.msg.len = 0 then .reading else .waiting item, ok, fail⟩
  refine further_sender (s := { n.server with
    queue := rest
    senders := n.server.senders.set i
      ⟨if item.msg.len = 0 then .reading else .waiting item, ok, fail⟩ }) rfl ?_ ?_ rfl rfl
    List.length_set hthread ?_
  · simp [Speed.step, senderRead, hi, hq]
  · -- Only an empty message is dropped.
    simp only [dropped, hq, if_true, List.head?_cons, Option.toList_some, Multiset.mem_coe,
      List.mem_filter, List.mem_singleton, decide_eq_true_eq]
    rintro _ ⟨rfl, hempty⟩
    exact List.length_eq_zero_iff.mp hempty
  · have hload : Sender.load ⟨if item.msg.len = 0 then .reading else .waiting item, ok, fail⟩ ≤ 5 := by
      split_ifs
      · exact Nat.zero_le 5
      · exact Nat.le_refl 5
    simp only [Sender.load] at hsum hload
    simp only [handed, List.length_nil, hq, List.length_cons]
    omega

/-- Unless nothing is under way, some step brings the messages further. What is nearest to the
UART goes first. -/
theorem exists_further (hid : n.client.uartTxQueueId ≠ 0) (hthread : n.client.thread.isSome)
    (hsender : n.server.senders ≠ []) (hload : n.load ≠ 0) : ∃ a n', Further n a n' := by
  obtain ⟨⟨phase, ok, fail⟩, ht⟩ := Option.isSome_iff_exists.mp hthread
  cases phase with
  | writing msg => exact ⟨_, further_txWrite ht⟩
  | reading =>
    cases hclient : n.client.queue with
    | cons msg rest => exact ⟨_, further_txRead ht hclient⟩
    | nil =>
      cases hair : n.air with
      | cons item rest => exact ⟨_, further_deliver hair hid hthread⟩
      | nil =>
        by_cases hsum : (n.server.senders.map Sender.load).sum = 0
        · have hreading := List.sum_eq_zero_iff_forall_eq_nat.mp hsum
          obtain ⟨⟨phase, ok, fail⟩, others, hs⟩ := List.exists_cons_of_ne_nil hsender
          have hi : n.server.senders[0]? = some ⟨phase, ok, fail⟩ := by rw [hs]; rfl
          have hzero := hreading _ (List.mem_map_of_mem (List.mem_of_getElem? hi))
          cases phase with
          | reading =>
            cases hq : n.server.queue with
            | cons item rest => exact ⟨_, further_read hi hq hthread⟩
            | nil =>
              exact absurd (by simp [load, hq, hsum, hair, hclient, ht, TxThread.load]) hload
          | waiting item => cases hzero
          | sending item => cases hzero
        · -- Some thread has a message in its hands.
          obtain ⟨t, hmem, hheld⟩ : ∃ t ∈ n.server.senders, t.load ≠ 0 := by
            by_contra hnone
            push Not at hnone
            refine hsum (List.sum_eq_zero_iff_forall_eq_nat.mpr fun k hk => ?_)
            obtain ⟨t, hmem, rfl⟩ := List.mem_map.mp hk
            exact hnone t hmem
          obtain ⟨i, hi⟩ := List.mem_iff_getElem?.mp hmem
          obtain ⟨phase, ok, fail⟩ := t
          cases phase with
          | reading => exact absurd rfl hheld
          | waiting item => exact ⟨_, further_flowCtrl hi hthread⟩
          | sending item => exact ⟨_, further_notify hi hthread⟩

end Step

/-! ## All the way -/

theorem txThread_kept {c d : Client} {a : Client.Action} (h : c.thread.isSome)
    (hstep : Client.step c a = some d) : d.thread.isSome := by
  cases a with
  | notification accept data =>
    obtain rfl := Option.some.inj hstep
    rw [(notification_load accept data c).2]
    exact h
  | connectState connId connState =>
    obtain rfl := Option.some.inj hstep
    cases connState <;> exact h
  | txRead success =>
    rcases Client.txRead_spec hstep with rfl | ⟨msg, rest, ok, fail, -, -, rfl⟩
    · exact h
    · rfl
  | txWrite uartRet =>
    change Client.txWrite uartRet c = some d at hstep
    unfold Client.txWrite at hstep
    split at hstep
    · obtain rfl := Option.some.inj hstep
      rfl
    · cases hstep

theorem accepted_ne_nil {uartTxQueueId : Nat} {acts : List Client.Action} {bytes : List Byte}
    (h : bytes ∈ Client.accepted uartTxQueueId acts) : bytes ≠ [] := by
  obtain ⟨a, -, ha⟩ := List.mem_filterMap.mp h
  cases a with
  | notification accept data =>
    obtain ⟨buf, -, hbuf⟩ := Option.bind_eq_some_iff.mp ha
    obtain ⟨⟨-, -, hne⟩, rfl⟩ := Option.ite_some_none_eq_some.mp hbuf
    simpa using hne
  | _ => cases ha

theorem Heeds.written_ne_nil {uartTxQueueId : Nat} {created : Bool} {n : Network}
    (h : Heeds uartTxQueueId created n) {bytes : List Byte} (hbytes : bytes ∈ n.client.written) :
    bytes ≠ [] := by
  have horder := (Heeds.forwards h).order
  exact accepted_ne_nil (horder ▸ List.mem_append_left _ hbytes)

/-- What the client has written, and what it will, is what was queued and is not lost. -/
theorem Drains.total {uartTxQueueId : Nat} {created : Bool} {enqueued : List Item}
    {rest : Multiset (List Byte)} {n : Network} (h : Drains uartTxQueueId created enqueued rest n) :
    (↑(enqueued.map Item.data) : Multiset (List Byte)).filter (· ≠ []) =
      ↑(n.client.written ++ n.underWay.filter (· ≠ [])) + rest := by
  obtain ⟨⟨m, hplaces, hrest⟩, henq, -, -⟩ := h
  have hwritten : n.client.written.filter (· ≠ []) = n.client.written :=
    List.filter_eq_self.mpr fun bytes hbytes => decide_eq_true (hplaces.heeds.written_ne_nil hbytes)
  have hall := congrArg (Multiset.filter (· ≠ [])) hplaces.all
  rw [henq, Multiset.filter_add, hrest, Multiset.coe_add, List.append_assoc] at hall
  rw [hall, Multiset.filter_coe, List.filter_append, hwritten]
  rfl

/-- **Nothing under way is stuck.** Whatever has happened before, the threads and the link alone can
bring it about that all messages under way are written, each once. An empty message is dropped. -/
theorem relay_drains {uartQueueId uartTxQueueId : Nat} {acts : List Action} {n : Network}
    (hrun : run step (start uartQueueId uartTxQueueId true) acts = some n)
    (hid : uartTxQueueId ≠ 0) (hsender : n.server.senders ≠ []) :
    ∃ more n', (∀ a ∈ more, inner a) ∧ run step n more = some n' ∧ n'.underWay = [] ∧
      n'.server.enqueued = n.server.enqueued ∧
      (↑n'.client.written : Multiset (List Byte)) =
        ↑(n.client.written ++ n.underWay.filter (· ≠ [])) := by
  have hplaces := run_places hrun
  have hthread : n.client.thread.isSome :=
    run_preserves (fun _ _ _ => txThread_kept) rfl hplaces.heeds.run
  have hfurther : ∀ rest n', Drains uartTxQueueId true n.server.enqueued rest n' → n'.load ≠ 0 →
      ∃ a n'', inner a ∧ step n' a = some n'' ∧
        Drains uartTxQueueId true n.server.enqueued rest n'' ∧ n''.load < n'.load := by
    intro rest n' h hload
    obtain ⟨m, hm, -⟩ := h.places
    have hid' : n'.client.uartTxQueueId ≠ 0 := by
      rw [(Heeds.forwards hm.heeds).id]
      exact hid
    obtain ⟨a, n'', hn⟩ := exists_further hid' h.thread h.sender hload
    exact ⟨a, n'', hn.inner, hn.step, h.further hn, hn.load⟩
  have hdrains : Drains uartTxQueueId true n.server.enqueued _ n :=
    ⟨⟨_, hplaces, rfl⟩, rfl, hsender, hthread⟩
  obtain ⟨more, n', hinner, hmore, hdone, hload⟩ := exists_run_to_zero (hfurther _) hdrains
  have hnone := underWay_of_load hload
  have htotal := hdone.total
  rw [hdrains.total, hnone, List.filter_nil, List.append_nil] at htotal
  exact ⟨more, n', hinner, hmore, hnone, hdone.enqueued, (add_right_cancel htotal).symm⟩

theorem relay_drains_scattered :
    ∃ n, run step (start 1 1 true) scattered = some n ∧ n.client.written.length = 1 ∧
      ∃ more n', (∀ a ∈ more, inner a) ∧ run step n more = some n' ∧ n'.underWay = [] ∧
        n'.client.written.length = 3 := by
  have hrun : (run step (start 1 1 true) scattered).map (fun n => (n.server.senders.length,
      n.client.written.length, (n.underWay.filter (· ≠ [])).length)) = some (1, 1, 2) := by
    decide +kernel
  obtain ⟨n, hn, hcounts⟩ := Option.map_eq_some_iff.mp hrun
  simp only [Prod.mk.injEq] at hcounts
  obtain ⟨hsenders, hwritten, hway⟩ := hcounts
  obtain ⟨more, n', hinner, hmore, hnone, -, hall⟩ := relay_drains hn Nat.one_ne_zero
    (List.ne_nil_of_length_pos (by omega))
  have hcard := congrArg Multiset.card hall
  simp only [Multiset.coe_card, List.length_append, hwritten, hway] at hcard
  exact ⟨n, hn, hwritten, more, n', hinner, hmore, hnone, hcard⟩

end Network

end NearLink.Speed
