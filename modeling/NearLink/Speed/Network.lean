import NearLink.Link
import NearLink.Speed.Conservation
import NearLink.Speed.Forwarding

/-!
# The throughput relay as a whole

The server, the link and the client. The link may lose what is on it and may change the order.
What the server has queued is written by the client, still under way, or lost at one of a few
places.
-/

namespace NearLink.Speed

def Item.data (item : Item) : List Byte := item.msg.data

/-- An arrival leaves open whether the client's queue has room. -/
abbrev Network := Link Server Client Client.Action Bool Item

namespace Network

/-- The message that a step hands to `ssaps_notify_indicate`. -/
def handed (s : Server) : Speed.Action → List Item
  | .notify i _ => (s.senders[i]?.bind Sender.held).toList
  | _ => []

def succeeds : Speed.Action → Bool
  | .notify _ notifyRet => notifyRet = errcodeSleSuccess
  | _ => true

theorem step_handed {s t : Server} {a : Speed.Action} (h : Speed.step s a = some t) :
    t.notified.map Notify.item = s.notified.map Notify.item ++ handed s a := by
  have hnone : t.notified = s.notified → handed s a = [] →
      t.notified.map Notify.item = s.notified.map Notify.item ++ handed s a := by
    intro hnot hhanded
    rw [hnot, hhanded, List.append_nil]
  cases a with
  | uart fuel c =>
    obtain ⟨_, -, -, -, -, -, -, hnot, -⟩ := uartStep_spec h
    exact hnone hnot rfl
  | connectState connId connState pairState created =>
    obtain rfl := Option.some.inj h
    exact hnone (connectState_spec connId connState pairState created s).1.notified rfl
  | pairComplete connId status created =>
    obtain rfl := Option.some.inj h
    exact hnone (slePairCompleteCbk_spec status created s).1.notified rfl
  | readRequest created =>
    obtain rfl := Option.some.inj h
    exact hnone (ssapsReadRequestCbk_spec created s).1.notified rfl
  | read i success =>
    rcases senderRead_spec h with rfl | ⟨-, _, _, _, _, _, _, -, -, -, -, rfl⟩ <;>
      exact hnone rfl rfl
  | flowCtrl i flag =>
    obtain ⟨_, rfl, -⟩ := senderFlowCtrl_spec h
    exact hnone rfl rfl
  | notify i notifyRet =>
    obtain ⟨item, _, _, x, _, hi, hx, -, -, rfl⟩ := senderNotify_spec h
    simp [handed, hi, hx]

/-- No thread holds an empty message, and none was sent. -/
def Full (s : Server) : Prop := ∀ item ∈ s.notified.map Notify.item ++ s.held, item.data ≠ []

theorem Full.same {s t : Server} (h : Full s) (hst : SameTraffic s t) : Full t := by
  unfold Full
  rw [hst.notified, hst.held]
  exact h

theorem step_full {s t : Server} {a : Speed.Action} (h : Full s) (hstep : Speed.step s a = some t) :
    Full t := by
  cases a with
  | uart fuel c =>
    obtain ⟨_, -, -, -, -, -, hsenders, hnot, -⟩ := uartStep_spec hstep
    unfold Full Server.held
    rw [hsenders, hnot]
    exact h
  | connectState connId connState pairState created =>
    obtain rfl := Option.some.inj hstep
    exact h.same (connectState_spec connId connState pairState created s).1
  | pairComplete connId status created =>
    obtain rfl := Option.some.inj hstep
    exact h.same (slePairCompleteCbk_spec status created s).1
  | readRequest created =>
    obtain rfl := Option.some.inj hstep
    exact h.same (ssapsReadRequestCbk_spec created s).1
  | read i success =>
    rcases senderRead_spec hstep with rfl | ⟨-, item, rest, before, after, x, y, -, hs, hx, hy, rfl⟩
    · exact h
    · intro other hother
      rw [held_split _ rfl, hy, List.mem_append, List.mem_append, List.mem_append] at hother
      have hold := h other
      rw [held_split s hs, hx, List.mem_append, List.mem_append, List.mem_append] at hold
      rcases hother with hsent | hbefore | hnew | hafter
      · exact hold (Or.inl hsent)
      · exact hold (Or.inr (Or.inl hbefore))
      · split_ifs at hnew with hlen
        · cases hnew
        · obtain rfl := List.mem_singleton.mp hnew
          exact fun hempty => hlen (congrArg List.length hempty)
      · exact hold (Or.inr (Or.inr (Or.inr hafter)))
  | flowCtrl i flag =>
    obtain ⟨_, rfl, -, hheld⟩ := senderFlowCtrl_spec hstep
    exact h.same ⟨rfl, hheld, rfl, rfl, rfl, rfl⟩
  | notify i notifyRet =>
    obtain ⟨item, before, after, x, y, -, hx, hy, hs, rfl⟩ := senderNotify_spec hstep
    intro other hother
    apply h
    rw [held_split _ rfl, hy] at hother
    rw [held_split s hs, hx]
    simp only [List.map_append, List.map_cons, List.map_nil, Option.toList_none, List.nil_append,
      List.append_assoc, List.mem_append, List.mem_singleton, Option.toList_some] at hother ⊢
    tauto

/-! ## The system -/

def sides : Sides Server Speed.Action Client Client.Action Bool Item where
  serve := Speed.step
  sent s := s.notified.map Notify.item
  handed := handed
  succeeds := succeeds
  sent_serve _ _ _ h := step_handed h
  hear := Client.step
  arrival accept item := .notification accept (some item.data)
  receive accept item := Client.sleSpeedNotificationCb accept (some item.data)
  hear_arrival _ _ _ := rfl
  quiet a := a.data.isNone

abbrev Action := Link.Action Speed.Action Client.Action Bool

def start (uartQueueId uartTxQueueId : Nat) (created : Bool) : Network :=
  Link.start (Server.start uartQueueId) (Client.start uartTxQueueId created)

def step : Network → Action → Option Network := sides.step

/-! ## What is lost -/

/-- At the client: what its queue has no room for. -/
def lostArrived (n : Network) : Action → Multiset Item
  | .deliver i accept =>
    if accept = true ∧ n.client.uartTxQueueId ≠ 0 then 0 else ↑n.air[i]?.toList
  | .server _ | .client _ | .lose _ => 0

/-- All that a step loses: at the server, on the link, or at the client. -/
def lost (n : Network) (a : Action) : Multiset Item :=
  Link.atServer dropped n a + sides.lost n a + lostArrived n a

/-! ## Where a message can be -/

/-- What the client's queue has taken. -/
def taken (uartTxQueueId : Nat) (n : Network) : List (List Byte) :=
  Client.accepted uartTxQueueId (n.heard.map sides.action)

abbrev Heeds (uartTxQueueId : Nat) (created : Bool) (n : Network) : Prop :=
  sides.Heeds (Client.start uartTxQueueId created) n

/-- `m` is what the client had no room for so far. -/
def AtClient (uartTxQueueId : Nat) (m : Multiset Item) (n : Network) : Prop :=
  ↑(n.arrived.map Item.data) =
    (↑(taken uartTxQueueId n) : Multiset (List Byte)) + m.map Item.data

/-- A notification that is not empty is queued whole or not at all. -/
theorem accepted_arrival {uartTxQueueId : Nat} (heard : List (Heard Client.Action Bool Item))
    (accept : Bool) {item : Item} (hne : item.data ≠ []) :
    Client.accepted uartTxQueueId ((heard ++ [Heard.arrival accept item]).map sides.action) =
      Client.accepted uartTxQueueId (heard.map sides.action) ++
        if accept = true ∧ uartTxQueueId ≠ 0 then [item.data] else [] := by
  have hwhole : item.data.take Client.uartTxBufSize = item.data :=
    List.take_of_length_le item.msg.fits
  rw [List.map_append, List.map_cons, List.map_nil, Client.accepted_snoc]
  congr 1
  by_cases htaken : accept = true ∧ uartTxQueueId ≠ 0
  · have htake : (sides.action (.arrival accept item)).accepted uartTxQueueId = some item.data :=
      (if_pos ⟨htaken.1, htaken.2, hne⟩).trans (congrArg some hwhole)
    rw [htake, if_pos htaken]
    rfl
  · have hrefused : (sides.action (.arrival accept item)).accepted uartTxQueueId = none :=
      if_neg fun hall => htaken ⟨hall.1, hall.2.1⟩
    rw [hrefused, if_neg htaken]
    rfl

theorem accepted_other {uartTxQueueId : Nat} (heard : List (Heard Client.Action Bool Item))
    {a : Client.Action} (hquiet : a.data.isNone) :
    Client.accepted uartTxQueueId ((heard ++ [Heard.other a]).map sides.action) =
      Client.accepted uartTxQueueId (heard.map sides.action) := by
  have hnone : a.accepted uartTxQueueId = none := by
    cases a with
    | notification accept data =>
      obtain rfl : data = none := Option.isNone_iff_eq_none.mp hquiet
      rfl
    | _ => rfl
  rw [List.map_append]
  exact Client.accepted_quiet _ hnone

theorem step_atClient {uartTxQueueId : Nat} {m : Multiset Item} {n n' : Network} {a : Action}
    (hid : n.client.uartTxQueueId = uartTxQueueId) (hfull : ∀ item ∈ n.air, item.data ≠ [])
    (h : AtClient uartTxQueueId m n) (hstep : step n a = some n') :
    AtClient uartTxQueueId (m + lostArrived n a) n' := by
  unfold AtClient Link.arrived taken at *
  cases a with
  | server a =>
    obtain ⟨s, -, rfl⟩ := Option.map_eq_some_iff.mp hstep
    rw [h, lostArrived, add_zero]
  | client a =>
    obtain ⟨hquiet, hstep⟩ := Option.ite_none_right_eq_some.mp hstep
    obtain ⟨c, -, rfl⟩ := Option.map_eq_some_iff.mp hstep
    rw [Link.arrived_other, accepted_other _ hquiet, h, lostArrived, add_zero]
  | deliver i accept =>
    obtain ⟨item, hi, rfl⟩ := Option.map_eq_some_iff.mp hstep
    rw [Link.arrived_arrival, accepted_arrival _ accept (hfull item (List.mem_of_getElem? hi)),
      List.map_append, ← Multiset.coe_add, h, lostArrived, hid, hi, ← Multiset.coe_add]
    split_ifs
    · simp only [List.map_cons, List.map_nil, Multiset.coe_singleton, add_zero]
      abel
    · simp only [List.map_cons, List.map_nil, Multiset.coe_singleton, Option.toList_some,
        Multiset.map_add, Multiset.map_singleton, Multiset.coe_nil]
      abel
  | lose i =>
    obtain ⟨item, -, rfl⟩ := Option.map_eq_some_iff.mp hstep
    rw [h, lostArrived, add_zero]

/-- `m` is what was lost anywhere so far. -/
structure Places (uartTxQueueId : Nat) (created : Bool) (m : Multiset Item) (n : Network) : Prop where
  full : Full n.server
  heeds : Heeds uartTxQueueId created n
  split : ∃ queued sent arrived, m = queued + sent + arrived ∧ Conserves queued n.server ∧
    sides.OnLink sent n ∧ AtClient uartTxQueueId arrived n

theorem Heeds.forwards {uartTxQueueId : Nat} {created : Bool} {n : Network}
    (h : Heeds uartTxQueueId created n) :
    Client.Forwards uartTxQueueId (n.heard.map sides.action) n.client := Client.run_forwards h.run

theorem step_places {uartTxQueueId : Nat} {created : Bool} (m : Multiset Item) (n : Network)
    (a : Action) (n' : Network) (h : Places uartTxQueueId created m n) (hstep : step n a = some n') :
    Places uartTxQueueId created (m + lost n a) n' := by
  obtain ⟨hfull, hheeds, queued, sent, arrived, rfl, hqueued, hsent, harrived⟩ := h
  have hair : ∀ item ∈ n.air, item.data ≠ [] :=
    fun item hitem => hfull item (List.mem_append_left _ (hsent.mem hitem))
  have hserver : Full n'.server ∧ Conserves (queued + Link.atServer dropped n a) n'.server := by
    rcases Sides.step_server hstep with ⟨b, rfl, hs⟩ | ⟨hnone, hsame⟩
    · exact ⟨step_full hfull hs, step_conserves queued n.server b n'.server hqueued hs⟩
    · rw [hsame, Link.atServer_unserved dropped n hnone, add_zero]
      exact ⟨hfull, hqueued⟩
  refine ⟨hserver.1, Sides.step_heeds hheeds hstep, queued + Link.atServer dropped n a,
    sent + sides.lost n a, arrived + lostArrived n a, ?_, hserver.2, Sides.step_onLink hsent hstep,
    step_atClient (Heeds.forwards hheeds).id hair harrived hstep⟩
  rw [lost]
  abel

theorem full_start (uartQueueId : Nat) : Full (Server.start uartQueueId) := by
  simp [Full, Server.start, Server.held]

theorem places_start (uartQueueId uartTxQueueId : Nat) (created : Bool) :
    Places uartTxQueueId created 0 (start uartQueueId uartTxQueueId created) :=
  ⟨full_start uartQueueId, Sides.heeds_start _ _, 0, 0, 0, rfl, rfl, rfl, rfl⟩

theorem run_places {uartQueueId uartTxQueueId : Nat} {created : Bool} {acts : List Action}
    {n : Network} (hrun : run step (start uartQueueId uartTxQueueId created) acts = some n) :
    Places uartTxQueueId created (flow step lost (start uartQueueId uartTxQueueId created) acts) n := by
  have h := run_flow step_places (places_start uartQueueId uartTxQueueId created) hrun
  rwa [zero_add] at h

theorem Places.all {uartTxQueueId : Nat} {created : Bool} {m : Multiset Item} {n : Network}
    (h : Places uartTxQueueId created m n) :
    ↑(n.server.enqueued.map Item.data) = (↑(n.client.written ++ n.client.pending) +
      ↑((n.air ++ n.server.held ++ n.server.queue).map Item.data) : Multiset (List Byte)) +
      m.map Item.data := by
  obtain ⟨-, hheeds, queued, sent, arrived, rfl, hqueued, hsent, harrived⟩ := h
  rw [(Heeds.forwards hheeds).order]
  unfold Conserves Server.items at hqueued
  unfold Sides.OnLink sides at hsent
  unfold AtClient taken at harrived
  simp only [← Multiset.coe_add] at hqueued
  rw [← Multiset.map_coe, hqueued, hsent]
  simp only [Multiset.map_add, Multiset.map_coe, harrived, List.map_append, ← Multiset.coe_add]
  abel

/-- **Every queued message is written once, under way, or lost at one known place.** -/
theorem relay_conserves {uartQueueId uartTxQueueId : Nat} {created : Bool} {acts : List Action}
    {n : Network} (hrun : run step (start uartQueueId uartTxQueueId created) acts = some n) :
    ↑(n.server.enqueued.map Item.data) = (↑(n.client.written ++ n.client.pending) +
      ↑((n.air ++ n.server.held ++ n.server.queue).map Item.data) : Multiset (List Byte)) +
      (flow step lost (start uartQueueId uartTxQueueId created) acts).map Item.data :=
  (run_places hrun).all

/-- Of four messages, the first is written, the second is lost on the link, a thread holds the
third and the fourth is still queued. -/
def scattered : List Action :=
  [.server (.pairComplete 1 0 true),
    .server (.uart 100 (.ok ([7, 8, 9, 10].flatMap fun seq => (Frame.bare 1492 seq).encode))),
    .server (.read 0 true), .server (.flowCtrl 0 1), .server (.notify 0 0),
    .server (.read 0 true), .server (.flowCtrl 0 1), .server (.notify 0 0), .server (.read 0 true),
    .lose 1, .deliver 0 true, .client (.txRead true), .client (.txWrite 8)]

theorem relay_conserves_scattered :
    ∃ n, run step (start 1 1 true) scattered = some n ∧ n.client.written.length = 1 ∧
      (flow step lost (start 1 1 true) scattered).card = 1 ∧
      n.server.enqueued.length = n.client.written.length + n.server.held.length +
        n.server.queue.length + (flow step lost (start 1 1 true) scattered).card := by
  have hrun : (run step (start 1 1 true) scattered).map (fun n =>
      (n.client.written.length, n.client.pending.length, n.air.length)) = some (1, 0, 0) := by
    decide +kernel
  obtain ⟨n, hn, hcounts⟩ := Option.map_eq_some_iff.mp hrun
  simp only [Prod.mk.injEq] at hcounts
  obtain ⟨hwritten, hpending, hair⟩ := hcounts
  have hcard := congrArg Multiset.card (relay_conserves hn)
  simp only [Multiset.coe_card, Multiset.card_add, Multiset.card_map, List.length_map,
    List.length_append, hpending, hair, Nat.add_zero, Nat.zero_add] at hcard
  exact ⟨n, hn, hwritten, by decide +kernel, hcard.trans (by omega)⟩

/-! ## In order -/

/-- The oldest message is sent first, and what was sent first arrives first. -/
abbrev InTurn (n : Network) : Action → Prop := Link.InTurn OldestFirst n

structure Ordered (uartTxQueueId : Nat) (created : Bool) (n : Network) : Prop where
  full : Full n.server
  heeds : Heeds uartTxQueueId created n
  relays : ∃ r, Relays r n.server
  sent : sides.InOrder n
  arrived : (taken uartTxQueueId n).Sublist (n.arrived.map Item.data)

theorem ordered_start (uartQueueId uartTxQueueId : Nat) (created : Bool) :
    Ordered uartTxQueueId created (start uartQueueId uartTxQueueId created) :=
  ⟨full_start uartQueueId, Sides.heeds_start _ _, ⟨_, Relays.start uartQueueId⟩,
    List.Sublist.refl _, List.Sublist.refl _⟩

theorem step_taken {uartTxQueueId : Nat} {n n' : Network} {a : Action}
    (hfull : ∀ item ∈ n.air, item.data ≠ [])
    (h : (taken uartTxQueueId n).Sublist (n.arrived.map Item.data)) (hstep : step n a = some n') :
    (taken uartTxQueueId n').Sublist (n'.arrived.map Item.data) := by
  unfold Link.arrived taken at *
  cases a with
  | server a =>
    obtain ⟨s, -, rfl⟩ := Option.map_eq_some_iff.mp hstep
    exact h
  | client a =>
    obtain ⟨hquiet, hstep⟩ := Option.ite_none_right_eq_some.mp hstep
    obtain ⟨c, -, rfl⟩ := Option.map_eq_some_iff.mp hstep
    rw [Link.arrived_other, accepted_other _ hquiet]
    exact h
  | deliver i accept =>
    obtain ⟨item, hi, rfl⟩ := Option.map_eq_some_iff.mp hstep
    rw [accepted_arrival _ accept (hfull item (List.mem_of_getElem? hi)), Link.arrived_arrival,
      List.map_append]
    apply h.append
    split_ifs
    · exact List.Sublist.refl _
    · exact List.nil_sublist _
  | lose i =>
    obtain ⟨item, -, rfl⟩ := Option.map_eq_some_iff.mp hstep
    exact h

theorem step_ordered {uartTxQueueId : Nat} {created : Bool} {n n' : Network} {a : Action}
    (h : Ordered uartTxQueueId created n) (hok : InTurn n a) (hstep : step n a = some n') :
    Ordered uartTxQueueId created n' := by
  obtain ⟨hfull, hheeds, hrelays, hsent, harrived⟩ := h
  have hair : ∀ item ∈ n.air, item.data ≠ [] := fun item hitem =>
    hfull item (List.mem_append_left _ (hsent.subset (List.mem_append_right _ hitem)))
  obtain ⟨hfull', hrelays'⟩ : Full n'.server ∧ ∃ r, Relays r n'.server := by
    rcases Sides.step_server hstep with ⟨b, rfl, hs⟩ | ⟨-, hsame⟩
    · obtain ⟨r, hr⟩ := hrelays
      exact ⟨step_full hfull hs, step_relays hr hok hs⟩
    · rw [hsame]
      exact ⟨hfull, hrelays⟩
  exact ⟨hfull', Sides.step_heeds hheeds hstep, hrelays', Sides.step_inOrder hsent hok hstep,
    step_taken hair harrived hstep⟩

theorem Ordered.arrived_enqueued {uartTxQueueId : Nat} {created : Bool} {n : Network}
    (h : Ordered uartTxQueueId created n) : (n.arrived ++ n.air).Sublist n.server.enqueued := by
  obtain ⟨r, hr⟩ := h.relays
  apply List.Sublist.trans h.sent
  change (n.server.notified.map Notify.item).Sublist _
  rw [← hr.sent, ← hr.put]
  exact hr.steps.sent_sublist

theorem run_ordered {uartQueueId uartTxQueueId : Nat} {created : Bool} {acts : List Action}
    {n : Network} (hok : Meets step InTurn (start uartQueueId uartTxQueueId created) acts)
    (hrun : run step (start uartQueueId uartTxQueueId created) acts = some n) :
    Ordered uartTxQueueId created n :=
  run_invariant (fun _ _ _ => step_ordered) (ordered_start uartQueueId uartTxQueueId created) hok hrun

/-- **In turn, the client writes in the order of the server's queue.** What is still in its hands
and on the link comes behind. -/
theorem relay_in_order {uartQueueId uartTxQueueId : Nat} {created : Bool} {acts : List Action}
    {n : Network} (hok : Meets step InTurn (start uartQueueId uartTxQueueId created) acts)
    (hrun : run step (start uartQueueId uartTxQueueId created) acts = some n) :
    (n.client.written ++ n.client.pending ++ n.air.map Item.data).Sublist
      (n.server.enqueued.map Item.data) := by
  have h := run_ordered hok hrun
  have hall := h.arrived_enqueued.map Item.data
  rw [List.map_append] at hall
  rw [(Heeds.forwards h.heeds).order]
  exact (h.arrived.append (List.Sublist.refl _)).trans hall

theorem relay_in_order_scattered :
    ∃ n, run step (start 1 1 true) (.server (.readRequest true) :: scattered) = some n ∧
      n.client.written = [(Frame.bare 1492 7).encode] ∧
      (n.client.written ++ n.client.pending ++ n.air.map Item.data).Sublist
        (n.server.enqueued.map Item.data) := by
  have hrun : (run step (start 1 1 true) (.server (.readRequest true) :: scattered)).map
      (fun n => n.client.written) = some [(Frame.bare 1492 7).encode] := by decide +kernel
  obtain ⟨n, hn, hwritten⟩ := Option.map_eq_some_iff.mp hrun
  exact ⟨n, hn, hwritten, relay_in_order (by decide +kernel) hn⟩

end Network

end NearLink.Speed
