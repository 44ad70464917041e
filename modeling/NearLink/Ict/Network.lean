import NearLink.Link
import NearLink.Ict.Conservation
import NearLink.Ict.EndToEnd
import NearLink.Ict.Loss

/-!
# The ict_sle relay as a whole

The server, the link and the client. Every frame that the server's parser has completed is written
by the client, under way, or lost at a known place, and in turn the client counts the lost ones.
-/

namespace NearLink.Ict

/-- What a frame carries between its header and its tail. -/
def payloadOf (bytes : List Byte) : List Byte := (bytes.drop 6).take (bytes.length - 8)

def Item.payload (item : Item) : List Byte := payloadOf item.msg.data

/-- The number that the frame carries, if the first one that the parser completes carries `first`
and the numbers are consecutive. -/
def Completed.number (first : Nat) (c : Completed) : Nat := first + c.serial

def Item.number (first : Nat) (item : Item) : Nat := item.completed.number first

def Item.Whole (item : Item) : Prop := ∃ f : Frame 1 1024, f.encode = item.msg.data

theorem payloadOf_encode (f : Frame 1 1024) : payloadOf f.encode = f.payload := by
  rw [payloadOf, f.encode_length]
  simp [Frame.encode]

theorem Item.Whole.receive {item : Item} (h : item.Whole) (c : Client) (how : Arrival) :
    (receive c (how, item.msg.data)).written = c.written ++ [item.payload] := by
  obtain ⟨f, hf⟩ := h
  rw [Item.payload, ← hf, payloadOf_encode]
  exact (receive_encode f c how).1

/-- An arrival leaves open which of the two callbacks it takes. -/
abbrev Network := Link Server UartClient UartClient.Action Arrival Item

namespace Network

/-- The message that a step hands to `SsapsNotifyIndicate`. -/
def handed (s : Server) : Ict.Action → List Item
  | .send allocated _ => if allocated then s.task.held else []
  | _ => []

def succeeds : Ict.Action → Bool
  | .send _ notifyRet => notifyRet = errcodeSleSuccess
  | _ => true

theorem step_handed {s t : Server} {a : Ict.Action} (h : Ict.step s a = some t) :
    t.notified.map Notify.item = s.notified.map Notify.item ++ handed s a := by
  have hnone : t.notified = s.notified → handed s a = [] →
      t.notified.map Notify.item = s.notified.map Notify.item ++ handed s a := by
    intro hnot hhanded
    rw [hnot, hhanded, List.append_nil]
  cases a with
  | taskStart created => obtain ⟨-, rfl | rfl⟩ := sleTaskStart_spec h <;> exact hnone rfl rfl
  | uart data accept =>
    obtain rfl := Option.some.inj h
    exact hnone (serverUartRxCallback_puts data accept s).notified rfl
  | connectState connId connState =>
    obtain rfl := Option.some.inj h
    cases connState <;> exact hnone rfl rfl
  | mtuChanged connId mtuSize status =>
    obtain rfl := Option.some.inj h
    refine hnone ?_ rfl
    unfold trackMtu
    split <;> rfl
  | pairComplete connId status =>
    obtain rfl := Option.some.inj h
    refine hnone ?_ rfl
    unfold trackPair
    split <;> rfl
  | get success => rcases sleTaskGet_spec h with rfl | ⟨_, _, -, -, rfl⟩ <;> exact hnone rfl rfl
  | send allocated notifyRet =>
    obtain ⟨item, htask, rfl⟩ := sleTaskSend_spec h
    cases allocated <;> simp [handed, htask, Phase.held, sleUartServerSendReportByHandle]

/-! ## The system -/

def quiet : UartClient.Action → Bool
  | .receive _ _ => false
  | .enable _ | .seekResult _ | .seekDisable _ | .connectState _ _ | .exchangeInfo _ => true

def sides : Sides Server Ict.Action UartClient UartClient.Action Arrival Item where
  serve := Ict.step
  sent s := s.notified.map Notify.item
  handed := handed
  succeeds := succeeds
  sent_serve _ _ _ h := step_handed h
  hear := UartClient.step
  arrival how item := .receive how item.msg.data
  receive how item u := { u with client := Ict.receive u.client (how, item.msg.data) }
  hear_arrival _ _ _ := rfl
  quiet := quiet

abbrev Action := Link.Action Ict.Action UartClient.Action Arrival

def start : Network := Link.start Server.start UartClient.start

def step : Network → Action → Option Network := sides.step

/-- All that a step loses: at the server or on the link. The client loses nothing. -/
def lost (n : Network) (a : Action) : Multiset Completed :=
  Link.atServer Ict.lost n a + (sides.lost n a).map Item.completed

/-- What is not yet written, oldest first. -/
def underWay (n : Network) : List Item :=
  n.air ++ n.server.task.held ++ n.server.txQueue.getD []

/-! ## The client -/

def connects : UartClient.Action → Bool
  | .connectState _ .connected => true
  | .connectState _ .disconnected | .connectState _ .other | .receive _ _ | .enable _
  | .seekResult _ | .seekDisable _ | .exchangeInfo _ => false

/-- What has arrived since the client was connected. -/
def sinceConnected (heard : List (Heard UartClient.Action Arrival Item)) : List Item :=
  (Link.arrivals connects heard).2

/-- What the client makes of what it has heard. -/
structure Hears (number : Item → Nat) (heard : List (Heard UartClient.Action Arrival Item))
    (u : UartClient) : Prop where
  written : u.client.written = (heard.filterMap Heard.item).map Item.payload
  counted : Counted u.client ((sinceConnected heard).map number)

theorem hears_start (number : Item → Nat) : Hears number [] .start :=
  ⟨rfl, counted_reset Client.start⟩

theorem hears_arrival {number : Item → Nat} {heard : List (Heard UartClient.Action Arrival Item)}
    {u : UartClient} (h : Hears number heard u) (how : Arrival) {item : Item} (hwhole : item.Whole)
    (hseq : word item.msg.data 2 = u16 (number item)) :
    Hears number (heard ++ [.arrival how item]) (sides.receive how item u) := by
  refine ⟨?_, ?_⟩
  · rw [Link.arrived_arrival, List.map_append, ← h.written]
    exact hwhole.receive u.client how
  · obtain ⟨f, hf⟩ := hwhole
    rw [sinceConnected, Link.arrivals_snoc, Heard.record, List.map_append]
    exact receive_counted h.counted how fun c hc =>
      processFrame_counted hc (hf ▸ not_rejected f) hseq

theorem hears_other {number : Item → Nat} {heard : List (Heard UartClient.Action Arrival Item)}
    {u v : UartClient} (h : Hears number heard u) {a : UartClient.Action} (hquiet : quiet a = true)
    (hstep : UartClient.step u a = some v) : Hears number (heard ++ [.other a]) v := by
  have hkeep : v.client = u.client → connects a = false → Hears number (heard ++ [.other a]) v := by
    intro hclient hno
    refine ⟨?_, ?_⟩
    · rw [Link.arrived_other, hclient]
      exact h.written
    · rw [sinceConnected, Link.arrivals_snoc, Heard.record, hno, hclient]
      exact h.counted
  cases a with
  | receive how data => cases hquiet
  | connectState connId connState =>
    obtain rfl := Option.some.inj hstep
    cases connState with
    | connected =>
      refine ⟨?_, ?_⟩
      · rw [Link.arrived_other]
        exact h.written
      · rw [sinceConnected, Link.arrivals_snoc]
        exact counted_reset u.client
    | disconnected => exact hkeep rfl rfl
    | other => exact hkeep rfl rfl
  | enable status => exact hkeep (aside_client (a := .enable status) trivial hstep) rfl
  | seekResult r => exact hkeep (aside_client (a := .seekResult r) trivial hstep) rfl
  | seekDisable status => exact hkeep (aside_client (a := .seekDisable status) trivial hstep) rfl
  | exchangeInfo mtuSize => exact hkeep (aside_client (a := .exchangeInfo mtuSize) trivial hstep) rfl

theorem run_hears {number : Item → Nat} {n : Network} (h : sides.Heeds .start n)
    (hwhole : ∀ item ∈ n.arrived, item.Whole ∧ word item.msg.data 2 = u16 (number item)) :
    Hears number n.heard n.client := by
  refine run_records (fun (heard : List (Heard UartClient.Action Arrival Item)) u =>
    (∀ item ∈ heard.filterMap Heard.item, item.Whole ∧ word item.msg.data 2 = u16 (number item)) →
      (∀ a, Heard.other a ∈ heard → quiet a = true) → Hears number heard u) ?_
    (fun _ _ => hears_start number) h.run hwhole h.quiet
  intro heard e u v ih hstep hwhole hquiet
  rw [filterMap_snoc] at hwhole
  have hbefore := ih (fun item hitem => hwhole item (List.mem_append_left _ hitem))
    (fun a ha => hquiet a (List.mem_append_left _ ha))
  cases e with
  | arrival how item =>
    obtain rfl := Option.some.inj hstep
    obtain ⟨hitem, hseq⟩ := hwhole item (by simp [Heard.item])
    exact hears_arrival hbefore how hitem hseq
  | other a => exact hears_other hbefore (hquiet a (by simp)) hstep

/-! ## Where the frames are -/

theorem flow_lost (acts : List Action) :
    flow step lost start acts = flow step (Link.atServer Ict.lost) start acts +
      (flow step sides.lost start acts).map Item.completed := by
  have hmap : (flow step sides.lost start acts).map Item.completed =
      flow step (fun n a => (sides.lost n a).map Item.completed) start acts :=
    map_flow (Multiset.mapAddMonoidHom Item.completed) sides.lost start acts
  rw [hmap]
  exact flow_add _ _ start acts

theorem run_link {acts : List Action} {n : Network} (hrun : run step start acts = some n) :
    ↑(n.server.notified.map Notify.item) =
      (↑n.arrived + ↑n.air : Multiset Item) + flow step sides.lost start acts := by
  have h := run_flow (fun _ _ _ _ h hs => Sides.step_onLink h hs)
    (Sides.onLink_start (w := sides) rfl UartClient.start) hrun
  rwa [zero_add] at h

theorem run_places {acts : List Action} {n : Network} (hrun : run step start acts = some n) :
    ↑n.server.completed = (↑((n.arrived ++ n.underWay).map Item.completed) : Multiset Completed) +
      flow step lost start acts := by
  have hall := (run_conserves (Sides.run_served hrun)).all
  have hserver : flow step (Link.atServer Ict.lost) start acts =
      flow Ict.step Ict.lost Server.start (acts.filterMap Link.Action.served) :=
    Sides.flow_served Ict.lost hrun
  unfold Server.places at hall
  rw [List.append_assoc, ← Multiset.map_coe, ← Multiset.coe_add, run_link hrun] at hall
  rw [flow_lost, hserver, ← Multiset.map_coe, underWay, List.append_assoc]
  apply hall.trans
  simp only [← Multiset.coe_add, Multiset.map_add]
  abel

theorem arrived_whole {acts : List Action} {n : Network} (hrun : run step start acts = some n)
    {item : Item} (hitem : item ∈ n.arrived) :
    item.completed ∈ n.server.completed ∧ item.Whole := by
  obtain ⟨hsub, -, hwhole⟩ := notified_sublist_completed (Sides.run_served hrun)
  have hsent : item ∈ n.server.notified.map Notify.item := by
    rw [← Multiset.mem_coe, run_link hrun]
    simp [hitem]
  obtain ⟨call, hcall, rfl⟩ := List.mem_map.mp hsent
  have hmem := hsub.subset (List.mem_map_of_mem hcall)
  exact ⟨hmem, hwhole _ hmem⟩

theorem run_heeds {acts : List Action} {n : Network} (hrun : run step start acts = some n) :
    sides.Heeds .start n := run_preserves (fun _ _ _ => Sides.step_heeds) (Sides.heeds_start _ _) hrun

theorem run_written {acts : List Action} {n : Network} (hrun : run step start acts = some n) :
    n.client.client.written = n.arrived.map Item.payload := by
  have hhears : Hears (fun item => word item.msg.data 2) n.heard n.client :=
    run_hears (run_heeds hrun) fun item hitem => by
      obtain ⟨-, f, hf⟩ := arrived_whole hrun hitem
      refine ⟨⟨f, hf⟩, ?_⟩
      rw [← hf, word_seq, u16_of_lt f.seq_lt]
  exact hhears.written

/-- **Every completed frame is written once, under way, or lost at one known place.** -/
theorem payloads_conserved {acts : List Action} {n : Network}
    (hrun : run step start acts = some n) :
    n.client.client.written = n.arrived.map Item.payload ∧
      ↑n.server.completed = (↑((n.arrived ++ n.underWay).map Item.completed) : Multiset Completed) +
        flow step lost start acts ∧ n.server.completed.Nodup :=
  ⟨run_written hrun, run_places hrun, (notified_sublist_completed (Sides.run_served hrun)).2.1⟩

/-- Four frames with the numbers 7 to 10. -/
def fourFrames : List Byte := [7, 8, 9, 10].flatMap fun k => [0xAA, 0x55, k, 0, 1, 0, k, 0x55, 0xAA]

/-- Of four frames, the second finds no memory and the third is lost on the link. -/
def twoLost : List Action :=
  [.server (.taskStart true), .server (.connectState 1 .connected),
    .client (.connectState 1 .connected), .server (.mtuChanged 1 1400 0),
    .server (.uart fourFrames fun _ => true),
    .server (.get true), .server (.send true 0), .deliver 0 .notification,
    .server (.get true), .server (.send false 0),
    .server (.get true), .server (.send true 0), .lose 0,
    .server (.get true), .server (.send true 0), .deliver 0 .indication]

theorem payloads_conserved_two_lost :
    ∃ n, run step start twoLost = some n ∧ n.client.client.written = [[7], [10]] ∧
      n.server.completed.length = 4 ∧ (flow step lost start twoLost).card = 2 := by
  have hrun : (run step start twoLost).map (fun n => (n.arrived.map Item.payload,
      n.underWay.length, n.server.completed.length)) = some ([[7], [10]], 0, 4) := by decide +kernel
  obtain ⟨n, hn, hfacts⟩ := Option.map_eq_some_iff.mp hrun
  simp only [Prod.mk.injEq] at hfacts
  obtain ⟨harrived, hway, hcompleted⟩ := hfacts
  obtain ⟨hwritten, hall, -⟩ := payloads_conserved hn
  have hcard := congrArg Multiset.card hall
  have htwo := congrArg List.length harrived
  simp only [List.length_map, List.length_cons, List.length_nil] at htwo
  simp only [Multiset.coe_card, Multiset.card_add, List.length_map, List.length_append, hcompleted,
    hway, htwo] at hcard
  exact ⟨n, hn, hwritten.trans harrived, hcompleted, by omega⟩

/-! ## In turn -/

abbrev InTurn (n : Network) : Action → Prop := Link.InTurn (fun _ _ => True) n

/-- The task is alone, so only the link could change the order. -/
theorem run_sublist {acts : List Action} {n : Network} (hturn : Meets step InTurn start acts)
    (hrun : run step start acts = some n) :
    ((n.arrived ++ n.underWay).map Item.completed).Sublist n.server.completed := by
  have hstart : sides.InOrder start := List.Sublist.refl []
  have horder : sides.InOrder n :=
    run_invariant (fun _ _ _ => Sides.step_inOrder) hstart hturn hrun
  have hplaces := (run_conserves (Sides.run_served hrun)).relayed.places_sublist
  have hall := (horder.append (List.Sublist.refl n.server.task.held)).append
    (List.Sublist.refl (n.server.txQueue.getD []))
  rw [underWay, List.append_assoc, ← List.append_assoc, ← List.append_assoc]
  exact (hall.map Item.completed).trans hplaces

theorem completed_numbers {s : Server} (h : Relayed s) (first : Nat) :
    s.completed.map (Completed.number first) = List.range' first s.completed.length := by
  have hmap := congrArg (List.map (first + ·)) h.1.serials
  rwa [List.map_map, List.map_add_range', Nat.add_zero] at hmap

/-- What arrived since the connection is a part of what is in its place, and the numbers go up. -/
theorem exists_around {acts : List Action} {n : Network} (hturn : Meets step InTurn start acts)
    (hrun : run step start acts = some n) {first : Nat} {ns : List Nat}
    (hns : (sinceConnected n.heard).map (Item.number first) = ns) :
    ∃ before after, ((n.arrived ++ n.underWay).map Item.completed).map (Completed.number first) =
        before ++ ns ++ after ∧
      (before ++ ns ++ after).Sublist (List.range' first n.server.completed.length) := by
  have hparts : ((n.arrived ++ n.underWay).map Item.completed).map (Completed.number first) =
      ((Link.arrivals connects n.heard).1.flatten.map (Item.number first)) ++ ns ++
        n.underWay.map (Item.number first) := by
    rw [List.map_map, Link.arrived_eq connects, ← hns, List.map_append, List.map_append]
    rfl
  refine ⟨_, _, hparts, ?_⟩
  have hsub := (run_sublist hturn hrun).map (Completed.number first)
  rwa [hparts, completed_numbers (run_conserves (Sides.run_served hrun)).relayed first] at hsub

/-- In turn, the frames that are missing between the first and the last arrival are those that the
relay has lost. -/
theorem missing_lost {acts : List Action} {n : Network} (hturn : Meets step InTurn start acts)
    (hrun : run step start acts = some n) {first : Nat} {ns : List Nat}
    (hns : (sinceConnected n.heard).map (Item.number first) = ns) :
    ns.Pairwise (· < ·) ∧ missing ns =
      ((flow step lost start acts).filter fun c => Between ns (c.number first)).card := by
  obtain ⟨before, after, hparts, hsub⟩ := exists_around hturn hrun hns
  have hup := List.Pairwise.sublist hsub List.pairwise_lt_range'
  have hns_up := (List.pairwise_append.mp (List.pairwise_append.mp hup).1).2.1
  have hbounds : ∀ m ∈ ns, first ≤ m ∧ m < first + n.server.completed.length := fun m hm =>
    List.mem_range'_1.mp
      (hsub.subset (List.mem_append_left _ (List.mem_append_right before hm)))
  have hnumbers := completed_numbers (run_conserves (Sides.run_served hrun)).relayed first
  have hall := congrArg (fun m : Multiset Completed =>
    ((m.map (Completed.number first)).filter (Between ns)).card) (run_places hrun)
  simp only [Multiset.map_coe, Multiset.map_add, Multiset.filter_add, Multiset.filter_coe,
    Multiset.card_add, Multiset.coe_card, hnumbers, hparts, filter_between_range' hbounds,
    filter_between_append hup, Multiset.filter_map, Multiset.card_map] at hall
  have hmissing := missing_add (hns_up.imp Nat.ne_of_lt)
  rw [hall, Nat.add_comm] at hmissing
  exact ⟨hns_up, Nat.add_left_cancel hmissing⟩

/-- **In turn, the client counts what the relay has lost.** That is, every completed frame between
the first and the last one that has arrived since the connection and that was lost anywhere. -/
theorem losses_counted {acts : List Action} {n : Network} (hturn : Meets step InTurn start acts)
    (hrun : run step start acts = some n) {first : Nat}
    (hseq : ∀ c ∈ n.server.completed, word c.bytes 2 = u16 (c.number first)) {ns : List Nat}
    (hns : (sinceConnected n.heard).map (Item.number first) = ns)
    (hgaps : ns.IsChain fun l m => m - l - 1 ≤ 1000) :
    n.client.client.totalRecvPktCount = u32 ns.length ∧ n.client.client.lostPktCount =
      u32 ((flow step lost start acts).filter fun c => Between ns (c.number first)).card := by
  have hhears : Hears (Item.number first) n.heard n.client :=
    run_hears (run_heeds hrun) fun item hitem => by
      obtain ⟨hmem, hwhole⟩ := arrived_whole hrun hitem
      exact ⟨hwhole, hseq item.completed hmem⟩
  obtain ⟨htotal, -, -, hlost⟩ := hhears.counted
  rw [hns] at htotal hlost
  refine ⟨htotal, ?_⟩
  obtain ⟨hup, hmissing⟩ := missing_lost hturn hrun hns
  rw [hlost, countedGaps_eq_missing (by decide) (isChain_ahead hup hgaps), hmissing]

theorem losses_counted_two_lost :
    ∃ n, run step start twoLost = some n ∧
      (sinceConnected n.heard).map (Item.number 7) = [7, 10] ∧
      n.client.client.totalRecvPktCount = 2 ∧ n.client.client.lostPktCount = 2 := by
  have hrun : (run step start twoLost).map (fun n =>
      (decide (∀ c ∈ n.server.completed, word c.bytes 2 = u16 (c.number 7)),
        (sinceConnected n.heard).map (Item.number 7))) = some (true, [7, 10]) := by decide +kernel
  obtain ⟨n, hn, hfacts⟩ := Option.map_eq_some_iff.mp hrun
  simp only [Prod.mk.injEq, decide_eq_true_eq] at hfacts
  obtain ⟨hseq, hns⟩ := hfacts
  obtain ⟨htotal, hlost⟩ := losses_counted (by decide +kernel) hn hseq hns (by decide)
  exact ⟨n, hn, hns, htotal, hlost.trans (by decide +kernel)⟩

/-! ## Without losses -/

def LosesNone (n : Network) (a : Action) : Prop := lost n a = 0

instance (n : Network) (a : Action) : Decidable (LosesNone n a) :=
  inferInstanceAs (Decidable (lost n a = 0))

/-- **Without losses, in turn, the relay is a wire.** What is written, and what is under way behind
it, are the payloads of the frames in the bytes of the UART. -/
theorem payloads_lossless {acts : List Action} {n : Network} (hturn : Meets step InTurn start acts)
    (hnone : Meets step LosesNone start acts) (hrun : run step start acts = some n) :
    n.client.client.written ++ n.underWay.map Item.payload =
      (parsed (acts.filterMap Link.Action.served)).map payloadOf := by
  have hall := run_places hrun
  rw [flow_eq_zero (fun _ _ h => h) hnone, add_zero] at hall
  have hcard := congrArg Multiset.card hall
  simp only [Multiset.coe_card] at hcard
  -- As many frames are in their places as were completed, so these are all.
  have hplaces := (run_sublist hturn hrun).eq_of_length hcard.symm
  have hbytes := congrArg (List.map fun c : Completed => payloadOf c.bytes) hplaces
  have hparsed := congrArg Prod.snd (run_parses (Sides.run_served hrun))
  rw [List.map_map] at hbytes
  rw [run_written hrun, ← List.map_append, parsed, ← hparsed, List.map_map]
  exact hbytes

/-- Two of the four frames have come through, and the task holds the third. -/
def halfWay : List Action :=
  [.server (.taskStart true), .server (.connectState 1 .connected),
    .server (.mtuChanged 1 1400 0), .server (.uart (fourFrames.take 20) fun _ => true),
    .server (.get true), .server (.send true 0), .deliver 0 .notification, .server (.get true),
    .server (.uart (fourFrames.drop 20) fun _ => true), .server (.send true 0), .server (.get true),
    .deliver 0 .notification]

theorem payloads_lossless_half_way :
    ∃ n, run step start halfWay = some n ∧ n.underWay.length = 2 ∧
      n.client.client.written ++ n.underWay.map Item.payload = [[7], [8], [9], [10]] := by
  have hrun : (run step start halfWay).map (fun n => n.underWay.length) = some 2 := by
    decide +kernel
  obtain ⟨n, hn, hway⟩ := Option.map_eq_some_iff.mp hrun
  have hall := payloads_lossless (by decide +kernel) (by decide +kernel) hn
  exact ⟨n, hn, hway, hall.trans (by decide +kernel)⟩

end Network

end NearLink.Ict
