import NearLink.Speed.Intake

/-!
# When the relay loses nothing

If no step loses a frame and everything goes in turn, the frames that come out of the client's UART
are the frames that went into the server's UART, up to those still under way.
-/

namespace NearLink.Speed.Network

/-- The step loses no frame, neither in front of the server's queue nor behind it. -/
def LosesNone (n : Network) (a : Action) : Prop := lostFrames n a = 0

instance (n : Network) (a : Action) : Decidable (LosesNone n a) :=
  inferInstanceAs (Decidable (lostFrames n a = 0))

theorem LosesNone.parts {n : Network} {a : Action} (h : LosesNone n a) :
    Link.atServer refusedFrames n a = 0 ∧ lost n a = 0 := by
  obtain ⟨hrefused, hlost⟩ :=
    (add_eq_zero_iff_of_nonneg (Multiset.zero_le _) (Multiset.zero_le _)).mp h
  exact ⟨hrefused, Multiset.map_eq_zero.mp hlost⟩

/-- Everything that is under way has its place behind what is written. -/
theorem Ordered.all_sublist {uartTxQueueId : Nat} {created : Bool} {n : Network}
    (h : Ordered uartTxQueueId created n) :
    ∃ hands : List Item, hands.Perm n.server.held ∧
      (n.client.written ++ n.client.pending ++
        (n.air ++ hands ++ n.server.queue).map Item.data).Sublist
          (n.server.enqueued.map Item.data) := by
  obtain ⟨r, hr⟩ := h.relays
  refine ⟨r.held, hr.held, ?_⟩
  have hord := hr.steps.ordered Relay.ordered_empty
  rw [Relay.Ordered, hr.put, hr.queue, hr.sent] at hord
  have hlink := ((h.sent.append (List.Sublist.refl r.held)).append
    (List.Sublist.refl n.server.queue)).trans hord
  have hall := hlink.map Item.data
  rw [(Heeds.forwards h.heeds).order]
  simp only [List.map_append, List.append_assoc] at hall ⊢
  exact (h.arrived.append (List.Sublist.refl _)).trans hall

/-- **Without losses the relay is a wire.** While the receiver is idle, what is written is the
beginning of the frames on the UART, in order, and the rest is under way in order. -/
theorem relay_lossless {uartQueueId uartTxQueueId : Nat} {created : Bool} {acts : List Action}
    {n : Network} (hq : uartQueueId ≠ 0)
    (hshort : Meets step ShortCalls (start uartQueueId uartTxQueueId created) acts)
    (hturn : Meets step InTurn (start uartQueueId uartTxQueueId created) acts)
    (hnone : Meets step LosesNone (start uartQueueId uartTxQueueId created) acts)
    (hrun : run step (start uartQueueId uartTxQueueId created) acts = some n)
    (hw : Legible n.server.delivered) (hidle : n.server.uartBusy = false) :
    ∃ hands : List Item, hands.Perm n.server.held ∧
      framesIn n.server.delivered = n.client.written ++ n.client.pending ++
        (n.air ++ hands ++ n.server.queue).map Item.data := by
  obtain ⟨hands, hperm, hsub⟩ := (run_ordered hturn hrun).all_sublist
  refine ⟨hands, hperm, ?_⟩
  have hframes := hsub.trans (run_takesIn hq hshort hrun hw).sub
  have hqueued := ((run_takesIn hq hshort hrun hw).idle hidle).2.2
  have hplaced := (run_places hrun).all
  rw [flow_eq_zero (fun _ _ h => h.parts.1) hnone, add_zero] at hqueued
  rw [flow_eq_zero (fun _ _ h => h.parts.2) hnone, Multiset.map_zero, add_zero] at hplaced
  -- Nothing is missing, so the subsequence is the whole.
  have hcard := congrArg Multiset.card (hqueued.trans hplaced)
  simp only [Multiset.coe_card, Multiset.card_add, List.length_append, List.length_map] at hcard
  refine (hframes.eq_of_length ?_).symm
  simp only [List.length_append, List.length_map, hperm.length_eq]
  omega

/-- Two of three frames have come through, and a thread waits with the third. -/
def halfWay : List Action :=
  [.server (.pairComplete 1 0 true),
    .server (.uart 100 (.ok ([7, 8, 9].flatMap fun seq => (Frame.bare 1492 seq).encode))),
    .server (.read 0 true), .server (.flowCtrl 0 1), .server (.notify 0 0),
    .server (.read 0 true), .server (.flowCtrl 0 1), .server (.notify 0 0), .server (.read 0 true),
    .deliver 0 true, .deliver 0 true, .client (.txRead true), .client (.txWrite 8),
    .client (.txRead true)]

theorem relay_lossless_half_way :
    ∃ n hands, run step (start 1 1 true) halfWay = some n ∧ n.client.written.length = 1 ∧
      hands.Perm n.server.held ∧ framesIn n.server.delivered = n.client.written ++
        n.client.pending ++ (n.air ++ hands ++ n.server.queue).map Item.data := by
  have hrun : (run step (start 1 1 true) halfWay).map (fun n =>
      (decide (NoWrap n.server.delivered), n.server.uartBusy, n.client.written.length)) =
      some (true, false, 1) := by decide +kernel
  obtain ⟨n, hn, hfacts⟩ := Option.map_eq_some_iff.mp hrun
  simp only [Prod.mk.injEq, decide_eq_true_eq] at hfacts
  obtain ⟨hwrap, hidle, hwritten⟩ := hfacts
  obtain ⟨hands, hperm, hall⟩ := relay_lossless (by decide) (by decide +kernel) (by decide +kernel)
    (by decide +kernel) hn (.of_noWrap hwrap) hidle
  exact ⟨n, hands, hn, hwritten, hperm, hall⟩

end NearLink.Speed.Network
