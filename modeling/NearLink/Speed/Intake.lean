import NearLink.Speed.Network

/-!
# Which frames of the UART reach the queue

The frames of all delivered bytes, scanned in one piece, are the ones that the callbacks have
offered to the queue.
-/

namespace NearLink.Speed

/-- The frames in the bytes, and the bytes that wait for more. -/
def framesIn (bytes : List Byte) : List (List Byte) :=
  ((frameScanner uartQueueBufSize).scan bytes).1

def leftOf (bytes : List Byte) : List Byte := ((frameScanner uartQueueBufSize).scan bytes).2

/-- No frame total wraps where the scan looks for a frame. -/
def Legible (bytes : List Byte) : Prop := (frameScanner uartQueueBufSize).Along Unwrapped bytes

theorem Legible.of_noWrap {bytes : List Byte} (h : NoWrap bytes) : Legible bytes :=
  .of_suffix fun v hv => h v ((List.mem_tails v _).mpr hv)

theorem framesIn_append (bytes more : List Byte) :
    framesIn (bytes ++ more) = framesIn bytes ++ framesIn (leftOf bytes ++ more) :=
  congrArg Prod.fst ((frameScanner uartQueueBufSize).scan_append bytes more)

theorem leftOf_append (bytes more : List Byte) :
    leftOf (bytes ++ more) = leftOf (leftOf bytes ++ more) := by
  unfold leftOf
  rw [Scanner.scan_append]

/-! ## A callback that may still run -/

/-- With more fuel the loop goes on, unless it has returned. -/
theorem extractLoop_more (outside : Nat → Nat → Byte) (buf : Block Byte reassembleBufSize)
    (len fuel more k pos : Nat) :
    (extractLoop outside buf len fuel k pos).offers <+:
        (extractLoop outside buf len (fuel + more) k pos).offers ∧
      ((extractLoop outside buf len fuel k pos).returned = true →
        extractLoop outside buf len (fuel + more) k pos =
          extractLoop outside buf len fuel k pos) := by
  induction fuel generalizing k pos with
  | zero => exact ⟨List.nil_prefix, by simp [extractLoop]⟩
  | succ fuel ih =>
    rw [Nat.add_right_comm]
    simp only [extractLoop]
    cases extractIter (outside k) buf len pos with
    | stop => exact ⟨List.prefix_rfl, fun _ => rfl⟩
    | skip => exact ih (k + 1) (u16 (pos + 1))
    | frame total =>
      obtain ⟨hoffers, hsame⟩ := ih (k + 1) (u16 (pos + total))
      refine ⟨(List.prefix_append_right_inj _).mpr hoffers, fun hret => ?_⟩
      simp only [hsame hret]

/-- The frames that a callback has offered so far are the first ones in the bytes. -/
theorem uart1RxCallback_intake (fuel : Nat) {uartQueueId : Nat} (hq : uartQueueId ≠ 0) {rx : Rx}
    (hwait : rx.Waiting) {c : Call} (hc : c.bytes.length ≤ uart1RxBufSize)
    (hw : Legible (rx.received ++ c.bytes)) :
    (uart1RxCallback fuel uartQueueId c rx).frames <+: framesIn (rx.received ++ c.bytes) ∧
      ((uart1RxCallback fuel uartQueueId c rx).returned = true →
        (uart1RxCallback fuel uartQueueId c rx).frames = framesIn (rx.received ++ c.bytes) ∧
          (uart1RxCallback fuel uartQueueId c rx).rx.received = leftOf (rx.received ++ c.bytes)) := by
  by_cases hne : c.bytes = []
  · rw [uart1RxCallback_ignored fuel uartQueueId rx hne, hne, List.append_nil, framesIn, leftOf,
      Scanner.scan_wait hwait.look]
    exact ⟨List.prefix_rfl, fun _ => ⟨rfl, rfl⟩⟩
  have hchunk : c.Chunk := ⟨List.length_pos_iff.mpr hne, hc⟩
  have hlen := hwait.len_le
  have hmax : c.bytes.length ≤ 1500 := hc
  have hfit : rx.reassembleLen + c.bytes.length ≤ 6000 := by omega
  -- Enough fuel settles what the callback will have done.
  obtain ⟨-, hframes, hrec⟩ := uart1RxCallback_scan
    (show reassembleBufSize < fuel + 6001 by rw [reassembleBufSize_val]; omega) hq hwait hchunk hw
  rw [uart1RxCallback_fits _ _ hne hfit] at hframes hrec ⊢
  obtain ⟨hoffers, hsame⟩ := extractLoop_more c.outside (appended rx c.bytes).reassembleBuf
    (appended rx c.bytes).reassembleLen fuel 6001 0 0
  rw [extractFrames_frames hq] at hframes
  refine ⟨?_, fun hret => ?_⟩
  · rw [extractFrames_frames hq, framesIn, ← hframes]
    exact hoffers.map _
  · have hall := hsame hret
    rw [extractFrames_frames hq, framesIn, leftOf, ← hframes, ← hrec, hall]
    refine ⟨rfl, ?_⟩
    rw [extractFrames, extractFrames, hall]

/-! ## What the queue refuses -/

/-- The messages that find no room in the queue. -/
def turnedAway (accept : Nat → Bool) (offers : List Offer) : List Offer :=
  (offers.zipIdx.filter fun o => ¬ accept o.2).map (·.1)

theorem taken_or_turnedAway (accept : Nat → Bool) (offers : List Offer) :
    (↑offers : Multiset Offer) = ↑(taken accept offers) + ↑(turnedAway accept offers) := by
  have hsplit := List.filter_append_perm (fun o : Offer × Nat => accept o.2) offers.zipIdx
  have hall := hsplit.map Prod.fst
  rw [List.zipIdx_map_fst, List.map_append] at hall
  rw [← Multiset.coe_eq_coe.mpr hall, ← Multiset.coe_add]
  simp [taken, turnedAway]

theorem taken_sublist (accept : Nat → Bool) (offers : List Offer) :
    (taken accept offers).Sublist offers := by
  have hsub := (List.filter_sublist (p := fun o : Offer × Nat => accept o.2)
    (l := offers.zipIdx)).map Prod.fst
  rwa [List.zipIdx_map_fst] at hsub

theorem numbered_data (serial base : Nat) (offers : List Offer) :
    (numbered serial base offers).map Item.data = offers.map fun o => o.msg.data := by
  induction offers generalizing serial with
  | nil => rfl
  | cons o rest ih => simp [numbered, Item.data, ih]

/-- The frames that a step takes from the UART and not into the queue. -/
def refusedFrames (s : Server) : Action → Multiset (List Byte)
  | .uart fuel c => ↑((turnedAway c.accept
      (uart1RxCallback fuel s.uartQueueId c s.rx).offers).map fun o => o.msg.data)
  | .connectState _ _ _ _ | .pairComplete _ _ _ | .readRequest _ | .read _ _ | .flowCtrl _ _
  | .notify _ _ => 0

/-- The driver delivers no more than its buffer holds. -/
def ShortCalls (_ : Server) : Action → Prop
  | .uart _ c => c.bytes.length ≤ uart1RxBufSize
  | .connectState _ _ _ _ | .pairComplete _ _ _ | .readRequest _ | .read _ _ | .flowCtrl _ _
  | .notify _ _ => True

instance (s : Server) : ∀ a, Decidable (ShortCalls s a)
  | .uart _ c => inferInstanceAs (Decidable (c.bytes.length ≤ uart1RxBufSize))
  | .connectState _ _ _ _ | .pairComplete _ _ _ | .readRequest _ | .read _ _ | .flowCtrl _ _
  | .notify _ _ => .isTrue trivial

/-- `m` are the frames that were refused so far. Only while no callback runs are the frames of all
delivered bytes in the queue or refused. -/
structure TakesIn (m : Multiset (List Byte)) (s : Server) : Prop where
  sub : (s.enqueued.map Item.data).Sublist (framesIn s.delivered)
  idle : s.uartBusy = false → s.rx.Waiting ∧ s.rx.received = leftOf s.delivered ∧
    ↑(framesIn s.delivered) = (↑(s.enqueued.map Item.data) : Multiset (List Byte)) + m

theorem TakesIn.start (uartQueueId : Nat) : TakesIn 0 (Server.start uartQueueId) :=
  ⟨List.nil_sublist _, fun _ => ⟨.of_empty rfl, rfl, rfl⟩⟩

theorem TakesIn.same {m : Multiset (List Byte)} {s t : Server} (h : TakesIn m s)
    (hst : SameTraffic s t) (hbusy : t.uartBusy = s.uartBusy) : TakesIn (m + 0) t := by
  refine ⟨?_, ?_⟩
  · rw [hst.enqueued, hst.delivered]; exact h.sub
  · rw [hbusy, hst.rx, hst.delivered, hst.enqueued, add_zero]; exact h.idle

theorem uartStep_takesIn {m : Multiset (List Byte)} {fuel : Nat} {c : Call} {s t : Server}
    (hid : s.uartQueueId ≠ 0) (h : Legible s.delivered → TakesIn m s)
    (hshort : c.bytes.length ≤ uart1RxBufSize) (hstep : uartStep fuel c s = some t)
    (hw : Legible t.delivered) : TakesIn (m + refusedFrames s (.uart fuel c)) t := by
  obtain ⟨⟨-, hidle⟩, hstep⟩ := Option.ite_none_right_eq_some.mp hstep
  obtain rfl := Option.some.inj hstep
  obtain ⟨hbefore, hnow⟩ := Scanner.Along.of_append Unwrapped.of_append s.delivered c.bytes hw
  obtain ⟨hsub, hquiet⟩ := h hbefore
  obtain ⟨hwait, hrec, hall⟩ := hquiet hidle
  have hseen : leftOf s.delivered ++ c.bytes = s.rx.received ++ c.bytes := by rw [hrec]
  have hnow : Legible (s.rx.received ++ c.bytes) := hseen ▸ hnow
  obtain ⟨hframes, hret⟩ := uart1RxCallback_intake fuel hid hwait hshort hnow
  refine ⟨?_, fun hdone => ?_⟩
  · simp only [framesIn_append s.delivered, hseen, List.map_append, numbered_data]
    exact hsub.append (((taken_sublist c.accept _).map _).trans hframes.sublist)
  · have hreturned : (uart1RxCallback fuel s.uartQueueId c s.rx).returned = true := by
      simpa using hdone
    obtain ⟨hsame, hleft⟩ := hret hreturned
    refine ⟨uart1RxCallback_waiting fuel s.uartQueueId c hwait hreturned, ?_, ?_⟩
    · simp only [leftOf_append s.delivered, hseen]
      exact hleft
    · have hoffers := congrArg (Multiset.map fun o : Offer => o.msg.data) (taken_or_turnedAway c.accept
        (uart1RxCallback fuel s.uartQueueId c s.rx).offers)
      simp only [Multiset.map_coe, Multiset.map_add] at hoffers
      simp only [framesIn_append s.delivered, hseen, ← hsame, List.map_append, numbered_data, ← Multiset.coe_add,
        hall, refusedFrames, Outcome.frames, hoffers]
      abel

theorem step_takesIn {m : Multiset (List Byte)} {s t : Server} {a : Action}
    (hid : s.uartQueueId ≠ 0) (h : Legible s.delivered → TakesIn m s) (hok : ShortCalls s a)
    (hstep : step s a = some t) :
    t.uartQueueId ≠ 0 ∧ (Legible t.delivered → TakesIn (m + refusedFrames s a) t) := by
  have hsame : SameTraffic s t → t.uartBusy = s.uartBusy →
      t.uartQueueId ≠ 0 ∧ (Legible t.delivered → TakesIn (m + 0) t) := by
    intro hst hbusy
    rw [hst.uartQueueId, hst.delivered]
    exact ⟨hid, fun hw => (h hw).same hst hbusy⟩
  cases a with
  | uart fuel c =>
    obtain ⟨_, -, -, -, -, -, -, -, -, hid', -⟩ := uartStep_spec hstep
    exact ⟨hid' ▸ hid, uartStep_takesIn hid h hok hstep⟩
  | connectState connId connState pairState created =>
    obtain rfl := Option.some.inj hstep
    apply hsame (connectState_spec connId connState pairState created s).1
    cases connState with
    | connected =>
      simp only [trackLink, sleConnectStateChangedCbk]
      split <;> rfl
    | _ => rfl
  | pairComplete connId status created =>
    obtain rfl := Option.some.inj hstep
    apply hsame (slePairCompleteCbk_spec status created s).1
    unfold slePairCompleteCbk
    split <;> rfl
  | readRequest created =>
    obtain rfl := Option.some.inj hstep
    exact hsame (ssapsReadRequestCbk_spec created s).1 rfl
  | read i success =>
    rcases senderRead_spec hstep with rfl | ⟨-, _, _, _, _, _, _, -, -, -, -, rfl⟩
    · exact hsame ⟨rfl, rfl, rfl, rfl, rfl, rfl⟩ rfl
    · exact ⟨hid, fun hw => ⟨(h hw).sub, by rw [refusedFrames, add_zero]; exact (h hw).idle⟩⟩
  | flowCtrl i flag =>
    obtain ⟨_, rfl, -, hheld⟩ := senderFlowCtrl_spec hstep
    exact hsame ⟨rfl, hheld, rfl, rfl, rfl, rfl⟩ rfl
  | notify i notifyRet =>
    obtain ⟨_, _, _, _, _, -, -, -, -, rfl⟩ := senderNotify_spec hstep
    exact ⟨hid, fun hw => ⟨(h hw).sub, by rw [refusedFrames, add_zero]; exact (h hw).idle⟩⟩

/-! ## From UART to UART -/

namespace Network

abbrev ShortCalls (n : Network) : Action → Prop := Link.ServerMeets Speed.ShortCalls n

/-- The frames that a step takes from the UART and that are never written: refused by the queue of
the server, or lost behind it. -/
def lostFrames (n : Network) (a : Action) : Multiset (List Byte) :=
  Link.atServer refusedFrames n a + (lost n a).map Item.data

/-- What a run keeps of the server while nothing that the UART delivered is lost in a counter. -/
def Receives (m : Multiset (List Byte)) (s : Server) : Prop :=
  s.uartQueueId ≠ 0 ∧ (Legible s.delivered → TakesIn m s)

theorem run_takesIn {uartQueueId uartTxQueueId : Nat} {created : Bool} {acts : List Action}
    {n : Network} (hq : uartQueueId ≠ 0)
    (hshort : Meets step ShortCalls (start uartQueueId uartTxQueueId created) acts)
    (hrun : run step (start uartQueueId uartTxQueueId created) acts = some n)
    (hw : Legible n.server.delivered) :
    TakesIn (flow step (Link.atServer refusedFrames) (start uartQueueId uartTxQueueId created) acts)
      n.server := by
  have hinv : ∀ m s a t, Receives m s → Speed.ShortCalls s a → Speed.step s a = some t →
      Receives (m + refusedFrames s a) t := fun m s a t h hok hs => step_takesIn h.1 h.2 hok hs
  have hstart : Receives 0 (Server.start uartQueueId) := ⟨hq, fun _ => TakesIn.start uartQueueId⟩
  have h := run_flow_under hinv hstart (Sides.meets_served hshort hrun) (Sides.run_served hrun)
  rw [zero_add] at h
  rw [step, Sides.flow_served refusedFrames hrun]
  exact h.2 hw

/-- **Every frame of the UART stream is written once, under way, or lost at one known place.** -/
theorem frames_conserved {uartQueueId uartTxQueueId : Nat} {created : Bool} {acts : List Action}
    {n : Network} (hq : uartQueueId ≠ 0)
    (hshort : Meets step ShortCalls (start uartQueueId uartTxQueueId created) acts)
    (hrun : run step (start uartQueueId uartTxQueueId created) acts = some n)
    (hw : Legible n.server.delivered) (hidle : n.server.uartBusy = false) :
    ↑(framesIn n.server.delivered) = (↑(n.client.written ++ n.client.pending) +
      ↑((n.air ++ n.server.held ++ n.server.queue).map Item.data) : Multiset (List Byte)) +
      flow step lostFrames (start uartQueueId uartTxQueueId created) acts := by
  have hall := ((run_takesIn hq hshort hrun hw).idle hidle).2.2
  have hlost : flow step (fun n a => (lost n a).map Item.data)
      (start uartQueueId uartTxQueueId created) acts =
        (flow step lost (start uartQueueId uartTxQueueId created) acts).map Item.data :=
    (map_flow (Multiset.mapAddMonoidHom Item.data) lost _ acts).symm
  unfold lostFrames
  rw [hall, (run_places hrun).all, flow_add, hlost]
  abel

/-- The second of three frames is refused. The third comes in two parts and is lost on the link. -/
def refusedAndLost : List Action :=
  [.server (.pairComplete 1 0 true),
    .server (.uart 100 ⟨some (3 :: (Frame.bare 1492 7).encode ++ (Frame.bare 1492 8).encode ++
      (Frame.bare 1492 9).encode.take 3), false, fun _ _ => 0, fun i => i = 0⟩),
    .server (.read 0 true), .server (.flowCtrl 0 1), .server (.notify 0 0),
    .server (.uart 100 (.ok ((Frame.bare 1492 9).encode.drop 3))),
    .server (.read 0 true), .server (.flowCtrl 0 1), .server (.notify 0 0),
    .deliver 0 true, .lose 0, .client (.txRead true)]

theorem frames_conserved_refused_and_lost :
    ∃ n, run step (start 1 1 true) refusedAndLost = some n ∧
      framesIn n.server.delivered = [7, 8, 9].map (fun seq => (Frame.bare 1492 seq).encode) ∧
      n.client.pending = [(Frame.bare 1492 7).encode] ∧
      (flow step lostFrames (start 1 1 true) refusedAndLost).card = 2 := by
  have hrun : (run step (start 1 1 true) refusedAndLost).map (fun n =>
      (decide (NoWrap n.server.delivered), n.server.uartBusy, decide (framesIn n.server.delivered =
        [7, 8, 9].map fun seq => (Frame.bare 1492 seq).encode), n.client.written.length,
        decide (n.client.pending = [(Frame.bare 1492 7).encode]),
        (n.air ++ n.server.held ++ n.server.queue).length)) = some (true, false, true, 0, true, 0) := by
    decide +kernel
  obtain ⟨n, hn, hfacts⟩ := Option.map_eq_some_iff.mp hrun
  simp only [Prod.mk.injEq, decide_eq_true_eq] at hfacts
  obtain ⟨hwrap, hidle, hframes, hwritten, hpending, hbetween⟩ := hfacts
  have hcard := congrArg Multiset.card
    (frames_conserved (by decide) (by decide +kernel) hn (.of_noWrap hwrap) hidle)
  rw [hframes, Multiset.card_add, Multiset.card_add, Multiset.coe_card, Multiset.coe_card,
    Multiset.coe_card, List.length_append, hwritten, hpending, List.length_map, List.length_map,
    hbetween] at hcard
  exact ⟨n, hn, hframes, hpending, by simp at hcard; omega⟩

end Network

end NearLink.Speed
