import NearLink.Ict.Frames
import NearLink.Ict.Server
import NearLink.Relay

/-!
# The ict_sle server as a relay

What enters the queue are frames that the parser completed, and what leaves the task leaves in
the order of the queue.
-/

namespace NearLink.Ict

/-! ## What a completed frame does -/

theorem osMessageQueuePut_spec (accept : Bool) (item : Item) (s : Server) :
    osMessageQueuePut accept item s = (s, false) ∨
      ∃ queue, s.txQueue = some queue ∧ osMessageQueuePut accept item s =
        ({ s with txQueue := some (queue ++ [item]), enqueued := s.enqueued ++ [item] }, true) := by
  unfold osMessageQueuePut
  cases s.txQueue with
  | none => exact Or.inl rfl
  | some queue =>
    cases accept with
    | false => exact Or.inl rfl
    | true => exact Or.inr ⟨queue, rfl, rfl⟩

theorem copyMsg_data {p : Parser} {msg : TxMsg}
    (h : copyMsg p (p.payloadLen + audioFrameOverhead) = some msg) : msg.data = p.frame := by
  unfold copyMsg at h
  split at h
  · obtain rfl := Option.some.inj h
    rfl
  · cases h

theorem onFrameComplete_cases (accept : Bool) (s : Server) :
    (∃ drops, onFrameComplete accept s = { s with txQueueDropCount := drops }) ∨
      ∃ queue msg, s.txQueue = some queue ∧ s.sleReady ≠ 0 ∧
        copyMsg s.parser (u16 (s.parser.payloadLen + audioFrameOverhead)) = some msg ∧
        onFrameComplete accept s =
          { s with
            txQueue := some (queue ++ [⟨s.completed.length, s.link, msg⟩])
            enqueued := s.enqueued ++ [⟨s.completed.length, s.link, msg⟩] } := by
  simp only [onFrameComplete]
  split_ifs with hready hbig
  · exact Or.inl ⟨s.txQueueDropCount, rfl⟩
  · exact Or.inl ⟨s.txQueueDropCount, rfl⟩
  cases hcopy : copyMsg s.parser (u16 (s.parser.payloadLen + audioFrameOverhead)) with
  | none => exact Or.inl ⟨s.txQueueDropCount, rfl⟩
  | some msg =>
    simp only
    rcases osMessageQueuePut_spec accept ⟨s.completed.length, s.link, msg⟩ s with
      hput | ⟨queue, hq, hput⟩
    · rw [hput]
      exact Or.inl ⟨_, rfl⟩
    · rw [hput]
      exact Or.inr ⟨queue, msg, hq, hready, rfl, rfl⟩

theorem onFrameComplete_spec (accept : Bool) (s : Server)
    (hlen : s.parser.payloadLen + audioFrameOverhead < 65536) :
    (∃ drops, onFrameComplete accept s = { s with txQueueDropCount := drops }) ∨
      ∃ queue item, s.txQueue = some queue ∧
        item.completed = ⟨s.completed.length, s.parser.frame⟩ ∧
        onFrameComplete accept s =
          { s with txQueue := some (queue ++ [item]), enqueued := s.enqueued ++ [item] } := by
  rcases onFrameComplete_cases accept s with hdrop | ⟨queue, msg, hq, -, hcopy, heq⟩
  · exact Or.inl hdrop
  · rw [u16_of_lt hlen] at hcopy
    refine Or.inr ⟨queue, ⟨s.completed.length, s.link, msg⟩, hq, ?_, heq⟩
    rw [Item.completed, copyMsg_data hcopy]

/-! ## What the task and the UART do -/

theorem sleTaskStart_spec {s t : Server} {created : Bool} (h : sleTaskStart created s = some t) :
    s.task = .starting ∧
      (t = { s with txQueue := some [], task := .reading } ∨ t = { s with task := .ended }) := by
  unfold sleTaskStart at h
  split at h
  · rename_i htask
    split at h
    · exact ⟨htask, Or.inl (Option.some.inj h).symm⟩
    · exact ⟨htask, Or.inr (Option.some.inj h).symm⟩
  · cases h

theorem sleTaskGet_spec {s t : Server} {success : Bool} (h : sleTaskGet success s = some t) :
    t = s ∨ ∃ item rest, s.task = .reading ∧ s.txQueue = some (item :: rest) ∧
      t = { s with
        txQueue := some rest
        sleSendCount := u32 (s.sleSendCount + 1)
        task := .sending item } := by
  unfold sleTaskGet at h
  split at h
  · rename_i htask
    split at h
    · split at h
      · rename_i item rest hq
        exact Or.inr ⟨item, rest, htask, hq, (Option.some.inj h).symm⟩
      · cases h
    · exact Or.inl (Option.some.inj h).symm
  · cases h

theorem sleTaskSend_spec {s t : Server} {allocated : Bool} {notifyRet : Nat}
    (h : sleTaskSend allocated notifyRet s = some t) :
    ∃ item, s.task = .sending item ∧
      t = { s with
        task := .reading
        notified := s.notified ++ (sleUartServerSendReportByHandle allocated notifyRet item s).1 } := by
  unfold sleTaskSend at h
  split at h
  · rename_i item htask
    exact ⟨item, htask, (Option.some.inj h).symm⟩
  · cases h

/-- What every byte preserves holds after a callback. -/
theorem serverUartRxCallback_preserves (P : Server → Prop)
    (hbyte : ∀ accept s b, P s → P (frameParse accept s b)) {s : Server} (hs : P s)
    (data : List Byte) (accept : Nat → Bool) : P (serverUartRxCallback data accept s) := by
  unfold serverUartRxCallback
  induction data.zipIdx generalizing s with
  | nil => exact hs
  | cons b bs ih => exact ih (hbyte (accept b.2) s b.1 hs)

/-! ## Every queued message is a completed frame -/

/-- The completed frames are frames and numbered, and what was queued is among them. -/
structure Frames (s : Server) : Prop where
  parser : ∃ part, Tracks s.parser part
  serials : s.completed.map Completed.serial = List.range' 0 s.completed.length
  whole : ∀ c ∈ s.completed, ∃ f : Frame 1 1024, f.encode = c.bytes
  queued : (s.enqueued.map Item.completed).Sublist s.completed

/-- What the relay behind a server holds. -/
structure Relays (r : Relay Item) (s : Server) : Prop where
  steps : Relay.Steps .empty r
  put : r.put = s.enqueued
  queue : r.queue = s.txQueue.getD []
  held : r.held = s.task.held
  sent : r.sent = s.notified.map Notify.item

def Relayed (s : Server) : Prop := Frames s ∧ ∃ r, Relays r s

theorem relayed_start : Relayed Server.start :=
  ⟨⟨⟨[], .idle rfl⟩, rfl, by simp [Server.start], List.Sublist.refl _⟩,
    .empty, .refl, rfl, rfl, rfl, rfl⟩

theorem Relayed.congr {s t : Server} (h : Relayed s) (hparser : ∃ part, Tracks t.parser part)
    (hcompleted : t.completed = s.completed) (henq : t.enqueued = s.enqueued)
    (hq : t.txQueue = s.txQueue) (htask : t.task.held = s.task.held)
    (hnot : t.notified = s.notified) : Relayed t := by
  obtain ⟨⟨-, hserials, hwhole, hqueued⟩, r, hr⟩ := h
  refine ⟨⟨hparser, ?_, ?_, ?_⟩, r, hr.steps, ?_, ?_, ?_, ?_⟩
  · rw [hcompleted]; exact hserials
  · rw [hcompleted]; exact hwhole
  · rw [hcompleted, henq]; exact hqueued
  · rw [henq]; exact hr.put
  · rw [hq]; exact hr.queue
  · rw [htask]; exact hr.held
  · rw [hnot]; exact hr.sent

theorem Frames.note {s t : Server} (h : Frames s) (hparser : ∃ part, Tracks t.parser part)
    (hframe : ∃ f : Frame 1 1024, f.encode = t.parser.frame) (hcompleted : t.completed = s.completed)
    (hqueued : (t.enqueued.map Item.completed).Sublist
      (s.completed ++ [⟨s.completed.length, t.parser.frame⟩])) : Frames (noteCompleted t) := by
  refine ⟨hparser, ?_, ?_, ?_⟩
  · simp only [noteCompleted, hcompleted, List.map_append, h.serials, List.map_cons, List.map_nil,
      List.length_append, List.length_singleton, ← List.range'_append_1, Nat.zero_add,
      List.range'_one]
  · simp only [noteCompleted, hcompleted, List.mem_append, List.mem_singleton]
    rintro c (hold | rfl)
    · exact h.whole c hold
    · exact hframe
  · simp only [noteCompleted, hcompleted]
    exact hqueued

/-! ## Steps -/

theorem frameParseByte_done {p : Parser} {part : List Byte} (h : Tracks p part) {b : Byte}
    (hdone : (frameParseByte p b).2 = true) :
    ∃ f : Frame 1 1024, f.encode = (frameParseByte p b).1.frame ∧
      (frameParseByte p b).1.payloadLen = f.payload.length := by
  obtain ⟨-, hout⟩ := frameParseByte_follows h b
  rw [frameParseEmit, if_pos hdone] at hout
  obtain ⟨-, h6, -, f, hf, hlen, -⟩ := grow_emit h.whole hout.symm
  exact ⟨f, hf, by rw [(frameParseByte_complete hdone).2, h.len (by omega), hlen]⟩

theorem frameParse_relayed {s : Server} (h : Relayed s) (accept : Bool) (b : Byte) :
    Relayed (frameParse accept s b) := by
  obtain ⟨part, htracks⟩ := h.1.parser
  obtain ⟨hnext, -⟩ := frameParseByte_follows htracks b
  simp only [frameParse]
  split_ifs with hdone
  swap
  · exact h.congr ⟨_, hnext⟩ rfl rfl rfl rfl rfl
  obtain ⟨f, hf, hpay⟩ := frameParseByte_done htracks hdone
  have hshort : (frameParseByte s.parser b).1.payloadLen + audioFrameOverhead < 65536 := by
    have := f.le_hi
    rw [hpay, audioFrameOverhead_val]
    omega
  obtain ⟨hframes, r, hr⟩ := h
  rcases onFrameComplete_spec accept { s with parser := (frameParseByte s.parser b).1 } hshort with
    ⟨drops, heq⟩ | ⟨queue, item, hq, hitem, heq⟩
  · rw [heq]
    exact ⟨hframes.note ⟨_, hnext⟩ ⟨f, hf⟩ rfl (hframes.queued.trans (List.sublist_append_left _ _)),
      r, hr.steps, hr.put, hr.queue, hr.held, hr.sent⟩
  · rw [heq]
    refine ⟨hframes.note ⟨_, hnext⟩ ⟨f, hf⟩ rfl ?_, _, hr.steps.tail (.put r item), ?_, ?_,
      hr.held, hr.sent⟩
    · rw [List.map_append, List.map_singleton, hitem]
      exact hframes.queued.append (List.Sublist.refl _)
    · rw [hr.put]; rfl
    · rw [hr.queue, hq]; rfl

theorem serverUartRxCallback_relayed {s : Server} (h : Relayed s) (data : List Byte)
    (accept : Nat → Bool) : Relayed (serverUartRxCallback data accept s) :=
  serverUartRxCallback_preserves Relayed (fun accept _ b h => frameParse_relayed h accept b) h data
    accept

theorem Relayed.drain {s t : Server} (h : Relayed s) (hparser : ∃ part, Tracks t.parser part)
    (hcompleted : t.completed = s.completed) (henq : t.enqueued = s.enqueued)
    (hq : t.txQueue.getD [] = []) (htask : t.task.held = s.task.held)
    (hnot : t.notified = s.notified) : Relayed t := by
  obtain ⟨⟨-, hserials, hwhole, hqueued⟩, r, hr⟩ := h
  refine ⟨⟨hparser, ?_, ?_, ?_⟩, _, hr.steps.tail (.drain r), ?_, ?_, ?_, ?_⟩
  · rw [hcompleted]; exact hserials
  · rw [hcompleted]; exact hwhole
  · rw [hcompleted, henq]; exact hqueued
  · rw [henq]; exact hr.put
  · rw [hq]
  · rw [htask]; exact hr.held
  · rw [hnot]; exact hr.sent

theorem connectState_relayed {s : Server} (h : Relayed s) (connId : Nat)
    (connState : SleAcbStateType) :
    Relayed (trackConnect connId connState (sleConnectStateChangedCbk connId connState s)) := by
  cases connState with
  | connected => exact h.congr h.1.parser rfl rfl rfl rfl rfl
  | disconnected =>
    refine h.drain ⟨[], .idle rfl⟩ rfl rfl ?_ rfl rfl
    unfold trackConnect sleConnectStateChangedCbk setLink
    cases s.txQueue <;> rfl
  | other => exact h

theorem mtuChanged_relayed {s : Server} (h : Relayed s) (connId mtuSize status : Nat) :
    Relayed (trackMtu connId status (ssapsMtuChangedCbk connId mtuSize status s)) := by
  unfold trackMtu
  split <;> exact h.congr h.1.parser rfl rfl rfl rfl rfl

theorem pairComplete_relayed {s : Server} (h : Relayed s) (connId status : Nat) :
    Relayed (trackPair connId status (slePairCompleteCbk connId status s)) := by
  unfold trackPair
  split <;> exact h.congr h.1.parser rfl rfl rfl rfl rfl

theorem sleTaskStart_relayed {s t : Server} {created : Bool} (h : Relayed s)
    (hstep : sleTaskStart created s = some t) : Relayed t := by
  obtain ⟨htask, rfl | rfl⟩ := sleTaskStart_spec hstep
  · exact h.drain h.1.parser rfl rfl rfl (by rw [htask]; rfl) rfl
  · exact h.congr h.1.parser rfl rfl rfl (by rw [htask]; rfl) rfl

theorem sleTaskGet_relayed {s t : Server} {success : Bool} (h : Relayed s)
    (hstep : sleTaskGet success s = some t) : Relayed t := by
  rcases sleTaskGet_spec hstep with rfl | ⟨item, rest, htask, hq, rfl⟩
  · exact h
  obtain ⟨hframes, r, hr⟩ := h
  have hrq : r.queue = item :: rest := by rw [hr.queue, hq]; rfl
  refine ⟨⟨hframes.parser, hframes.serials, hframes.whole, hframes.queued⟩,
    _, hr.steps.tail (.take r hrq), hr.put, rfl, ?_, hr.sent⟩
  rw [hr.held, htask]
  rfl

theorem sleTaskSend_relayed {s t : Server} {allocated : Bool} {notifyRet : Nat} (h : Relayed s)
    (hstep : sleTaskSend allocated notifyRet s = some t) : Relayed t := by
  obtain ⟨item, htask, rfl⟩ := sleTaskSend_spec hstep
  obtain ⟨hframes, r, hr⟩ := h
  have hheld : r.held = [item] := by rw [hr.held, htask]; rfl
  refine ⟨⟨hframes.parser, hframes.serials, hframes.whole, hframes.queued⟩, ?_⟩
  cases allocated with
  | true =>
    refine ⟨_, hr.steps.tail (.send r hheld), hr.put, hr.queue, rfl, ?_⟩
    simp [hr.sent, sleUartServerSendReportByHandle]
  | false =>
    refine ⟨_, hr.steps.tail (.drop r (List.nil_sublist _)), hr.put, hr.queue, rfl, ?_⟩
    simp [hr.sent, sleUartServerSendReportByHandle]

theorem step_relayed {s t : Server} {a : Action} (h : Relayed s) (hstep : step s a = some t) :
    Relayed t := by
  cases a with
  | taskStart created => exact sleTaskStart_relayed h hstep
  | uart data accept =>
    obtain rfl := Option.some.inj hstep
    exact serverUartRxCallback_relayed h data accept
  | connectState connId connState =>
    obtain rfl := Option.some.inj hstep
    exact connectState_relayed h connId connState
  | mtuChanged connId mtuSize status =>
    obtain rfl := Option.some.inj hstep
    exact mtuChanged_relayed h connId mtuSize status
  | pairComplete connId status =>
    obtain rfl := Option.some.inj hstep
    exact pairComplete_relayed h connId status
  | get success => exact sleTaskGet_relayed h hstep
  | send allocated notifyRet => exact sleTaskSend_relayed h hstep

/-- What the server sends is a subsequence of the frames that its parser completed. -/
theorem notified_sublist_completed {acts : List Action} {s : Server}
    (hrun : run step Server.start acts = some s) :
    (s.notified.map fun n => n.item.completed).Sublist s.completed ∧ s.completed.Nodup ∧
      ∀ c ∈ s.completed, ∃ f : Frame 1 1024, f.encode = c.bytes := by
  obtain ⟨hframes, r, hr⟩ := run_preserves (fun _ _ _ => step_relayed) relayed_start hrun
  have hsent := hr.steps.sent_sublist
  rw [hr.sent, hr.put] at hsent
  refine ⟨?_, ?_, hframes.whole⟩
  · have hmap := (hsent.map Item.completed).trans hframes.queued
    rwa [List.map_map] at hmap
  · apply List.Nodup.of_map Completed.serial
    rw [hframes.serials]
    exact List.nodup_range'

/-! ## The callback is the parser's loop -/

structure Keeps (s t : Server) : Prop where
  parser : t.parser = s.parser
  completed : t.completed = s.completed
  sleReady : t.sleReady = s.sleReady
  sleConnHdl : t.sleConnHdl = s.sleConnHdl
  links : t.links = s.links

theorem onFrameComplete_keeps (accept : Bool) (s : Server) :
    Keeps s (onFrameComplete accept s) := by
  rcases onFrameComplete_cases accept s with ⟨drops, heq⟩ | ⟨queue, msg, -, -, -, heq⟩ <;>
    rw [heq] <;> exact ⟨rfl, rfl, rfl, rfl, rfl⟩

theorem frameParse_emits (accept : Bool) (s : Server) (b : Byte) :
    (frameParse accept s b).parser = (frameParseEmit s.parser b).1 ∧
      (frameParse accept s b).completed.map Completed.bytes =
        s.completed.map Completed.bytes ++ (frameParseEmit s.parser b).2.toList := by
  obtain ⟨hparser, hcompleted, -, -, -⟩ :=
    onFrameComplete_keeps accept { s with parser := (frameParseByte s.parser b).1 }
  simp only [frameParse, frameParseEmit]
  split_ifs with hdone
  · simp only [noteCompleted, hparser, hcompleted, List.map_append, List.map_cons, List.map_nil,
      Option.toList_some, and_self]
  · simp

/-- **The frames that a callback of the server completes are those of its bytes.** -/
theorem serverUartRxCallback_parses (data : List Byte) (accept : Nat → Bool) (s : Server) :
    (serverUartRxCallback data accept s).parser = (frameParseBytes s.parser data).1 ∧
      (serverUartRxCallback data accept s).completed.map Completed.bytes =
        s.completed.map Completed.bytes ++ (frameParseBytes s.parser data).2 := by
  have hfold : ∀ (bs : List (Byte × Nat)) (s : Server),
      (bs.foldl (fun s b => frameParse (accept b.2) s b.1) s).parser =
          (frameParseBytes s.parser (bs.map Prod.fst)).1 ∧
        (bs.foldl (fun s b => frameParse (accept b.2) s b.1) s).completed.map Completed.bytes =
          s.completed.map Completed.bytes ++ (frameParseBytes s.parser (bs.map Prod.fst)).2 := by
    intro bs
    induction bs with
    | nil => intro s; exact ⟨rfl, by simp [frameParseBytes, emitAll]⟩
    | cons b bs ih =>
      intro s
      obtain ⟨hparser, hcompleted⟩ := frameParse_emits (accept b.2) s b.1
      obtain ⟨hlast, hall⟩ := ih (frameParse (accept b.2) s b.1)
      rw [hparser] at hlast hall
      rw [hcompleted, List.append_assoc] at hall
      exact ⟨hlast, hall⟩
  have hdata := hfold data.zipIdx s
  rwa [List.zipIdx_map_fst] at hdata

/-! ## What a callback puts in the queue -/

/-- The UART has put frames of this moment in the queue, and nothing else has happened. -/
structure Puts (s t : Server) : Prop where
  items : ∃ items, t.txQueue.getD [] = s.txQueue.getD [] ++ items ∧
    ∀ item ∈ items, s.sleReady ≠ 0 ∧ item.link = s.link ∧ s.completed.length ≤ item.serial
  completed : s.completed.length ≤ t.completed.length
  sleReady : t.sleReady = s.sleReady
  link : t.link = s.link
  task : t.task = s.task
  notified : t.notified = s.notified

theorem Puts.refl (s : Server) : Puts s s :=
  ⟨⟨[], by simp, by simp⟩, le_refl _, rfl, rfl, rfl, rfl⟩

theorem Puts.trans {s t u : Server} (h : Puts s t) (h' : Puts t u) : Puts s u := by
  obtain ⟨now, hnow, hnow'⟩ := h.items
  obtain ⟨later, hlater, hlater'⟩ := h'.items
  refine ⟨⟨now ++ later, by rw [hlater, hnow, List.append_assoc], ?_⟩,
    h.completed.trans h'.completed, h'.sleReady.trans h.sleReady, h'.link.trans h.link,
    h'.task.trans h.task, h'.notified.trans h.notified⟩
  intro item hitem
  rcases List.mem_append.mp hitem with hitem | hitem
  · exact hnow' item hitem
  · obtain ⟨hready, hlink, hserial⟩ := hlater' item hitem
    rw [h.sleReady] at hready
    rw [h.link] at hlink
    exact ⟨hready, hlink, h.completed.trans hserial⟩

theorem frameParse_puts (accept : Bool) (s : Server) (b : Byte) : Puts s (frameParse accept s b) := by
  simp only [frameParse]
  split_ifs
  swap
  · exact ⟨⟨[], by simp, by simp⟩, le_refl _, rfl, rfl, rfl, rfl⟩
  rcases onFrameComplete_cases accept { s with parser := (frameParseByte s.parser b).1 } with
    ⟨drops, heq⟩ | ⟨queue, msg, hq, hready, -, heq⟩
  · rw [heq]
    exact ⟨⟨[], by simp [noteCompleted], by simp⟩, by simp [noteCompleted], rfl, rfl, rfl, rfl⟩
  · rw [heq]
    refine ⟨⟨[⟨s.completed.length, s.link, msg⟩], ?_, ?_⟩, by simp [noteCompleted], rfl, rfl, rfl, rfl⟩
    · simp only at hq
      simp [noteCompleted, hq]
    · intro item hitem
      obtain rfl := List.mem_singleton.mp hitem
      exact ⟨hready, rfl, le_refl _⟩

theorem serverUartRxCallback_puts (data : List Byte) (accept : Nat → Bool) (s : Server) :
    Puts s (serverUartRxCallback data accept s) :=
  serverUartRxCallback_preserves (Puts s) (fun accept t b h => h.trans (frameParse_puts accept t b))
    (.refl s) data accept

end NearLink.Ict
