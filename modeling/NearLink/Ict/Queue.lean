import NearLink.Flow
import NearLink.Ict.EndToEnd

/-!
# What becomes of the frames of the ict_sle server

The parser takes frames of up to 1032 bytes, and a queued message holds 256. A longer frame is
lost without a trace.
-/

namespace NearLink.Ict

/-! ## One frame -/

/-- The frame is put in the queue whole, once, or raises the drop count by one. -/
def Accounted (s t : Server) (frame : List Byte) : Prop :=
  (t.txQueueDropCount = s.txQueueDropCount ∧ ∃ queue item, item.msg.data = frame ∧
      s.txQueue = some queue ∧ t.txQueue = some (queue ++ [item]) ∧
      t.enqueued = s.enqueued ++ [item]) ∨
    (t.txQueueDropCount = u32 (s.txQueueDropCount + 1) ∧ t.txQueue = s.txQueue ∧
      t.enqueued = s.enqueued)

theorem onFrameComplete_long (accept : Bool) {s : Server}
    (hlong : txMsgMaxSize < u16 (s.parser.payloadLen + audioFrameOverhead)) :
    onFrameComplete accept s = s := by
  unfold onFrameComplete
  split
  · rfl
  · exact if_pos hlong

theorem onFrameComplete_short (accept : Bool) {s : Server} (hready : s.sleReady ≠ 0)
    (hshort : s.parser.payloadLen + audioFrameOverhead ≤ txMsgMaxSize) :
    Accounted s (onFrameComplete accept s) s.parser.frame := by
  have hu16 : u16 (s.parser.payloadLen + audioFrameOverhead) =
      s.parser.payloadLen + audioFrameOverhead :=
    u16_of_lt (hshort.trans_lt (by decide))
  have hfits : s.parser.frame.length ≤ txMsgMaxSize := (List.length_take_le _ _).trans hshort
  have hcopy : copyMsg s.parser (s.parser.payloadLen + audioFrameOverhead) =
      some ⟨s.parser.frame, hfits⟩ := dif_pos hfits
  simp only [onFrameComplete, hu16, if_neg hready, if_neg (Nat.not_lt.mpr hshort), hcopy]
  rcases osMessageQueuePut_spec accept ⟨s.completed.length, s.link, ⟨s.parser.frame, hfits⟩⟩ s with
    hput | ⟨queue, hq, hput⟩
  · rw [hput]
    exact Or.inr ⟨rfl, rfl, rfl⟩
  · rw [hput]
    exact Or.inl ⟨rfl, queue, _, rfl, hq, rfl, rfl⟩

theorem Accounted.changes {s t : Server} {frame : List Byte} (h : Accounted s t frame) :
    ¬ (t.txQueueDropCount = s.txQueueDropCount ∧ t.enqueued = s.enqueued) := by
  rintro ⟨hdrop, henq⟩
  rcases h with ⟨-, queue, item, -, -, -, hput⟩ | ⟨hcount, -⟩
  · rw [henq] at hput
    simpa using congrArg List.length hput
  · rw [hdrop, u32] at hcount
    omega

/-- A frame is accounted for exactly when it fits in a message. -/
theorem frameParse_accounted_iff {s : Server} {part : List Byte} (h : Tracks s.parser part)
    (hready : s.sleReady ≠ 0) (accept : Bool) (b : Byte) :
    (∀ frame ∈ (frameParseEmit s.parser b).2, Accounted s (frameParse accept s b) frame) ↔
      ∀ frame ∈ (frameParseEmit s.parser b).2, frame.length ≤ txMsgMaxSize := by
  simp only [frameParseEmit, frameParse]
  split_ifs with hdone
  swap
  · simp
  obtain ⟨f, hf, hpay⟩ := frameParseByte_done h hdone
  have htotal : (frameParseByte s.parser b).1.payloadLen + audioFrameOverhead =
      (frameParseByte s.parser b).1.frame.length := by
    rw [← hf, hpay, f.encode_length, Nat.add_comm, audioFrameOverhead_val]
  simp only [Option.mem_def, Option.some.injEq, forall_eq']
  constructor
  · intro hacc
    by_contra hlong
    have hle := f.le_hi
    have hu16 : u16 ((frameParseByte s.parser b).1.payloadLen + audioFrameOverhead) =
        (frameParseByte s.parser b).1.frame.length := by
      rw [← htotal, u16_of_lt (by rw [hpay, audioFrameOverhead_val]; omega)]
    rw [onFrameComplete_long accept (s := { s with parser := (frameParseByte s.parser b).1 })
      (by rw [hu16]; omega)] at hacc
    exact hacc.changes ⟨rfl, rfl⟩
  · intro hshort
    exact onFrameComplete_short accept (s := { s with parser := (frameParseByte s.parser b).1 })
      hready (htotal.trans_le hshort)

/-! ## One callback -/

/-- Every frame that is completed while the server is ready is accounted for. -/
def FramesAccounted (s : Server) : Action → Prop
  | .uart data accept => s.sleReady ≠ 0 → ∀ done b, done ++ [b] <+: data →
      let r := serverUartRxCallback done accept s
      ∀ frame ∈ (frameParseEmit r.parser b).2,
        Accounted r (frameParse (accept done.length) r b) frame
  | _ => True

/-- Every frame that is completed while the server is ready fits in a message. -/
def ShortFrames (s : Server) : Action → Prop
  | .uart data _ => s.sleReady ≠ 0 →
      ∀ frame ∈ (frameParseBytes s.parser data).2, frame.length ≤ txMsgMaxSize
  | _ => True

instance (s : Server) : ∀ a, Decidable (ShortFrames s a)
  | .uart data _ => inferInstanceAs (Decidable (s.sleReady ≠ 0 →
      ∀ frame ∈ (frameParseBytes s.parser data).2, frame.length ≤ txMsgMaxSize))
  | .taskStart _ | .connectState _ _ | .mtuChanged _ _ _ | .pairComplete _ _ | .get _
  | .send _ _ => .isTrue trivial

theorem serverUartRxCallback_snoc (data : List Byte) (b : Byte) (accept : Nat → Bool) (s : Server) :
    serverUartRxCallback (data ++ [b]) accept s =
      frameParse (accept data.length) (serverUartRxCallback data accept s) b := by
  unfold serverUartRxCallback
  rw [List.zipIdx_append, List.foldl_append]
  simp

theorem frameParseBytes_snoc (p : Parser) (data : List Byte) (b : Byte) :
    (frameParseBytes p (data ++ [b])).2 =
      (frameParseBytes p data).2 ++ (frameParseEmit (frameParseBytes p data).1 b).2.toList := by
  simp [frameParseBytes, emitAll_append, emitAll]

theorem framesAccounted_iff {s : Server} (h : Relayed s) (a : Action) :
    FramesAccounted s a ↔ ShortFrames s a := by
  cases a with
  | uart data accept =>
    refine forall_congr' fun hready => ?_
    induction data using List.reverseRecOn with
    | nil => simp [frameParseBytes, emitAll]
    | append_singleton data c ih =>
      have hrelayed := serverUartRxCallback_relayed h data accept
      obtain ⟨part, htracks⟩ := hrelayed.1.parser
      have hready' : (serverUartRxCallback data accept s).sleReady ≠ 0 := by
        rw [(serverUartRxCallback_puts data accept s).sleReady]
        exact hready
      have hlast := frameParse_accounted_iff htracks hready' (accept data.length) c
      rw [(serverUartRxCallback_parses data accept s).1] at hlast
      simp only [frameParseBytes_snoc, List.mem_append, Option.mem_toList, or_imp, forall_and, ← ih]
      simp only [Option.mem_def] at hlast ⊢
      rw [← hlast]
      constructor
      · intro hall
        refine ⟨fun done b hpre => hall done b (hpre.trans (List.prefix_append _ _)), ?_⟩
        have hnow := hall data c (List.prefix_refl _)
        rwa [(serverUartRxCallback_parses data accept s).1] at hnow
      · rintro ⟨hbefore, hnow⟩ done b hpre
        rcases List.prefix_concat_iff.mp hpre with heq | hpre
        · obtain ⟨rfl, hb⟩ := List.append_inj' heq rfl
          obtain rfl := (List.cons.inj hb).1
          rwa [(serverUartRxCallback_parses done accept s).1]
        · exact hbefore done b hpre
  | _ => exact Iff.rfl

/-! ## The balance -/

/-- How many frames a step completes while the server is ready. -/
def readyFrames (s : Server) : Action → Nat
  | .uart data _ => if s.sleReady ≠ 0 then (frameParseBytes s.parser data).2.length else 0
  | _ => 0

/-- Of `k` more frames, each was queued or counted as dropped. -/
def Balances (s t : Server) (k : Nat) : Prop :=
  ∃ drops, t.enqueued.length + drops = s.enqueued.length + k ∧
    ∀ n, s.txQueueDropCount = u32 n → t.txQueueDropCount = u32 (n + drops)

theorem Balances.of_same {s t : Server} (henq : t.enqueued = s.enqueued)
    (hdrop : t.txQueueDropCount = s.txQueueDropCount) : Balances s t 0 :=
  ⟨0, by rw [henq], fun n hn => by rw [hdrop, hn, Nat.add_zero]⟩

theorem Balances.trans {s t u : Server} {j k : Nat} (h : Balances s t j) (h' : Balances t u k) :
    Balances s u (j + k) := by
  obtain ⟨drops, henq, hdrop⟩ := h
  obtain ⟨more, henq', hdrop'⟩ := h'
  refine ⟨drops + more, by omega, fun n hn => ?_⟩
  rw [hdrop' _ (hdrop n hn), Nat.add_assoc]

theorem Accounted.balances {s t : Server} {frame : List Byte} (h : Accounted s t frame) :
    Balances s t 1 := by
  rcases h with ⟨hdrop, queue, item, -, -, -, henq⟩ | ⟨hdrop, -, henq⟩
  · exact ⟨0, by rw [henq]; simp, fun n hn => by rw [hdrop, hn, Nat.add_zero]⟩
  · refine ⟨1, by rw [henq], fun n hn => ?_⟩
    rw [hdrop, hn, u32, u32, u32]
    omega

theorem uart_balances {s : Server} (hready : s.sleReady ≠ 0) (data : List Byte)
    (accept : Nat → Bool) (h : FramesAccounted s (.uart data accept)) :
    Balances s (serverUartRxCallback data accept s) (frameParseBytes s.parser data).2.length := by
  induction data using List.reverseRecOn with
  | nil => exact .of_same rfl rfl
  | append_singleton data b ih =>
    have hbefore := ih fun _ done c hpre => h hready done c (hpre.trans (List.prefix_append _ _))
    have hnow := h hready data b (List.prefix_refl _)
    rw [serverUartRxCallback_snoc, frameParseBytes_snoc, List.length_append]
    apply hbefore.trans
    rw [← (serverUartRxCallback_parses data accept s).1]
    cases hemit : (frameParseEmit (serverUartRxCallback data accept s).parser b).2 with
    | some frame => exact (hnow frame hemit).balances
    | none =>
      have hdone : ¬ (frameParseByte (serverUartRxCallback data accept s).parser b).2 = true := by
        intro hdone
        rw [frameParseEmit, if_pos hdone] at hemit
        cases hemit
      simp only [frameParse, if_neg hdone]
      exact .of_same rfl rfl

theorem idle_balances {s : Server} (hready : s.sleReady = 0) (data : List Byte)
    (accept : Nat → Bool) : Balances s (serverUartRxCallback data accept s) 0 := by
  induction data using List.reverseRecOn with
  | nil => exact .of_same rfl rfl
  | append_singleton data b ih =>
    have hready' : (serverUartRxCallback data accept s).sleReady = 0 := by
      rw [(serverUartRxCallback_puts data accept s).sleReady]
      exact hready
    have hnow : Balances (serverUartRxCallback data accept s)
        (frameParse (accept data.length) (serverUartRxCallback data accept s) b) 0 := by
      simp only [frameParse]
      split_ifs
      · simp only [onFrameComplete, if_pos hready']
        exact .of_same rfl rfl
      · exact .of_same rfl rfl
    rw [serverUartRxCallback_snoc]
    exact ih.trans hnow

theorem step_balances {s t : Server} {a : Action} (h : FramesAccounted s a)
    (hstep : step s a = some t) : Balances s t (readyFrames s a) := by
  cases a with
  | uart data accept =>
    obtain rfl := Option.some.inj hstep
    unfold readyFrames
    split_ifs with hready
    · exact uart_balances hready data accept h
    · exact idle_balances (not_not.mp hready) data accept
  | taskStart created =>
    obtain ⟨-, rfl | rfl⟩ := sleTaskStart_spec hstep
    · exact .of_same rfl rfl
    · exact .of_same rfl rfl
  | connectState connId connState =>
    obtain rfl := Option.some.inj hstep
    cases connState <;> exact .of_same rfl rfl
  | mtuChanged connId mtuSize status =>
    obtain rfl := Option.some.inj hstep
    unfold trackMtu
    split <;> exact .of_same rfl rfl
  | pairComplete connId status =>
    obtain rfl := Option.some.inj hstep
    unfold trackPair
    split <;> exact .of_same rfl rfl
  | get success =>
    rcases sleTaskGet_spec hstep with rfl | ⟨_, _, -, -, rfl⟩
    · exact .of_same rfl rfl
    · exact .of_same rfl rfl
  | send allocated notifyRet =>
    obtain ⟨_, -, rfl⟩ := sleTaskSend_spec hstep
    exact .of_same rfl rfl

theorem run_balances {s t : Server} {acts : List Action} (hok : Meets step FramesAccounted s acts)
    (hrun : run step s acts = some t) : Balances s t (flow step readyFrames s acts) := by
  have hstep : ∀ n u a v, Balances s u n → FramesAccounted u a → step u a = some v →
      Balances s v (n + readyFrames u a) :=
    fun _ _ _ _ h hok hstep => h.trans (step_balances hok hstep)
  have h := run_flow_under hstep (.of_same rfl rfl) hok hrun
  rwa [Nat.zero_add] at h

/-- What was completed while the server was ready was queued or counted as dropped. -/
def Balanced (acts : List Action) (s : Server) : Prop :=
  s.enqueued.length ≤ flow step readyFrames Server.start acts ∧
    s.txQueueDropCount = u32 (flow step readyFrames Server.start acts - s.enqueued.length)

/-- **No frame is lost without a trace exactly when every frame fits in a message.** -/
theorem queue_accounts_iff {acts : List Action} {s : Server}
    (hrun : run step Server.start acts = some s) :
    Meets step FramesAccounted Server.start acts ∧ Balanced acts s ↔
      Meets step ShortFrames Server.start acts := by
  have hiff : Meets step FramesAccounted Server.start acts ↔
      Meets step ShortFrames Server.start acts :=
    meets_congr (fun _ _ _ => step_relayed) (fun _ a h => framesAccounted_iff h a) relayed_start acts
  rw [← hiff]
  refine and_iff_left_of_imp fun hacc => ?_
  obtain ⟨drops, henq, hdrop⟩ := run_balances hacc hrun
  have hcount : s.enqueued.length + drops = flow step readyFrames Server.start acts := by
    simpa [Server.start] using henq
  refine ⟨by omega, ?_⟩
  rw [hdrop 0 rfl, Nat.zero_add, ← hcount, Nat.add_sub_cancel_left]

/-- The second frame finds no room. -/
def fullQueue : List Action :=
  [.taskStart true, .connectState 1 .connected, .mtuChanged 1 1400 0,
    .uart (oneByte ++ oneByte) fun i => decide (i < 10)]

theorem queue_accounts_full :
    ∃ s, run step Server.start fullQueue = some s ∧ s.enqueued.length = 1 ∧
      Balanced fullQueue s := by
  have hrun : (run step Server.start fullQueue).map (fun s => s.enqueued.length) = some 1 := by
    decide +kernel
  obtain ⟨s, hs, hlen⟩ := Option.map_eq_some_iff.mp hrun
  exact ⟨s, hs, hlen, ((queue_accounts_iff hs).mpr (by decide +kernel)).2⟩

/-- A frame with 249 payload bytes: one byte too long for a message. -/
def longFrame : Frame 1 1024 :=
  ⟨0, List.replicate 249 0, by decide, by decide +kernel, by decide +kernel⟩

def longRun : List Action :=
  [.taskStart true, .connectState 1 .connected, .mtuChanged 1 1400 0,
    .uart longFrame.encode fun _ => true]

theorem queue_loses_long :
    ¬ ∀ acts s, run step Server.start acts = some s →
      Meets step FramesAccounted Server.start acts ∧ Balanced acts s := by
  intro h
  have hrun : (run step Server.start longRun).map (fun s => decide
      (s.txQueueDropCount = u32 (flow step readyFrames Server.start longRun - s.enqueued.length))) =
      some false := by decide +kernel
  obtain ⟨s, hs, hdrop⟩ := Option.map_eq_some_iff.mp hrun
  exact of_decide_eq_false hdrop (h longRun s hs).2.2

end NearLink.Ict
