import Mathlib.Data.Set.List
import NearLink.Speed.ClientProofs
import NearLink.Speed.ServerProofs

/-!
# From UART to UART

What the server's UART callback takes for a frame, the client's check and the UART callback behind
the client take for the same frame.
-/

namespace NearLink.Speed

/-! ## The server queues frames -/

theorem extractLoop_frames (outside : Nat → Nat → Byte) (buf : Block Byte reassembleBufSize)
    {len : Nat} (hlen : len ≤ 6000) (fuel k pos : Nat) (hpos : pos ≤ len)
    (hw : ∀ v, v <:+ window buf len pos → Unwrapped v) :
    ∀ o ∈ (extractLoop outside buf len fuel k pos).offers,
      ∃ f : Frame 0 1492, f.encode = o.msg.data := by
  induction fuel generalizing k pos with
  | zero => simp [extractLoop]
  | succ fuel ih =>
    have hiter := extractIter_spec (outside k) buf hlen fun hh h8 =>
      hw _ (List.suffix_refl _) hh (by omega)
    unfold extractLoop
    cases hlook : frameLook uartQueueBufSize (window buf len pos) with
    | wait =>
      rw [extractIter_of_wait _ buf hiter hlook]
      simp
    | skip =>
      obtain ⟨hskip, h8, hnext⟩ := extractIter_of_skip _ buf hlen hiter hlook
      simp only [hskip, hnext]
      refine ih (k + 1) (pos + 1) (by omega) fun v hv => hw v (hv.trans ?_)
      rw [← window_drop]
      exact List.drop_suffix _ _
    | emit total out =>
      obtain ⟨hframe, -, -, hle, hnext⟩ := extractIter_of_emit _ buf hlen hiter hlook
      simp only [hframe, hnext]
      intro o ho
      rcases List.mem_append.mp ho with hnow | hlater
      · obtain ⟨-, hdata⟩ := mem_offer buf hnow
        obtain ⟨-, hout, -⟩ := frameLook_emit hlook
        rw [hdata, Block.slice_eq hle]
        exact hout ▸ frame_of_look hlook
      · refine ih (k + 1) (pos + total) (by omega) (fun v hv => hw v (hv.trans ?_)) o hlater
        rw [← window_drop]
        exact List.drop_suffix _ _

theorem uart1RxCallback_frames (fuel uartQueueId : Nat) (c : Call) {rx : Rx}
    (hw : ∀ v, v <:+ rx.received ++ c.bytes → Unwrapped v) :
    ∀ o ∈ (uart1RxCallback fuel uartQueueId c rx).offers,
      ∃ f : Frame 0 1492, f.encode = o.msg.data := by
  rcases uart1RxCallback_cases fuel uartQueueId c rx with
    ⟨-, -, -, hoff⟩ | ⟨-, hoff⟩ | ⟨ov, hfit, hloop⟩
  · rw [hoff]; simp
  · rw [hoff]; simp
  rw [hloop]
  have hseen : (appended (rx.kept ov) c.bytes).received <:+ rx.received ++ c.bytes := by
    rw [appended_received hfit]
    exact rx.seen_suffix ov c
  intro o ho
  simp only [extractFrames] at ho
  split at ho
  · exact extractLoop_frames _ _ hfit fuel 0 0 (Nat.zero_le _) (fun v hv => hw v (hv.trans hseen)) o ho
  · cases ho

/-- The buffer holds the last delivered bytes, and the queue was given frames. -/
structure Whole (s : Server) : Prop where
  len_le : s.rx.reassembleLen ≤ 6000
  residue : s.rx.received <:+ s.delivered
  frames : ∀ item ∈ s.enqueued, ∃ f : Frame 0 1492, f.encode = item.msg.data

theorem Whole.same {s t : Server} (h : Whole s) (hst : SameTraffic s t) : Whole t := by
  refine ⟨?_, ?_, ?_⟩
  · rw [hst.rx]; exact h.len_le
  · rw [hst.rx, hst.delivered]; exact h.residue
  · rw [hst.enqueued]; exact h.frames

theorem NoWrap.of_append {s t : List Byte} (h : NoWrap (s ++ t)) : NoWrap s := by
  intro v hv
  obtain ⟨before, rfl⟩ := (List.mem_tails v s).mp hv
  refine Unwrapped.of_append v t (h _ ((List.mem_tails _ _).mpr ?_))
  rw [List.append_assoc]
  exact List.suffix_append _ _

theorem uartStep_whole {fuel : Nat} {c : Call} {s t : Server}
    (h : NoWrap s.delivered → Whole s) (hstep : uartStep fuel c s = some t) :
    NoWrap t.delivered → Whole t := by
  obtain ⟨items, -, henq, hitems, hrx, hdel, -⟩ := uartStep_spec hstep
  intro hwrap
  rw [hdel] at hwrap
  obtain ⟨hlen, hres, hframes⟩ := h hwrap.of_append
  obtain ⟨-, hrec, hlen'⟩ := uart1RxCallback_offers fuel s.uartQueueId c hlen
  have hsuffix : s.rx.received ++ c.bytes <:+ s.delivered ++ c.bytes :=
    (List.suffix_append_inj_of_length_eq rfl).mpr ⟨hres, rfl⟩
  have hnew := uart1RxCallback_frames fuel s.uartQueueId c
    fun v hv => hwrap v ((List.mem_tails v _).mpr (hv.trans hsuffix))
  refine ⟨by rw [hrx]; exact hlen', ?_, fun item hitem => ?_⟩
  · rw [hrx, hdel]
    exact (hrec.trans (Rx.seen_suffix _ _ _)).trans hsuffix
  · rw [henq] at hitem
    rcases List.mem_append.mp hitem with hold | hitem
    · exact hframes item hold
    · rw [hitems] at hitem
      obtain ⟨o, ho, -, hmsg⟩ := mem_numbered hitem
      rw [hmsg]
      exact hnew o (mem_of_mem_taken ho)

theorem step_whole {s t : Server} {a : Action} (h : NoWrap s.delivered → Whole s)
    (hstep : step s a = some t) : NoWrap t.delivered → Whole t := by
  have hsame : SameTraffic s t → NoWrap t.delivered → Whole t := by
    intro hst hwrap
    rw [hst.delivered] at hwrap
    exact (h hwrap).same hst
  cases a with
  | uart fuel c => exact uartStep_whole h hstep
  | connectState connId connState pairState created =>
    obtain rfl := Option.some.inj hstep
    exact hsame (connectState_spec connId connState pairState created s).1
  | pairComplete connId status created =>
    obtain rfl := Option.some.inj hstep
    exact hsame (slePairCompleteCbk_spec status created s).1
  | readRequest created =>
    obtain rfl := Option.some.inj hstep
    exact hsame (ssapsReadRequestCbk_spec created s).1
  | read i success =>
    rcases senderRead_spec hstep with rfl | ⟨-, _, _, _, _, _, _, -, -, -, -, rfl⟩
    · exact h
    · exact fun hwrap => ⟨(h hwrap).len_le, (h hwrap).residue, (h hwrap).frames⟩
  | flowCtrl i flag =>
    obtain ⟨_, rfl, -⟩ := senderFlowCtrl_spec hstep
    exact fun hwrap => ⟨(h hwrap).len_le, (h hwrap).residue, (h hwrap).frames⟩
  | notify i notifyRet =>
    obtain ⟨_, _, _, _, _, -, -, -, -, rfl⟩ := senderNotify_spec hstep
    exact fun hwrap => ⟨(h hwrap).len_le, (h hwrap).residue, (h hwrap).frames⟩

theorem enqueued_frames {uartQueueId : Nat} {acts : List Action} {s : Server}
    (hrun : run step (Server.start uartQueueId) acts = some s) (hwrap : NoWrap s.delivered) :
    ∀ item ∈ s.enqueued, ∃ f : Frame 0 1492, f.encode = item.msg.data := by
  have hstart : NoWrap (Server.start uartQueueId).delivered → Whole (Server.start uartQueueId) :=
    fun _ => ⟨Nat.zero_le _, List.suffix_refl _, by simp [Server.start]⟩
  have hinv : NoWrap s.delivered → Whole s := by
    refine @run_preserves _ _ step (fun s => NoWrap s.delivered → Whole s) ?_ _ _ _ hstart hrun
    exact fun _ _ _ => step_whole
  exact (hinv hwrap).frames

/-! ## The client passes frames on -/

namespace Client

def TxThread.held (t : TxThread) : List UartTxMsg :=
  match t.phase with
  | .reading => []
  | .writing msg => [msg]

/-- The messages that the thread and the queue hold, oldest first. -/
def pending (c : Client) : List (List Byte) :=
  ((c.thread.elim [] TxThread.held) ++ c.queue).map UartTxMsg.data

def Action.data : Action → Option (List Byte)
  | .notification _ data => data
  | .connectState _ _ | .txRead _ | .txWrite _ => none

/-- What a run delivers in notifications. -/
def delivered (acts : List Action) : List (List Byte) := acts.filterMap Action.data

theorem delivered_snoc (acts : List Action) (a : Action) :
    delivered (acts ++ [a]) = delivered acts ++ a.data.toList := filterMap_snoc _ acts a

/-- The client has counted the delivered frames, and written or kept some of them, in order. -/
structure Carries (c : Client) (ds : List (List Byte)) : Prop where
  total : c.totalRxPkts = u32 ds.length
  order : (c.written ++ c.pending).Sublist ds

/-- A delivered frame is counted, whatever becomes of it. -/
theorem notification_total (f : Frame 0 1492) (accept : Bool) (c : Client) :
    (sleSpeedNotificationCb accept (some f.encode) c).totalRxPkts = u32 (c.totalRxPkts + 1) := by
  rw [notification_recognised (recognised_encode f (by decide)),
    (forward_keeps accept f.encode _).1.total]
  exact (countFrame_keeps f.seq c).1

theorem notification_carries {c : Client} {ds : List (List Byte)} (h : Carries c ds)
    (f : Frame 0 1492) (accept : Bool) :
    Carries (sleSpeedNotificationCb accept (some f.encode) c) (ds ++ [f.encode]) := by
  refine ⟨?_, ?_⟩
  · rw [notification_total, h.total, List.length_append, List.length_singleton, u32, u32, u32]
    omega
  have hshort : f.encode.length ≤ 1500 := by
    have := f.le_hi
    rw [f.encode_length]
    omega
  obtain ⟨-, hqueue, hthread, hwritten⟩ := countFrame_keeps f.seq c
  obtain ⟨-, hthread', hwritten'⟩ := forward_keeps accept f.encode (countFrame f.seq c)
  rw [notification_recognised (recognised_encode f (by decide)), hwritten', hwritten, pending, hthread',
    hthread, List.map_append]
  have hold := h.order
  rw [pending, List.map_append] at hold
  rcases forward_queue accept hshort (countFrame f.seq c) with hfull | hput
  · rw [hfull, hqueue]
    exact hold.trans (List.sublist_append_left _ _)
  · rw [hput, hqueue]
    simpa only [List.append_assoc] using hold.append (List.Sublist.refl [f.encode])

theorem step_carries {c d : Client} {ds : List (List Byte)} {a : Action} (h : Carries c ds)
    (hframe : ∀ buf ∈ a.data, ∃ f : Frame 0 1492, f.encode = buf) (hstep : step c a = some d) :
    Carries d (ds ++ a.data.toList) := by
  cases a with
  | notification accept data =>
    obtain rfl := Option.some.inj hstep
    cases data with
    | none =>
      rw [Action.data, Option.toList_none, List.append_nil]
      exact h
    | some buf =>
      obtain ⟨f, rfl⟩ := hframe buf rfl
      exact notification_carries h f accept
  | connectState connId connState =>
    obtain rfl := Option.some.inj hstep
    rw [Action.data, Option.toList_none, List.append_nil]
    cases connState <;> exact ⟨h.total, h.order⟩
  | txRead success =>
    rw [Action.data, Option.toList_none, List.append_nil]
    rcases txRead_spec hstep with rfl | ⟨msg, rest, ok, fail, hthread, hq, rfl⟩
    · exact h
    refine ⟨h.total, List.Sublist.trans ?_ h.order⟩
    simp only [pending, hthread, hq, Option.elim_some, TxThread.held, List.nil_append]
    by_cases hempty : msg.len = 0
    · -- The thread forgets an empty message.
      simp only [if_pos hempty, List.nil_append]
      exact (List.Sublist.refl _).append ((List.sublist_cons_self msg rest).map _)
    · simp only [if_neg hempty, List.singleton_append]
      exact List.Sublist.refl _
  | txWrite uartRet =>
    rw [Action.data, Option.toList_none, List.append_nil]
    obtain ⟨msg, ok, fail, t, hthread, hphase, rfl⟩ := txWrite_spec hstep
    refine ⟨h.total, ?_⟩
    have hold := h.order
    simp only [pending, hthread, Option.elim_some, TxThread.held, List.singleton_append,
      List.map_cons] at hold
    simp only [pending, Option.elim_some, TxThread.held, hphase, List.nil_append,
      List.append_assoc, List.singleton_append]
    exact hold

theorem run_carries {uartTxQueueId : Nat} {created : Bool} {acts : List Action} {c : Client}
    (hframes : ∀ buf ∈ delivered acts, ∃ f : Frame 0 1492, f.encode = buf)
    (hrun : run step (start uartTxQueueId created) acts = some c) : Carries c (delivered acts) := by
  induction acts using List.reverseRecOn generalizing c with
  | nil =>
    obtain rfl := Option.some.inj hrun
    refine ⟨rfl, ?_⟩
    cases created <;> exact List.Sublist.refl _
  | append_singleton acts a ih =>
    obtain ⟨d, hbefore, hstep⟩ := run_snoc.mp hrun
    rw [delivered_snoc] at hframes ⊢
    have hcarries := ih (fun buf hbuf => hframes buf (List.mem_append_left _ hbuf)) hbefore
    refine step_carries hcarries ?_ hstep
    intro buf hbuf
    exact hframes buf (List.mem_append_right _ (Option.mem_toList.mpr hbuf))

end Client

/-! ## The whole way -/

theorem stream_flatten (frames : List (Frame 0 1492)) :
    stream (frames.map fun f => ((⟨[], by decide⟩ : Gap), f)) ⟨[], by decide⟩ =
      (frames.map Frame.encode).flatten := by
  simp [stream, List.flatMap_def, Function.comp_def]

/-- **The relay is transparent.** If no length in the server's stream wraps, the client recognises
every delivered frame and writes whole delivered frames in order, and the UART callback finds these
frames in what was written, wherever it is cut. -/
theorem relay_transparent {uartQueueId : Nat} {acts : List Action} {s : Server}
    (hrun : run step (Server.start uartQueueId) acts = some s) (hwrap : NoWrap s.delivered)
    {uartTxQueueId : Nat} {created : Bool} {clientActs : List Client.Action} {c : Client}
    (hclient : run Client.step (Client.start uartTxQueueId created) clientActs = some c)
    (hdel : (Client.delivered clientActs).Sublist (s.enqueued.map fun item => item.msg.data)) :
    c.totalRxPkts = u32 (Client.delivered clientActs).length ∧
      (∀ buf ∈ Client.delivered clientActs, ∀ accept d,
        (Client.sleSpeedNotificationCb accept (some buf) d).totalRxPkts = u32 (d.totalRxPkts + 1)) ∧
      c.written.Sublist (Client.delivered clientActs) ∧
      ∀ fuel queueId rx calls, reassembleBufSize < fuel → queueId ≠ 0 → rx.reassembleLen = 0 →
        (∀ call ∈ calls, call.Chunk) → calls.flatMap Call.bytes = c.written.flatten →
        (∀ o ∈ (runCalls fuel queueId rx calls).2, o.returned = true) ∧
          (runCalls fuel queueId rx calls).2.flatMap Outcome.frames = c.written := by
  have hframes : ∀ buf ∈ Client.delivered clientActs, ∃ f : Frame 0 1492, f.encode = buf := by
    intro buf hbuf
    obtain ⟨item, hitem, rfl⟩ := List.mem_map.mp (hdel.subset hbuf)
    exact enqueued_frames hrun hwrap item hitem
  obtain ⟨htotal, horder⟩ := Client.run_carries hframes hclient
  have hwritten : c.written.Sublist (Client.delivered clientActs) :=
    (List.sublist_append_left _ _).trans horder
  refine ⟨htotal, ?_, hwritten, ?_⟩
  · intro buf hbuf accept d
    obtain ⟨f, rfl⟩ := hframes buf hbuf
    exact Client.notification_total f accept d
  · intro fuel queueId rx calls hfuel hq h0 hcalls hbytes
    obtain ⟨frames, hencode⟩ : c.written ∈ Set.range (List.map fun f : Frame 0 1492 => f.encode) := by
      rw [Set.range_list_map]
      exact fun buf hbuf => hframes buf (hwritten.subset hbuf)
    rw [← hencode, ← stream_flatten] at hbytes
    obtain ⟨hret, hfound⟩ := runCalls_stream hfuel hq h0 _ _ calls hcalls hbytes
    refine ⟨hret, ?_⟩
    rw [hfound, ← hencode, List.map_map]
    rfl

def audioFrame : List Byte := [0xAA, 0x55, 7, 0, 1, 0, 9, 0x55, 0xAA]

/-- The second of two frames finds no room at the client. -/
def twoDelivered : List Client.Action :=
  [.notification true (some audioFrame), .notification false (some audioFrame), .txRead true,
    .txWrite 9]

theorem relay_transparent_two_frames :
    ∃ c, run Client.step (Client.start 1 true) twoDelivered = some c ∧ c.totalRxPkts = 2 ∧
      c.written = [audioFrame] ∧
      (runCalls 6001 1 Rx.start [.ok (audioFrame.take 5), .ok (audioFrame.drop 5)]).2.flatMap
        Outcome.frames = [audioFrame] := by
  have hrun : (run step (Server.start 1)
      [.pairComplete 1 0 true, .uart 100 (.ok (audioFrame ++ audioFrame))]).map
        (fun s => (s.enqueued.map fun item => item.msg.data, decide (NoWrap s.delivered))) =
      some ([audioFrame, audioFrame], true) := by decide +kernel
  obtain ⟨s, hs, hpair⟩ := Option.map_eq_some_iff.mp hrun
  obtain ⟨henq, hwrap⟩ := Prod.mk.inj hpair
  obtain ⟨htotal, -, -, hfound⟩ := relay_transparent hs (of_decide_eq_true hwrap)
    (show run Client.step (Client.start 1 true) twoDelivered = some _ from rfl)
    (by rw [henq]; exact List.Sublist.refl _)
  refine ⟨_, rfl, htotal, rfl, ?_⟩
  exact (hfound 6001 1 Rx.start [.ok (audioFrame.take 5), .ok (audioFrame.drop 5)] (by decide)
    (by decide) rfl (by decide) (by decide)).2

end NearLink.Speed
