import NearLink.Speed.UartProofs

/-!
# Runs of the receiver

What a sequence of callbacks offers to the queue and leaves in the buffer does not depend on
where the chunks are cut.
-/

namespace NearLink.Speed

/-- What the driver delivers without an error: at least a byte, at most its receive buffer. -/
def Call.Chunk (c : Call) : Prop := 1 ≤ c.bytes.length ∧ c.bytes.length ≤ uart1RxBufSize

instance (c : Call) : Decidable c.Chunk :=
  inferInstanceAs (Decidable (1 ≤ c.bytes.length ∧ c.bytes.length ≤ uart1RxBufSize))

/-- No header in the stream is followed by a length whose frame total wraps. -/
def NoWrap (s : List Byte) : Prop := ∀ v ∈ s.tails, Unwrapped v

instance (s : List Byte) : Decidable (NoWrap s) :=
  inferInstanceAs (Decidable (∀ v ∈ s.tails, Unwrapped v))

variable {fuel uartQueueId : Nat} {rx : Rx}

/-! ## One callback -/

theorem extractFrames_frames (hq : uartQueueId ≠ 0) (c : Call) (overflowed : Bool) :
    (extractFrames fuel uartQueueId c overflowed rx).frames =
      (extractLoop c.outside rx.reassembleBuf rx.reassembleLen fuel 0 0).offers.map
        fun o => o.msg.data := by
  simp only [Outcome.frames, extractFrames, if_pos hq]

theorem uart1RxCallback_scan (hfuel : reassembleBufSize < fuel) (hq : uartQueueId ≠ 0)
    (hwait : rx.Waiting) {c : Call} (hc : c.Chunk)
    (hw : (frameScanner uartQueueBufSize).Along Unwrapped (rx.received ++ c.bytes)) :
    (uart1RxCallback fuel uartQueueId c rx).returned = true ∧
      (uart1RxCallback fuel uartQueueId c rx).frames =
        ((frameScanner uartQueueBufSize).scan (rx.received ++ c.bytes)).1 ∧
      (uart1RxCallback fuel uartQueueId c rx).rx.received =
        ((frameScanner uartQueueBufSize).scan (rx.received ++ c.bytes)).2 := by
  have hlen := hwait.len_le
  obtain ⟨h1, hmax⟩ := hc
  have hmax' : c.bytes.length ≤ 1500 := hmax
  have hfuel' : 6000 < fuel := hfuel
  have hne : c.bytes ≠ [] := List.ne_nil_of_length_pos h1
  have hfit : rx.reassembleLen + c.bytes.length ≤ 6000 := by omega
  have hwin : window (appended rx c.bytes).reassembleBuf (appended rx c.bytes).reassembleLen 0 =
      rx.received ++ c.bytes := appended_received hfit
  rw [uart1RxCallback_fits fuel uartQueueId hne hfit, extractFrames_frames hq]
  rw [← hwin] at hw ⊢
  obtain ⟨hret, hframes, hres⟩ := extractLoop_spec (appended rx c.bytes).reassembleBuf c.outside
    hfit fuel 0 0 (Nat.zero_le _) (by omega) hw
  exact ⟨hret, hframes, by rw [(extractFrames_rx fuel uartQueueId c false hfit hret).1]; exact hres⟩

theorem uart1RxCallback_keeps (fuel uartQueueId : Nat) (hwait : rx.Waiting) {c : Call}
    (hc : c.bytes.length ≤ uart1RxBufSize) :
    (uart1RxCallback fuel uartQueueId c rx).overflowed = false ∧
      (uart1RxCallback fuel uartQueueId c rx).copyFailed = false ∧
      ((uart1RxCallback fuel uartQueueId c rx).returned = true →
        (uart1RxCallback fuel uartQueueId c rx).rx.received =
          (rx.received ++ c.bytes).drop (uart1RxCallback fuel uartQueueId c rx).pos) := by
  by_cases hne : c.bytes = []
  · rw [uart1RxCallback_ignored fuel uartQueueId rx hne]
    exact ⟨rfl, rfl, fun _ => by simp [hne]⟩
  · have hlen := hwait.len_le
    have hmax : c.bytes.length ≤ 1500 := hc
    have hfit : rx.reassembleLen + c.bytes.length ≤ 6000 := by omega
    rw [uart1RxCallback_fits fuel uartQueueId hne hfit]
    refine ⟨rfl, rfl, fun hret => ?_⟩
    rw [(extractFrames_rx fuel uartQueueId c false hfit hret).1, ← appended_received hfit]
    rfl

/-! ## Any chunks -/

theorem runCalls_take (fuel uartQueueId : Nat) (rx : Rx) (calls : List Call) (k : Nat) :
    (runCalls fuel uartQueueId rx calls).2.take k =
      (runCalls fuel uartQueueId rx (calls.take k)).2 := by
  induction calls generalizing rx k with
  | nil => simp [runCalls]
  | cons c cs ih =>
    cases k with
    | zero => simp [runCalls]
    | succ k => simp [runCalls, ih]

theorem runCalls_waiting (calls : List Call) (hwait : rx.Waiting)
    (hret : ∀ o ∈ (runCalls fuel uartQueueId rx calls).2, o.returned = true) :
    (runCalls fuel uartQueueId rx calls).1.Waiting := by
  induction calls generalizing rx with
  | nil => exact hwait
  | cons c cs ih =>
    simp only [runCalls, List.forall_mem_cons] at hret ⊢
    exact ih (uart1RxCallback_waiting fuel uartQueueId c hwait hret.1) hret.2

theorem runCalls_feed (hfuel : reassembleBufSize < fuel) (hq : uartQueueId ≠ 0)
    (calls : List Call) (hwait : rx.Waiting) (hcalls : ∀ c ∈ calls, c.Chunk)
    (hw : (frameScanner uartQueueBufSize).Along Unwrapped
      (rx.received ++ calls.flatMap Call.bytes)) :
    (∀ o ∈ (runCalls fuel uartQueueId rx calls).2, o.returned = true) ∧
      (runCalls fuel uartQueueId rx calls).2.flatMap Outcome.frames =
        ((frameScanner uartQueueBufSize).feed rx.received (calls.map Call.bytes)).1 ∧
      (runCalls fuel uartQueueId rx calls).1.received =
        ((frameScanner uartQueueBufSize).feed rx.received (calls.map Call.bytes)).2 := by
  induction calls generalizing rx with
  | nil => exact ⟨by simp [runCalls], rfl, rfl⟩
  | cons c cs ih =>
    rw [List.flatMap_cons, ← List.append_assoc] at hw
    obtain ⟨hnow, hlater⟩ := hw.of_append Unwrapped.of_append
    obtain ⟨hret, hframes, hres⟩ :=
      uart1RxCallback_scan hfuel hq hwait (hcalls c List.mem_cons_self) hnow
    rw [← hres] at hlater
    obtain ⟨irets, iframes, ires⟩ := ih (uart1RxCallback_waiting fuel uartQueueId c hwait hret)
      (fun d hd => hcalls d (List.mem_cons_of_mem c hd)) hlater
    simp only [runCalls, List.map_cons, Scanner.feed, List.flatMap_cons, ← hres]
    exact ⟨List.forall_mem_cons.mpr ⟨hret, irets⟩, by rw [hframes, iframes], ires⟩

theorem runCalls_scan (hfuel : reassembleBufSize < fuel) (hq : uartQueueId ≠ 0)
    (h0 : rx.reassembleLen = 0) (calls : List Call) (hcalls : ∀ c ∈ calls, c.Chunk)
    (hw : (frameScanner uartQueueBufSize).Along Unwrapped (calls.flatMap Call.bytes)) :
    (∀ o ∈ (runCalls fuel uartQueueId rx calls).2, o.returned = true) ∧
      (runCalls fuel uartQueueId rx calls).2.flatMap Outcome.frames =
        ((frameScanner uartQueueBufSize).scan (calls.flatMap Call.bytes)).1 ∧
      (runCalls fuel uartQueueId rx calls).1.received =
        ((frameScanner uartQueueBufSize).scan (calls.flatMap Call.bytes)).2 := by
  have hwait : rx.Waiting := .of_empty h0
  have hrec : rx.received = [] := by simp [Rx.received, h0]
  have hfeed := (frameScanner uartQueueBufSize).feed_eq_scan rx.received (calls.map Call.bytes)
    hwait.look
  have hrun := runCalls_feed hfuel hq calls hwait hcalls (by rwa [hrec])
  rwa [hfeed, hrec, List.nil_append, ← List.flatMap_def] at hrun

/-- **Chunking independence.** -/
theorem callbacks_scan_stream (hfuel : reassembleBufSize < fuel) (hq : uartQueueId ≠ 0)
    (h0 : rx.reassembleLen = 0) (calls : List Call) (hcalls : ∀ c ∈ calls, c.Chunk)
    (hwrap : NoWrap (calls.flatMap Call.bytes)) :
    (∀ o ∈ (runCalls fuel uartQueueId rx calls).2, o.returned = true) ∧
      (runCalls fuel uartQueueId rx calls).2.flatMap Outcome.frames =
        ((frameScanner uartQueueBufSize).scan (calls.flatMap Call.bytes)).1 ∧
      (runCalls fuel uartQueueId rx calls).1.received =
        ((frameScanner uartQueueBufSize).scan (calls.flatMap Call.bytes)).2 :=
  runCalls_scan hfuel hq h0 calls hcalls
    (.of_suffix fun v hv => hwrap v ((List.mem_tails v _).mpr hv))

/-- A frame cut inside its length, with the first byte of a header behind it. -/
theorem callbacks_scan_cut_frame :
    (runCalls 6001 1 Rx.start
        [.ok [0xAA, 0x55, 9, 0, 1], .ok [0, 7, 0x55, 0xAA, 0xAA]]).2.flatMap Outcome.frames =
        [[0xAA, 0x55, 9, 0, 1, 0, 7, 0x55, 0xAA]] ∧
      (runCalls 6001 1 Rx.start
        [.ok [0xAA, 0x55, 9, 0, 1], .ok [0, 7, 0x55, 0xAA, 0xAA]]).1.received = [0xAA] := by
  obtain ⟨-, hframes, hres⟩ := callbacks_scan_stream (show reassembleBufSize < 6001 by decide)
    (show (1 : Nat) ≠ 0 by decide) (show Rx.start.reassembleLen = 0 from rfl)
    [.ok [0xAA, 0x55, 9, 0, 1], .ok [0, 7, 0x55, 0xAA, 0xAA]] (by decide) (by decide)
  exact ⟨hframes.trans (by decide), hres.trans (by decide)⟩

/-! ## The residue -/

/-- The bytes that the loops of a run move over. -/
def scannedBytes (fuel uartQueueId : Nat) : Rx → List Call → List Byte
  | _, [] => []
  | rx, c :: cs =>
    let o := uart1RxCallback fuel uartQueueId c rx
    (rx.received ++ c.bytes).take o.pos ++ scannedBytes fuel uartQueueId o.rx cs

theorem runCalls_conserve (calls : List Call) (hwait : rx.Waiting)
    (hret : ∀ o ∈ (runCalls fuel uartQueueId rx calls).2, o.returned = true)
    (hcalls : ∀ c ∈ calls, c.bytes.length ≤ uart1RxBufSize) :
    rx.received ++ calls.flatMap Call.bytes =
      scannedBytes fuel uartQueueId rx calls ++ (runCalls fuel uartQueueId rx calls).1.received := by
  induction calls generalizing rx with
  | nil => simp [scannedBytes, runCalls]
  | cons c cs ih =>
    simp only [runCalls, List.forall_mem_cons] at hret
    simp only [List.forall_mem_cons] at hcalls
    obtain ⟨-, -, hdrop⟩ := uart1RxCallback_keeps fuel uartQueueId hwait hcalls.1
    have hrest := ih (uart1RxCallback_waiting fuel uartQueueId c hwait hret.1) hret.2 hcalls.2
    simp only [scannedBytes, runCalls, List.append_assoc]
    rw [← hrest, hdrop hret.1, ← List.append_assoc, List.take_append_drop, List.flatMap_cons,
      List.append_assoc]

/-- **The residue never reaches the size of a frame**, so a chunk always fits behind it. -/
theorem residue_bounded (calls : List Call)
    (hret : ∀ o ∈ (runCalls fuel uartQueueId Rx.start calls).2, o.returned = true) :
    (runCalls fuel uartQueueId Rx.start calls).1.Waiting ∧
      (∀ c : Call, c.bytes.length ≤ uart1RxBufSize →
        (uart1RxCallback fuel uartQueueId c (runCalls fuel uartQueueId Rx.start calls).1).overflowed
            = false ∧
          (uart1RxCallback fuel uartQueueId c (runCalls fuel uartQueueId Rx.start calls).1).copyFailed
            = false) ∧
      ((∀ c ∈ calls, c.bytes.length ≤ uart1RxBufSize) →
        calls.flatMap Call.bytes =
          scannedBytes fuel uartQueueId Rx.start calls ++
            (runCalls fuel uartQueueId Rx.start calls).1.received) := by
  have hstart : Rx.start.Waiting := .of_empty rfl
  have hwait := runCalls_waiting calls hstart hret
  refine ⟨hwait, fun c hc => ?_, fun hcalls => ?_⟩
  · have := uart1RxCallback_keeps fuel uartQueueId hwait hc
    exact ⟨this.1, this.2.1⟩
  · exact runCalls_conserve calls hstart hret hcalls

/-- Three bytes of noise before a header whose length has not arrived. -/
theorem residue_bounded_cut_header :
    (runCalls 6001 1 Rx.start [.ok [1, 2, 3, 0xAA], .ok [0x55, 0, 0, 4]]).1.Waiting :=
  (residue_bounded [.ok [1, 2, 3, 0xAA], .ok [0x55, 0, 0, 4]] (by decide +kernel)).1

/-! ## Frames in noise -/

theorem along_unwrapped_stream (items : List (Gap × Frame 0 1492)) (tail : Gap) :
    (frameScanner uartQueueBufSize).Along Unwrapped (stream items tail) := by
  refine along_stream (fun v hv hh => absurd hh hv) items tail (fun p _ q _ _ => ?_)
    (by decide) (by decide)
  rw [declared_encode p.2 q (by decide)]
  exact Nat.lt_of_le_of_lt p.2.le_hi (by decide)

theorem runCalls_stream (hfuel : reassembleBufSize < fuel) (hq : uartQueueId ≠ 0)
    (h0 : rx.reassembleLen = 0) (items : List (Gap × Frame 0 1492)) (tail : Gap)
    (calls : List Call) (hcalls : ∀ c ∈ calls, c.Chunk)
    (hstream : calls.flatMap Call.bytes = stream items tail) :
    (∀ o ∈ (runCalls fuel uartQueueId rx calls).2, o.returned = true) ∧
      (runCalls fuel uartQueueId rx calls).2.flatMap Outcome.frames =
        items.map fun p => p.2.encode := by
  have hw := along_unwrapped_stream items tail
  rw [← hstream] at hw
  obtain ⟨hret, hframes, -⟩ := runCalls_scan hfuel hq h0 calls hcalls hw
  refine ⟨hret, ?_⟩
  have hall := scan_stream_take items tail (stream items tail).length
    (show 8 + 1492 ≤ uartQueueBufSize by decide) (by decide)
  rw [List.take_length, endedBy_all] at hall
  rw [hframes, hstream, hall]

/-- **Decode undoes encode.** After any number of callbacks, the frames whose last byte has
arrived have been offered, and no others. -/
theorem callbacks_decode_stream (hfuel : reassembleBufSize < fuel) (hq : uartQueueId ≠ 0)
    (h0 : rx.reassembleLen = 0) (items : List (Gap × Frame 0 1492)) (tail : Gap)
    (calls : List Call) (hcalls : ∀ c ∈ calls, c.Chunk)
    (hstream : calls.flatMap Call.bytes = stream items tail) :
    (∀ o ∈ (runCalls fuel uartQueueId rx calls).2, o.returned = true) ∧
      (runCalls fuel uartQueueId rx calls).2.flatMap Outcome.frames =
        items.map (fun p => p.2.encode) ∧
      ∀ k, ((runCalls fuel uartQueueId rx calls).2.take k).flatMap Outcome.frames =
        endedBy ((calls.take k).flatMap Call.bytes).length items := by
  have hw : (frameScanner uartQueueBufSize).Along Unwrapped (calls.flatMap Call.bytes) := by
    rw [hstream]
    exact along_unwrapped_stream items tail
  have hprefix : ∀ k, ((runCalls fuel uartQueueId rx calls).2.take k).flatMap Outcome.frames =
      endedBy ((calls.take k).flatMap Call.bytes).length items := by
    intro k
    have hsplit : (calls.take k).flatMap Call.bytes ++ (calls.drop k).flatMap Call.bytes =
        stream items tail := by
      rw [← List.flatMap_append, List.take_append_drop, hstream]
    have htake : (calls.take k).flatMap Call.bytes =
        (stream items tail).take ((calls.take k).flatMap Call.bytes).length := by
      rw [← hsplit, List.take_left]
    rw [hstream, ← hsplit] at hw
    rw [runCalls_take, (runCalls_scan hfuel hq h0 _ (fun c hc => hcalls c (List.mem_of_mem_take hc))
      (hw.of_append Unwrapped.of_append).1).2.1]
    conv_lhs => rw [htake]
    exact scan_stream_take items tail _ (by decide) (by decide)
  obtain ⟨hret, hframes⟩ := runCalls_stream hfuel hq h0 items tail calls hcalls hstream
  exact ⟨hret, hframes, hprefix⟩

/-- Noise that ends in `0xAA` before a frame that carries a header, cut behind the noise. -/
theorem callbacks_decode_header_inside :
    (runCalls 6001 1 Rx.start
        [.ok [3, 0xAA], .ok [0xAA, 0x55, 1, 0, 2, 0, 0xAA, 0x55, 0x55, 0xAA]]).2.flatMap
        Outcome.frames = [[0xAA, 0x55, 1, 0, 2, 0, 0xAA, 0x55, 0x55, 0xAA]] := by
  obtain ⟨-, hframes, -⟩ := callbacks_decode_stream (show reassembleBufSize < 6001 by decide)
    (show (1 : Nat) ≠ 0 by decide) (show Rx.start.reassembleLen = 0 from rfl)
    [(⟨[3, 0xAA], by decide⟩, ⟨1, [0xAA, 0x55], by decide, by decide, by decide⟩)] ⟨[], by decide⟩
    [.ok [3, 0xAA], .ok [0xAA, 0x55, 1, 0, 2, 0, 0xAA, 0x55, 0x55, 0xAA]] (by decide) (by decide)
  exact hframes.trans (by decide)

end NearLink.Speed
