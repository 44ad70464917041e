import NearLink.Frame
import NearLink.Sequence
import NearLink.Speed.Client

/-!
# What the throughput client does with a notification

The check of the callback, the counters and the queue, one spec for each.
-/

namespace NearLink.Speed.Client

/-! ## The check -/

theorem word_payloadLen {hi : Nat} (f : Frame 0 hi) (h : hi < 65536) :
    word f.encode 4 = f.payload.length := by
  have hdecl := declared_encode f [] h
  rwa [List.append_nil] at hdecl

theorem recognised_length {buf : List Byte} {seq : Nat} (h : recognised buf = some seq) :
    8 ≤ buf.length := by
  by_contra hlt
  rw [recognised, if_neg (by rw [frameHdrSize_val]; omega)] at h
  cases h

/-- A frame is recognised, whatever its payload. -/
theorem recognised_encode {hi : Nat} (f : Frame 0 hi) (h : hi < 65528) :
    recognised f.encode = some f.seq := by
  have hlen := f.encode_length
  have hle := f.le_hi
  have hoffset : u16 (6 + f.payload.length) = f.payload.length + 6 := by
    rw [u16_of_lt (by omega), Nat.add_comm]
  have hheader : word f.encode 0 = frameHeader := f.header_word
  have hseq : word f.encode 2 = f.seq := f.seq_word
  have htail : word f.encode (f.payload.length + 6) = frameTail := f.tail_word
  have hlong : f.encode.length ≥ frameHdrSize := by rw [hlen, frameHdrSize_val]; omega
  have hfits : f.payload.length + 6 + 2 ≤ f.encode.length := by omega
  simp only [recognised, if_pos hlong, word_payloadLen f (by omega), hoffset, if_pos hfits, hheader,
    hseq, htail, and_self, if_true]

/-! ## The counters -/

theorem gap_eq_gap16 {seq expected : Nat} (hseq : seq < 65536) (hexp : expected < 65536) :
    (((seq : Int) - expected) % 65536).toNat = gap16 seq expected := by
  unfold gap16 u16
  omega

theorem countFrame_first {c : Client} (seq : Nat) (h : c.expectSeq < 0) :
    countFrame seq c = { c with
      totalRxPkts := u32 (c.totalRxPkts + 1)
      expectSeq := (u16 (seq + 1) : Nat) } := by
  simp only [countFrame, if_pos h, u16]

/-- An expected number is no gap. -/
theorem countFrame_next {c : Client} {seq expected lost : Nat} (hseq : seq < 65536)
    (hexp : expected < 65536) (h : c.expectSeq = expected) (hlost : c.lostPkts = u32 lost) :
    countFrame seq c = { c with
      totalRxPkts := u32 (c.totalRxPkts + 1)
      lostPkts := u32 (lost + gap16 seq expected)
      expectSeq := (u16 (seq + 1) : Nat) } := by
  have hnonneg : ¬ c.expectSeq < 0 := by omega
  have hcast : (c.expectSeq % 65536).toNat = expected := by omega
  simp only [countFrame, if_neg hnonneg, hcast, gap_eq_gap16 hseq hexp]
  split_ifs with hne
  · simp only [hlost, u32, u16, Nat.mod_add_mod]
  · have hzero : gap16 seq expected = 0 := by
      unfold gap16 u16
      omega
    have hsame : u32 (lost + gap16 seq expected) = c.lostPkts := by rw [hzero, Nat.add_zero, hlost]
    rw [hsame]
    rfl

theorem countFrame_keeps (seq : Nat) (c : Client) :
    (countFrame seq c).totalRxPkts = u32 (c.totalRxPkts + 1) ∧
      (countFrame seq c).queue = c.queue ∧ (countFrame seq c).thread = c.thread ∧
      (countFrame seq c).written = c.written := by
  simp only [countFrame]
  split_ifs <;> exact ⟨rfl, rfl, rfl, rfl⟩

/-! ## The queue -/

/-- What the counters and the thread have to do with the queue: nothing. -/
structure KeepsCounters (c d : Client) : Prop where
  total : d.totalRxPkts = c.totalRxPkts
  lost : d.lostPkts = c.lostPkts
  expect : d.expectSeq = c.expectSeq

theorem forward_keeps (accept : Bool) (buf : List Byte) (c : Client) :
    KeepsCounters c (forward accept buf c) ∧ (forward accept buf c).thread = c.thread ∧
      (forward accept buf c).written = c.written := by
  unfold forward
  simp only
  split_ifs <;> exact ⟨⟨rfl, rfl, rfl⟩, rfl, rfl⟩

/-- A notification that is not too long is queued whole or not at all. -/
theorem forward_queue (accept : Bool) {buf : List Byte} (h : buf.length ≤ 1500) (c : Client) :
    (forward accept buf c).queue.map UartTxMsg.data = c.queue.map UartTxMsg.data ∨
      (forward accept buf c).queue.map UartTxMsg.data = c.queue.map UartTxMsg.data ++ [buf] := by
  have hshort : ¬ buf.length > uartTxBufSize := by rw [uartTxBufSize_val]; omega
  simp only [forward, if_neg hshort, List.take_length]
  split_ifs <;> simp

/-- What is recognised is counted and passed on. -/
theorem notification_recognised {buf : List Byte} {seq : Nat} (h : recognised buf = some seq)
    (accept : Bool) (c : Client) :
    sleSpeedNotificationCb accept (some buf) c = forward accept buf (countFrame seq c) := by
  have hlen := recognised_length h
  simp only [sleSpeedNotificationCb, if_neg (show ¬ buf.length = 0 by omega), h]

/-! ## The thread -/

theorem txRead_spec {c d : Client} {success : Bool} (h : txRead success c = some d) :
    d = c ∨ ∃ msg rest ok fail, c.thread = some ⟨.reading, ok, fail⟩ ∧ c.queue = msg :: rest ∧
      d = { c with
        queue := rest
        thread := some ⟨if msg.len = 0 then .reading else .writing msg, ok, fail⟩ } := by
  unfold Client.txRead at h
  split at h
  · rename_i ok fail hthread
    split at h
    · split at h
      · cases h
      · rename_i msg rest hq
        exact Or.inr ⟨msg, rest, ok, fail, hthread, hq, (Option.some.inj h).symm⟩
    · exact Or.inl (Option.some.inj h).symm
  · cases h

theorem txWrite_spec {c d : Client} {uartRet : Int} (h : txWrite uartRet c = some d) :
    ∃ msg ok fail t, c.thread = some ⟨.writing msg, ok, fail⟩ ∧ t.phase = .reading ∧
      d = { c with thread := some t, written := c.written ++ [msg.data] } := by
  unfold Client.txWrite at h
  split at h
  · rename_i msg ok fail hthread
    refine ⟨msg, ok, fail, _, hthread, ?_, (Option.some.inj h).symm⟩
    split <;> rfl
  · cases h

end NearLink.Speed.Client
