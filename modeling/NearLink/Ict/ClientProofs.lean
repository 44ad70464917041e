import NearLink.Frame
import NearLink.Ict.Client
import NearLink.Sequence

/-!
# What the ict_sle client does with a frame

The client reads the tail at the end of the buffer, not behind the payload. For a frame it is the
same place.
-/

namespace NearLink.Ict

variable {lo hi : Nat}

theorem word_eq (data : List Byte) (i : Nat) :
    word data i = le16 (data.getD i 0) (data.getD (i + 1) 0) := or_shift_eq_le16 _ _

theorem word_header (f : Frame lo hi) : word f.encode 0 = Client.audioFrameHeader := by
  rw [word_eq]
  exact f.header_word

theorem word_tail (f : Frame lo hi) :
    word f.encode (f.encode.length - 2) = Client.audioFrameTail := by
  have hidx : f.encode.length - 2 = f.payload.length + 6 := by rw [f.encode_length]; omega
  rw [word_eq, hidx]
  exact f.tail_word

theorem word_seq (f : Frame lo hi) : word f.encode 2 = f.seq := by
  rw [word_eq]
  exact f.seq_word

theorem word_payloadLen (f : Frame lo hi) (h : hi < 65536) :
    word f.encode 4 = f.payload.length := by
  have hdecl := declared_encode f [] h
  rw [List.append_nil] at hdecl
  rw [word_eq]
  exact hdecl

/-! ## The checks -/

/-- The checks of `ProcessFrame` fail. -/
def Rejected (data : List Byte) : Prop :=
  data.length < Client.audioFrameOverhead ∨ word data 0 ≠ Client.audioFrameHeader ∨
    word data (data.length - 2) ≠ Client.audioFrameTail

instance (data : List Byte) : Decidable (Rejected data) :=
  inferInstanceAs (Decidable (data.length < Client.audioFrameOverhead ∨
    word data 0 ≠ Client.audioFrameHeader ∨
    word data (data.length - 2) ≠ Client.audioFrameTail))

theorem processFrame_rejected {data : List Byte} (h : Rejected data) (c : Client) :
    processFrame data c = c := by
  unfold processFrame
  by_cases hshort : data.length < Client.audioFrameOverhead
  · exact if_pos hshort
  · rcases h with h | h
    · exact absurd h hshort
    · simp only [if_neg hshort, if_pos h]

/-! ## Loss -/

theorem countLoss_keeps (recvSeq : Nat) (c : Client) :
    (countLoss recvSeq c).written = c.written ∧
      (countLoss recvSeq c).totalRecvPktCount = c.totalRecvPktCount ∧
      (countLoss recvSeq c).seqInitialized = c.seqInitialized := by
  simp only [countLoss]
  split_ifs <;> exact ⟨rfl, rfl, rfl⟩

/-- Both branches compute the same gap. -/
theorem countLoss_lost {c : Client} {lost : Nat} (recvSeq : Nat) (hlost : c.lostPktCount = u32 lost) :
    (countLoss recvSeq c).lostPktCount =
      u32 (lost + if gap16 recvSeq c.expectedSeq ≤ 1000 then gap16 recvSeq c.expectedSeq else 0) := by
  have hgap : (if recvSeq > c.expectedSeq then u16 (recvSeq - c.expectedSeq)
      else u16 (0x10000 + recvSeq - c.expectedSeq)) = gap16 recvSeq c.expectedSeq := by
    unfold gap16 u16
    split_ifs <;> omega
  simp only [countLoss, hgap]
  by_cases hne : recvSeq ≠ c.expectedSeq
  · rw [if_pos hne]
    split_ifs
    · simp only [hlost, u32]
      omega
    · rw [hlost, Nat.add_zero]
  · have hzero : gap16 recvSeq c.expectedSeq = 0 := by
      unfold gap16 u16
      omega
    rw [if_neg hne, hzero, if_pos (by omega), hlost, Nat.add_zero]

/-! ## A frame -/

/-- The client when the loss is about to be counted. -/
def Client.opened (c : Client) (recvSeq : Nat) : Client :=
  if c.seqInitialized then { c with totalRecvPktCount := u32 (c.totalRecvPktCount + 1) }
  else { c with
    totalRecvPktCount := u32 (c.totalRecvPktCount + 1)
    expectedSeq := recvSeq
    seqInitialized := true }

theorem opened_spec (c : Client) (recvSeq : Nat) :
    (c.opened recvSeq).written = c.written ∧ (c.opened recvSeq).lostPktCount = c.lostPktCount ∧
      (c.opened recvSeq).totalRecvPktCount = u32 (c.totalRecvPktCount + 1) ∧
      (c.opened recvSeq).seqInitialized = true ∧
      (c.opened recvSeq).expectedSeq = if c.seqInitialized then c.expectedSeq else recvSeq := by
  unfold Client.opened
  split
  · rename_i hinit
    exact ⟨rfl, rfl, rfl, hinit, rfl⟩
  · exact ⟨rfl, rfl, rfl, rfl, rfl⟩

theorem countLoss_opened_written (recvSeq : Nat) (c : Client) :
    (countLoss recvSeq (c.opened recvSeq)).written = c.written := by
  rw [(countLoss_keeps _ _).1, (opened_spec c recvSeq).1]

theorem processFrame_accepted {data : List Byte} (h : ¬ Rejected data) (c : Client) :
    processFrame data c =
      { countLoss (word data 2) (c.opened (word data 2)) with
        expectedSeq := u16 (word data 2 + 1)
        written := c.written ++
          if 0 < word data 4 ∧ word data 4 ≤ data.length - Client.audioFrameOverhead then
            [(data.drop 6).take (word data 4)]
          else [] } := by
  have hshort : ¬ data.length < Client.audioFrameOverhead := fun hlt => h (Or.inl hlt)
  have hwords : ¬ (word data 0 ≠ Client.audioFrameHeader ∨
      word data (data.length - 2) ≠ Client.audioFrameTail) := fun hne => h (Or.inr hne)
  have hraw : processFrame data c =
      if word data 4 > 0 ∧ word data 4 ≤ data.length - Client.audioFrameOverhead then
        { countLoss (word data 2) (c.opened (word data 2)) with
          expectedSeq := u16 (word data 2 + 1)
          written := (countLoss (word data 2) (c.opened (word data 2))).written ++
            [(data.drop 6).take (word data 4)] }
      else
        { countLoss (word data 2) (c.opened (word data 2)) with
          expectedSeq := u16 (word data 2 + 1) } := by
    simp only [processFrame, if_neg hshort, if_neg hwords]
    rfl
  rw [hraw]
  split_ifs
  · rw [countLoss_opened_written]
  · rw [List.append_nil, ← countLoss_opened_written (word data 2) c]

theorem not_rejected (f : Frame lo hi) : ¬ Rejected f.encode := by
  have hlen := f.encode_length
  rintro (hshort | hhead | htail)
  · rw [Client.audioFrameOverhead] at hshort
    omega
  · exact hhead (word_header f)
  · exact htail (word_tail f)

theorem processFrame_spec (f : Frame lo hi) (h : hi < 65536) (c : Client) :
    processFrame f.encode c =
      { countLoss f.seq (c.opened f.seq) with
        expectedSeq := u16 (f.seq + 1)
        written := c.written ++ if 0 < f.payload.length then [f.payload] else [] } := by
  have hfits : f.payload.length ≤ f.encode.length - Client.audioFrameOverhead := by
    rw [f.encode_length, Client.audioFrameOverhead]
    omega
  have hpayload : (f.encode.drop 6).take f.payload.length = f.payload := by simp [Frame.encode]
  rw [processFrame_accepted (not_rejected f), word_seq, word_payloadLen f h, hpayload]
  simp only [hfits, and_true]

theorem opened_total (c : Client) (recvSeq : Nat) :
    (countLoss recvSeq (c.opened recvSeq)).totalRecvPktCount = u32 (c.totalRecvPktCount + 1) := by
  rw [(countLoss_keeps _ _).2.1, (opened_spec c recvSeq).2.2.1]

theorem processFrame_total {data : List Byte} (h : ¬ Rejected data) (c : Client) :
    (processFrame data c).totalRecvPktCount = u32 (c.totalRecvPktCount + 1) := by
  rw [processFrame_accepted h]
  exact opened_total c (word data 2)

end NearLink.Ict
