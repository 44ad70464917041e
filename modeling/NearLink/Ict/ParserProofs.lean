import NearLink.Ict.Parser
import NearLink.Recogniser

/-!
# The byte parser recognises frames

In every state the globals hold the part of a frame that the recogniser holds, whatever earlier
frames left in them.
-/

namespace NearLink.Ict

/-! ## What the globals stand for -/

def stateOf (part : List Byte) : FrameParseState :=
  match part.length with
  | 0 => .waitHeaderLow
  | 1 => .waitHeaderHigh
  | 2 => .readSeqLow
  | 3 => .readSeqHigh
  | 4 => .readLenLow
  | 5 => .readLenHigh
  | n + 6 =>
    if n < declared part then .readPayload
    else if n = declared part then .waitTailLow
    else .waitTailHigh

/-- The parser holds `part`, and the globals that the part has reached are set. -/
structure Tracks (p : Parser) (part : List Byte) : Prop where
  whole : Partial 1 1024 part
  state : p.parseState = stateOf part
  buf : part ≠ [] → p.frameIdx = part.length ∧ p.frameBuf.cells.take part.length = part
  seq : 3 ≤ part.length → p.frameSeq = le16 (part.getD 2 0) (part.getD 3 0)
  len : 5 ≤ part.length → p.payloadLen = declared part
  recv : 6 ≤ part.length → p.payloadRecv = min (part.length - 6) (declared part)

theorem Tracks.idle {p : Parser} (h : p.parseState = .waitHeaderLow) : Tracks p [] :=
  ⟨partial_nil, h, by simp, by simp, by simp, by simp⟩

theorem push_buf {p : Parser} {part : List Byte} (hidx : p.frameIdx = part.length)
    (htake : p.frameBuf.cells.take part.length = part) (hlen : part.length < 1048) (b : Byte) :
    (p.push b).frameIdx = (part ++ [b]).length ∧
      (p.push b).frameBuf.cells.take (part ++ [b]).length = part ++ [b] := by
  have hwrite := Block.take_write p.frameBuf part.length [b] (by simp; omega)
  rw [htake] at hwrite
  rw [List.length_append, List.length_singleton]
  exact ⟨by rw [Parser.push, hidx, u16_of_lt (by omega)], by rw [Parser.push, hidx]; exact hwrite⟩

theorem restart_buf (p : Parser) (b : Byte) :
    (Parser.push { p with frameIdx := 0 } b).frameIdx = 1 ∧
      (Parser.push { p with frameIdx := 0 } b).frameBuf.cells.take 1 = [b] :=
  @push_buf { p with frameIdx := 0 } [] rfl rfl (by simp) b

theorem length_of_waitHeaderHigh {part : List Byte} (h : stateOf part = .waitHeaderHigh) :
    part.length = 1 := by
  unfold stateOf at h
  split at h
  case h_2 hlen => exact hlen
  case h_7 => split_ifs at h
  all_goals cases h

/-- The parser moves as the recogniser does. -/
def Follows (p : Parser) (part : List Byte) (b : Byte) : Prop :=
  Tracks (frameParseEmit p b).1 (grow 1 1024 part b).1 ∧
    (frameParseEmit p b).2 = (grow 1 1024 part b).2

/-! ## One lemma for each state -/

theorem follows_waitHeaderLow {p : Parser} (h : Tracks p []) (b : Byte) : Follows p [] b := by
  have hstate : p.parseState = .waitHeaderLow := h.state
  by_cases hb : b = 0xAA
  · subst hb
    have hbuf := restart_buf p 0xAA
    have hgrow : grow 1 1024 [] 0xAA = ([0xAA], none) := grow_idle (Or.inl rfl)
    simp only [Follows, frameParseEmit, frameParseByte, hstate, hgrow, if_true]
    exact ⟨⟨partial_first, rfl, fun _ => hbuf, by simp, by simp, by simp⟩, rfl⟩
  · have hgrow : grow 1 1024 [] b = ([], none) := by simp [grow, Partial, hb]
    simp only [Follows, frameParseEmit, frameParseByte, hstate, hgrow, if_neg hb]
    exact ⟨h, rfl⟩

theorem follows_waitHeaderHigh {p : Parser} {a : Byte} (h : Tracks p [a]) (b : Byte) :
    Follows p [a] b := by
  have hstate : p.parseState = .waitHeaderHigh := h.state
  obtain rfl : a = 0xAA := by simpa [List.cons_prefix_cons] using h.whole.1
  obtain ⟨hidx, htake⟩ := h.buf (by simp)
  by_cases h55 : b = 0x55
  · subst h55
    have hbuf := push_buf hidx htake (by simp) 0x55
    have hgrow : grow 1 1024 [0xAA] 0x55 = ([0xAA, 0x55], none) := by decide
    simp only [Follows, frameParseEmit, frameParseByte, hstate, hgrow, if_true]
    exact ⟨⟨by decide, rfl, fun _ => hbuf, by simp, by simp, by simp⟩, rfl⟩
  by_cases hb : b = 0xAA
  · -- A second AA may still begin a header.
    subst hb
    have hbuf := restart_buf p 0xAA
    have hgrow : grow 1 1024 [0xAA] 0xAA = ([0xAA], none) := grow_idle (Or.inr rfl)
    simp only [Follows, frameParseEmit, frameParseByte, hstate, hgrow, if_neg h55, if_true]
    exact ⟨⟨partial_first, rfl, fun _ => hbuf, by simp, by simp, by simp⟩, rfl⟩
  · have hgrow : grow 1 1024 [0xAA] b = ([], none) := by
      simp [grow, Partial, declared, h55, hb, List.cons_prefix_cons]
    simp only [Follows, frameParseEmit, frameParseByte, hstate, hgrow, if_neg h55, if_neg hb]
    exact ⟨.idle rfl, rfl⟩

theorem follows_readSeqLow {p : Parser} {a c : Byte} (h : Tracks p [a, c]) (b : Byte) :
    Follows p [a, c] b := by
  have hstate : p.parseState = .readSeqLow := h.state
  obtain ⟨hidx, htake⟩ := h.buf (by simp)
  have hgrow := grow_short h.whole (by simp) (by simp) b
  have hwhole := partial_grow 1 1024 [a, c] b
  rw [hgrow] at hwhole
  simp only [Follows, frameParseEmit, frameParseByte, hstate, hgrow]
  refine ⟨⟨hwhole, rfl, fun _ => push_buf hidx htake (by simp) b, fun _ => ?_, by simp, by simp⟩, rfl⟩
  simp [le16]

theorem follows_readSeqHigh {p : Parser} {a c s : Byte} (h : Tracks p [a, c, s]) (b : Byte) :
    Follows p [a, c, s] b := by
  have hstate : p.parseState = .readSeqHigh := h.state
  obtain ⟨hidx, htake⟩ := h.buf (by simp)
  have hseq : p.frameSeq = s.toNat := by simpa [le16] using h.seq (by simp)
  have hgrow := grow_short h.whole (by simp) (by simp) b
  have hwhole := partial_grow 1 1024 [a, c, s] b
  rw [hgrow] at hwhole
  simp only [Follows, frameParseEmit, frameParseByte, hstate, hgrow]
  refine ⟨⟨hwhole, rfl, fun _ => push_buf hidx htake (by simp) b, fun _ => ?_, by simp, by simp⟩, rfl⟩
  rw [hseq]
  exact or_shift_eq_le16 s b

theorem follows_readLenLow {p : Parser} {a c s t : Byte} (h : Tracks p [a, c, s, t]) (b : Byte) :
    Follows p [a, c, s, t] b := by
  have hstate : p.parseState = .readLenLow := h.state
  obtain ⟨hidx, htake⟩ := h.buf (by simp)
  have hseq := h.seq (by simp)
  have hgrow := grow_short h.whole (by simp) (by simp) b
  have hwhole := partial_grow 1 1024 [a, c, s, t] b
  rw [hgrow] at hwhole
  simp only [Follows, frameParseEmit, frameParseByte, hstate, hgrow]
  exact ⟨⟨hwhole, rfl, fun _ => push_buf hidx htake (by simp) b, fun _ => hseq,
    fun _ => by simp [declared, le16], by simp⟩, rfl⟩

theorem follows_readLenHigh {p : Parser} {a c s t l : Byte} (h : Tracks p [a, c, s, t, l])
    (b : Byte) : Follows p [a, c, s, t, l] b := by
  have hstate : p.parseState = .readLenHigh := h.state
  obtain ⟨hidx, htake⟩ := h.buf (by simp)
  have hseq := h.seq (by simp)
  have hlow : p.payloadLen = l.toNat := by simpa [declared, le16] using h.len (by simp)
  have hdecl : declared ([a, c, s, t, l] ++ [b]) = le16 l b := rfl
  have hgrow := grow_length h.whole rfl b
  have hwhole := partial_grow 1 1024 [a, c, s, t, l] b
  simp only [Follows, frameParseEmit, frameParseByte, hstate, hlow, or_shift_eq_le16,
    audioChunkSamples_val]
  rw [hgrow] at hwhole ⊢
  rw [hdecl] at hwhole ⊢
  by_cases hlen : 1 ≤ le16 l b ∧ le16 l b ≤ 1024
  · rw [if_pos hlen] at hwhole ⊢
    rw [if_neg (by omega)]
    refine ⟨⟨hwhole, ?_, fun _ => push_buf hidx htake (by simp) b, fun _ => hseq, fun _ => rfl,
      fun _ => ?_⟩, rfl⟩
    · simp only [stateOf, List.length_append, List.length_cons, List.length_nil, hdecl]
      rw [if_pos (by omega)]
    · simp
  · rw [if_neg hlen, if_pos (by omega)]
    exact ⟨.idle rfl, rfl⟩

/-! ### From the length on -/

theorem stateOf_body {v : List Byte} (h6 : 6 ≤ v.length) :
    stateOf v =
      if v.length < 6 + declared v then .readPayload
      else if v.length = 6 + declared v then .waitTailLow
      else .waitTailHigh := by
  obtain ⟨n, hn⟩ := Nat.exists_eq_add_of_le' h6
  rw [stateOf, hn]
  simp only [Nat.add_comm 6, Nat.add_lt_add_iff_right, Nat.add_right_cancel_iff]

section

variable {p : Parser} {part : List Byte} (h : Tracks p part) (h6 : 6 ≤ part.length)

include h h6

theorem Tracks.snoc {q : Parser} {b : Byte} (hwhole : Partial 1 1024 (part ++ [b]))
    (hbuf : q.frameIdx = (part ++ [b]).length ∧
      q.frameBuf.cells.take (part ++ [b]).length = part ++ [b])
    (hstate : q.parseState = stateOf (part ++ [b])) (hseq : q.frameSeq = p.frameSeq)
    (hlen : q.payloadLen = p.payloadLen)
    (hrecv : q.payloadRecv = min ((part ++ [b]).length - 6) (declared part)) :
    Tracks q (part ++ [b]) := by
  refine ⟨hwhole, hstate, fun _ => hbuf, fun _ => ?_, fun _ => ?_, fun _ => ?_⟩
  · rw [hseq, h.seq (by omega), List.getD_append _ _ _ _ (by omega),
      List.getD_append _ _ _ _ (by omega)]
  · rw [hlen, h.len (by omega), declared_append h6]
  · rw [hrecv, declared_append h6]

theorem follows_readPayload (hpay : part.length < 6 + declared part) (b : Byte) :
    Follows p part b := by
  have hstate : p.parseState = .readPayload := by rw [h.state, stateOf_body h6, if_pos hpay]
  obtain ⟨hidx, htake⟩ := h.buf (List.ne_nil_of_length_pos (by omega))
  have hle := (h.whole.2 h6).2.1
  have hbuf := push_buf hidx htake (by omega) b
  have hgrow : grow 1 1024 part b = (part ++ [b], none) := by
    rw [grow_body h.whole h6 (by omega), if_pos (by omega)]
  have hwhole := partial_grow 1 1024 part b
  rw [hgrow] at hwhole
  have hrecv : u16 (p.payloadRecv + 1) = part.length - 5 := by
    rw [h.recv h6, u16_of_lt (by omega)]
    omega
  have hroom : p.frameIdx < frameBufSize := by rw [hidx, frameBufSize_val]; omega
  simp only [Follows, frameParseEmit, frameParseByte, hstate, hgrow, if_pos hroom, hrecv,
    h.len (by omega)]
  refine ⟨h.snoc h6 hwhole hbuf ?_ rfl rfl ?_, rfl⟩
  · rw [stateOf_body (by simp; omega), declared_append h6, List.length_append,
      List.length_singleton]
    split_ifs <;> first | rfl | omega
  · simp only [List.length_append, List.length_singleton]
    omega

theorem follows_waitTailLow (hpay : part.length = 6 + declared part) (b : Byte) :
    Follows p part b := by
  have hstate : p.parseState = .waitTailLow := by
    rw [h.state, stateOf_body h6, if_neg (by omega), if_pos hpay]
  obtain ⟨hidx, htake⟩ := h.buf (List.ne_nil_of_length_pos (by omega))
  have hle := (h.whole.2 h6).2.1
  have hbuf := push_buf hidx htake (by omega) b
  have hgrow := grow_body h.whole h6 (by omega) b
  have hwhole := partial_grow 1 1024 part b
  simp only [Follows, frameParseEmit, frameParseByte, hstate]
  rw [hgrow] at hwhole ⊢
  by_cases hb : b = 0x55
  · rw [if_pos fun _ => hb] at hwhole ⊢
    rw [if_pos hb]
    refine ⟨h.snoc h6 hwhole hbuf ?_ rfl rfl ?_, rfl⟩
    · rw [stateOf_body (by simp; omega), declared_append h6, List.length_append,
        List.length_singleton, if_neg (by omega), if_neg (by omega)]
    · have hrecv := h.recv h6
      simp only [List.length_append, List.length_singleton, Parser.push]
      omega
  · have hbroken : ¬ (part.length = 6 + declared part → b = 0x55) := fun hall => hb (hall hpay)
    rw [if_neg hb, if_neg hbroken]
    exact ⟨.idle rfl, rfl⟩

theorem follows_waitTailHigh (hend : part.length = 7 + declared part) (b : Byte) :
    Follows p part b := by
  have hstate : p.parseState = .waitTailHigh := by
    rw [h.state, stateOf_body h6, if_neg (by omega), if_neg (by omega)]
  obtain ⟨hidx, htake⟩ := h.buf (List.ne_nil_of_length_pos (by omega))
  have hle := (h.whole.2 h6).2.1
  have hbuf := push_buf hidx htake (by omega) b
  have hframe : (p.push b).frame = part ++ [b] := by
    have htotal : (p.push b).payloadLen + 8 = (part ++ [b]).length := by
      rw [List.length_append, List.length_singleton, Parser.push, h.len (by omega)]
      omega
    rw [Parser.frame, audioFrameOverhead_val, htotal]
    exact hbuf.2
  have hgrow := grow_end 1 1024 h6 hend b
  simp only [Follows, frameParseEmit, frameParseByte, hstate, decide_eq_true_eq]
  rw [hgrow]
  refine ⟨.idle rfl, ?_⟩
  split_ifs with hb
  · exact congrArg some hframe
  · rfl

end

/-- **The parser moves as the recogniser does, from every state.** -/
theorem frameParseByte_follows {p : Parser} {part : List Byte} (h : Tracks p part) (b : Byte) :
    Follows p part b := by
  match part, h with
  | [], h => exact follows_waitHeaderLow h b
  | [_], h => exact follows_waitHeaderHigh h b
  | [_, _], h => exact follows_readSeqLow h b
  | [_, _, _], h => exact follows_readSeqHigh h b
  | [_, _, _, _], h => exact follows_readLenLow h b
  | [_, _, _, _, _], h => exact follows_readLenHigh h b
  | a :: c :: s :: t :: l :: m :: pl, h =>
    have h6 : 6 ≤ (a :: c :: s :: t :: l :: m :: pl).length := by simp
    obtain ⟨-, -, hlt, -⟩ := h.whole.2 h6
    rcases Nat.lt_trichotomy (a :: c :: s :: t :: l :: m :: pl).length
      (6 + declared (a :: c :: s :: t :: l :: m :: pl)) with hpay | htail | hend
    · exact follows_readPayload h h6 hpay b
    · exact follows_waitTailLow h h6 htail b
    · exact follows_waitTailHigh h h6 (by omega) b

theorem frameParseBytes_grow {p : Parser} {part : List Byte} (h : Tracks p part) (data : List Byte) :
    (frameParseBytes p data).2 = (emitAll (grow 1 1024) part data).2 :=
  (emitAll_simulates (R := Tracks) (fun _ _ b htracks => frameParseByte_follows htracks b) h data).2

end NearLink.Ict
