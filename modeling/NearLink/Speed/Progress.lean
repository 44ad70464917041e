import NearLink.Speed.Bounds

/-!
# When the extraction loop ends

The loop moves by the length that it has computed in 16 bits. If the memory behind the buffer holds
a tail, that length can be zero.
-/

namespace NearLink.Speed

variable {buf : Block Byte reassembleBufSize} {len pos : Nat}

/-- The length wraps, and the two bytes at the address of the tail, beyond the buffer, are one. -/
def WildTail (outside : Nat → Byte) (len : Nat) (v : List Byte) : Prop :=
  Wraps v ∧ le16 (outside (len - v.length + 6 + declared v))
    (outside (len - v.length + 6 + declared v + 1)) = audioTail

instance (outside : Nat → Byte) (len : Nat) (v : List Byte) : Decidable (WildTail outside len v) :=
  inferInstanceAs (Decidable (Wraps v ∧ le16 (outside (len - v.length + 6 + declared v))
    (outside (len - v.length + 6 + declared v + 1)) = audioTail))

/-- Each iteration that does not break moves on within the received bytes, so the loop ends, and the
messages that it gives to the queue have the size of a frame. -/
structure LoopOk (outside : Nat → Nat → Byte) (buf : Block Byte reassembleBufSize) (len : Nat) :
    Prop where
  progress : ∀ fuel, (loopVisits outside buf len fuel 0 0).IsChain (fun v w => v.pos < w.pos) ∧
    ∀ v ∈ loopVisits outside buf len fuel 0 0, v.pos ≤ len
  returned : (extractLoop outside buf len (len + 1) 0 0).returned = true
  sizes : ∀ fuel, ∀ o ∈ (extractLoop outside buf len fuel 0 0).offers,
    audioFrameMinLen ≤ o.msg.len ∧ o.msg.len ≤ uartQueueBufSize

/-! ## One iteration -/

theorem read16_outside (outside : Nat → Byte) (buf : Block Byte reassembleBufSize) {i : Nat}
    (hi : 6000 ≤ i) : read16 outside buf i = le16 (outside i) (outside (i + 1)) := by
  have hcells : buf.cells.length = 6000 := buf.size
  rw [read16, Block.read, Block.read, List.getD_eq_default _ _ (by omega),
    List.getD_eq_default _ _ (by omega)]

theorem wildTail_iff (outside : Nat → Byte) (hlen : len ≤ 6000)
    (h : Wraps (window buf len pos)) :
    WildTail outside len (window buf len pos) ↔
      read16 outside buf (pos + 6 + declared (window buf len pos)) = audioTail := by
  have h8 := h.pos_le buf hlen
  have hbig := h.2.2
  have hat : len - (window buf len pos).length = pos := by
    rw [window_length buf pos hlen]
    omega
  rw [read16_outside outside buf (by omega), WildTail, hat, and_iff_right h]

theorem extractIter_wild {outside : Nat → Byte} (hlen : len ≤ 6000)
    (h : WildTail outside len (window buf len pos)) :
    extractIter outside buf len pos = .frame (declared (window buf len pos) - 65528) := by
  have htail := (wildTail_iff outside hlen h.1).mp h
  rw [extractIter, extractIterReads_wraps outside buf hlen h.1, if_neg (not_not.mpr htail)]

theorem extractIter_tame {outside : Nat → Byte} (hlen : len ≤ 6000)
    (h : ¬ WildTail outside len (window buf len pos)) :
    extractIter outside buf len pos =
      Iter.ofMove (frameLook uartQueueBufSize (window buf len pos)) := by
  by_cases hwraps : Wraps (window buf len pos)
  swap
  · exact extractIter_unwrapped outside buf hlen hwraps
  rw [wildTail_iff outside hlen hwraps] at h
  rw [extractIter, extractIterReads_wraps outside buf hlen hwraps, if_pos h]
  -- The reference scan skips a header whose frame is too long.
  obtain ⟨hh, h8, hbig⟩ := hwraps
  have hskip : uartQueueBufSize < 8 + declared (window buf len pos) := by
    rw [uartQueueBufSize_val]
    omega
  rw [frameLook, if_neg (by omega), if_pos (Or.inr hskip)]
  rfl

/-! ## The loop -/

theorem loopVisits_head (outside : Nat → Nat → Byte) (buf : Block Byte reassembleBufSize)
    (len fuel k pos : Nat) : ∀ v ∈ (loopVisits outside buf len fuel k pos).head?, v.pos = pos := by
  intro v hv
  cases fuel with
  | zero => cases hv
  | succ fuel =>
    obtain rfl := Option.some.inj hv
    rfl

/-- No header on the way of the loop has a wild tail when the loop comes to it. -/
def Tame (outside : Nat → Nat → Byte) (len k : Nat) (v : List Byte) : Prop :=
  ∀ x ∈ ((frameScanner uartQueueBufSize).trail v).zipIdx k, ¬ WildTail (outside x.2) len x.1

instance (outside : Nat → Nat → Byte) (len k : Nat) (v : List Byte) :
    Decidable (Tame outside len k v) :=
  inferInstanceAs (Decidable (∀ x ∈ ((frameScanner uartQueueBufSize).trail v).zipIdx k,
    ¬ WildTail (outside x.2) len x.1))

theorem tame_cons {outside : Nat → Nat → Byte} {k : Nat} {v w : List Byte}
    (h : (frameScanner uartQueueBufSize).trail v = v :: (frameScanner uartQueueBufSize).trail w) :
    Tame outside len k v ↔ ¬ WildTail (outside k) len v ∧ Tame outside len (k + 1) w := by
  rw [Tame, h, List.zipIdx_cons, List.forall_mem_cons]
  rfl

theorem Tame.head {outside : Nat → Nat → Byte} {k : Nat} {v : List Byte}
    (h : Tame outside len k v) : ¬ WildTail (outside k) len v := by
  cases hlook : frameLook uartQueueBufSize v with
  | wait =>
    rw [Tame, Scanner.trail_wait hlook] at h
    exact h (v, k) (by simp)
  | skip => exact ((tame_cons (Scanner.trail_skip hlook)).mp h).1
  | emit total out => exact ((tame_cons (Scanner.trail_emit hlook)).mp h).1

theorem loop_tame {outside : Nat → Nat → Byte} (hlen : len ≤ 6000) (fuel k pos : Nat)
    (hpos : pos ≤ len) (h : Tame outside len k (window buf len pos)) :
    ((loopVisits outside buf len fuel k pos).IsChain (fun v w => v.pos < w.pos) ∧
        ∀ v ∈ loopVisits outside buf len fuel k pos, v.pos ≤ len) ∧
      (len - pos < fuel → (extractLoop outside buf len fuel k pos).returned = true) ∧
      ∀ o ∈ (extractLoop outside buf len fuel k pos).offers,
        audioFrameMinLen ≤ o.msg.len ∧ o.msg.len ≤ uartQueueBufSize := by
  induction fuel generalizing k pos with
  | zero => exact ⟨⟨by simp [loopVisits], by simp [loopVisits]⟩, by omega, by simp [extractLoop]⟩
  | succ fuel ih =>
    have hiter := extractIter_tame hlen h.head
    have hcons : ∀ next, pos < next →
        ((loopVisits outside buf len fuel (k + 1) next).IsChain (fun v w => v.pos < w.pos) ∧
          ∀ v ∈ loopVisits outside buf len fuel (k + 1) next, v.pos ≤ len) →
        ((⟨k, pos⟩ :: loopVisits outside buf len fuel (k + 1) next).IsChain
            (fun v w => v.pos < w.pos) ∧
          ∀ v ∈ (⟨k, pos⟩ : Visit) :: loopVisits outside buf len fuel (k + 1) next, v.pos ≤ len) := by
      intro next hlt hrest
      refine ⟨List.isChain_cons.mpr ⟨fun v hv => ?_, hrest.1⟩,
        List.forall_mem_cons.mpr ⟨hpos, hrest.2⟩⟩
      rw [loopVisits_head outside buf len fuel (k + 1) next v hv]
      exact hlt
    unfold loopVisits extractLoop
    cases hlook : frameLook uartQueueBufSize (window buf len pos) with
    | wait =>
      rw [extractIter_of_wait _ buf hiter hlook]
      exact ⟨⟨by simp, by simpa using hpos⟩, fun _ => rfl, by simp⟩
    | skip =>
      obtain ⟨hskip, h8, hnext⟩ := extractIter_of_skip _ buf hlen hiter hlook
      have hrest := ((tame_cons (Scanner.trail_skip hlook)).mp h).2
      rw [window_drop] at hrest
      obtain ⟨hvisits, hret, hsizes⟩ := ih (k + 1) (pos + 1) (by omega) hrest
      simp only [hskip, hnext]
      exact ⟨hcons (pos + 1) (by omega) hvisits, fun hfuel => hret (by omega), hsizes⟩
    | emit total out =>
      obtain ⟨hframe, htotal, hmax, hle, hnext⟩ := extractIter_of_emit _ buf hlen hiter hlook
      have hrest := ((tame_cons (Scanner.trail_emit hlook)).mp h).2
      rw [window_drop] at hrest
      obtain ⟨hvisits, hret, hsizes⟩ := ih (k + 1) (pos + total) (by omega) hrest
      simp only [hframe, hnext]
      refine ⟨hcons (pos + total) (by omega) hvisits, fun hfuel => hret (by omega), fun o ho => ?_⟩
      rcases List.mem_append.mp ho with hnow | hlater
      · obtain ⟨-, hdata⟩ := mem_offer buf hnow
        rw [UartMsg.len, hdata, Block.slice_length (by rw [reassembleBufSize_val]; omega),
          audioFrameMinLen_val, uartQueueBufSize_val]
        omega
      · exact hsizes o hlater

theorem tame_of_sizes {outside : Nat → Nat → Byte} (hlen : len ≤ 6000) (k pos : Nat)
    (h : ∀ fuel, ∀ o ∈ (extractLoop outside buf len fuel k pos).offers,
      audioFrameMinLen ≤ o.msg.len) : Tame outside len k (window buf len pos) := by
  by_cases hwild : WildTail (outside k) len (window buf len pos)
  · -- The message of the wrapped length is too short.
    have hword : declared (window buf len pos) < 65536 := le16_lt _ _
    obtain ⟨total, htotal⟩ : ∃ total, declared (window buf len pos) - 65528 = total := ⟨_, rfl⟩
    have hiter := extractIter_wild hlen hwild
    rw [htotal] at hiter
    have hf := extractIter_frame _ _ hiter
    have hfit : (buf.slice pos total).length ≤ uartQueueBufSize :=
      (List.length_take_le _ _).trans hf.2.2
    have hmem : (⟨pos, ⟨_, hfit⟩⟩ : Offer) ∈ (extractLoop outside buf len 1 k pos).offers := by
      simp only [extractLoop, hiter, offer, dif_pos hfit]
      exact List.mem_singleton_self _
    have hsize := h 1 _ hmem
    rw [UartMsg.len, Block.slice_length (by rw [reassembleBufSize_val]; omega),
      audioFrameMinLen_val] at hsize
    omega
  have hiter := extractIter_tame hlen hwild
  cases hlook : frameLook uartQueueBufSize (window buf len pos) with
  | wait =>
    rw [Tame, Scanner.trail_wait hlook]
    intro x hx
    obtain rfl := List.mem_singleton.mp hx
    exact hwild
  | skip =>
    obtain ⟨hskip, h8, hnext⟩ := extractIter_of_skip _ buf hlen hiter hlook
    rw [tame_cons (Scanner.trail_skip hlook), window_drop]
    refine ⟨hwild, tame_of_sizes hlen (k + 1) (pos + 1) fun fuel o ho => h (fuel + 1) o ?_⟩
    simp only [extractLoop, hskip, hnext]
    exact ho
  | emit total out =>
    obtain ⟨hframe, htotal, -, hle, hnext⟩ := extractIter_of_emit _ buf hlen hiter hlook
    rw [tame_cons (Scanner.trail_emit hlook), window_drop]
    refine ⟨hwild, tame_of_sizes hlen (k + 1) (pos + total) fun fuel o ho => h (fuel + 1) o ?_⟩
    simp only [extractLoop, hframe, hnext]
    exact List.mem_append_right _ ho
termination_by len - pos

/-- **The loop moves on, ends and queues messages of the right size exactly when no header that it
comes to has a wild tail.** -/
theorem loop_ok_iff {outside : Nat → Nat → Byte} (hlen : len ≤ 6000) :
    LoopOk outside buf len ↔ Tame outside len 0 (window buf len 0) := by
  constructor
  · intro h
    exact tame_of_sizes hlen 0 0 fun fuel o ho => (h.sizes fuel o ho).1
  · intro h
    exact ⟨fun fuel => (loop_tame hlen fuel 0 0 (Nat.zero_le _) h).1,
      (loop_tame hlen (len + 1) 0 0 (Nat.zero_le _) h).2.1 (by omega),
      fun fuel => (loop_tame hlen fuel 0 0 (Nat.zero_le _) h).2.2⟩

/-- With a length of 65528 and a tail behind the buffer, the loop stands still. -/
theorem loop_spins {outside : Nat → Nat → Byte} (hlen : len ≤ 6000)
    (hzero : declared (window buf len pos) = 65528)
    (hwild : ∀ k, WildTail (outside k) len (window buf len pos)) (fuel k : Nat) :
    (extractLoop outside buf len fuel k pos).returned = false ∧
      (extractLoop outside buf len fuel k pos).pos = pos := by
  induction fuel generalizing k with
  | zero => exact ⟨rfl, rfl⟩
  | succ fuel ih =>
    have hiter := extractIter_wild hlen (hwild k)
    have h8 := (hwild k).1.pos_le buf hlen
    rw [hzero] at hiter
    simp only [extractLoop, hiter, Nat.sub_self, Nat.add_zero, u16_of_lt (show pos < 65536 by omega)]
    exact ih (k + 1)

/-- A header with the length 65528. -/
def spinning : List Byte := [0xAA, 0x55, 0, 0, 0xF8, 0xFF, 0, 0]

def spinningBuf : Block Byte reassembleBufSize := (Block.fill _ 0).write 0 spinning

/-- Memory in which a tail follows the buffer at the right distance. -/
def tailAt65534 (i : Nat) : Byte := if i = 65534 then 0x55 else 0xAA

theorem loop_ok_zero_memory : LoopOk (fun _ _ => 0) spinningBuf 8 :=
  (loop_ok_iff (by decide)).mpr (by decide +kernel)

theorem loop_not_ok_spinning :
    ¬ ∀ (outside : Nat → Nat → Byte) buf len, len ≤ 6000 → LoopOk outside buf len := by
  intro h
  have hwild : WildTail tailAt65534 8 (window spinningBuf 8 0) := by decide +kernel
  have hspin := (loop_spins (by decide) (by decide +kernel) (fun _ => hwild) 9 0).1
  have hret := (h (fun _ => tailAt65534) spinningBuf 8 (by decide)).returned
  exact Bool.noConfusion (hret.symm.trans hspin)

end NearLink.Speed
