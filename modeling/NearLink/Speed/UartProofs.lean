import NearLink.Frame
import NearLink.Speed.Uart

/-!
# The receiver computes the reference scan

One spec per step of the extraction loop, then the callback, then whole runs of callbacks.
-/

namespace NearLink.Speed

/-! ## One iteration -/

def window (buf : Block Byte reassembleBufSize) (len pos : Nat) : List Byte :=
  (buf.cells.take len).drop pos

/-- The input does not start with a header whose frame length wraps in 16 bits. -/
def Unwrapped (v : List Byte) : Prop := Headed v → 6 ≤ v.length → declared v < 65528

instance (v : List Byte) : Decidable (Unwrapped v) :=
  inferInstanceAs (Decidable (Headed v → 6 ≤ v.length → declared v < 65528))

theorem Unwrapped.of_append (v t : List Byte) (h : Unwrapped (v ++ t)) : Unwrapped v := by
  intro hh h6
  rw [← declared_append h6 t]
  exact h ((headed_append (by omega) t).mpr hh) (by simp; omega)

variable (outside : Nat → Byte) (buf : Block Byte reassembleBufSize) {len pos : Nat}

theorem window_length (pos : Nat) (hlen : len ≤ 6000) : (window buf len pos).length = len - pos := by
  simp [window]; omega

theorem window_drop (pos k : Nat) :
    (window buf len pos).drop k = window buf len (pos + k) := by
  simp [window, List.drop_drop]

theorem read16_window (hlen : len ≤ 6000) (i : Nat) (hi : pos + i + 1 < len) :
    read16 outside buf (pos + i) =
      le16 ((window buf len pos).getD i 0) ((window buf len pos).getD (i + 1) 0) := by
  have hfit : len ≤ reassembleBufSize := hlen
  have hget : ∀ j, (window buf len pos).getD j 0 = (buf.cells.take len).getD (pos + j) 0 := by
    intro j
    simp only [window, List.getD_eq_getElem?_getD, List.getElem?_drop]
  rw [read16, Block.read_eq_getD 0 (by omega) hfit, Block.read_eq_getD 0 hi hfit, hget, hget]
  rfl

theorem read16_header (hlen : len ≤ 6000) (hpos : pos + 8 ≤ len) :
    read16 outside buf pos = audioHeader ↔ Headed (window buf len pos) := by
  have h := read16_window outside buf hlen 0 (show pos + 0 + 1 < len by omega)
  rw [Nat.add_zero] at h
  rw [h, Headed, pair_prefix_iff (by rw [window_length buf pos hlen]; omega)]
  rfl

theorem read16_declared (hlen : len ≤ 6000) (hpos : pos + 8 ≤ len) :
    read16 outside buf (pos + 4) = declared (window buf len pos) :=
  read16_window outside buf hlen 4 (by omega)

theorem read16_tail (hlen : len ≤ 6000)
    (hpos : pos + (8 + declared (window buf len pos)) ≤ len) :
    read16 outside buf (pos + 6 + declared (window buf len pos)) = audioTail ↔
      Tailed (window buf len pos) := by
  have h := read16_window outside buf hlen (6 + declared (window buf len pos))
    (show pos + _ + 1 < len by omega)
  rw [Nat.add_assoc, h, Tailed, ← pair_at_iff (by rw [window_length buf pos hlen]; omega)]
  rfl

/-- The moves of the reference scan, as the loop makes them. -/
def Iter.ofMove : Move (List Byte) → Iter
  | .wait => .stop
  | .skip => .skip
  | .emit k _ => .frame k

theorem extractIter_spec (hlen : len ≤ 6000)
    (hw : Headed (window buf len pos) → 8 ≤ (window buf len pos).length →
      declared (window buf len pos) < 65528) :
    extractIter outside buf len pos =
      Iter.ofMove (frameLook uartQueueBufSize (window buf len pos)) := by
  have hlength := window_length buf pos hlen
  by_cases h8 : pos + 8 ≤ len
  swap
  · rw [extractIter, extractIterReads, audioFrameMinLen_val, if_neg h8, frameLook,
      if_pos (by omega)]
    rfl
  have hshort : ¬ (window buf len pos).length < 8 := by omega
  simp only [extractIter, extractIterReads, audioFrameMinLen_val, if_pos h8, ne_eq,
    read16_header outside buf hlen h8, read16_declared outside buf hlen h8, frameLook,
    if_neg hshort]
  by_cases hh : Headed (window buf len pos)
  swap
  · simp [hh, Iter.ofMove]
  have hlt := hw hh (by omega)
  have h6 : ¬ pos + 6 > len := by omega
  rw [show 6 + declared (window buf len pos) + 2 = 8 + declared (window buf len pos) by omega,
    u16_of_lt (by omega)]
  simp only [hh, not_true_eq_false, if_false, if_neg h6, false_or]
  by_cases hbig : uartQueueBufSize < 8 + declared (window buf len pos)
  · simp only [gt_iff_lt, if_pos hbig]
    rfl
  · by_cases hmore : (window buf len pos).length < 8 + declared (window buf len pos)
    · have hmore' : pos + (8 + declared (window buf len pos)) > len := by omega
      simp only [gt_iff_lt, if_neg hbig, if_pos hmore, if_pos hmore']
      rfl
    · have hmore' : ¬ pos + (8 + declared (window buf len pos)) > len := by omega
      simp only [gt_iff_lt, if_neg hbig, if_neg hmore, if_neg hmore',
        read16_tail outside buf hlen (not_lt.mp hmore')]
      split <;> rfl

/-! ### What an iteration can do, whatever the memory outside holds -/

theorem extractIter_skip (h : extractIter outside buf len pos = .skip) : pos + 8 ≤ len := by
  by_contra h8
  rw [extractIter, extractIterReads, audioFrameMinLen_val, if_neg h8] at h
  cases h

theorem extractIter_frame {total : Nat} (h : extractIter outside buf len pos = .frame total) :
    pos + 8 ≤ len ∧ pos + total ≤ len ∧ total ≤ 1500 := by
  simp only [extractIter, extractIterReads, audioFrameMinLen_val, uartQueueBufSize_val] at h
  split_ifs at h with h8 hh h6 hbig hmore ht
  obtain rfl := Iter.frame.inj h
  exact ⟨h8, by omega, by omega⟩

theorem extractIter_headed {total : Nat} (hlen : len ≤ 6000)
    (h : extractIter outside buf len pos = .frame total) : Headed (window buf len pos) := by
  have h8 := (extractIter_frame outside buf h).1
  by_contra hh
  rw [extractIter, extractIterReads, audioFrameMinLen_val, if_pos h8] at h
  simp only [ne_eq, read16_header outside buf hlen h8, hh, not_false_eq_true, if_true] at h
  cases h

theorem extractIter_stop (hlen : len ≤ 6000) (h : extractIter outside buf len pos = .stop) :
    len < pos + 8 ∨ Headed (window buf len pos) ∧
      len < pos + (8 + declared (window buf len pos)) ∧
      8 + declared (window buf len pos) ≤ 1500 := by
  by_cases h8 : pos + 8 ≤ len
  swap
  · exact Or.inl (by omega)
  right
  simp only [extractIter, extractIterReads, audioFrameMinLen_val, uartQueueBufSize_val, if_pos h8,
    ne_eq, read16_header outside buf hlen h8, read16_declared outside buf hlen h8] at h
  have hword : declared (window buf len pos) < 65536 := le16_lt _ _
  have hwrap := Nat.mod_add_div (6 + declared (window buf len pos) + 2) 65536
  split_ifs at h with hh h6 hbig hmore ht
  · omega
  · -- A total above 8 has not wrapped.
    simp only [u16] at hbig hmore
    exact ⟨by simpa using hh, by omega, by omega⟩

/-! ### An iteration that makes the move of the reference scan -/

section Moves

variable (hlen : len ≤ 6000)
  (hiter : extractIter outside buf len pos =
    Iter.ofMove (frameLook uartQueueBufSize (window buf len pos)))

include hiter

theorem extractIter_of_wait (hlook : frameLook uartQueueBufSize (window buf len pos) = .wait) :
    extractIter outside buf len pos = .stop := by
  rw [hiter, hlook]
  rfl

include hlen

theorem extractIter_of_skip (hlook : frameLook uartQueueBufSize (window buf len pos) = .skip) :
    extractIter outside buf len pos = .skip ∧ pos + 8 ≤ len ∧ u16 (pos + 1) = pos + 1 := by
  rw [hlook, Iter.ofMove] at hiter
  have h8 := extractIter_skip _ _ hiter
  exact ⟨hiter, h8, u16_of_lt (by omega)⟩

theorem extractIter_of_emit {total : Nat} {out : List Byte}
    (hlook : frameLook uartQueueBufSize (window buf len pos) = .emit total out) :
    extractIter outside buf len pos = .frame total ∧ 8 ≤ total ∧ total ≤ 1500 ∧
      pos + total ≤ len ∧ u16 (pos + total) = pos + total := by
  rw [hlook, Iter.ofMove] at hiter
  obtain ⟨-, hle, hmax⟩ := extractIter_frame _ _ hiter
  obtain ⟨htotal, -⟩ := frameLook_emit hlook
  exact ⟨hiter, by omega, hmax, hle, u16_of_lt (by omega)⟩

end Moves

/-! ## The loop -/

theorem offer_data {pos total : Nat} (h : total ≤ 1500) :
    (offer buf pos total).map (fun o => o.msg.data) = [buf.slice pos total] := by
  have hfit : (buf.slice pos total).length ≤ uartQueueBufSize :=
    (List.length_take_le _ _).trans h
  rw [offer, dif_pos hfit]
  rfl

theorem mem_offer {pos total : Nat} {o : Offer} (h : o ∈ offer buf pos total) :
    o.pos = pos ∧ o.msg.data = buf.slice pos total := by
  unfold offer at h
  split at h
  · obtain rfl := List.mem_singleton.mp h
    exact ⟨rfl, rfl⟩
  · cases h

theorem extractLoop_pos (outside : Nat → Nat → Byte) (hlen : len ≤ 6000) (fuel k pos : Nat)
    (hpos : pos ≤ len) :
    (extractLoop outside buf len fuel k pos).pos ≤ len ∧
      ((extractLoop outside buf len fuel k pos).returned = true →
        ∃ j, extractIter (outside j) buf len (extractLoop outside buf len fuel k pos).pos = .stop) := by
  induction fuel generalizing k pos with
  | zero => exact ⟨hpos, by simp [extractLoop]⟩
  | succ fuel ih =>
    unfold extractLoop
    cases hiter : extractIter (outside k) buf len pos with
    | stop => exact ⟨hpos, fun _ => ⟨k, hiter⟩⟩
    | skip =>
      have h8 := extractIter_skip _ _ hiter
      apply ih (k + 1) (u16 (pos + 1))
      rw [u16_of_lt (by omega)]
      omega
    | frame total =>
      have hf := extractIter_frame _ _ hiter
      apply ih (k + 1) (u16 (pos + total))
      rw [u16_of_lt (by omega)]
      omega

theorem extractLoop_offers (outside : Nat → Nat → Byte) (hlen : len ≤ 6000) (fuel k pos : Nat)
    (hpos : pos ≤ len) :
    ∀ o ∈ (extractLoop outside buf len fuel k pos).offers,
      o.msg.data <+: window buf len o.pos ∧ Headed (window buf len o.pos) := by
  induction fuel generalizing k pos with
  | zero => simp [extractLoop]
  | succ fuel ih =>
    unfold extractLoop
    cases hiter : extractIter (outside k) buf len pos with
    | stop => simp
    | skip =>
      have h8 := extractIter_skip _ _ hiter
      apply ih (k + 1) (u16 (pos + 1))
      rw [u16_of_lt (by omega)]
      omega
    | frame total =>
      have hf := extractIter_frame _ _ hiter
      intro o ho
      rcases List.mem_append.mp ho with hnow | hlater
      · obtain ⟨rfl, hdata⟩ := mem_offer buf hnow
        rw [hdata, Block.slice_eq hf.2.1]
        exact ⟨List.take_prefix _ _, extractIter_headed _ _ hlen hiter⟩
      · refine ih (k + 1) (u16 (pos + total)) ?_ o hlater
        rw [u16_of_lt (by omega)]
        omega

/-- **The loop makes the moves of the reference scan**, and with a step for each byte it ends. -/
theorem extractLoop_spec (outside : Nat → Nat → Byte) (hlen : len ≤ 6000) (fuel k pos : Nat)
    (hpos : pos ≤ len) (hfuel : len - pos < fuel)
    (hw : (frameScanner uartQueueBufSize).Along Unwrapped (window buf len pos)) :
    (extractLoop outside buf len fuel k pos).returned = true ∧
      (extractLoop outside buf len fuel k pos).offers.map (fun o => o.msg.data) =
        ((frameScanner uartQueueBufSize).scan (window buf len pos)).1 ∧
      window buf len (extractLoop outside buf len fuel k pos).pos =
        ((frameScanner uartQueueBufSize).scan (window buf len pos)).2 := by
  induction fuel generalizing k pos with
  | zero => omega
  | succ fuel ih =>
    have hiter := extractIter_spec (outside k) buf hlen fun hh h8 => hw.head hh (by omega)
    unfold extractLoop
    cases hlook : frameLook uartQueueBufSize (window buf len pos) with
    | wait =>
      rw [extractIter_of_wait _ buf hiter hlook, Scanner.scan_wait hlook]
      exact ⟨rfl, rfl, rfl⟩
    | skip =>
      obtain ⟨hskip, h8, hnext⟩ := extractIter_of_skip _ buf hlen hiter hlook
      have hrest := hw.of_skip hlook
      rw [window_drop] at hrest
      rw [Scanner.scan_skip hlook, window_drop]
      simp only [hskip, hnext]
      exact ih (k + 1) (pos + 1) (by omega) (by omega) hrest
    | emit total out =>
      obtain ⟨hframe, htotal, hmax, hle, hnext⟩ := extractIter_of_emit _ buf hlen hiter hlook
      obtain ⟨-, hout, -⟩ := frameLook_emit hlook
      have hrest := hw.of_emit hlook
      rw [window_drop] at hrest
      rw [Scanner.scan_emit hlook, window_drop]
      simp only [hframe, hnext, List.map_append, offer_data buf hmax, Block.slice_eq hle]
      obtain ⟨hret, hdata, hres⟩ := ih (k + 1) (pos + total) (by omega) (by omega) hrest
      exact ⟨hret, by rw [hdata, hout]; rfl, hres⟩

/-! ## The callback -/

theorem Rx.received_length {rx : Rx} (h : rx.reassembleLen ≤ 6000) :
    rx.received.length = rx.reassembleLen := by
  simp [Rx.received]; omega

theorem compact_spec (rx : Rx) (pos : Nat) (hpos : pos ≤ rx.reassembleLen)
    (hlen : rx.reassembleLen ≤ 6000) :
    (compact rx pos).received = window rx.reassembleBuf rx.reassembleLen pos ∧
      (compact rx pos).reassembleLen = rx.reassembleLen - pos := by
  unfold compact
  split_ifs with h1 h2
  · have hslice : (rx.reassembleBuf.slice pos (rx.reassembleLen - pos)).length =
        rx.reassembleLen - pos := Block.slice_length (by simp; omega)
    have htake := Block.take_write rx.reassembleBuf 0
      (rx.reassembleBuf.slice pos (rx.reassembleLen - pos)) (by rw [hslice]; simp; omega)
    rw [hslice, Nat.zero_add, List.take_zero, List.nil_append] at htake
    refine ⟨?_, rfl⟩
    simp only [Rx.received, htake]
    rw [window, List.drop_take]
    rfl
  · refine ⟨?_, by simp only; omega⟩
    simp only [Rx.received, window, List.take_zero]
    rw [List.drop_eq_nil_of_le (by simp; omega)]
  · have : pos = 0 := by omega
    simp [this, Rx.received, window]

theorem loopStart_ignored {c : Call} (rx : Rx) (h : c.bytes = []) : loopStart c rx = .ignored := by
  unfold loopStart
  cases hb : c.buffer with
  | none => rfl
  | some data =>
    have : c.error ∨ data.length = 0 := by
      by_cases he : c.error = true
      · exact Or.inl he
      · right; simpa [Call.bytes, he, hb] using h
    simp only [if_pos this]

theorem uart1RxCallback_ignored (fuel uartQueueId : Nat) {c : Call} (rx : Rx) (h : c.bytes = []) :
    uart1RxCallback fuel uartQueueId c rx = ⟨rx, false, false, 0, [], true⟩ := by
  rw [uart1RxCallback, loopStart_ignored rx h]

def appended (rx : Rx) (data : List Byte) : Rx :=
  { rx with
    reassembleBuf := rx.reassembleBuf.write rx.reassembleLen data
    reassembleLen := rx.reassembleLen + data.length }

theorem appended_received {rx : Rx} {data : List Byte}
    (h : rx.reassembleLen + data.length ≤ 6000) :
    (appended rx data).received = rx.received ++ data :=
  Block.take_write _ _ _ (by simpa using h)

theorem Call.data_of_bytes {c : Call} (hne : c.bytes ≠ []) :
    ∃ data, c.buffer = some data ∧ c.bytes = data ∧ ¬ (c.error = true ∨ data.length = 0) := by
  have he : c.error = false := by
    by_contra he
    simp [Call.bytes, he] at hne
  cases hb : c.buffer with
  | none => simp [Call.bytes, hb] at hne
  | some data =>
    have hdata : c.bytes = data := by simp [Call.bytes, he, hb]
    exact ⟨data, rfl, hdata, by simpa [he, hdata] using hne⟩

theorem loopStart_fits {c : Call} {rx : Rx} (hne : c.bytes ≠ [])
    (hfit : rx.reassembleLen + c.bytes.length ≤ 6000) :
    loopStart c rx = .reached false (appended rx c.bytes) := by
  obtain ⟨data, hb, hdata, hskip⟩ := Call.data_of_bytes hne
  rw [hdata] at hne hfit ⊢
  have hpos := List.length_pos_of_ne_nil hne
  have hover : decide (rx.reassembleLen + data.length > reassembleBufSize) = false := by
    simpa using hfit
  have hroom : data.length ≤ reassembleBufSize - rx.reassembleLen := by simp; omega
  have hcopy := memcpyS_ok rx.reassembleBuf rx.reassembleLen (hpos.trans_le hroom) hroom
  simp only [loopStart, hb, if_neg hskip, hover, Bool.false_eq_true, if_false, hcopy, if_true,
    u16_of_lt (show rx.reassembleLen + data.length < 65536 by omega)]
  rfl

theorem uart1RxCallback_fits (fuel uartQueueId : Nat) {c : Call} {rx : Rx} (hne : c.bytes ≠ [])
    (hfit : rx.reassembleLen + c.bytes.length ≤ 6000) :
    uart1RxCallback fuel uartQueueId c rx =
      extractFrames fuel uartQueueId c false (appended rx c.bytes) := by
  rw [uart1RxCallback, loopStart_fits hne hfit]

def Rx.kept (rx : Rx) (overflowed : Bool) : Rx :=
  if overflowed then { rx with reassembleLen := 0 } else rx

/-- A chunk that does not fit behind the content replaces it, or is too long for the buffer. -/
theorem loopStart_full {c : Call} {rx : Rx} (hne : c.bytes ≠ [])
    (hfull : ¬ rx.reassembleLen + c.bytes.length ≤ 6000) :
    (∃ r, loopStart c rx = .copyFailed true r ∧ r.reassembleLen = 0) ∨
      c.bytes.length ≤ 6000 ∧ loopStart c rx = .reached true (appended (rx.kept true) c.bytes) := by
  obtain ⟨data, hb, hdata, hskip⟩ := Call.data_of_bytes hne
  rw [hdata] at hfull ⊢
  have hover : decide (rx.reassembleLen + data.length > reassembleBufSize) = true := by
    simpa using hfull
  simp only [loopStart, hb, if_neg hskip, hover, if_true]
  by_cases hbig : data.length ≤ 6000
  · right
    rw [memcpyS_ok rx.reassembleBuf 0 (by decide) (by simpa using hbig), if_pos rfl, Nat.zero_add,
      u16_of_lt (by omega)]
    exact ⟨hbig, by simp [appended, Rx.kept]⟩
  · left
    have hcopy : (memcpyS rx.reassembleBuf 0 (reassembleBufSize - 0) data).2 = false := by
      rw [memcpyS, if_neg (by simp), if_pos (by simpa using hbig)]
    simp only [hcopy, Bool.false_eq_true, if_false]
    exact ⟨_, rfl, rfl⟩

/-- What the callback did: nothing, a copy that failed, or a run of the loop. -/
theorem uart1RxCallback_cases (fuel uartQueueId : Nat) (c : Call) (rx : Rx) :
    let o := uart1RxCallback fuel uartQueueId c rx
    (o.rx = rx ∧ c.bytes = [] ∧ o.overflowed = false ∧ o.offers = []) ∨
      (o.rx.reassembleLen = 0 ∧ o.offers = []) ∨
      ∃ overflowed, (rx.kept overflowed).reassembleLen + c.bytes.length ≤ 6000 ∧
        o = extractFrames fuel uartQueueId c overflowed (appended (rx.kept overflowed) c.bytes) := by
  by_cases hne : c.bytes = []
  · rw [uart1RxCallback_ignored fuel uartQueueId rx hne]
    exact Or.inl ⟨rfl, hne, rfl, rfl⟩
  right
  by_cases hfit : rx.reassembleLen + c.bytes.length ≤ 6000
  · exact Or.inr ⟨false, hfit, uart1RxCallback_fits fuel uartQueueId hne hfit⟩
  simp only [uart1RxCallback]
  obtain ⟨r, hstart, hempty⟩ | ⟨hbig, hstart⟩ := loopStart_full hne hfit
  · rw [hstart]
    exact Or.inl ⟨hempty, rfl⟩
  · rw [hstart]
    exact Or.inr ⟨true, by simpa [Rx.kept] using hbig, rfl⟩

/-! ## What the receiver keeps between callbacks -/

/-- Too few bytes for a frame, or an incomplete frame that fits the queue's messages. -/
structure Rx.Waiting (rx : Rx) : Prop where
  len_le : rx.reassembleLen ≤ 1499
  incomplete : rx.reassembleLen < 8 ∨ Headed rx.received ∧
    rx.reassembleLen < 8 + declared rx.received ∧ 8 + declared rx.received ≤ 1500

theorem Rx.Waiting.look {rx : Rx} (h : rx.Waiting) :
    (frameScanner uartQueueBufSize).look rx.received = .wait := by
  have hlen : rx.received.length = rx.reassembleLen :=
    Rx.received_length (by have := h.len_le; omega)
  apply frameLook_wait.mpr
  rw [hlen]
  exact h.incomplete

theorem Rx.Waiting.of_empty {rx : Rx} (h : rx.reassembleLen = 0) : rx.Waiting :=
  ⟨by omega, Or.inl (by omega)⟩

theorem extractFrames_rx (fuel uartQueueId : Nat) (c : Call) (overflowed : Bool) {rx : Rx}
    (hlen : rx.reassembleLen ≤ 6000)
    (hret : (extractFrames fuel uartQueueId c overflowed rx).returned = true) :
    (extractFrames fuel uartQueueId c overflowed rx).rx.received =
        window rx.reassembleBuf rx.reassembleLen
          (extractFrames fuel uartQueueId c overflowed rx).pos ∧
      (extractFrames fuel uartQueueId c overflowed rx).rx.reassembleLen =
        rx.reassembleLen - (extractFrames fuel uartQueueId c overflowed rx).pos := by
  have hpos := (extractLoop_pos rx.reassembleBuf c.outside hlen fuel 0 0 (Nat.zero_le _)).1
  simp only [extractFrames] at hret ⊢
  rw [if_pos hret]
  exact compact_spec _ _ hpos hlen

theorem extractFrames_waiting (fuel uartQueueId : Nat) (c : Call) (overflowed : Bool) {rx : Rx}
    (hlen : rx.reassembleLen ≤ 6000)
    (hret : (extractFrames fuel uartQueueId c overflowed rx).returned = true) :
    (extractFrames fuel uartQueueId c overflowed rx).rx.Waiting := by
  obtain ⟨hrec, hlen'⟩ := extractFrames_rx fuel uartQueueId c overflowed hlen hret
  obtain ⟨hpos, hstop⟩ := extractLoop_pos rx.reassembleBuf c.outside hlen fuel 0 0 (Nat.zero_le _)
  obtain ⟨j, hj⟩ := hstop hret
  have hcases := extractIter_stop _ _ hlen hj
  have hloop : (extractLoop c.outside rx.reassembleBuf rx.reassembleLen fuel 0 0).pos =
      (extractFrames fuel uartQueueId c overflowed rx).pos := rfl
  rw [hloop] at hpos hcases
  refine ⟨?_, ?_⟩
  · rw [hlen']
    rcases hcases with h | ⟨-, h1, h2⟩ <;> omega
  · rw [hlen', hrec]
    rcases hcases with h | ⟨hh, h1, h2⟩
    · exact Or.inl (by omega)
    · exact Or.inr ⟨hh, by omega, h2⟩

theorem uart1RxCallback_waiting (fuel uartQueueId : Nat) (c : Call) {rx : Rx} (h : rx.Waiting)
    (hret : (uart1RxCallback fuel uartQueueId c rx).returned = true) :
    (uart1RxCallback fuel uartQueueId c rx).rx.Waiting := by
  rcases uart1RxCallback_cases fuel uartQueueId c rx with
    ⟨hsame, -⟩ | ⟨hzero, -⟩ | ⟨ov, hfit, hloop⟩
  · rw [hsame]; exact h
  · exact .of_empty hzero
  · rw [hloop] at hret ⊢
    exact extractFrames_waiting fuel uartQueueId c ov hfit hret

/-! ## Where the bytes of a message come from -/

/-- What the loop may look at: the bytes that are kept, and the chunk behind them. -/
def Rx.seen (rx : Rx) (overflowed : Bool) (c : Call) : List Byte :=
  (rx.kept overflowed).received ++ c.bytes

theorem Rx.seen_suffix (rx : Rx) (overflowed : Bool) (c : Call) :
    rx.seen overflowed c <:+ rx.received ++ c.bytes := by
  cases overflowed with
  | true =>
    simp only [Rx.seen, Rx.kept, if_true, Rx.received, List.take_zero, List.nil_append]
    exact List.suffix_append _ _
  | false => exact List.suffix_refl _

theorem extractFrames_offers (fuel uartQueueId : Nat) (c : Call) (overflowed : Bool) {rx : Rx}
    (hlen : rx.reassembleLen ≤ 6000) :
    (∀ o ∈ (extractFrames fuel uartQueueId c overflowed rx).offers,
      o.msg.data <+: rx.received.drop o.pos ∧ Headed (rx.received.drop o.pos)) ∧
      (extractFrames fuel uartQueueId c overflowed rx).rx.received <:+ rx.received ∧
      (extractFrames fuel uartQueueId c overflowed rx).rx.reassembleLen ≤ 6000 := by
  refine ⟨fun o ho => ?_, ?_⟩
  · simp only [extractFrames] at ho
    split at ho
    · exact extractLoop_offers _ _ hlen _ _ _ (Nat.zero_le _) o ho
    · cases ho
  · cases hret : (extractFrames fuel uartQueueId c overflowed rx).returned with
    | true =>
      obtain ⟨hrec, hlen'⟩ := extractFrames_rx fuel uartQueueId c overflowed hlen hret
      exact ⟨by rw [hrec]; exact List.drop_suffix _ _, by omega⟩
    | false =>
      -- The loop is still running, and the buffer is as the copy left it.
      have hrun : (extractLoop c.outside rx.reassembleBuf rx.reassembleLen fuel 0 0).returned =
          false := hret
      simp only [extractFrames, hrun, Bool.false_eq_true, if_false]
      exact ⟨List.suffix_refl _, hlen⟩

theorem uart1RxCallback_offers (fuel uartQueueId : Nat) (c : Call) {rx : Rx}
    (hlen : rx.reassembleLen ≤ 6000) :
    let o := uart1RxCallback fuel uartQueueId c rx
    (∀ f ∈ o.offers, f.msg.data <+: (rx.seen o.overflowed c).drop f.pos ∧
      Headed ((rx.seen o.overflowed c).drop f.pos)) ∧
      o.rx.received <:+ rx.seen o.overflowed c ∧ o.rx.reassembleLen ≤ 6000 := by
  simp only
  rcases uart1RxCallback_cases fuel uartQueueId c rx with
    ⟨hsame, hne, hov, hoff⟩ | ⟨hzero, hoff⟩ | ⟨ov, hfit, hloop⟩
  · rw [hsame, hoff, hov, Rx.seen, hne, List.append_nil]
    exact ⟨by simp, List.suffix_refl _, hlen⟩
  · rw [hoff, Rx.received, hzero, List.take_zero]
    exact ⟨by simp, List.nil_suffix, by omega⟩
  · have hov : (uart1RxCallback fuel uartQueueId c rx).overflowed = ov := by rw [hloop]; rfl
    have hseen : rx.seen ov c = (appended (rx.kept ov) c.bytes).received :=
      (appended_received hfit).symm
    rw [hov, hloop, hseen]
    exact extractFrames_offers fuel uartQueueId c ov hfit

theorem uart1RxCallback_closed (fuel : Nat) (c : Call) (rx : Rx) :
    (uart1RxCallback fuel 0 c rx).offers = [] := by
  rcases uart1RxCallback_cases fuel 0 c rx with ⟨-, -, -, hoff⟩ | ⟨-, hoff⟩ | ⟨ov, -, hloop⟩
  · exact hoff
  · exact hoff
  · rw [hloop]; rfl

end NearLink.Speed
