import Mathlib.Data.List.Infix
import Mathlib.Tactic.Push
import Mathlib.Tactic.SplitIfs
import NearLink.Bytes
import NearLink.Scanner

/-!
# What a frame is

AA 55, the sequence number, the payload length, the payload, 55 AA, with little-endian words.
Pure definitions: `Uart.lean` and `Parser.lean` hold the code that has to find these frames.
-/

namespace NearLink

/-- A frame with at least `lo` and at most `hi` payload bytes. -/
structure Frame (lo hi : Nat) where
  seq : Nat
  payload : List Byte
  seq_lt : seq < 65536
  lo_le : lo ≤ payload.length
  le_hi : payload.length ≤ hi

namespace Frame

variable {lo hi : Nat}

def encode (f : Frame lo hi) : List Byte :=
  0xAA :: 0x55 :: loByte f.seq :: hiByte f.seq :: loByte f.payload.length ::
    hiByte f.payload.length :: (f.payload ++ [0x55, 0xAA])

theorem encode_length (f : Frame lo hi) : f.encode.length = 8 + f.payload.length := by
  simp [encode]; omega

theorem header_word (f : Frame lo hi) :
    le16 (f.encode.getD 0 0) (f.encode.getD 1 0) = 0x55AA := by
  simp [encode, le16]

theorem seq_word (f : Frame lo hi) : le16 (f.encode.getD 2 0) (f.encode.getD 3 0) = f.seq :=
  le16_lo_hi f.seq_lt

theorem tail_word (f : Frame lo hi) :
    le16 (f.encode.getD (f.payload.length + 6) 0) (f.encode.getD (f.payload.length + 6 + 1) 0) =
      0xAA55 := by
  have hlow : f.encode.getD (f.payload.length + 6) 0 = 0x55 := by
    simp [encode, List.getD_eq_getElem?_getD]
  have hhigh : f.encode.getD (f.payload.length + 6 + 1) 0 = 0xAA := by
    simp [encode, List.getD_eq_getElem?_getD]
  rw [hlow, hhigh]
  rfl

/-- The frame with the number `n` modulo 65536 and no payload. -/
def bare (hi n : Nat) : Frame 0 hi :=
  ⟨u16 n, [], Nat.mod_lt _ (by decide), Nat.le_refl 0, Nat.zero_le hi⟩

end Frame

/-! ## The reference scan -/

def Headed (v : List Byte) : Prop := [0xAA, 0x55] <+: v

/-- The payload length that the input declares, if it is a frame. -/
def declared (v : List Byte) : Nat := le16 (v.getD 4 0) (v.getD 5 0)

/-- The tail 55 AA stands where the declared length puts it. -/
def Tailed (v : List Byte) : Prop := [0x55, 0xAA] <+: v.drop (6 + declared v)

instance (v : List Byte) : Decidable (Headed v) := inferInstanceAs (Decidable ([0xAA, 0x55] <+: v))
instance (v : List Byte) : Decidable (Tailed v) :=
  inferInstanceAs (Decidable ([0x55, 0xAA] <+: v.drop (6 + declared v)))

/-- Two bytes at the front, compared as the C code does: as one little-endian word. -/
theorem pair_prefix_iff {v : List Byte} (h : 2 ≤ v.length) (a b : Byte) :
    [a, b] <+: v ↔ le16 (v.getD 0 0) (v.getD 1 0) = le16 a b := by
  match v, h with
  | c :: d :: v, _ =>
    rw [le16_inj]
    simp [List.cons_prefix_cons, eq_comm]

theorem pair_at_iff {v : List Byte} {i : Nat} (h : i + 2 ≤ v.length) (a b : Byte) :
    le16 (v.getD i 0) (v.getD (i + 1) 0) = le16 a b ↔ [a, b] <+: v.drop i := by
  have hdrop : ∀ j, (v.drop i).getD j 0 = v.getD (i + j) 0 := by
    intro j
    simp only [List.getD_eq_getElem?_getD, List.getElem?_drop]
  rw [pair_prefix_iff (by rw [List.length_drop]; omega), hdrop, hdrop]
  rfl

/-- The move of a scan for frames of at most `limit` bytes. -/
def frameLook (limit : Nat) (v : List Byte) : Move (List Byte) :=
  if v.length < 8 then .wait
  else if ¬ Headed v ∨ limit < 8 + declared v then .skip
  else if v.length < 8 + declared v then .wait
  else if ¬ Tailed v then .skip
  else .emit (8 + declared v) (v.take (8 + declared v))

theorem declared_append {v : List Byte} (h : 6 ≤ v.length) (t : List Byte) :
    declared (v ++ t) = declared v := by
  unfold declared
  rw [List.getD_append _ _ _ _ (by omega), List.getD_append _ _ _ _ (by omega)]

theorem headed_append {v : List Byte} (h : 2 ≤ v.length) (t : List Byte) :
    Headed (v ++ t) ↔ Headed v := List.isPrefix_append_of_length h

theorem tailed_append {v : List Byte} (h : 8 + declared v ≤ v.length) (t : List Byte) :
    Tailed (v ++ t) ↔ Tailed v := by
  rw [Tailed, declared_append (by omega), List.drop_append_of_le_length (by omega)]
  exact List.isPrefix_append_of_length (by simp; omega)

theorem frameLook_wait {limit : Nat} {v : List Byte} :
    frameLook limit v = .wait ↔
      v.length < 8 ∨ Headed v ∧ v.length < 8 + declared v ∧ 8 + declared v ≤ limit := by
  unfold frameLook
  split_ifs with h1 h2 h3 h4
  · simp [h1]
  · simp only [false_iff]
    rintro (h | ⟨hh, -, hl⟩)
    · exact h1 h
    · rcases h2 with h2 | h2
      · exact h2 hh
      · omega
  · simp only [true_iff]
    right
    push Not at h2
    exact ⟨h2.1, h3, h2.2⟩
  · simp only [false_iff]
    rintro (h | ⟨-, h, -⟩)
    · exact h1 h
    · exact h3 h
  · simp only [false_iff]
    rintro (h | ⟨-, h, -⟩)
    · exact h1 h
    · exact h3 h

theorem frameLook_emit {limit : Nat} {v : List Byte} {k : Nat} {o : List Byte}
    (h : frameLook limit v = .emit k o) :
    k = 8 + declared v ∧ o = v.take k ∧ k ≤ v.length ∧ k ≤ limit ∧ Headed v ∧ Tailed v := by
  unfold frameLook at h
  split_ifs at h with h1 h2 h3 h4
  obtain ⟨rfl, rfl⟩ := Move.emit.inj h
  push Not at h2
  exact ⟨rfl, rfl, by omega, h2.2, h2.1, by simpa using h4⟩

theorem frameLook_append {limit : Nat} {v : List Byte} (t : List Byte)
    (h : frameLook limit v ≠ .wait) : frameLook limit (v ++ t) = frameLook limit v := by
  rw [ne_eq, frameLook_wait] at h
  push Not at h
  obtain ⟨h8, hfit⟩ := h
  have h8' : ¬ v.length < 8 := by omega
  have h8t : ¬ v.length + t.length < 8 := by omega
  simp only [frameLook, List.length_append, headed_append (show 2 ≤ v.length by omega),
    declared_append (show 6 ≤ v.length by omega), if_neg h8', if_neg h8t]
  by_cases hskip : ¬ Headed v ∨ limit < 8 + declared v
  · simp only [if_pos hskip]
  · have hlen : 8 + declared v ≤ v.length := by
      push Not at hskip
      by_contra hlt
      exact absurd (hfit hskip.1 (by omega)) (by omega)
    have hlen' : ¬ v.length < 8 + declared v := by omega
    have hlent : ¬ v.length + t.length < 8 + declared v := by omega
    simp only [if_neg hskip, if_neg hlen', if_neg hlent, tailed_append hlen,
      List.take_append_of_le_length hlen]

/-- The scan that both UART protocols describe, for frames of at most `limit` bytes. -/
def frameScanner (limit : Nat) : Scanner Byte (List Byte) where
  look := frameLook limit
  look_skip := by
    rintro s h rfl
    simp [frameLook] at h
  look_emit := by
    intro s k o h
    obtain ⟨rfl, -, hk, -⟩ := frameLook_emit h
    exact ⟨by omega, hk⟩
  stable := by
    rintro s m t rfl hm
    exact frameLook_append t hm

/-- What the scan emits is a frame. -/
theorem frame_of_look {hi : Nat} {v o : List Byte} {k : Nat}
    (h : frameLook (8 + hi) v = .emit k o) : ∃ f : Frame 0 hi, f.encode = o := by
  obtain ⟨hk, rfl, hlen, hle, hhead, htail⟩ := frameLook_emit h
  match v, (show 8 ≤ v.length by omega) with
  | a :: b :: s :: t :: l :: m :: rest, _ =>
    obtain ⟨rfl, rfl⟩ : a = 0xAA ∧ b = 0x55 := by
      simpa [Headed, List.cons_prefix_cons, eq_comm] using hhead
    have hdecl : declared (0xAA :: 0x55 :: s :: t :: l :: m :: rest) = le16 l m := rfl
    rw [hdecl] at hk
    simp only [List.length_cons] at hlen
    have htake : (rest.take (le16 l m)).length = le16 l m := by
      rw [List.length_take]
      omega
    obtain ⟨after, hafter⟩ : [0x55, 0xAA] <+: rest.drop (le16 l m) := by
      rw [Tailed, hdecl, Nat.add_comm] at htail
      simpa using htail
    have hrest : rest.take (le16 l m + 2) = rest.take (le16 l m) ++ [0x55, 0xAA] := by
      rw [List.take_add, ← hafter]
      rfl
    have hfits : (rest.take (le16 l m)).length ≤ hi := by omega
    refine ⟨⟨le16 s t, rest.take (le16 l m), le16_lt s t, Nat.zero_le _, hfits⟩, ?_⟩
    obtain rfl : k = le16 l m + 2 + 6 := by omega
    simp only [Frame.encode, htake, loByte_le16, hiByte_le16, List.take_succ_cons, hrest]

/-! ## Where no frame begins -/

/-- No header begins in the bytes, not even with its first byte at the end. -/
def Startless (r : List Byte) : Prop := ¬ [0xAA, 0x55] <:+: r ++ [0x55]

instance (r : List Byte) : Decidable (Startless r) :=
  inferInstanceAs (Decidable (¬ [0xAA, 0x55] <:+: r ++ [0x55]))

theorem Startless.of_suffix {q r : List Byte} (h : Startless r) (hq : q <:+ r) : Startless q := by
  obtain ⟨p, rfl⟩ := hq
  intro hin
  refine h (hin.trans ?_)
  rw [List.append_assoc]
  exact (List.suffix_append p _).isInfix

theorem Startless.le_of_headed {s : List Byte} {base n i : Nat}
    (h : Startless ((s.take n).drop base)) (hbase : base ≤ i) (hi : Headed (s.drop i)) : n ≤ i := by
  by_contra hlt
  obtain ⟨t, ht⟩ := hi
  have hsuffix : (s.take n).drop i <:+ (s.take n).drop base := by
    rw [← Nat.add_sub_cancel' hbase, ← List.drop_drop]
    exact List.drop_suffix _ _
  refine h.of_suffix hsuffix (List.IsPrefix.isInfix ?_)
  obtain ⟨k, hk⟩ : ∃ k, n - i = k + 1 := ⟨n - i - 1, by omega⟩
  rw [List.drop_take, ← ht, hk]
  cases k <;> simp

/-! ## Frames between noise -/

structure Gap where
  bytes : List Byte
  noise : ¬ [0xAA, 0x55] <:+: bytes

variable {lo hi : Nat}

/-- A gap before each frame, and `tail` after the last one. -/
def stream (items : List (Gap × Frame lo hi)) (tail : Gap) : List Byte :=
  items.flatMap (fun p => p.1.bytes ++ p.2.encode) ++ tail.bytes

/-- The frames that end within the first `n` bytes of the stream. -/
def endedBy (n : Nat) : List (Gap × Frame lo hi) → List (List Byte)
  | [] => []
  | (g, f) :: rest =>
    if g.bytes.length + f.encode.length ≤ n then
      f.encode :: endedBy (n - (g.bytes.length + f.encode.length)) rest
    else []

theorem stream_cons (g : Gap) (f : Frame lo hi) (rest : List (Gap × Frame lo hi)) (tail : Gap) :
    stream ((g, f) :: rest) tail = g.bytes ++ (f.encode ++ stream rest tail) := by
  simp [stream]

theorem endedBy_all (items : List (Gap × Frame lo hi)) (tail : Gap) :
    endedBy (stream items tail).length items = items.map fun p => p.2.encode := by
  induction items with
  | nil => rfl
  | cons p rest ih =>
    obtain ⟨g, f⟩ := p
    rw [stream_cons, endedBy, if_pos (by simp), List.map_cons, ← ih]
    congr 2
    simp only [List.length_append]
    omega

theorem endedBy_front (n : Nat) (items : List (Gap × Frame lo hi)) :
    endedBy n items <+: items.map fun p => p.2.encode := by
  induction items generalizing n with
  | nil => exact List.prefix_rfl
  | cons p rest ih =>
    obtain ⟨g, f⟩ := p
    unfold endedBy
    split
    · exact (List.prefix_cons_inj _).mpr (ih _)
    · exact List.nil_prefix

theorem Gap.tail {b : Byte} {s : List Byte} (h : ¬ [0xAA, 0x55] <:+: b :: s) :
    ¬ [0xAA, 0x55] <:+: s := fun hs => h (hs.trans (List.suffix_cons b s).isInfix)

theorem Gap.take {s : List Byte} (h : ¬ [0xAA, 0x55] <:+: s) (n : Nat) :
    ¬ [0xAA, 0x55] <:+: s.take n := fun hs => h (hs.trans (List.take_prefix n s).isInfix)

/-- Noise stays noise in front of a frame: its last byte and AA make no header. -/
theorem not_headed_of_noise {b : Byte} {g w : List Byte} (hg : ¬ [0xAA, 0x55] <:+: b :: g)
    (hw : w.head? ≠ some 0x55) : ¬ Headed (b :: g ++ w) := by
  intro h
  cases g with
  | nil =>
    cases w with
    | nil => simp [Headed] at h
    | cons c w => simp_all [Headed, List.cons_prefix_cons]
  | cons c g =>
    simp only [Headed, List.cons_append, List.cons_prefix_cons] at h
    obtain ⟨rfl, rfl, -⟩ := h
    exact hg ⟨[], g, by simp⟩

theorem frameLook_of_noise {limit : Nat} {b : Byte} {g w : List Byte}
    (hg : ¬ [0xAA, 0x55] <:+: b :: g) (hw : w.head? ≠ some 0x55) :
    frameLook limit (b :: g ++ w) =
      if (b :: g ++ w).length < 8 then Move.wait else Move.skip := by
  unfold frameLook
  split
  · rfl
  · rw [if_pos (Or.inl (not_headed_of_noise hg hw))]

/-! ### What the scan finds in a stream -/

theorem declared_encode (f : Frame lo hi) (q : List Byte) (h : hi < 65536) :
    declared (f.encode ++ q) = f.payload.length := by
  have := f.le_hi
  simp only [declared, Frame.encode, List.cons_append, List.getD_cons_succ, List.getD_cons_zero]
  exact le16_lo_hi (by omega)

theorem headed_encode (f : Frame lo hi) (q : List Byte) : Headed (f.encode ++ q) := by
  simp [Headed, Frame.encode, List.cons_prefix_cons]

theorem tailed_encode (f : Frame lo hi) (q : List Byte) (h : hi < 65536) :
    Tailed (f.encode ++ q) := by
  rw [Tailed, declared_encode f q h]
  have hdrop : (f.encode ++ q).drop (6 + f.payload.length) = [0x55, 0xAA] ++ q := by
    rw [Nat.add_comm]
    simp [Frame.encode]
  rw [hdrop]
  exact List.prefix_append _ _

variable {limit : Nat}

theorem frameLook_encode (f : Frame lo hi) (q : List Byte) (hlim : 8 + hi ≤ limit)
    (h16 : hi < 65536) : frameLook limit (f.encode ++ q) = .emit f.encode.length f.encode := by
  have hlen := f.encode_length
  have hle := f.le_hi
  have hskip : ¬ (¬ Headed (f.encode ++ q) ∨ limit < 8 + f.payload.length) := by
    simp only [headed_encode, not_true_eq_false, false_or]
    omega
  have htail : ¬ ¬ Tailed (f.encode ++ q) := not_not_intro (tailed_encode f q h16)
  rw [frameLook, declared_encode f q h16, if_neg (by simp; omega), if_neg hskip,
    if_neg (by simp; omega), if_neg htail, ← hlen, List.take_left]

theorem frameLook_partial (f : Frame lo hi) {p : List Byte} (hp : p <+: f.encode)
    (hlt : p.length < f.encode.length) (hlim : 8 + hi ≤ limit) (h16 : hi < 65536) :
    frameLook limit p = .wait := by
  rw [frameLook_wait]
  by_cases h8 : p.length < 8
  · exact Or.inl h8
  · right
    obtain ⟨t, ht⟩ := hp
    have hdecl : declared p = f.payload.length := by
      rw [← declared_append (show 6 ≤ p.length by omega) t, ht, ← declared_encode f [] h16,
        List.append_nil]
    have hhead : Headed p := by
      rw [← headed_append (show 2 ≤ p.length by omega) t, ht]
      simpa using headed_encode f []
    have := f.encode_length
    have := f.le_hi
    exact ⟨hhead, by omega, by omega⟩

theorem scan_noise {g : List Byte} (hg : ¬ [0xAA, 0x55] <:+: g) (w : List Byte)
    (hw : w.head? ≠ some 0x55) :
    ((frameScanner limit).scan (g ++ w)).1 = ((frameScanner limit).scan w).1 := by
  induction g with
  | nil => rfl
  | cons b g ih =>
    have hlook : (frameScanner limit).look (b :: g ++ w) = _ := frameLook_of_noise hg hw
    split at hlook
    · rename_i hlt
      have hwait : (frameScanner limit).look w = .wait := frameLook_wait.mpr <| Or.inl <| by
        simp only [List.length_append] at hlt
        omega
      rw [Scanner.scan_wait hlook, Scanner.scan_wait hwait]
    · rw [Scanner.scan_skip hlook]
      exact ih (Gap.tail hg)

theorem scan_encode (f : Frame lo hi) (q : List Byte) (hlim : 8 + hi ≤ limit) (h16 : hi < 65536) :
    ((frameScanner limit).scan (f.encode ++ q)).1 =
      f.encode :: ((frameScanner limit).scan q).1 := by
  have hlook : (frameScanner limit).look (f.encode ++ q) = _ := frameLook_encode f q hlim h16
  rw [Scanner.scan_emit hlook, List.drop_left]

/-- **After any number of bytes, the scan has emitted the frames that are complete.** -/
theorem scan_stream_take (items : List (Gap × Frame lo hi)) (tail : Gap) (n : Nat)
    (hlim : 8 + hi ≤ limit) (h16 : hi < 65536) :
    ((frameScanner limit).scan ((stream items tail).take n)).1 = endedBy n items := by
  induction items generalizing n with
  | nil =>
    have hquiet : ((frameScanner limit).scan (tail.bytes.take n ++ [])).1 = _ :=
      scan_noise (Gap.take tail.noise n) [] (by simp)
    simpa [stream, endedBy, Scanner.scan, Scanner.scanFuel] using hquiet
  | cons p rest ih =>
    obtain ⟨g, f⟩ := p
    have hlen := f.encode_length
    rw [stream_cons, endedBy, List.take_append, List.take_append]
    split
    · -- The frame is there: the rest is scanned on its own.
      rename_i hend
      rw [List.take_of_length_le (by omega), List.take_of_length_le (by omega),
        scan_noise g.noise _ (by simp [Frame.encode]), scan_encode f _ hlim h16, ih]
      congr 2
      omega
    · -- The frame is cut: its first bytes hold the scan up.
      rename_i hcut
      have hrest : n - g.bytes.length - f.encode.length = 0 := by omega
      have hpart : (f.encode.take (n - g.bytes.length)).length < f.encode.length := by
        rw [List.length_take]; omega
      have hwait : (frameScanner limit).look (f.encode.take (n - g.bytes.length)) = .wait :=
        frameLook_partial f (List.take_prefix _ _) hpart hlim h16
      have hhead : (f.encode.take (n - g.bytes.length)).head? ≠ some 0x55 := by
        rcases Nat.eq_zero_or_pos (n - g.bytes.length) with h0 | hpos
        · simp [h0]
        · obtain ⟨m, hm⟩ : ∃ m, n - g.bytes.length = m + 1 := ⟨n - g.bytes.length - 1, by omega⟩
          simp [hm, Frame.encode]
      rw [hrest, List.take_zero, List.append_nil, scan_noise (Gap.take g.noise n) _ hhead,
        Scanner.scan_wait hwait]

theorem along_stream {P : List Byte → Prop} (hP : ∀ v, ¬ Headed v → P v)
    (items : List (Gap × Frame lo hi)) (tail : Gap)
    (hf : ∀ p ∈ items, ∀ q, P (p.2.encode ++ q)) (hlim : 8 + hi ≤ limit) (h16 : hi < 65536) :
    (frameScanner limit).Along P (stream items tail) := by
  have hnoise : ∀ (g w : List Byte), ¬ [0xAA, 0x55] <:+: g → w.head? ≠ some 0x55 →
      (frameScanner limit).Along P w → (frameScanner limit).Along P (g ++ w) := by
    intro g w hg hw hrest
    induction g with
    | nil => exact hrest
    | cons b g ih =>
      have hPv := hP _ (not_headed_of_noise hg hw)
      have hlook : (frameScanner limit).look (b :: g ++ w) = _ := frameLook_of_noise hg hw
      split at hlook
      · exact .wait hPv hlook
      · exact .skip hPv hlook (ih (Gap.tail hg))
  induction items with
  | nil =>
    have hnil : (frameScanner limit).Along P [] :=
      .wait (hP _ (by simp [Headed])) (by simp [frameScanner, frameLook])
    simpa [stream] using hnoise tail.bytes [] tail.noise (by simp) hnil
  | cons p rest ih =>
    obtain ⟨g, f⟩ := p
    rw [stream_cons]
    have hlook : (frameScanner limit).look (f.encode ++ stream rest tail) = _ :=
      frameLook_encode f _ hlim h16
    refine hnoise _ _ g.noise (by simp [Frame.encode]) (.emit (hf (g, f) (by simp) _) hlook ?_)
    rw [List.drop_left]
    exact ih fun p hp => hf p (List.mem_cons_of_mem _ hp)

end NearLink
