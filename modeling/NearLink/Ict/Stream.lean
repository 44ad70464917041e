import NearLink.Ict.Network

/-!
# From the stream of one UART to that of the other

The UART of the server carries frames with noise between them, and disconnections cut the stream.
Every frame that came in whole is written, under way, or lost at a known place.
-/

namespace NearLink.Ict

/-! ## The bytes between disconnections -/

def feedStep (r : List (List Byte) × List Byte) : Action → List (List Byte) × List Byte
  | .uart data _ => (r.1, r.2 ++ data)
  | .connectState _ .disconnected => (r.1 ++ [r.2], [])
  | .connectState _ .connected | .connectState _ .other | .taskStart _ | .mtuChanged _ _ _
  | .pairComplete _ _ | .get _ | .send _ _ => r

/-- The bytes of the UART up to each disconnection, and since the last one. -/
def fed (acts : List Action) : List (List Byte) :=
  (acts.foldl feedStep ([], [])).1 ++ [(acts.foldl feedStep ([], [])).2]

/-- What the recogniser finds in bytes that nothing precedes. -/
def found (bytes : List Byte) : List (List Byte) := (emitAll (grow 1 1024) [] bytes).2

/-- The parser holds what the recogniser does after the bytes since the last disconnection. -/
structure Feeds (r : Parser × List (List Byte)) (b : List (List Byte) × List Byte) : Prop where
  tracks : Tracks r.1 (emitAll (grow 1 1024) [] b.2).1
  done : r.2 = (b.1 ++ [b.2]).flatMap found

theorem Feeds.step {r : Parser × List (List Byte)} {b : List (List Byte) × List Byte}
    (h : Feeds r b) (a : Action) : Feeds (parseStep r a) (feedStep b a) := by
  cases a with
  | uart data accept =>
    obtain ⟨htracks, hout⟩ := emitAll_simulates (R := Tracks)
      (fun _ _ b htracks => frameParseByte_follows htracks b) h.tracks data
    refine ⟨?_, ?_⟩
    · simp only [parseStep, feedStep, emitAll_append]
      exact htracks
    · have hfound : found (b.2 ++ data) = found b.2 ++ (frameParseBytes r.1 data).2 := by
        rw [found, emitAll_append]
        exact congrArg _ hout.symm
      simp only [parseStep, feedStep, h.done, List.flatMap_append, List.flatMap_singleton, hfound,
        List.append_assoc]
  | connectState connId connState =>
    cases connState with
    | disconnected =>
      refine ⟨.idle rfl, ?_⟩
      simp [parseStep, feedStep, h.done, found, emitAll]
    | connected => exact h
    | other => exact h
  | taskStart created => exact h
  | mtuChanged connId mtuSize status => exact h
  | pairComplete connId status => exact h
  | get success => exact h
  | send allocated notifyRet => exact h

/-- **Each disconnection starts the parser afresh**, whatever it has left in the globals. -/
theorem parsed_eq (acts : List Action) : parsed acts = (fed acts).flatMap found := by
  have hfeeds : Feeds (acts.foldl parseStep (.start, [])) (acts.foldl feedStep ([], [])) := by
    induction acts using List.reverseRecOn with
    | nil => exact ⟨.idle rfl, rfl⟩
    | append_singleton acts a ih =>
      rw [List.foldl_append, List.foldl_append]
      exact ih.step a
  exact hfeeds.done

/-! ## Streams that are cut -/

/-- A stream of which the first `length` bytes come in before the link of the server ends. -/
structure Cut where
  items : List (Gap × Frame 1 1024)
  tail : Gap
  length : Nat

namespace Cut

def bytes (c : Cut) : List Byte := (stream c.items c.tail).take c.length

/-- The frames that come in whole. -/
def whole (c : Cut) : List (Frame 1 1024) :=
  (c.items.take (endedBy c.length c.items).length).map Prod.snd

theorem whole_encode (c : Cut) : c.whole.map Frame.encode = endedBy c.length c.items := by
  have hfront := List.prefix_iff_eq_take.mp (endedBy_front c.length c.items)
  rw [whole, List.map_map, List.map_take]
  exact hfront.symm

theorem found_bytes (c : Cut) : found c.bytes = c.whole.map Frame.encode := by
  rw [whole_encode]
  exact emitAll_grow_stream (by decide) c.items c.tail c.length

/-- The frame at place `k` carries the number `first + k`, modulo 65536. -/
def Consecutive (first : Nat) (c : Cut) : Prop :=
  ∀ k p, c.items[k]? = some p → p.2.seq = u16 (first + k)

theorem mem_zipIdx_whole {c : Cut} {first m : Nat} {f : Frame 1 1024}
    (h : (f, m) ∈ c.whole.zipIdx first) :
    ∃ k p, c.items[k]? = some p ∧ p.2 = f ∧ m = first + k := by
  obtain ⟨hle, hget⟩ := List.mk_mem_zipIdx_iff_le_and_getElem?_sub.mp h
  rw [whole, List.getElem?_map] at hget
  obtain ⟨p, hp, rfl⟩ := Option.map_eq_some_iff.mp hget
  obtain ⟨hlt, rfl⟩ := List.getElem?_eq_some_iff.mp hp
  refine ⟨m - first, _, ?_, rfl, by omega⟩
  rw [List.getElem_take, List.getElem?_eq_getElem]

end Cut

/-- All frames that come in whole, with their numbers. Each cut comes with its first number. -/
def numbered (cuts : List (Nat × Cut)) : List (Frame 1 1024 × Nat) :=
  cuts.flatMap fun x => x.2.whole.zipIdx x.1

theorem numbered_increasing {cuts : List (Nat × Cut)}
    (hup : cuts.Pairwise fun x y => x.1 + x.2.items.length ≤ y.1) :
    (numbered cuts).Pairwise fun p q => p.2 < q.2 := by
  rw [numbered, List.pairwise_flatMap]
  refine ⟨fun x _ => ?_, hup.imp fun {x y} hxy p hp q hq => ?_⟩
  · rw [← List.pairwise_map (f := Prod.snd), List.zipIdx_map_snd]
    exact List.pairwise_lt_range'
  · obtain ⟨k, _, hk, -, hp⟩ := Cut.mem_zipIdx_whole hp
    obtain ⟨j, _, -, -, hq⟩ := Cut.mem_zipIdx_whole hq
    have hlt := (List.getElem?_eq_some_iff.mp hk).1
    omega

theorem numbered_encode (cuts : List (Nat × Cut)) :
    (numbered cuts).map (fun p => p.1.encode) =
      ((cuts.map Prod.snd).flatMap Cut.whole).map Frame.encode := by
  have hfst : (numbered cuts).map Prod.fst = (cuts.map Prod.snd).flatMap Cut.whole := by
    simp only [numbered, List.map_flatMap, List.flatMap_map, List.zipIdx_map_fst]
  rw [← hfst, List.map_map]
  rfl

theorem completed_cuts {acts : List Action} {s : Server}
    (hrun : run step Server.start acts = some s) {cuts : List Cut}
    (hfed : fed acts = cuts.map Cut.bytes) :
    s.completed.map Completed.bytes = (cuts.flatMap Cut.whole).map Frame.encode := by
  have hparsed : s.completed.map Completed.bytes = parsed acts :=
    congrArg Prod.snd (run_parses hrun)
  rw [hparsed, parsed_eq, hfed, List.flatMap_map, List.map_flatMap]
  simp only [Cut.found_bytes]

namespace Network

/-! ## Where the frames of the stream are -/

theorem stream_payloads {acts : List Action} {n : Network} (hrun : run step start acts = some n)
    {cuts : List Cut}
    (hfed : fed (acts.filterMap Link.Action.served) = cuts.map Cut.bytes) :
    n.server.completed.map (fun c => payloadOf c.bytes) =
      (cuts.flatMap Cut.whole).map Frame.payload := by
  have hbytes := congrArg (List.map payloadOf) (completed_cuts (Sides.run_served hrun) hfed)
  rw [List.map_map, List.map_map] at hbytes
  exact hbytes.trans (List.map_congr_left fun f _ => payloadOf_encode f)

theorem no_header_nil : ¬ [0xAA, 0x55] <:+: ([] : List Byte) := by decide

def noGap : Gap := ⟨[], no_header_nil⟩

/-- The frame that carries its number. -/
def oneNumber (k : Byte) : Frame 1 1024 where
  seq := k.toNat
  payload := [k]
  seq_lt := k.toNat_lt.trans (by decide)
  lo_le := Nat.le_refl 1
  le_hi := show 1 ≤ 1024 by decide

theorem no_header_rest : ¬ [0xAA, 0x55] <:+: ([1, 0, 8, 0x55, 0xAA] : List Byte) := by decide

/-- The link of the server ends within the second of four frames. -/
def cutOnce : List (Nat × Cut) :=
  [(7, ⟨[(noGap, oneNumber 7), (noGap, oneNumber 8)], noGap, 13⟩),
    (9, ⟨[(⟨[1, 0, 8, 0x55, 0xAA], no_header_rest⟩, oneNumber 9), (noGap, oneNumber 10)],
      noGap, 23⟩)]

/-- The fourth frame is lost on the link. -/
def cutAndLost : List Action :=
  [.server (.taskStart true), .server (.connectState 1 .connected),
    .client (.connectState 1 .connected), .server (.mtuChanged 1 1400 0),
    .server (.uart (fourFrames.take 13) fun _ => true),
    .server (.get true), .server (.send true 0), .deliver 0 .notification,
    .server (.connectState 1 .disconnected), .server (.connectState 2 .connected),
    .server (.mtuChanged 2 1400 0), .server (.uart (fourFrames.drop 13) fun _ => true),
    .server (.get true), .server (.send true 0), .server (.get true), .server (.send true 0),
    .deliver 0 .indication, .lose 0]

/-- The number of a message, by its place among the completed frames. -/
def numberOf (cuts : List (Nat × Cut)) (item : Item) : Nat :=
  ((numbered cuts).map Prod.snd).getD item.serial 0

/-- Each message is a frame of the stream with its number, and the numbers go up. -/
structure Numbers (cuts : List (Nat × Cut)) (items : List Item) : Prop where
  frame : ∀ item ∈ items, ∃ x ∈ cuts, ∃ k p, x.2.items[k]? = some p ∧
    numberOf cuts item = x.1 + k ∧ p.2.encode = item.msg.data
  increasing : (items.map (numberOf cuts)).Pairwise (· < ·)

theorem numbers_of_sublist {s : Server} (h : Relayed s) {cuts : List (Nat × Cut)}
    (hbytes : s.completed.map Completed.bytes = (numbered cuts).map fun p => p.1.encode)
    (hup : cuts.Pairwise fun x y => x.1 + x.2.items.length ≤ y.1) {items : List Item}
    (hsub : (items.map Item.completed).Sublist s.completed) :
    Numbers cuts items := by
  have hserials := h.1.serials
  have hlength : s.completed.length = (numbered cuts).length := by
    have hlen := congrArg List.length hbytes
    rwa [List.length_map, List.length_map] at hlen
  refine ⟨fun item hitem => ?_, ?_⟩
  · have hplace : s.completed[item.serial]? = some item.completed :=
      getElem?_of_numbered hserials (hsub.subset (List.mem_map_of_mem hitem))
    have hat := congrArg (fun l : List (List Byte) => l[item.serial]?) hbytes
    simp only [List.getElem?_map] at hat
    rw [hplace, Option.map_some] at hat
    obtain ⟨⟨f, m⟩, hfm, hencode⟩ := Option.map_eq_some_iff.mp hat.symm
    obtain ⟨x, hx, hin⟩ := List.mem_flatMap.mp (List.mem_of_getElem? hfm)
    obtain ⟨k, p, hp, rfl, rfl⟩ := Cut.mem_zipIdx_whole hin
    refine ⟨x, hx, k, p, hp, ?_, hencode⟩
    rw [numberOf, List.getD_eq_getElem?_getD, List.getElem?_map, hfm]
    rfl
  · have hserial : (s.completed.map Completed.serial).Pairwise (· < ·) := by
      rw [hserials]
      exact List.pairwise_lt_range'
    have hitems := (List.pairwise_map.mp hserial).sublist hsub
    rw [List.pairwise_map] at hitems ⊢
    refine hitems.imp_of_mem fun {a b} _ hb hlt => ?_
    have hmem : b.serial ∈ s.completed.map Completed.serial :=
      List.mem_map_of_mem (hsub.subset (List.mem_map_of_mem hb))
    rw [hserials, List.mem_range'_1, hlength, Nat.zero_add] at hmem
    apply getD_lt_getD (List.pairwise_map.mpr (numbered_increasing hup)) hlt
    rw [List.length_map]
    exact hmem.2

end Network

end NearLink.Ict
