import NearLink.Ict.ClientProofs
import NearLink.Ict.Connection

/-!
# How the ict_sle client counts losses

`ProcessFrame` adds the gap between the number of a frame and the one before it. In order, that
is the number of missing frames. Out of order, a late frame moves the expected number back.
-/

namespace NearLink.Ict

/-! ## What happens in a connection -/

/-- The callbacks that have to do with scanning and the MTU. -/
def UartClient.Action.Aside : UartClient.Action → Prop
  | .receive _ _ | .connectState _ _ => False
  | _ => True

/-- What happens in a connection. The frame `n` of a sender carries `n` modulo 65536. -/
inductive Event
  | frame (arrival : Arrival) (n : Nat) (f : Frame 0 65527) (hseq : f.seq = u16 n)
  | rejected (arrival : Arrival) (data : List Byte) (hbad : Rejected data)
  | aside (a : UartClient.Action) (ha : a.Aside)

def Event.action : Event → UartClient.Action
  | .frame arrival _ f _ => .receive arrival f.encode
  | .rejected arrival data _ => .receive arrival data
  | .aside a _ => a

def Event.number : Event → Option Nat
  | .frame _ n _ _ => some n
  | .rejected _ _ _ | .aside _ _ => none

/-- The numbers of the received frames, oldest first. -/
def numbers (events : List Event) : List Nat := events.filterMap Event.number

theorem numbers_snoc (events : List Event) (e : Event) :
    numbers (events ++ [e]) = numbers events ++ e.number.toList := filterMap_snoc _ events e

/-! ## What the client has counted -/

/-- The counters after the frames `ns`, oldest first. -/
structure Counted (c : Client) (ns : List Nat) : Prop where
  total : c.totalRecvPktCount = u32 ns.length
  init : c.seqInitialized = true ↔ ns ≠ []
  expected : ∀ m ∈ ns.getLast?, c.expectedSeq = u16 (m + 1)
  lost : c.lostPktCount = u32 (countedGaps 1000 ns.reverse)

theorem counted_reset (c : Client) : Counted c.reset [] :=
  ⟨rfl, by simp [Client.reset], by simp, rfl⟩

theorem Counted.congr {c d : Client} {ns : List Nat} (h : Counted c ns)
    (htotal : d.totalRecvPktCount = c.totalRecvPktCount)
    (hinit : d.seqInitialized = c.seqInitialized) (hexp : d.expectedSeq = c.expectedSeq)
    (hlost : d.lostPktCount = c.lostPktCount) : Counted d ns := by
  refine ⟨htotal.trans h.total, ?_, ?_, hlost.trans h.lost⟩
  · rw [hinit]; exact h.init
  · rw [hexp]; exact h.expected

/-- One more frame is one more gap. -/
theorem Counted.next_lost {c : Client} {ns : List Nat} (h : Counted c ns) (n : Nat) :
    (countLoss (u16 n) (c.opened (u16 n))).lostPktCount =
      u32 (countedGaps 1000 (n :: ns.reverse)) := by
  obtain ⟨-, hlost, -, -, hexp⟩ := opened_spec c (u16 n)
  have hcount := countLoss_lost (u16 n) (hlost.trans h.lost)
  cases hlast : ns.getLast? with
  | none =>
    obtain rfl := List.getLast?_eq_none_iff.mp hlast
    have hself : gap16 (u16 n) (u16 n) = 0 := by
      unfold gap16 u16
      omega
    have hinit : ¬ c.seqInitialized = true := by simp [h.init]
    rw [if_neg hinit] at hexp
    rw [hexp, hself] at hcount
    exact hcount
  | some m =>
    have hinit : c.seqInitialized = true := h.init.mpr (by rintro rfl; cases hlast)
    obtain ⟨before, rfl⟩ := List.getLast?_eq_some_iff.mp hlast
    rw [if_pos hinit, h.expected m hlast] at hexp
    rw [hexp] at hcount
    apply hcount.trans
    simp only [List.reverse_append, List.reverse_cons, List.reverse_nil, List.nil_append,
      List.cons_append, countedGaps, Nat.add_comm]

theorem processFrame_counted {c : Client} {ns : List Nat} (h : Counted c ns) {n : Nat}
    {data : List Byte} (hok : ¬ Rejected data) (hseq : word data 2 = u16 n) :
    Counted (processFrame data c) (ns ++ [n]) := by
  rw [processFrame_accepted hok, hseq]
  refine ⟨?_, ?_, ?_, ?_⟩
  · simp only [opened_total, h.total, List.length_append, List.length_singleton, u32]
    omega
  · refine iff_of_true ?_ (by simp)
    exact (countLoss_keeps _ _).2.2.trans (opened_spec c (u16 n)).2.2.2.1
  · have hnext : u16 (u16 n + 1) = u16 (n + 1) := by
      unfold u16
      omega
    simp [hnext]
  · rw [List.reverse_append]
    exact h.next_lost n

theorem receive_counted {c : Client} {ns : List Nat} (h : Counted c ns) (arrival : Arrival)
    {data : List Byte} {more : List Nat}
    (hprocess : ∀ c, Counted c ns → Counted (processFrame data c) more) :
    Counted (receive c (arrival, data)) more := by
  cases arrival with
  | notification => exact hprocess _ (h.congr rfl rfl rfl rfl)
  | indication => exact hprocess c h

theorem aside_client {u v : UartClient} {a : UartClient.Action} (ha : a.Aside)
    (hstep : UartClient.step u a = some v) : v.client = u.client := by
  cases a with
  | enable status =>
    obtain rfl := Option.some.inj hstep
    unfold UartClient.sleClientEnableCbk
    split <;> rfl
  | seekResult r =>
    obtain rfl := Option.some.inj hstep
    cases r with
    | none => rfl
    | some r =>
      simp only [UartClient.trackFound, UartClient.sleClientSeekResultCbk]
      split_ifs <;> rfl
  | seekDisable status =>
    obtain rfl := Option.some.inj hstep
    unfold UartClient.sleClientSeekDisableCbk
    split <;> rfl
  | exchangeInfo mtuSize => obtain rfl := Option.some.inj hstep; rfl
  | connectState connId connState => exact ha.elim
  | receive arrival data => exact ha.elim

theorem step_counted {u v : UartClient} {ns : List Nat} (h : Counted u.client ns) (e : Event)
    (hstep : UartClient.step u e.action = some v) : Counted v.client (ns ++ e.number.toList) := by
  cases e with
  | frame arrival n f hseq =>
    obtain rfl := Option.some.inj hstep
    exact receive_counted h arrival fun c hc =>
      processFrame_counted hc (not_rejected f) ((word_seq f).trans hseq)
  | rejected arrival data hbad =>
    obtain rfl := Option.some.inj hstep
    simp only [Event.number, Option.toList_none, List.append_nil]
    refine receive_counted h arrival fun c hc => ?_
    rw [processFrame_rejected hbad]
    exact hc
  | aside a ha =>
    simp only [Event.number, Option.toList_none, List.append_nil]
    rw [aside_client ha hstep]
    exact h

theorem run_counted {u v : UartClient} {connId : Nat} (events : List Event)
    (hrun : run UartClient.step u (.connectState connId .connected :: events.map Event.action) = some v) :
    Counted v.client (numbers events) := by
  rw [run_cons rfl] at hrun
  have hconnected : Counted (UartClient.sleClientConnectStateChangedCbk connId .connected u).client
      (numbers []) := counted_reset u.client
  refine run_records (fun events s => Counted s.client (numbers events)) ?_ hconnected hrun
  intro events e s t h hstep
  rw [numbers_snoc]
  exact step_counted h e hstep

/-! ## In order -/

/-- **In order, the client counts every frame that is missing.** -/
theorem loss_exact {u v : UartClient} {connId : Nat} {events : List Event}
    (hrun : run UartClient.step u (.connectState connId .connected :: events.map Event.action) = some v)
    (horder : (numbers events).IsChain fun m n => m < n ∧ n - m - 1 ≤ 1000) :
    v.client.totalRecvPktCount = u32 (numbers events).length ∧
      v.client.lostPktCount = u32 (missing (numbers events)) := by
  have h := run_counted events hrun
  exact ⟨h.total, by rw [h.lost, countedGaps_eq_missing (by decide) horder]⟩

def bare (n : Nat) : Event := .frame .notification n (Frame.bare 65527 n) rfl

/-- Across the wrap, with a notification that is too short. -/
def acrossWrap : List Event :=
  [bare 65534, .rejected .notification [1, 2, 3] (by decide), bare 65537]

theorem loss_exact_across_wrap :
    ∃ v, run UartClient.step .start (.connectState 1 .connected :: acrossWrap.map Event.action) =
        some v ∧ v.client.totalRecvPktCount = 2 ∧ v.client.lostPktCount = 2 := by
  have hrun : run UartClient.step .start
      (.connectState 1 .connected :: acrossWrap.map Event.action) = some _ := rfl
  obtain ⟨htotal, hlost⟩ := loss_exact hrun (by decide)
  exact ⟨_, hrun, htotal, hlost⟩

/-! ## Out of order -/

/-- **The client counts no more than was jumped over**, as long as no counted jump passes a number
that had arrived or had been jumped over before. -/
theorem no_phantom_loss {u v : UartClient} {connId low : Nat} {events : List Event}
    (hrun : run UartClient.step u (.connectState connId .connected :: events.map Event.action) = some v)
    (hwin : InWindow low (numbers events)) (hfresh : FreshJumps 1000 (numbers events).reverse) :
    v.client.lostPktCount ≤ (jumpedOver (numbers events).reverse).card := by
  rw [(run_counted events hrun).lost]
  have hwin' : InWindow low (numbers events).reverse := fun n hn => hwin n (List.mem_reverse.mp hn)
  exact (Nat.mod_le _ _).trans (countedGaps_le_jumpedOver (by decide) hwin' hfresh)

/-- A jump, the late frame, and the next new one. -/
def late : List Event := [bare 0, bare 2, bare 1, bare 2, bare 3]

theorem no_phantom_loss_late :
    ∃ v, run UartClient.step .start (.connectState 1 .connected :: late.map Event.action) = some v ∧
      v.client.lostPktCount ≤ (jumpedOver (numbers late).reverse).card := by
  have hrun : run UartClient.step .start (.connectState 1 .connected :: late.map Event.action) =
      some _ := rfl
  have hwin : InWindow 0 (numbers late) := by decide
  exact ⟨_, hrun, no_phantom_loss hrun hwin (by decide)⟩

/-- All arrive in order, and one of them twice. -/
def repeated : List Event := [bare 0, bare 1, bare 2, bare 3, bare 1, bare 4]

theorem phantom_loss_repeated :
    ¬ ∀ u v connId low events,
      run UartClient.step u (.connectState connId .connected :: events.map Event.action) = some v →
      InWindow low (numbers events) →
      v.client.lostPktCount ≤ (jumpedOver (numbers events).reverse).card := by
  intro h
  exact absurd (h .start _ 1 0 repeated rfl (by decide)) (by decide)

/-- While no jump is too long to be counted, the first jump that is not fresh shows a phantom
loss. -/
theorem phantom_loss {u v : UartClient} {connId low n m : Nat} {events : List Event}
    {older : List Nat}
    (hrun : run UartClient.step u (.connectState connId .connected :: events.map Event.action) = some v)
    (hnumbers : (numbers events).reverse = n :: m :: older)
    (hwin : InWindow low (n :: m :: older)) (hfresh : FreshJumps 1000 (m :: older))
    (hshort : (n :: m :: older).IsChain fun b a => b - a - 1 ≤ 1000)
    (hstale : ¬ FreshJumps 1000 (n :: m :: older)) :
    (jumpedOver (n :: m :: older)).card < v.client.lostPktCount := by
  have hlost := (run_counted events hrun).lost
  rw [hnumbers] at hlost
  have hlt := jumpedOver_lt_countedGaps (by decide) hwin hfresh hshort hstale
  have hgaps : countedGaps 1000 (n :: m :: older) < 4294967296 := by
    have hrest := List.isChain_cons_cons.mp hshort
    have hwin' : InWindow low (m :: older) := fun x hx => hwin x (List.mem_cons_of_mem n hx)
    have hcard := Finset.card_le_card (jumpedOver_subset hwin')
    rw [Nat.card_Ico] at hcard
    rw [countedGaps_cons (by decide) hwin, if_pos hrest.1,
      countedGaps_eq_jumpedOver (by decide) hwin' hfresh hrest.2]
    omega
  rw [hlost, u32, Nat.mod_eq_of_lt hgaps]
  exact hlt

end NearLink.Ict
