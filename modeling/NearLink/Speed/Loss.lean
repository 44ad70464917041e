import Mathlib.Algebra.GroupWithZero.Nat
import NearLink.Speed.ClientProofs

/-!
# How the throughput client counts losses

Each connection is counted for itself: a DISCONNECTED event makes the client forget the expected
number.
-/

namespace NearLink.Speed.Client

/-! ## What happens to a client -/

/-- Neither a notification nor the end of a connection. -/
def Action.Aside : Action → Prop
  | .notification _ _ | .connectState _ .disconnected => False
  | .connectState _ .connected | .connectState _ .other | .txRead _ | .txWrite _ => True

/-- What happens to a client. The frame `n` of a sender carries `n` modulo 65536. -/
inductive Event
  | frame (accept : Bool) (n : Nat) (buf : List Byte) (hseq : recognised buf = some (u16 n))
  | unrecognised (accept : Bool) (data : Option (List Byte))
      (hnone : ∀ buf ∈ data, recognised buf = none)
  | disconnected (connId : Nat)
  | aside (a : Action) (ha : a.Aside)

def Event.action : Event → Action
  | .frame accept _ buf _ => .notification accept (some buf)
  | .unrecognised accept data _ => .notification accept data
  | .disconnected connId => .connectState connId .disconnected
  | .aside a _ => a

def Event.number : Event → Option Nat
  | .frame _ n _ _ => some n
  | .unrecognised _ _ _ | .disconnected _ | .aside _ _ => none

/-- The numbers of the recognised frames, oldest first. -/
def numbers (events : List Event) : List Nat := events.filterMap Event.number

/-- The numbers of each connection that has ended, and those of the connection since then. -/
structure History where
  past : List (List Nat)
  now : List Nat
  deriving DecidableEq, Repr

def History.record (h : History) : Event → History
  | .frame _ n _ _ => { h with now := h.now ++ [n] }
  | .disconnected _ => ⟨h.past ++ [h.now], []⟩
  | .unrecognised _ _ _ | .aside _ _ => h

def history (events : List Event) : History := events.foldl History.record ⟨[], []⟩

/-- The numbers of each connection, oldest first. -/
def History.connections (h : History) : List (List Nat) := h.past ++ [h.now]

/-- What the client expects after the frames `ns` of a connection. -/
def nextSeq (ns : List Nat) : Int :=
  match ns.getLast? with
  | none => -1
  | some m => (u16 (m + 1) : Nat)

/-! ## What the client has counted -/

/-- The counters after `k` recognised frames. -/
structure Counted (c : Client) (k : Nat) (h : History) : Prop where
  total : c.totalRxPkts = u32 k
  expect : c.expectSeq = nextSeq h.now
  lost : c.lostPkts = u32 (h.connections.map fun ns => countedGaps 65535 ns.reverse).sum

theorem Counted.congr {c d : Client} {k : Nat} {h : History} (hc : Counted c k h)
    (hd : KeepsCounters c d) : Counted d k h :=
  ⟨hd.total.trans hc.total, hd.expect.trans hc.expect, hd.lost.trans hc.lost⟩

/-- One more frame is one more gap, unless it is the first of its connection. -/
theorem sum_countedGaps_snoc (h : History) (n : Nat) :
    (({ h with now := h.now ++ [n] } : History).connections.map
        fun ns => countedGaps 65535 ns.reverse).sum =
      (h.connections.map fun ns => countedGaps 65535 ns.reverse).sum +
        (h.now.getLast?.elim 0 fun m => gap16 (u16 n) (u16 (m + 1))) := by
  have hgaps : countedGaps 65535 (h.now ++ [n]).reverse = countedGaps 65535 h.now.reverse +
      (h.now.getLast?.elim 0 fun m => gap16 (u16 n) (u16 (m + 1))) := by
    cases hlast : h.now.getLast? with
    | none =>
      rw [List.getLast?_eq_none_iff.mp hlast]
      rfl
    | some m =>
      obtain ⟨before, hbefore⟩ := List.getLast?_eq_some_iff.mp hlast
      have hle : gap16 (u16 n) (u16 (m + 1)) ≤ 65535 := by
        unfold gap16 u16
        omega
      simp only [hbefore, List.reverse_append, List.reverse_cons, List.reverse_nil, List.nil_append,
        List.cons_append, countedGaps, if_pos hle, Option.elim_some, Nat.add_comm]
  simp only [History.connections, List.map_append, List.map_cons, List.map_nil, List.sum_append,
    List.sum_singleton, hgaps, Nat.add_assoc]

theorem countFrame_counted {c : Client} {k : Nat} {h : History} (hc : Counted c k h) (n : Nat) :
    Counted (countFrame (u16 n) c) (k + 1) { h with now := h.now ++ [n] } := by
  have htotal : u32 (c.totalRxPkts + 1) = u32 (k + 1) := by
    rw [hc.total, u32, u32, u32, Nat.mod_add_mod]
  have hnext : nextSeq (h.now ++ [n]) = (u16 (u16 n + 1) : Nat) := by
    simp only [nextSeq, List.getLast?_concat, u16, Nat.mod_add_mod]
  have hlost := hc.lost
  have hexpect := hc.expect
  have hsum := sum_countedGaps_snoc h n
  cases hlast : h.now.getLast? with
  | none =>
    rw [nextSeq, hlast] at hexpect
    rw [hlast, Option.elim_none, Nat.add_zero] at hsum
    rw [countFrame_first _ (by rw [hexpect]; decide)]
    exact ⟨htotal, hnext.symm, by rw [hsum]; exact hlost⟩
  | some m =>
    rw [nextSeq, hlast] at hexpect
    rw [hlast, Option.elim_some] at hsum
    have hn : u16 n < 65536 := Nat.mod_lt _ (by decide)
    have hm : u16 (m + 1) < 65536 := Nat.mod_lt _ (by decide)
    rw [countFrame_next hn hm hexpect hlost]
    exact ⟨htotal, hnext.symm, by rw [hsum]⟩

theorem aside_keeps {c d : Client} {a : Action} (ha : a.Aside) (hstep : step c a = some d) :
    KeepsCounters c d := by
  cases a with
  | notification accept data => exact ha.elim
  | connectState connId connState =>
    obtain rfl := Option.some.inj hstep
    cases connState with
    | disconnected => exact ha.elim
    | connected => exact ⟨rfl, rfl, rfl⟩
    | other => exact ⟨rfl, rfl, rfl⟩
  | txRead success =>
    rcases txRead_spec hstep with rfl | ⟨_, _, _, _, -, -, rfl⟩
    · exact ⟨rfl, rfl, rfl⟩
    · exact ⟨rfl, rfl, rfl⟩
  | txWrite uartRet =>
    obtain ⟨_, _, _, _, -, -, rfl⟩ := txWrite_spec hstep
    exact ⟨rfl, rfl, rfl⟩

theorem step_counted {c d : Client} {k : Nat} {h : History} (hc : Counted c k h) (e : Event)
    (hstep : step c e.action = some d) :
    Counted d (k + e.number.toList.length) (h.record e) := by
  cases e with
  | frame accept n buf hseq =>
    obtain rfl := Option.some.inj hstep
    simp only [notification_recognised hseq]
    exact (countFrame_counted hc n).congr (forward_keeps accept buf _).1
  | unrecognised accept data hnone =>
    obtain rfl := Option.some.inj hstep
    cases data with
    | none => exact hc
    | some buf =>
      simp only [sleSpeedNotificationCb, hnone buf rfl]
      split
      · exact hc
      · exact hc.congr (forward_keeps accept buf c).1
  | disconnected connId =>
    obtain rfl := Option.some.inj hstep
    refine ⟨hc.total, rfl, hc.lost.trans ?_⟩
    simp [History.record, History.connections, countedGaps]
  | aside a ha => exact hc.congr (aside_keeps ha hstep)

theorem numbers_split (earlier : List Event) (e : Event) (later : List Event) :
    numbers (earlier ++ e :: later) = numbers earlier ++ (e.number.toList ++ numbers later) :=
  filterMap_split _ earlier e later

theorem numbers_snoc (events : List Event) (e : Event) :
    numbers (events ++ [e]) = numbers events ++ e.number.toList := filterMap_snoc _ events e

theorem history_snoc (events : List Event) (e : Event) :
    history (events ++ [e]) = (history events).record e := by
  unfold history
  rw [List.foldl_append]
  rfl

theorem run_counted {uartTxQueueId : Nat} {created : Bool} {c : Client} {events : List Event}
    (hrun : run step (start uartTxQueueId created) (events.map Event.action) = some c) :
    Counted c (numbers events).length (history events) := by
  refine run_records (fun events c => Counted c (numbers events).length (history events)) ?_
    ⟨rfl, rfl, rfl⟩ hrun
  intro events e s t h hstep
  rw [numbers_snoc, List.length_append, history_snoc]
  exact step_counted h e hstep

/-- **The losses of all connections add up.** What is skipped between two connections is in none of
them. -/
theorem losses_sum {uartTxQueueId : Nat} {created : Bool} {c : Client} {events : List Event}
    (hrun : run step (start uartTxQueueId created) (events.map Event.action) = some c)
    (horder : ∀ ns ∈ (history events).connections,
      ns.IsChain fun m n => m < n ∧ n - m - 1 < 65536) :
    c.lostPkts = u32 ((history events).connections.map missing).sum ∧
      c.totalRxPkts = u32 (numbers events).length ∧
      c.expectSeq = nextSeq (history events).now := by
  have h := run_counted hrun
  have hgaps : (history events).connections.map (fun ns => countedGaps 65535 ns.reverse) =
      (history events).connections.map missing := by
    refine List.map_congr_left fun ns hns => countedGaps_eq_missing (by decide) ?_
    exact (horder ns hns).imp fun m n hmn => ⟨hmn.1, by omega⟩
  exact ⟨by rw [h.lost, hgaps], h.total, h.expect⟩

def bare (n : Nat) : Event :=
  .frame true n (Frame.bare 1492 n).encode (recognised_encode (Frame.bare 1492 n) (by decide))

/-- Across the wrap, then a connection that starts elsewhere. -/
def twoConnections : List Event :=
  [.aside (.connectState 1 .connected) trivial, bare 65534,
    .unrecognised true (some [1, 2, 3]) (by decide), bare 65537, .disconnected 1,
    .aside (.connectState 2 .connected) trivial, bare 700, bare 702]

theorem losses_sum_two_connections :
    ∃ c, run step (start 1 true) (twoConnections.map Event.action) = some c ∧ c.lostPkts = 3 ∧
      c.totalRxPkts = 4 ∧ c.expectSeq = 703 := by
  have hrun : run step (start 1 true) (twoConnections.map Event.action) = some _ := rfl
  obtain ⟨hlost, htotal, hexpect⟩ := losses_sum hrun (by decide)
  exact ⟨_, hrun, hlost, htotal, hexpect⟩

/-! ## Out of order -/

/-- The connection goes on. -/
def Event.Within : Event → Prop
  | .disconnected _ => False
  | .frame _ _ _ _ | .unrecognised _ _ _ | .aside _ _ => True

instance : ∀ e : Event, Decidable e.Within
  | .disconnected _ => .isFalse id
  | .frame _ _ _ _ | .unrecognised _ _ _ | .aside _ _ => .isTrue trivial

/-- How much `g_lost_pkts` grew, in 32 bits. -/
def gained (c d : Client) : Nat := u32 (4294967296 + d.lostPkts - c.lostPkts)

/-- What the frames of a connection should add to `g_lost_pkts`: no more than was jumped over, and
nothing for a frame that is late or repeated. -/
structure NoPhantom (c d : Client) (during : List Event) : Prop where
  total : gained c d ≤ (jumpedOver (numbers during).reverse).card
  late : ∀ earlier e later x y, during = earlier ++ e :: later →
    run step c (earlier.map Event.action) = some x → step x e.action = some y →
    ∀ n ∈ e.number, (∃ m ∈ numbers earlier, n ≤ m) → y.lostPkts = x.lostPkts

theorem history_append (before during : List Event) (h : ∀ e ∈ during, e.Within) :
    history (before ++ during) =
      { history before with now := (history before).now ++ numbers during } := by
  induction during using List.reverseRecOn with
  | nil => simp [numbers]
  | append_singleton during e ih =>
    have hbefore := ih fun x hx => h x (List.mem_append_left _ hx)
    have he := h e (List.mem_append_right _ (List.mem_singleton_self e))
    rw [← List.append_assoc, history_snoc, hbefore]
    cases e with
    | frame accept n buf hseq => simp [History.record, numbers, Event.number]
    | unrecognised accept data hnone => simp [History.record, numbers, Event.number]
    | disconnected connId => exact he.elim
    | aside a ha => simp [History.record, numbers, Event.number]

section Connection

variable {uartTxQueueId : Nat} {created : Bool} {before during : List Event} {c d : Client}
  {low : Nat} (hbefore : run step (start uartTxQueueId created) (before.map Event.action) = some c)
  (hnew : c.expectSeq = -1)

include hbefore

theorem lost_lt : c.lostPkts < 4294967296 := by
  rw [(run_counted hbefore).lost]
  exact Nat.mod_lt _ (by decide)

include hnew

theorem lost_within (hwithin : ∀ e ∈ during, e.Within)
    (hrun : run step c (during.map Event.action) = some d) :
    d.lostPkts = u32 (c.lostPkts + countedGaps 65535 (numbers during).reverse) := by
  have hc := run_counted hbefore
  have hnow : (history before).now = [] := by
    have hexpect := hc.expect
    rw [hnew, nextSeq] at hexpect
    cases hlast : (history before).now.getLast? with
    | none => exact List.getLast?_eq_none_iff.mp hlast
    | some m =>
      simp only [hlast] at hexpect
      omega
  have hall : run step (start uartTxQueueId created) ((before ++ during).map Event.action) = some d := by
    rw [List.map_append, run_append, hbefore, Option.bind_some, hrun]
  have hlost := (run_counted hall).lost
  rw [history_append before during hwithin, hnow, List.nil_append] at hlost
  rw [hlost, hc.lost]
  simp only [History.connections, hnow, List.map_append, List.map_cons, List.map_nil, List.sum_append,
    List.sum_singleton, List.reverse_nil, countedGaps, Nat.add_zero, u32, Nat.mod_add_mod]

/-- A frame that is not ahead of the one just before adds the way around the 16 bits. -/
theorem late_adds {earlier : List Event} {e : Event} {m n : Nat} {x y : Client}
    (hwithin : ∀ a ∈ earlier ++ [e], a.Within)
    (hx : run step c (earlier.map Event.action) = some x) (hy : step x e.action = some y)
    (hlast : (numbers earlier).getLast? = some m) (hnumber : e.number = some n) (hle : n ≤ m)
    (hnear : m - n < 65535) : y.lostPkts ≠ x.lostPkts := by
  have hall : run step c ((earlier ++ [e]).map Event.action) = some y := by
    rw [List.map_append, List.map_cons, List.map_nil]
    exact run_snoc.mpr ⟨x, hx, hy⟩
  have hlost := lost_within hbefore hnew (fun a ha => hwithin a (List.mem_append_left _ ha)) hx
  have hmore := lost_within hbefore hnew hwithin hall
  obtain ⟨init, hinit⟩ := List.getLast?_eq_some_iff.mp hlast
  rw [hinit] at hlost
  rw [numbers_snoc, hinit, hnumber] at hmore
  simp only [Option.toList_some, List.reverse_append, List.reverse_cons, List.reverse_nil,
    List.nil_append, List.cons_append, countedGaps, gap16_behind hle (by omega)] at hlost hmore
  rw [if_pos (by omega)] at hmore
  rw [hlost, hmore, u32, u32]
  omega

theorem increasing_of_noPhantom (hwithin : ∀ e ∈ during, e.Within)
    (hrun : run step c (during.map Event.action) = some d) (hwin : InWindow low (numbers during))
    (h : NoPhantom c d during) {earlier later : List Event} (hsplit : during = earlier ++ later) :
    (numbers earlier).IsChain (· < ·) := by
  induction earlier using List.reverseRecOn generalizing later with
  | nil => exact .nil
  | append_singleton earlier e ih =>
    have hsplit' : during = earlier ++ e :: later := by simpa using hsplit
    rw [numbers_snoc]
    refine List.isChain_append.mpr ⟨ih hsplit', by cases e.number <;> simp, ?_⟩
    intro m hm n hn
    have hnumber : e.number = some n := by simpa using hn
    have hmem : m ∈ numbers earlier := List.mem_of_getLast? hm
    by_contra hle
    obtain ⟨x, y, hx, hy⟩ : ∃ x y, run step c (earlier.map Event.action) = some x ∧
        step x e.action = some y := by
      rw [hsplit, List.map_append, run_append, Option.bind_eq_some_iff] at hrun
      obtain ⟨y, hy, -⟩ := hrun
      rw [List.map_append, List.map_cons, List.map_nil, run_snoc] at hy
      obtain ⟨x, hx, hstep⟩ := hy
      exact ⟨x, y, hx, hstep⟩
    rw [hsplit', numbers_split] at hwin
    have hlow := hwin n (by simp [hnumber])
    have hhigh := hwin m (List.mem_append_left _ hmem)
    refine late_adds hbefore hnew (fun a ha => hwithin a ?_) hx hy hm hnumber (by omega) (by omega) ?_
    · rw [hsplit]
      exact List.mem_append_left _ ha
    · exact h.late earlier e later x y hsplit' hx hy n hnumber ⟨m, hmem, by omega⟩

/-- **No loss is a phantom exactly when every frame is ahead of the one just before.** -/
theorem phantom_free_iff (hwithin : ∀ e ∈ during, e.Within)
    (hrun : run step c (during.map Event.action) = some d) (hwin : InWindow low (numbers during)) :
    NoPhantom c d during ↔ (numbers during).IsChain (· < ·) := by
  constructor
  · intro h
    exact increasing_of_noPhantom hbefore hnew hwithin hrun hwin h (List.append_nil during).symm
  intro hup
  refine ⟨?_, ?_⟩
  · have hgaps : countedGaps 65535 (numbers during).reverse =
        (jumpedOver (numbers during).reverse).card := by
      refine countedGaps_of_increasing (le_refl _) (List.isChain_reverse.mpr ?_)
      refine hup.imp_of_mem_imp fun m n hm hn hmn => ⟨hmn, ?_⟩
      have := hwin m hm
      have := hwin n hn
      omega
    have hlt := lost_lt hbefore
    rw [gained, lost_within hbefore hnew hwithin hrun, ← hgaps, u32, u32]
    omega
  · -- Nothing is late or repeated.
    intro earlier e later x y hsplit hx hy n hnumber hlate
    obtain ⟨m, hm, hle⟩ := hlate
    have hpairs := List.isChain_iff_pairwise.mp hup
    rw [hsplit, numbers_split, Option.mem_def.mp hnumber] at hpairs
    have hmn := (List.pairwise_append.mp hpairs).2.2 m hm n (by simp)
    omega

end Connection

/-- A connection in which one number is skipped, after another connection. -/
def skipping : List Event := [bare 7, bare 9, .unrecognised true none (by decide), bare 10]

theorem phantom_free_skipping :
    ∃ c d, run step (start 1 true) ([bare 3, .disconnected 1].map Event.action) = some c ∧
      run step c (skipping.map Event.action) = some d ∧ NoPhantom c d skipping := by
  refine ⟨_, _, rfl, rfl, ?_⟩
  exact (phantom_free_iff (show run step (start 1 true) ([bare 3, .disconnected 1].map Event.action) =
    some _ from rfl) rfl (by decide) rfl (show InWindow 7 (numbers skipping) by decide)).mpr (by decide)

/-- All arrive in order, and the last one twice. -/
def twice : List Event := [bare 0, bare 1, bare 1]

theorem late_frame_counted :
    ¬ ∀ uartTxQueueId created (before during : List Event) c d low,
      run step (start uartTxQueueId created) (before.map Event.action) = some c → c.expectSeq = -1 →
      (∀ e ∈ during, e.Within) → run step c (during.map Event.action) = some d →
      InWindow low (numbers during) → NoPhantom c d during := by
  intro h
  have hfree := h 1 true [] twice (start 1 true) _ 0 rfl rfl (by decide) rfl (by decide)
  exact absurd hfree.total (by decide)

end NearLink.Speed.Client
