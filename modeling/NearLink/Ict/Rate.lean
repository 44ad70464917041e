import NearLink.Ict.Loss

/-!
# The loss rate that the ict_sle client prints

Two places print `lost / (recv + lost)` in percent, with two decimals. The products are computed in
32 bits.
-/

namespace NearLink.Ict

/-- A line of statistics. `rate` holds the two numbers of "%u.%02u%%", if they are printed. -/
structure Printed where
  recv : Nat
  lost : Nat
  rate : Option (Nat × Nat)
  deriving DecidableEq, Repr

/-- `(lost * 100) / total` and `((lost * 10000) / total) % 100`. -/
def lossRate (lost total : Nat) : Nat × Nat :=
  (u32 (lost * 100) / total, u32 (lost * 10000) / total % 100)

/-- What `ProcessFrame` prints, with the counters as it leaves them. -/
def periodicStats (c : Client) : Option Printed :=
  if c.totalRecvPktCount % 200 = 0 then
    let total := u32 (c.totalRecvPktCount + c.lostPktCount)
    some ⟨c.totalRecvPktCount, c.lostPktCount,
      some (if total > 0 then lossRate c.lostPktCount total else (0, 0))⟩
  else none

/-- What DISCONNECTED prints. -/
def disconnectSummary (c : Client) : Printed :=
  let totalExpected := u32 (c.totalRecvPktCount + c.lostPktCount)
  ⟨c.totalRecvPktCount, c.lostPktCount,
    if totalExpected > 0 then some (lossRate c.lostPktCount totalExpected) else none⟩

/-- The integer part and two decimals of the percentage. -/
def exactRate (lost total : Nat) : Nat × Nat := (100 * lost / total, 10000 * lost / total % 100)

/-- Both places print the right rate, as long as the sum of the counters fits. -/
structure RatesExact (c : Client) : Prop where
  summary : 0 < c.totalRecvPktCount + c.lostPktCount →
    c.totalRecvPktCount + c.lostPktCount < 4294967296 →
    (disconnectSummary c).rate =
      some (exactRate c.lostPktCount (c.totalRecvPktCount + c.lostPktCount))
  periodic : 0 < c.totalRecvPktCount + c.lostPktCount →
    c.totalRecvPktCount + c.lostPktCount < 4294967296 →
    ∀ p, periodicStats c = some p →
      p.rate = some (exactRate c.lostPktCount (c.totalRecvPktCount + c.lostPktCount))

/-! ## The two products -/

theorem lossRate_exact {lost : Nat} (h : lost ≤ 429496) (total : Nat) :
    lossRate lost total = exactRate lost total := by
  have hpercent : u32 (lost * 100) = 100 * lost := by
    unfold u32
    omega
  -- The larger product is just below 2^32.
  have hdecimals : u32 (lost * 10000) = 10000 * lost := by
    unfold u32
    omega
  rw [lossRate, exactRate, hpercent, hdecimals]

theorem ratesExact_of_le {c : Client} (h : c.lostPktCount ≤ 429496) : RatesExact c := by
  have htotal : c.totalRecvPktCount + c.lostPktCount < 4294967296 →
      u32 (c.totalRecvPktCount + c.lostPktCount) = c.totalRecvPktCount + c.lostPktCount :=
    fun hlt => Nat.mod_eq_of_lt hlt
  refine ⟨fun hpos hlt => ?_, fun hpos hlt p hp => ?_⟩
  · simp only [disconnectSummary, htotal hlt]
    rw [if_pos hpos, lossRate_exact h]
  · simp only [periodicStats, htotal hlt, Option.ite_none_right_eq_some] at hp
    obtain rfl := Option.some.inj hp.2
    rw [if_pos hpos, lossRate_exact h]

/-! ## The counters in a connection -/

/-- Nothing that ends the connection or begins another one. -/
def UartClient.Action.InConnection : UartClient.Action → Prop
  | .connectState _ _ => False
  | _ => True

/-- The number in a notification that passes the checks. -/
def UartClient.Action.seq : UartClient.Action → Option Nat
  | .receive _ data => if Rejected data then none else some (word data 2)
  | _ => none

def seqs (acts : List UartClient.Action) : List Nat := acts.filterMap UartClient.Action.seq

theorem seqs_snoc (acts : List UartClient.Action) (a : UartClient.Action) :
    seqs (acts ++ [a]) = seqs acts ++ a.seq.toList := filterMap_snoc _ acts a

theorem action_counted {u v : UartClient} {ns : List Nat} (h : Counted u.client ns)
    {a : UartClient.Action} (ha : a.InConnection) (hstep : UartClient.step u a = some v) :
    Counted v.client (ns ++ a.seq.toList) := by
  have hquiet : a.Aside → a.seq = none → Counted v.client (ns ++ a.seq.toList) := by
    intro haside hseq
    rw [aside_client haside hstep, hseq, Option.toList_none, List.append_nil]
    exact h
  cases a with
  | receive arrival data =>
    obtain rfl := Option.some.inj hstep
    refine receive_counted h arrival fun c hc => ?_
    rw [UartClient.Action.seq]
    split_ifs with hrej
    · rw [processFrame_rejected hrej, Option.toList_none, List.append_nil]
      exact hc
    · have hword : word data 2 = u16 (word data 2) := (Nat.mod_mod _ _).symm
      exact processFrame_counted hc hrej hword
  | connectState connId connState => exact ha.elim
  | enable status => exact hquiet trivial rfl
  | seekResult r => exact hquiet trivial rfl
  | seekDisable status => exact hquiet trivial rfl
  | exchangeInfo mtuSize => exact hquiet trivial rfl

theorem connection_counted {u v : UartClient} {connId : Nat} {acts : List UartClient.Action}
    (hin : ∀ a ∈ acts, a.InConnection)
    (hrun : run UartClient.step u (.connectState connId .connected :: acts) = some v) :
    Counted v.client (seqs acts) := by
  rw [run_cons rfl, ← List.map_id acts] at hrun
  refine run_records (fun acts s => (∀ a ∈ acts, a.InConnection) → Counted s.client (seqs acts)) ?_
    (fun _ => counted_reset u.client) hrun hin
  intro acts a s t h hstep hin
  rw [seqs_snoc]
  exact action_counted (h fun b hb => hin b (List.mem_append_left _ hb)) (hin a (by simp)) hstep

/-! ## The rates in a connection -/

/-- **The printed rates are exact while the counted gaps add up to 429496 at most**, modulo 2^32. -/
theorem rates_exact {u v : UartClient} {connId : Nat} {acts : List UartClient.Action}
    (hin : ∀ a ∈ acts, a.InConnection)
    (hrun : run UartClient.step u (.connectState connId .connected :: acts) = some v)
    (hgaps : u32 (countedGaps 1000 (seqs acts).reverse) ≤ 429496) : RatesExact v.client := by
  apply ratesExact_of_le
  rw [(connection_counted hin hrun).lost]
  exact hgaps

/-- The frames 0 and 3. -/
theorem rates_exact_two_missing :
    ∃ v, run UartClient.step .start
        (.connectState 1 .connected :: [bare 0, bare 3].map Event.action) = some v ∧
      RatesExact v.client := by
  have hrun : run UartClient.step .start
      (.connectState 1 .connected :: [bare 0, bare 3].map Event.action) = some _ := rfl
  exact ⟨_, hrun, rates_exact (by simp [bare, Event.action, UartClient.Action.InConnection]) hrun
    (by decide)⟩

/-- The frames 0, 1001, 2002 and so on: 1000 are missing each time. -/
def spaced (n : Nat) : List UartClient.Action :=
  (List.range n).map fun i => (bare (1001 * i)).action

theorem spaced_inConnection (n : Nat) : ∀ a ∈ spaced n, a.InConnection := by
  intro a ha
  obtain ⟨i, -, rfl⟩ := List.mem_map.mp ha
  exact trivial

theorem seqs_spaced (n : Nat) : seqs (spaced n) = (List.range n).map fun i => u16 (1001 * i) := by
  have hseq : ∀ i, (bare (1001 * i)).action.seq = some (u16 (1001 * i)) := by
    intro i
    exact (if_neg (not_rejected _)).trans (congrArg some (word_seq (Frame.bare 65527 (1001 * i))))
  rw [seqs, spaced, List.filterMap_map, ← List.filterMap_eq_map]
  exact congrArg (fun f => List.filterMap f (List.range n)) (funext hseq)

theorem countedGaps_spaced (n : Nat) :
    countedGaps 1000 (seqs (spaced (n + 1))).reverse = 1000 * n := by
  induction n with
  | zero => rw [seqs_spaced]; rfl
  | succ n ih =>
    have hgap : gap16 (u16 (u16 (1001 * (n + 1)))) (u16 (u16 (1001 * n) + 1)) = 1000 := by
      unfold gap16 u16
      omega
    rw [seqs_spaced, List.range_succ, List.map_append, List.reverse_append] at ih
    rw [seqs_spaced, List.range_succ, List.map_append, List.reverse_append, List.range_succ,
      List.map_append, List.reverse_append]
    simp only [List.map_cons, List.map_nil, List.reverse_singleton, List.singleton_append] at ih ⊢
    rw [countedGaps, hgap, ih, if_pos (Nat.le_refl _)]
    omega

/-- 430000 of 430431 frames are lost: "99.11%" is printed, not "99.89%". -/
theorem rate_wraps :
    ¬ ∀ (u v : UartClient) (connId : Nat) (acts : List UartClient.Action),
      (∀ a ∈ acts, a.InConnection) →
      run UartClient.step u (.connectState connId .connected :: acts) = some v →
      RatesExact v.client := by
  intro h
  have htaken : ∀ u a, UartClient.step u a ≠ none := by
    intro u a
    cases a <;> exact nofun
  obtain ⟨v, hrun⟩ := exists_run htaken .start (.connectState 1 .connected :: spaced 431)
  have hcounted := connection_counted (spaced_inConnection 431) hrun
  have hlost : v.client.lostPktCount = 430000 := by
    rw [hcounted.lost, countedGaps_spaced]
    rfl
  have htotal : v.client.totalRecvPktCount = 431 := by
    rw [hcounted.total, seqs_spaced, List.length_map, List.length_range]
    rfl
  have hsummary := (h _ v 1 _ (spaced_inConnection 431) hrun).summary
  simp only [disconnectSummary, hlost, htotal] at hsummary
  exact absurd (hsummary (by decide) (by decide)) (by decide)

end NearLink.Ict
