import NearLink.Speed.ServerProofs

/-!
# What the sender threads count

The wrapper around `ssaps_notify_indicate` reports success whatever the stack answered. So a
thread counts its calls.
-/

namespace NearLink.Speed

/-- The results of `ssaps_notify_indicate` in the thread `i`, oldest first. -/
def Action.results (i : Nat) : Action → List Nat
  | .notify j notifyRet => if j = i then [notifyRet] else []
  | _ => []

def results (i : Nat) (acts : List Action) : List Nat := acts.flatMap (Action.results i)

/-- Every thread has counted its successes and its failures, modulo 2^32. -/
def Honest (acts : List Action) (s : Server) : Prop :=
  ∀ i x, s.senders[i]? = some x →
    x.sleTxOk = u32 ((results i acts).countP (· = errcodeSleSuccess)) ∧
      x.sleTxFail = u32 ((results i acts).countP (· ≠ errcodeSleSuccess))

theorem results_snoc (i : Nat) (acts : List Action) (a : Action) :
    results i (acts ++ [a]) = results i acts ++ a.results i := by simp [results]

/-! ## The counters of a thread -/

/-- `sle_tx_ok` and `sle_tx_fail` of the thread `i`. Before it exists they are 0. -/
def tallies (ts : List Sender) (i : Nat) : Nat × Nat :=
  ((ts.getD i Sender.start).sleTxOk, (ts.getD i Sender.start).sleTxFail)

theorem tallies_of_getElem? {ts : List Sender} {i : Nat} {x : Sender} (h : ts[i]? = some x) :
    tallies ts i = (x.sleTxOk, x.sleTxFail) := by
  simp [tallies, List.getD_eq_getElem?_getD, h]

theorem tallies_started (ts : List Sender) (created : Bool) :
    tallies (if created then ts ++ [Sender.start] else ts) = tallies ts := by
  funext i
  cases created with
  | false => rfl
  | true =>
    rcases Nat.lt_or_ge i ts.length with hlt | hge
    · simp [tallies, List.getD_eq_getElem?_getD, List.getElem?_append_left hlt]
    · rw [if_pos rfl, tallies, List.getD_append_right _ _ _ _ hge, tallies,
        List.getD_eq_default _ _ hge]
      cases i - ts.length <;> rfl

theorem tallies_set {ts : List Sender} {j : Nat} {x : Sender} (h : ts[j]? = some x) (y : Sender)
    (i : Nat) : tallies (ts.set j y) i = if j = i then (y.sleTxOk, y.sleTxFail) else tallies ts i := by
  have hj : j < ts.length := (List.getElem?_eq_some_iff.mp h).1
  split_ifs with hij
  · subst hij
    exact tallies_of_getElem? (List.getElem?_set_self hj)
  · rw [tallies, tallies, List.getD_eq_getElem?_getD, List.getD_eq_getElem?_getD,
      List.getElem?_set_ne hij]

theorem tallies_set_same {ts : List Sender} {j : Nat} {x y : Sender} (h : ts[j]? = some x)
    (hsame : (y.sleTxOk, y.sleTxFail) = (x.sleTxOk, x.sleTxFail)) :
    tallies (ts.set j y) = tallies ts := by
  funext i
  rw [tallies_set h, hsame]
  split_ifs with hij
  · rw [← hij, tallies_of_getElem? h]
  · rfl

/-! ## What a step counts -/

theorem senderRead_tallies {i : Nat} {success : Bool} {s t : Server}
    (h : senderRead i success s = some t) : tallies t.senders = tallies s.senders := by
  unfold senderRead at h
  split at h
  · rename_i ok fail hi
    split at h
    · split at h
      · cases h
      · obtain rfl := Option.some.inj h
        exact tallies_set_same hi rfl
    · obtain rfl := Option.some.inj h
      rfl
  · cases h

theorem senderFlowCtrl_tallies {i flag : Nat} {s t : Server}
    (h : senderFlowCtrl i flag s = some t) : tallies t.senders = tallies s.senders := by
  unfold senderFlowCtrl at h
  split at h
  · rename_i item ok fail hi
    split at h
    · obtain rfl := Option.some.inj h
      rfl
    · obtain rfl := Option.some.inj h
      exact tallies_set_same hi rfl
  · cases h

/-- Every call counts as a success. -/
theorem senderNotify_tallies {j notifyRet : Nat} {s t : Server}
    (h : senderNotify j notifyRet s = some t) (i : Nat) :
    tallies t.senders i = if j = i then (u32 ((tallies s.senders i).1 + 1), (tallies s.senders i).2)
      else tallies s.senders i := by
  unfold senderNotify at h
  split at h
  · rename_i item ok fail hi
    rw [if_neg (show ¬ sleUuidServerSendReportByHandleId notifyRet ≠ errcodeSleSuccess from
      not_not_intro rfl)] at h
    obtain rfl := Option.some.inj h
    rw [tallies_set hi]
    split_ifs with hji
    · rw [← hji, tallies_of_getElem? hi]
    · rfl
  · cases h

theorem step_tallies {s t : Server} {a : Action} (hstep : step s a = some t)
    (hquiet : ∀ i notifyRet, a ≠ .notify i notifyRet) : tallies t.senders = tallies s.senders := by
  cases a with
  | uart fuel c =>
    obtain ⟨items, -, -, -, -, -, hsenders, -⟩ := uartStep_spec hstep
    rw [hsenders]
  | connectState connId connState pairState created =>
    obtain rfl := Option.some.inj hstep
    cases connState with
    | connected =>
      simp only [trackLink, sleConnectStateChangedCbk]
      split
      · exact tallies_started s.senders created
      · rfl
    | disconnected => rfl
    | other => rfl
  | pairComplete connId status created =>
    obtain rfl := Option.some.inj hstep
    unfold slePairCompleteCbk
    split
    · rfl
    · exact tallies_started s.senders created
  | readRequest created =>
    obtain rfl := Option.some.inj hstep
    exact tallies_started s.senders created
  | read i success => exact senderRead_tallies hstep
  | flowCtrl i flag => exact senderFlowCtrl_tallies hstep
  | notify i notifyRet => exact absurd rfl (hquiet i notifyRet)

/-! ## What a run counts -/

/-- **A thread counts its calls, and no failure.** -/
theorem run_tallies {uartQueueId : Nat} {acts : List Action} {s : Server}
    (hrun : run step (Server.start uartQueueId) acts = some s) (i : Nat) :
    tallies s.senders i = (u32 (results i acts).length, 0) := by
  rw [← List.map_id acts] at hrun
  refine run_records (fun acts s => ∀ i, tallies s.senders i = (u32 (results i acts).length, 0)) ?_
    (fun i => rfl) hrun i
  intro acts a s t h hstep i
  rw [results_snoc, List.length_append]
  by_cases hnotify : ∃ j notifyRet, a = .notify j notifyRet
  · obtain ⟨j, notifyRet, rfl⟩ := hnotify
    rw [senderNotify_tallies hstep, h i, Action.results]
    split_ifs
    · simp only [u32, List.length_singleton, Prod.mk.injEq, and_true]
      omega
    · rfl
  · have hnone : a.results i = [] := by
      unfold Action.results
      split
      · rename_i j notifyRet
        exact absurd ⟨j, notifyRet, rfl⟩ hnotify
      · rfl
    rw [step_tallies hstep (fun j notifyRet ha => hnotify ⟨j, notifyRet, ha⟩), h i, hnone]
    rfl

theorem mem_results {i notifyRet : Nat} {acts : List Action} :
    notifyRet ∈ results i acts ↔ Action.notify i notifyRet ∈ acts := by
  unfold results
  rw [List.mem_flatMap]
  constructor
  · rintro ⟨a, ha, hmem⟩
    unfold Action.results at hmem
    split at hmem
    · split_ifs at hmem with hij
      · rwa [List.mem_singleton.mp hmem, ← hij]
      · cases hmem
    · cases hmem
  · intro h
    exact ⟨_, h, by simp [Action.results]⟩

/-! ## The condition -/

theorem senderNotify_thread {i notifyRet : Nat} {s t : Server}
    (h : senderNotify i notifyRet s = some t) :
    ∃ x y, s.senders[i]? = some x ∧ t.senders[i]? = some y := by
  unfold senderNotify at h
  split at h
  · rename_i item ok fail hi
    obtain rfl := Option.some.inj h
    exact ⟨_, _, hi, List.getElem?_set_self (List.getElem?_eq_some_iff.mp hi).1⟩
  · cases h

theorem success_of_honest {uartQueueId i notifyRet : Nat} {acts : List Action} {s t : Server}
    (hrun : run step (Server.start uartQueueId) acts = some s)
    (hstep : step s (.notify i notifyRet) = some t) (hs : Honest acts s)
    (ht : Honest (acts ++ [.notify i notifyRet]) t) : notifyRet = errcodeSleSuccess := by
  by_contra hfailed
  obtain ⟨x, y, hx, hy⟩ := senderNotify_thread hstep
  have hcountx := run_tallies hrun i
  have hcounty := run_tallies (run_snoc.mpr ⟨s, hrun, hstep⟩) i
  rw [tallies_of_getElem? hx] at hcountx
  rw [tallies_of_getElem? hy] at hcounty
  have hfailx := (hs i x hx).2
  have hfaily := (ht i y hy).2
  have hone : ([notifyRet].countP fun r => decide (r ≠ errcodeSleSuccess)) = 1 := by simp [hfailed]
  -- The failure is to be counted, and `sle_tx_fail` is 0 before and after.
  rw [(Prod.mk.inj hcountx).2] at hfailx
  rw [(Prod.mk.inj hcounty).2, results_snoc, Action.results, if_pos rfl, List.countP_append,
    hone] at hfaily
  simp only [u32] at hfailx hfaily
  omega

/-- **The counters are right all the time exactly when no call fails.** -/
theorem honest_iff {uartQueueId : Nat} {acts : List Action} {s : Server}
    (hrun : run step (Server.start uartQueueId) acts = some s) :
    (∀ k t, run step (Server.start uartQueueId) (acts.take k) = some t → Honest (acts.take k) t) ↔
      ∀ i notifyRet, Action.notify i notifyRet ∈ acts → notifyRet = errcodeSleSuccess := by
  constructor
  · intro h i notifyRet hmem
    obtain ⟨before, after, rfl⟩ := List.append_of_mem hmem
    have hbefore := h before.length
    have hafter := h (before.length + 1)
    rw [List.take_left] at hbefore
    rw [List.append_cons] at hrun hafter
    rw [List.take_left' (by simp)] at hafter
    rw [run_append] at hrun
    obtain ⟨u, hu, -⟩ := Option.bind_eq_some_iff.mp hrun
    obtain ⟨t, ht, hstep⟩ := run_snoc.mp hu
    exact success_of_honest ht hstep (hbefore t ht) (hafter u hu)
  · intro hall k t ht i x hx
    have hok : ∀ notifyRet ∈ results i (acts.take k), notifyRet = errcodeSleSuccess :=
      fun notifyRet hmem => hall i notifyRet (List.mem_of_mem_take (mem_results.mp hmem))
    have hcount := run_tallies ht i
    rw [tallies_of_getElem? hx] at hcount
    obtain ⟨hsuccess, hfail⟩ := Prod.mk.inj hcount
    rw [hsuccess, hfail]
    refine ⟨?_, ?_⟩
    · rw [List.countP_eq_length.mpr (by simpa using hok)]
    · rw [List.countP_eq_zero.mpr (by simpa using hok)]
      rfl

/-- The frame AA 55 00 00 00 00 55 AA is queued and sent. -/
def sentOnce (notifyRet : Nat) : List Action :=
  [.pairComplete 1 0 true, .uart 2 (Call.ok (Frame.bare 5992 0).encode), .read 0 true,
    .flowCtrl 0 1, .notify 0 notifyRet]

theorem honest_sent_once :
    ∃ s, run step (Server.start 1) (sentOnce 0) = some s ∧ Honest (sentOnce 0) s := by
  have hrun : run step (Server.start 1) (sentOnce 0) = some _ := rfl
  refine ⟨_, hrun, (honest_iff hrun).mpr ?_ 5 _ hrun⟩
  intro i notifyRet hmem
  have hcall : i = 0 ∧ notifyRet = 0 := by simpa [sentOnce] using hmem
  exact hcall.2

theorem failure_not_counted :
    ¬ ∀ uartQueueId acts s, run step (Server.start uartQueueId) acts = some s → Honest acts s := by
  intro h
  have hfail := (h 1 (sentOnce 1) _ rfl 0 _ rfl).2
  exact absurd hfail (by decide)

end NearLink.Speed
