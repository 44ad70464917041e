import NearLink.Speed.Transparency

/-!
# What the throughput client forwards

What the client's queue has taken is written once, in order, whatever becomes of the link: unlike
the server, the client does not empty its queue when the link ends.
-/

namespace NearLink.Speed.Client

/-! ## What a run brings -/

/-- What the queue takes: the front of a notification that brings any bytes. -/
def Action.accepted (uartTxQueueId : Nat) : Action → Option (List Byte)
  | .notification accept data => data.bind fun buf =>
    if accept = true ∧ uartTxQueueId ≠ 0 ∧ buf ≠ [] then some (buf.take uartTxBufSize) else none
  | .connectState _ _ | .txRead _ | .txWrite _ => none

/-- A notification for which the queue has no room. -/
def Action.refused (uartTxQueueId : Nat) : Action → Option Unit
  | .notification accept data => data.bind fun buf =>
    if accept = false ∧ uartTxQueueId ≠ 0 ∧ buf ≠ [] then some () else none
  | .connectState _ _ | .txRead _ | .txWrite _ => none

/-- The result of a call of `uapi_uart_write`. -/
def Action.uartRet : Action → Option Int
  | .txWrite uartRet => some uartRet
  | _ => none

def accepted (uartTxQueueId : Nat) (acts : List Action) : List (List Byte) :=
  acts.filterMap (Action.accepted uartTxQueueId)

def refused (uartTxQueueId : Nat) (acts : List Action) : List Unit :=
  acts.filterMap (Action.refused uartTxQueueId)

def uartRets (acts : List Action) : List Int := acts.filterMap Action.uartRet

theorem accepted_snoc (uartTxQueueId : Nat) (acts : List Action) (a : Action) :
    accepted uartTxQueueId (acts ++ [a]) =
      accepted uartTxQueueId acts ++ (a.accepted uartTxQueueId).toList := filterMap_snoc _ acts a

theorem refused_snoc (uartTxQueueId : Nat) (acts : List Action) (a : Action) :
    refused uartTxQueueId (acts ++ [a]) =
      refused uartTxQueueId acts ++ (a.refused uartTxQueueId).toList := filterMap_snoc _ acts a

theorem uartRets_snoc (acts : List Action) (a : Action) :
    uartRets (acts ++ [a]) = uartRets acts ++ a.uartRet.toList := filterMap_snoc _ acts a

section Quiet

variable {uartTxQueueId : Nat} {a : Action} (acts : List Action)

theorem accepted_quiet (ha : a.accepted uartTxQueueId = none) :
    accepted uartTxQueueId (acts ++ [a]) = accepted uartTxQueueId acts := by
  rw [accepted_snoc, ha, Option.toList_none, List.append_nil]

theorem refused_quiet (ha : a.refused uartTxQueueId = none) :
    refused uartTxQueueId (acts ++ [a]) = refused uartTxQueueId acts := by
  rw [refused_snoc, ha, Option.toList_none, List.append_nil]

theorem uartRets_quiet (ha : a.uartRet = none) : uartRets (acts ++ [a]) = uartRets acts := by
  rw [uartRets_snoc, ha, Option.toList_none, List.append_nil]

end Quiet

/-! ## What the client keeps -/

/-- The thread has counted the results of its calls. -/
def CountsRets (rets : List Int) (t : TxThread) : Prop :=
  t.txOk = u32 (rets.countP (· > 0)) ∧ t.txFail = u32 (rets.countP (· ≤ 0))

structure Forwards (uartTxQueueId : Nat) (acts : List Action) (c : Client) : Prop where
  id : c.uartTxQueueId = uartTxQueueId
  order : c.written ++ c.pending = accepted uartTxQueueId acts
  ok : c.uartOk = u32 (accepted uartTxQueueId acts).length
  fail : c.uartFail = u32 (refused uartTxQueueId acts).length
  full : ∀ msg ∈ c.queue, msg.len ≠ 0
  rets : (uartRets acts).length = c.written.length
  counts : ∀ t ∈ c.thread, CountsRets (uartRets acts) t

theorem forwards_start (uartTxQueueId : Nat) (created : Bool) :
    Forwards uartTxQueueId [] (start uartTxQueueId created) := by
  refine ⟨rfl, ?_, rfl, rfl, by simp [start], rfl, ?_⟩
  · cases created <;> rfl
  · cases created <;> simp [start, CountsRets, uartRets, u32]

section Step

variable {uartTxQueueId : Nat} {acts : List Action} {c d : Client}

theorem Forwards.idle (h : Forwards uartTxQueueId acts c) {a : Action}
    (hacc : a.accepted uartTxQueueId = none) (href : a.refused uartTxQueueId = none)
    (hret : a.uartRet = none) : Forwards uartTxQueueId (acts ++ [a]) c := by
  refine ⟨h.id, ?_, ?_, ?_, h.full, ?_, ?_⟩
  · rw [accepted_quiet acts hacc]; exact h.order
  · rw [accepted_quiet acts hacc]; exact h.ok
  · rw [refused_quiet acts href]; exact h.fail
  · rw [uartRets_quiet acts hret]; exact h.rets
  · rw [uartRets_quiet acts hret]; exact h.counts

/-- The numbers of frames and connections have nothing to do with the queue. -/
structure KeepsQueue (c d : Client) : Prop where
  uartTxQueueId : d.uartTxQueueId = c.uartTxQueueId
  uartOk : d.uartOk = c.uartOk
  uartFail : d.uartFail = c.uartFail
  queue : d.queue = c.queue
  thread : d.thread = c.thread
  written : d.written = c.written

theorem Forwards.congr (h : Forwards uartTxQueueId acts c) (hd : KeepsQueue c d) :
    Forwards uartTxQueueId acts d := by
  refine ⟨hd.uartTxQueueId.trans h.id, ?_, hd.uartOk.trans h.ok, hd.uartFail.trans h.fail, ?_, ?_, ?_⟩
  · rw [pending, hd.written, hd.queue, hd.thread]; exact h.order
  · rw [hd.queue]; exact h.full
  · rw [hd.written]; exact h.rets
  · rw [hd.thread]; exact h.counts

theorem countFrame_keepsQueue (seq : Nat) (c : Client) : KeepsQueue c (countFrame seq c) := by
  simp only [countFrame]
  split_ifs <;> exact ⟨rfl, rfl, rfl, rfl, rfl, rfl⟩

theorem forward_forwards (h : Forwards uartTxQueueId acts c) (accept : Bool) {buf : List Byte}
    (hne : buf ≠ []) :
    Forwards uartTxQueueId (acts ++ [.notification accept (some buf)]) (forward accept buf c) := by
  have hcopy : buf.take (if buf.length > uartTxBufSize then uartTxBufSize else buf.length) =
      buf.take uartTxBufSize := by
    split_ifs with hlong
    · rfl
    · rw [List.take_length, List.take_of_length_le (by omega)]
  have hfits : (buf.take uartTxBufSize).length ≤ uartTxBufSize := List.length_take_le _ _
  unfold forward
  by_cases hid : uartTxQueueId = 0
  · have hclosed : ¬ c.uartTxQueueId ≠ 0 := by rw [h.id]; exact not_not_intro hid
    rw [if_neg hclosed]
    exact h.idle (if_neg fun hno => hno.2.1 hid) (if_neg fun hno => hno.2.1 hid) rfl
  rw [if_pos (by rw [h.id]; exact hid)]
  simp only [hcopy, dif_pos hfits]
  cases accept with
  | true =>
    have hacc : (Action.notification true (some buf)).accepted uartTxQueueId =
        some (buf.take uartTxBufSize) := if_pos ⟨rfl, hid, hne⟩
    have href : (Action.notification true (some buf)).refused uartTxQueueId = none := by
      simp [Action.refused]
    have hmore : accepted uartTxQueueId (acts ++ [.notification true (some buf)]) =
        accepted uartTxQueueId acts ++ [buf.take uartTxBufSize] := by
      rw [accepted_snoc, hacc, Option.toList_some]
    refine ⟨h.id, ?_, ?_, ?_, ?_, ?_, ?_⟩
    · rw [hmore, ← h.order]
      simp [pending]
    · rw [hmore, List.length_append]
      simp only [if_true, h.ok, u32, Nat.mod_add_mod, List.length_singleton]
    · rw [refused_quiet acts href]
      exact h.fail
    · simp only [if_true, List.mem_append, List.mem_singleton]
      rintro msg (hold | rfl)
      · exact h.full msg hold
      · have hpos := List.length_pos_iff.mpr hne
        rw [UartTxMsg.len, List.length_take, uartTxBufSize_val]
        omega
    · rw [uartRets_quiet acts rfl]
      exact h.rets
    · rw [uartRets_quiet acts rfl]
      exact h.counts
  | false =>
    have hacc : (Action.notification false (some buf)).accepted uartTxQueueId = none := by
      simp [Action.accepted]
    have href : (Action.notification false (some buf)).refused uartTxQueueId = some () :=
      if_pos ⟨rfl, hid, hne⟩
    refine ⟨h.id, ?_, ?_, ?_, h.full, ?_, ?_⟩
    · rw [accepted_quiet acts hacc]
      exact h.order
    · rw [accepted_quiet acts hacc]
      exact h.ok
    · rw [refused_snoc, href, Option.toList_some, List.length_append]
      simp only [Bool.false_eq_true, if_false, h.fail, u32, Nat.mod_add_mod, List.length_singleton]
    · rw [uartRets_quiet acts rfl]
      exact h.rets
    · rw [uartRets_quiet acts rfl]
      exact h.counts

theorem notification_forwards (h : Forwards uartTxQueueId acts c) (accept : Bool)
    (data : Option (List Byte)) :
    Forwards uartTxQueueId (acts ++ [.notification accept data])
      (sleSpeedNotificationCb accept data c) := by
  unfold sleSpeedNotificationCb
  cases data with
  | none => exact h.idle rfl rfl rfl
  | some buf =>
    by_cases hempty : buf = []
    · have hlen : buf.length = 0 := by rw [hempty]; rfl
      simp only [if_pos hlen]
      exact h.idle (if_neg fun hno => hno.2.2 hempty) (if_neg fun hno => hno.2.2 hempty) rfl
    · simp only [if_neg (show ¬ buf.length = 0 by simpa using hempty)]
      apply forward_forwards _ accept hempty
      split
      · exact h.congr (countFrame_keepsQueue _ c)
      · exact h

theorem txRead_forwards (h : Forwards uartTxQueueId acts c) {success : Bool}
    (hstep : txRead success c = some d) : Forwards uartTxQueueId (acts ++ [.txRead success]) d := by
  refine Forwards.idle ?_ rfl rfl rfl
  rcases txRead_spec hstep with rfl | ⟨msg, rest, ok, fail, hthread, hq, rfl⟩
  · exact h
  have hmsg : ¬ msg.len = 0 := h.full msg (by rw [hq]; exact List.mem_cons_self)
  refine ⟨h.id, ?_, h.ok, h.fail, fun m hm => h.full m ?_, h.rets, ?_⟩
  · have hold := h.order
    simp only [pending, hthread, hq, Option.elim_some, TxThread.held, List.nil_append] at hold
    simp only [pending, if_neg hmsg, Option.elim_some, TxThread.held, List.singleton_append]
    exact hold
  · rw [hq]; exact List.mem_cons_of_mem _ hm
  · intro t ht
    obtain rfl := Option.some.inj ht
    have hold := h.counts _ hthread
    exact hold

theorem txWrite_forwards (h : Forwards uartTxQueueId acts c) {uartRet : Int}
    (hstep : txWrite uartRet c = some d) :
    Forwards uartTxQueueId (acts ++ [.txWrite uartRet]) d := by
  unfold Client.txWrite at hstep
  split at hstep
  swap
  · cases hstep
  rename_i msg ok fail hthread
  obtain rfl := Option.some.inj hstep
  obtain ⟨hok, hfail⟩ := h.counts _ hthread
  simp only at hok hfail
  have hrets : uartRets (acts ++ [.txWrite uartRet]) = uartRets acts ++ [uartRet] := by
    rw [uartRets_snoc, Action.uartRet, Option.toList_some]
  refine ⟨h.id, ?_, ?_, ?_, h.full, ?_, ?_⟩
  · rw [accepted_quiet acts rfl, ← h.order]
    simp only [pending, hthread, Option.elim_some, TxThread.held]
    split_ifs <;> simp
  · rw [accepted_quiet acts rfl]
    exact h.ok
  · rw [refused_quiet acts rfl]
    exact h.fail
  · rw [hrets, List.length_append, List.length_append, h.rets]
    rfl
  · intro t ht
    obtain rfl := Option.some.inj ht
    unfold CountsRets
    rw [hrets, List.countP_append, List.countP_append]
    by_cases hpos : uartRet > 0
    · simp only [hok, hfail, List.countP_singleton, hpos, decide_true, if_true,
        Int.not_le.mpr hpos, decide_false, Bool.false_eq_true, if_false, u32, Nat.mod_add_mod,
        Nat.add_zero, and_self]
    · simp only [hok, hfail, List.countP_singleton, hpos, decide_false, if_true,
        Int.not_lt.mp hpos, decide_true, Bool.false_eq_true, if_false, u32, Nat.mod_add_mod,
        Nat.add_zero, and_self]

theorem step_forwards (h : Forwards uartTxQueueId acts c) {a : Action}
    (hstep : step c a = some d) : Forwards uartTxQueueId (acts ++ [a]) d := by
  cases a with
  | notification accept data =>
    obtain rfl := Option.some.inj hstep
    exact notification_forwards h accept data
  | connectState connId connState =>
    obtain rfl := Option.some.inj hstep
    refine (h.congr ?_).idle rfl rfl rfl
    cases connState <;> exact ⟨rfl, rfl, rfl, rfl, rfl, rfl⟩
  | txRead success => exact txRead_forwards h hstep
  | txWrite uartRet => exact txWrite_forwards h hstep

end Step

theorem run_forwards {uartTxQueueId : Nat} {created : Bool} {acts : List Action} {c : Client}
    (hrun : run step (start uartTxQueueId created) acts = some c) :
    Forwards uartTxQueueId acts c := by
  rw [← List.map_id acts] at hrun
  exact run_records (fun acts c => Forwards uartTxQueueId acts c)
    (fun acts a c d h hstep => step_forwards h hstep) (forwards_start uartTxQueueId created) hrun

/-- **What the queue takes is written once, in order.** Only the queue and the thread are in
between, and the counters on both sides are right. -/
theorem forwards_all {uartTxQueueId : Nat} {created : Bool} {acts : List Action} {c : Client}
    (hrun : run step (start uartTxQueueId created) acts = some c) :
    c.written ++ c.pending = accepted uartTxQueueId acts ∧
      c.uartOk = u32 (accepted uartTxQueueId acts).length ∧
      c.uartFail = u32 (refused uartTxQueueId acts).length ∧
      ∀ t ∈ c.thread, t.txOk = u32 ((uartRets acts).countP (· > 0)) ∧
        u32 (t.txOk + t.txFail) = u32 c.written.length := by
  have h := run_forwards hrun
  refine ⟨h.order, h.ok, h.fail, fun t ht => ?_⟩
  obtain ⟨hok, hfail⟩ := h.counts t ht
  refine ⟨hok, ?_⟩
  have hboth := List.length_eq_countP_add_countP (fun r : Int => decide (r > 0)) (l := uartRets acts)
  have hneg : (uartRets acts).countP (fun r => decide ¬ decide (r > 0) = true) =
      (uartRets acts).countP (fun r => decide (r ≤ 0)) :=
    List.countP_congr fun r _ => by simp
  rw [hneg] at hboth
  rw [hok, hfail, ← h.rets, hboth]
  unfold u32
  omega

/-- The queue takes the first of two notifications, and the link ends before it is written. -/
def writtenLate : List Action :=
  [.notification true (some [1, 2, 3]), .notification false (some [4]),
    .connectState 1 .disconnected, .txRead true, .txWrite 0]

theorem forwards_all_written_late :
    ∃ c, run step (start 1 true) writtenLate = some c ∧ c.written ++ c.pending = [[1, 2, 3]] ∧
      c.uartOk = 1 ∧ c.uartFail = 1 := by
  obtain ⟨horder, hok, hfail, -⟩ :=
    forwards_all (show run step (start 1 true) writtenLate = some _ from rfl)
  exact ⟨_, rfl, horder, hok, hfail⟩

end NearLink.Speed.Client
