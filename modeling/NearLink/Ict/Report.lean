import NearLink.Ict.Registration

/-!
# The buffer of a report

`sle_uart_server_send_report_by_handle` of `sle_uart_server.c`, call by call. The task sends one
message after another with it.
-/

namespace NearLink.Ict

open Stack

namespace Report

def sleUartServerSendReportByHandle (h : Handles) (sleConnHdl : Nat) (data : List Byte) :
    Program Nat := do
  match ← vmalloc data.length with
  | none => return errcodeSleFail
  | some txBuf =>
    let ret ← memcpyToHeap txBuf data.length data
    if ret ≠ 0 then do
      vfree txBuf
      return errcodeSleFail
    else do
      let ret ← notifyIndicate h.serverId sleConnHdl
        ⟨h.propertyHandle, ⟨.heap txBuf, data.length⟩⟩
      vfree txBuf
      return ret

/-- Messages that the task takes from its queue, each with the globals when it is sent. -/
def sendAll (h : Handles) : List (Item × Server) → Program (List Nat)
  | [] => return []
  | (item, s) :: jobs => do
    let ret ← sleUartServerSendReportByHandle h s.sleConnHdl item.msg.data
    let rets ← sendAll h jobs
    return ret :: rets

end Report

/-- What the stack is given by a call of `SsapsNotifyIndicate`. -/
def Notify.report (h : Handles) (n : Notify) : Nat × NtfInd (List Byte) :=
  (n.connId, ⟨h.propertyHandle, n.item.msg.data⟩)

def sentBy (jobs : List (Item × Server)) (answers : List (Bool × Nat)) : List (List Notify × Nat) :=
  jobs.zipWith (fun job a => sleUartServerSendReportByHandle a.1 a.2 job.1 job.2) answers

theorem sendReport_safe (h : Handles) (s : Server) (item : Item) (e : Env) :
    contract.Safe (Report.sleUartServerSendReportByHandle h s.sleConnHdl item.msg.data) e
      fun ret t => ∃ a : Bool × Nat, ret = (sleUartServerSendReportByHandle a.1 a.2 item s).2 ∧
        t = { e with notified := e.notified ++
          (sleUartServerSendReportByHandle a.1 a.2 item s).1.map (Notify.report h) } := by
  have hnothing : e = { e with notified := e.notified ++ [].map (Notify.report h) } := by simp
  unfold Report.sleUartServerSendReportByHandle
  apply safe_copied
  · exact ⟨(false, 0), rfl, hnothing⟩
  · intro p hp
    rw [Contract.safe_bind, safe_vfree, free_new hp]
    exact ⟨by simp, (false, 0), rfl, hnothing⟩
  · intro p hp
    rw [Contract.safe_bind, safe_notifyIndicate, read_set _ _ (Nat.le_refl _), List.take_length]
    refine ⟨rfl, fun ret => ?_⟩
    rw [Contract.safe_bind, safe_vfree, set_notify]
    exact ⟨by simp, (true, ret), rfl, free_new hp⟩

theorem sendAll_safe (h : Handles) (jobs : List (Item × Server)) (e : Env) :
    contract.Safe (Report.sendAll h jobs) e fun rets t =>
      ∃ answers, answers.length = jobs.length ∧ rets = (sentBy jobs answers).map Prod.snd ∧
        t = { e with notified := e.notified ++
          ((sentBy jobs answers).flatMap Prod.fst).map (Notify.report h) } := by
  induction jobs generalizing e with
  | nil => exact ⟨[], rfl, rfl, by simp [sentBy]⟩
  | cons job jobs ih =>
    unfold Report.sendAll
    rw [Contract.safe_bind]
    apply (sendReport_safe h job.2 job.1 e).mono
    rintro ret t ⟨a, rfl, rfl⟩
    rw [Contract.safe_bind]
    apply (ih _).mono
    rintro rets t ⟨answers, hlen, rfl, rfl⟩
    exact ⟨a :: answers, by simp [hlen], rfl, by simp [sentBy]⟩

/-- **The task returns the buffer of every report.** However many messages it sends, the stack is
given what the model of the task says, in order, out of allocated memory that is freed once. -/
theorem reports_refine {h : Handles} {jobs : List (Item × Server)} {rets : List Nat}
    {calls : List (Called Op Ans)} {e : Env} (hrun : (Report.sendAll h jobs).Runs calls rets)
    (hgives : contract.Gives e calls) :
    contract.Asks e calls ∧ ∃ t answers, run contract.step e calls = some t ∧ t.heap = e.heap ∧
      t.entries = e.entries ∧ answers.length = jobs.length ∧
      rets = (sentBy jobs answers).map Prod.snd ∧
      t.notified = e.notified ++ ((sentBy jobs answers).flatMap Prod.fst).map (Notify.report h) := by
  obtain ⟨hasks, t, ht, answers, hlen, hrets, rfl⟩ := (sendAll_safe h jobs e).sound hrun hgives
  exact ⟨hasks, _, answers, ht, rfl, rfl, hlen, hrets, rfl⟩

def twoReports : List (Item × Server) :=
  [(⟨0, some 0, ⟨List.replicate 8 1, by decide⟩⟩, { Server.start with sleConnHdl := 5 }),
    (⟨1, some 0, ⟨List.replicate 9 2, by decide⟩⟩, { Server.start with sleConnHdl := 6 })]

/-- There is no memory for 8 bytes. -/
def noEight : (op : Op) → Ans op
  | .vmalloc size => if size = 8 then (none : Option Ptr) else some 100
  | op => granted op

theorem reports_refine_no_eight :
    ∃ calls t, (Report.sendAll ⟨1, 16, 17⟩ twoReports).Runs calls
        [errcodeSleFail, errcodeSleSuccess] ∧
      contract.Asks .start calls ∧ run contract.step .start calls = some t ∧
      t.heap = Env.start.heap ∧ t.notified = [(6, ⟨17, List.replicate 9 2⟩)] := by
  have hrun := Prog.runs_trace noEight (Report.sendAll ⟨1, 16, 17⟩ twoReports)
  obtain ⟨hasks, t, answers, ht, hheap, -⟩ := reports_refine (e := .start) hrun (by decide +kernel)
  have hnotified : (run contract.step .start
      ((Report.sendAll ⟨1, 16, 17⟩ twoReports).trace noEight)).map Env.notified =
      some [(6, ⟨17, List.replicate 9 2⟩)] := by decide +kernel
  rw [ht] at hnotified
  exact ⟨_, t, hrun, hasks, ht, hheap, Option.some.inj hnotified⟩

end NearLink.Ict
