import Mathlib.Data.Set.List
import NearLink.Ict.ClientProofs
import NearLink.Ict.ServerProofs

/-!
# From the UART of the server to the UART of the client

The client takes apart what the server's parser has put together.
-/

namespace NearLink.Ict

/-- A frame with a payload is counted, and its payload is written. -/
theorem receive_encode (f : Frame 1 1024) (c : Client) (arrival : Arrival) :
    (receive c (arrival, f.encode)).written = c.written ++ [f.payload] ∧
      (receive c (arrival, f.encode)).totalRecvPktCount = u32 (c.totalRecvPktCount + 1) := by
  have hprocess : ∀ c, (processFrame f.encode c).written = c.written ++ [f.payload] ∧
      (processFrame f.encode c).totalRecvPktCount = u32 (c.totalRecvPktCount + 1) := by
    intro c
    rw [processFrame_spec f (by decide)]
    refine ⟨?_, opened_total c f.seq⟩
    simp only [if_pos (show 0 < f.payload.length from f.lo_le)]
  cases arrival with
  | notification => exact hprocess _
  | indication => exact hprocess c

theorem receive_frames (frames : List (Arrival × Frame 1 1024)) (c : Client) :
    (frames.foldl (fun c d => receive c (d.1, d.2.encode)) c).written =
      c.written ++ frames.map fun d => d.2.payload := by
  induction frames generalizing c with
  | nil => simp
  | cons d ds ih =>
    rw [List.foldl_cons, ih, (receive_encode d.2 c d.1).1, List.map_cons, List.append_assoc]
    rfl

/-! ## The whole way -/

/-- What arrives at the client: buffers that the server has sent. -/
def Client.receiveAll (c : Client) (delivered : List (Arrival × Item)) : Client :=
  delivered.foldl (fun c d => receive c (d.1, d.2.msg.data)) c

/-- **The payloads of the delivered frames are written, one call for each.** The delivered frames
are a subsequence of those that the server's parser completed, and none is rejected. -/
theorem relay_end_to_end {acts : List Action} {s : Server}
    (hrun : run step Server.start acts = some s) (c : Client) (delivered : List (Arrival × Item))
    (hdel : (delivered.map Prod.snd).Sublist (s.notified.map Notify.item)) :
    ∃ frames : List (Frame 1 1024),
      delivered.map (fun d => d.2.msg.data) = frames.map Frame.encode ∧
        (c.receiveAll delivered).written = c.written ++ frames.map Frame.payload ∧
        (∀ d ∈ delivered, ∀ c,
          (receive c (d.1, d.2.msg.data)).totalRecvPktCount = u32 (c.totalRecvPktCount + 1)) ∧
        (delivered.map fun d => d.2.completed).Sublist s.completed ∧ s.completed.Nodup := by
  obtain ⟨hsent, hnodup, hwhole⟩ := notified_sublist_completed hrun
  have hsub : (delivered.map fun d => d.2.completed).Sublist s.completed := by
    have hmap := hdel.map Item.completed
    rw [List.map_map, List.map_map] at hmap
    exact hmap.trans hsent
  have hframe : ∀ d ∈ delivered, ∃ f : Frame 1 1024, f.encode = d.2.msg.data := fun d hd =>
    hwhole d.2.completed (hsub.subset (List.mem_map_of_mem hd))
  obtain ⟨frames, hframes⟩ : delivered.map (fun d => (d.1, d.2.msg.data)) ∈
      Set.range (List.map fun d : Arrival × Frame 1 1024 => (d.1, d.2.encode)) := by
    rw [Set.range_list_map]
    rintro _ hmem
    obtain ⟨d, hd, rfl⟩ := List.mem_map.mp hmem
    obtain ⟨f, hf⟩ := hframe d hd
    exact ⟨(d.1, f), congrArg (Prod.mk d.1) hf⟩
  have hdata : delivered.map (fun d => d.2.msg.data) = (frames.map Prod.snd).map Frame.encode := by
    have hsnd := congrArg (List.map Prod.snd) hframes
    simpa only [List.map_map, Function.comp_def, eq_comm] using hsnd
  have hwritten : (c.receiveAll delivered).written =
      c.written ++ (frames.map Prod.snd).map Frame.payload := by
    have hfold : c.receiveAll delivered =
        (delivered.map fun d => (d.1, d.2.msg.data)).foldl receive c := by
      rw [List.foldl_map]
      rfl
    rw [hfold, ← hframes, List.foldl_map, receive_frames, List.map_map]
    rfl
  refine ⟨frames.map Prod.snd, hdata, hwritten, fun d hd c => ?_, hsub, hnodup⟩
  obtain ⟨f, hf⟩ := hframe d hd
  rw [← hf]
  exact (receive_encode f c d.1).2

def oneByte : List Byte := [0xAA, 0x55, 7, 0, 1, 0, 9, 0x55, 0xAA]

def relayOne : List Action :=
  [.taskStart true, .connectState 1 .connected, .mtuChanged 1 1400 0, .uart oneByte fun _ => true,
    .get true, .send true 0]

theorem relay_end_to_end_one :
    ∃ s, run step Server.start relayOne = some s ∧ ∃ item, item.msg.data = oneByte ∧
      s.notified.map Notify.item = [item] ∧ ∃ frames : List (Frame 1 1024),
        [oneByte] = frames.map Frame.encode ∧
        (Client.start.receiveAll [(.notification, item)]).written = frames.map Frame.payload := by
  have hrun : (run step Server.start relayOne).map (fun s => s.notified.map Notify.item) =
      some [⟨0, some 0, ⟨oneByte, by decide⟩⟩] := by decide +kernel
  obtain ⟨s, hs, hsent⟩ := Option.map_eq_some_iff.mp hrun
  obtain ⟨frames, hdata, hwritten, -⟩ := relay_end_to_end hs Client.start
    [(.notification, ⟨0, some 0, ⟨oneByte, by decide⟩⟩)] (by rw [hsent]; exact List.Sublist.refl _)
  exact ⟨s, hs, _, rfl, hsent, frames, hdata, hwritten⟩

end NearLink.Ict
