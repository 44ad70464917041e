import NearLink.Ict.Connection

/-!
# Which server the ict_sle client takes

The data of a seek result is a list of fields with a length. The callback looks for the name with
`strstr`, which knows of zero bytes only.
-/

namespace NearLink.Ict

open CString

/-- The cells that `strstr` reads, from the pointer on. -/
def SeekResult.reads (r : SeekResult) : Nat :=
  match r.data with
  | none => 0
  | some data => if r.dataLength > 0 then strstrReads 0 sleUartServerName data else 0

/-- What the callback should do with a result whose memory is `data`. -/
structure SelectsByName (r : SeekResult) (data : List Byte) (u : UartClient) : Prop where
  found : sleUartServerName <:+: data.take r.dataLength →
    UartClient.sleClientSeekResultCbk (some r) u =
      { u with foundServer := true, remoteAddr := r.addr }
  ignored : ¬ sleUartServerName <:+: data.take r.dataLength →
    UartClient.sleClientSeekResultCbk (some r) u = u
  inside : r.reads ≤ r.dataLength

/-- The name stands before the first zero byte, or a zero byte ends the search for a name that is
not there. -/
def Searchable (data : List Byte) : Prop :=
  sleUartServerName <:+: str 0 data ∨ 0 ∈ data ∧ ¬ sleUartServerName <:+: data

instance (data : List Byte) : Decidable (Searchable data) :=
  inferInstanceAs (Decidable (sleUartServerName <:+: str 0 data ∨
    0 ∈ data ∧ ¬ sleUartServerName <:+: data))

theorem nul_notMem_name : (0 : Byte) ∉ sleUartServerName := by decide

theorem name_ne_nil : sleUartServerName ≠ [] := by decide

theorem serverFound_iff {r : SeekResult} {data : List Byte} (hdata : r.data = some data)
    (hpos : 1 ≤ r.dataLength) :
    r.serverFound = true ↔ sleUartServerName <:+: str 0 data := by
  rw [← strstr_isSome_iff nul_notMem_name name_ne_nil]
  simp only [SeekResult.serverFound, hdata, decide_eq_true (show r.dataLength > 0 from hpos),
    Bool.true_and]

theorem selectsByName_iff {r : SeekResult} {data : List Byte} {u : UartClient}
    (hdata : r.data = some data) (hpos : 1 ≤ r.dataLength) (hu : u.foundServer = false) :
    SelectsByName r data u ↔
      (r.serverFound = true ↔ sleUartServerName <:+: data.take r.dataLength) ∧
        strstrReads 0 sleUartServerName data ≤ r.dataLength := by
  have hreads : r.reads = strstrReads 0 sleUartServerName data := by
    simp only [SeekResult.reads, hdata]
    exact if_pos hpos
  have hcbk : UartClient.sleClientSeekResultCbk (some r) u =
      if r.serverFound then { u with foundServer := true, remoteAddr := r.addr } else u := by
    simp only [UartClient.sleClientSeekResultCbk, hu, Bool.false_eq_true, if_false]
  have hchanges : { u with foundServer := true, remoteAddr := r.addr } ≠ u := by
    intro h
    have hflag := congrArg UartClient.foundServer h
    rw [hu] at hflag
    cases hflag
  constructor
  · rintro ⟨hfound, hignored, hinside⟩
    rw [hcbk] at hfound hignored
    rw [hreads] at hinside
    refine ⟨⟨fun hr => ?_, fun hname => ?_⟩, hinside⟩
    · by_contra hname
      rw [if_pos hr] at hignored
      exact hchanges (hignored hname)
    · by_contra hr
      rw [if_neg hr] at hfound
      exact hchanges (hfound hname).symm
  · rintro ⟨hright, hinside⟩
    refine ⟨fun hname => ?_, fun hname => ?_, hreads ▸ hinside⟩
    · rw [hcbk, if_pos (hright.mpr hname)]
    · rw [hcbk, if_neg (mt hright.mp hname)]

/-- A complete local name field. -/
def named : SeekResult :=
  ⟨.zero, some (16 :: 0x0B :: sleUartServerName ++ [0]), 17⟩

/-- A TX power field of 0 dBm stands before the name. -/
def powered : SeekResult :=
  ⟨.zero, some (2 :: 0x0C :: 0 :: 16 :: 0x0B :: sleUartServerName ++ [0]), 20⟩

end NearLink.Ict
