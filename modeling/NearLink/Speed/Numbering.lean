import Mathlib.Data.List.NodupEquivFin
import NearLink.Speed.Intake
import NearLink.Speed.Loss

/-!
# What the client knows of the losses on the whole way

The frames on the UART carry consecutive numbers. Wherever a frame is lost, in front of the
server's queue, at the end of a link, on the link, the client counts it when a later frame of the
same connection arrives.
-/

namespace NearLink.Speed

/-! ## The numbers of queued messages -/

/-- The frame at place `k` carries the number `first + k`, modulo 65536. -/
def Consecutive (first : Nat) (items : List (Gap × Frame 0 1492)) : Prop :=
  ∀ k p, items[k]? = some p → p.2.seq = u16 (first + k)

/-- Each queued message is the frame with its number, and the numbers go up. -/
structure Numbers (first : Nat) (items : List (Gap × Frame 0 1492)) (number : Item → Nat)
    (s : Server) : Prop where
  frame : ∀ item ∈ s.enqueued, ∃ k p, items[k]? = some p ∧ number item = first + k ∧
    p.2.encode = item.data
  increasing : s.enqueued.Pairwise fun a b => number a < number b

theorem exists_numbers {s : Server} (h : Numbered s) {items : List (Gap × Frame 0 1492)}
    (hsub : (s.enqueued.map Item.data).Sublist (items.map fun p => p.2.encode)) (first : Nat) :
    ∃ number, Numbers first items number s := by
  obtain ⟨place, hplace⟩ := List.sublist_iff_exists_orderEmbedding_getElem?_eq.mp hsub
  refine ⟨fun item => first + place item.serial, fun item hitem => ?_, ?_⟩
  · have hat := hplace item.serial
    rw [List.getElem?_map, getElem?_of_numbered h hitem, Option.map_some, List.getElem?_map] at hat
    obtain ⟨p, hp, hdata⟩ := Option.map_eq_some_iff.mp hat.symm
    exact ⟨_, p, hp, rfl, hdata⟩
  · exact h.pairwise.imp fun hlt => Nat.add_lt_add_left (place.strictMono hlt) first

theorem Numbers.recognised {first : Nat} {items : List (Gap × Frame 0 1492)} {number : Item → Nat}
    {s : Server} (h : Numbers first items number s) (hseq : Consecutive first items) {item : Item}
    (hitem : item ∈ s.enqueued) : Client.recognised item.data = some (u16 (number item)) := by
  obtain ⟨k, p, hp, hnumber, hdata⟩ := h.frame item hitem
  rw [← hdata, hnumber, ← hseq k p hp]
  exact Client.recognised_encode p.2 (by decide)

/-- Frames that all differ leave no choice of the numbers. -/
theorem Numbers.number_eq {first : Nat} {items : List (Gap × Frame 0 1492)} {number : Item → Nat}
    {s : Server} (h : Numbers first items number s) (hdiffer : (items.map fun p => p.2.encode).Nodup)
    {item : Item} (hitem : item ∈ s.enqueued) {k : Nat}
    (hk : (items.map fun p => p.2.encode)[k]? = some item.data) : number item = first + k := by
  obtain ⟨j, p, hp, hnumber, hdata⟩ := h.frame item hitem
  have hj : (items.map fun p => p.2.encode)[j]? = some item.data := by
    rw [List.getElem?_map, hp, ← hdata]
    rfl
  have hlt := (List.getElem?_eq_some_iff.mp hj).1
  rw [hnumber, (List.getElem?_inj hlt hdiffer).mp (hj.trans hk.symm)]

/-! ## What arrives in each connection -/

def Client.Action.disconnects : Client.Action → Bool
  | .connectState _ .disconnected => true
  | .connectState _ .connected | .connectState _ .other | .notification _ _ | .txRead _
  | .txWrite _ => false

namespace Network

abbrev connections (heard : List (Heard Client.Action Bool Item)) : List (List Item) :=
  Link.connections Client.Action.disconnects heard

/-! ## What the client counts -/

def numberedHistory (number : Item → Nat) (h : List (List Item) × List Item) : Client.History :=
  ⟨h.1.map (List.map number), h.2.map number⟩

theorem exists_event (number : Item → Nat) (e : Heard Client.Action Bool Item)
    (hseq : ∀ item ∈ e.item, Client.recognised item.data = some (u16 (number item)))
    (hquiet : ∀ a, e = .other a → a.data.isNone) :
    ∃ event : Client.Event, event.action = sides.action e ∧ event.number = e.item.map number ∧
      ∀ h, (numberedHistory number h).record event =
        numberedHistory number (Heard.record Client.Action.disconnects h e) := by
  cases e with
  | arrival accept item =>
    refine ⟨.frame accept (number item) item.data (hseq item rfl), rfl, rfl, fun h => ?_⟩
    simp [numberedHistory, Client.History.record, Heard.record]
  | other a =>
    cases a with
    | notification accept data =>
      obtain rfl : data = none := Option.isNone_iff_eq_none.mp (hquiet _ rfl)
      exact ⟨.unrecognised accept none (by simp), rfl, rfl, fun h => rfl⟩
    | connectState connId connState =>
      cases connState with
      | disconnected =>
        refine ⟨.disconnected connId, rfl, rfl, fun h => ?_⟩
        simp [numberedHistory, Client.History.record, Heard.record, Client.Action.disconnects]
      | connected => exact ⟨.aside (.connectState connId .connected) trivial, rfl, rfl, fun h => rfl⟩
      | other => exact ⟨.aside (.connectState connId .other) trivial, rfl, rfl, fun h => rfl⟩
    | txRead success => exact ⟨.aside (.txRead success) trivial, rfl, rfl, fun h => rfl⟩
    | txWrite uartRet => exact ⟨.aside (.txWrite uartRet) trivial, rfl, rfl, fun h => rfl⟩

theorem exists_events {number : Item → Nat} (heard : List (Heard Client.Action Bool Item))
    (hseq : ∀ item ∈ heard.filterMap Heard.item,
      Client.recognised item.data = some (u16 (number item)))
    (hquiet : ∀ a, Heard.other a ∈ heard → a.data.isNone) :
    ∃ events : List Client.Event, events.map Client.Event.action = heard.map sides.action ∧
      Client.numbers events = (heard.filterMap Heard.item).map number ∧
      Client.history events =
        numberedHistory number (Link.arrivals Client.Action.disconnects heard) := by
  induction heard using List.reverseRecOn with
  | nil => exact ⟨[], rfl, rfl, rfl⟩
  | append_singleton heard e ih =>
    rw [filterMap_snoc] at hseq
    obtain ⟨events, hactions, hnumbers, hhistory⟩ :=
      ih (fun item hitem => hseq item (List.mem_append_left _ hitem))
        (fun a ha => hquiet a (List.mem_append_left _ ha))
    obtain ⟨event, haction, hnumber, hrecord⟩ := exists_event number e
      (fun item hitem => hseq item (List.mem_append_right _ (Option.mem_toList.mpr hitem)))
      (fun a ha => hquiet a (by rw [ha]; simp))
    refine ⟨events ++ [event], ?_, ?_, ?_⟩
    · simp [hactions, haction]
    · rw [Client.numbers_snoc, hnumbers, hnumber, filterMap_snoc, List.map_append]
      cases e.item <;> rfl
    · rw [Client.history_snoc, hhistory, Link.arrivals_snoc, hrecord]

def threeFrames : List (Gap × Frame 0 1492) :=
  [7, 8, 9].map fun seq => (⟨[], by decide⟩, Frame.bare 1492 seq)

/-- The second of the three is lost on the link. -/
def lostOnLink : List Action :=
  [.server (.pairComplete 1 0 true), .server (.uart 100 (.ok (stream threeFrames ⟨[], by decide⟩))),
    .server (.read 0 true), .server (.flowCtrl 0 1), .server (.notify 0 0),
    .server (.read 0 true), .server (.flowCtrl 0 1), .server (.notify 0 0),
    .server (.read 0 true), .server (.flowCtrl 0 1), .server (.notify 0 0),
    .deliver 0 true, .lose 0, .deliver 0 true]

end Network

end NearLink.Speed
