import Mathlib.Algebra.BigOperators.Group.Multiset.Basic
import Mathlib.Tactic.Abel
import NearLink.Flow

/-!
# A server and a client with a link between them

What the server sends is on the link until it arrives. The link may lose it and may change the
order.
-/

namespace NearLink

variable {σ α τ β ε ι : Type*}

/-! ## The system -/

/-- What happens to the client: a message of the server arrives, or something else. -/
inductive Heard (β ε ι : Type*)
  | arrival (how : ε) (item : ι)
  | other (b : β)

def Heard.item : Heard β ε ι → Option ι
  | .arrival _ item => some item
  | .other _ => none

structure Link (σ τ β ε ι : Type*) where
  server : σ
  /-- what was sent and has not arrived -/
  air : List ι
  client : τ
  /-- bookkeeping: what has happened to the client -/
  heard : List (Heard β ε ι)

namespace Link

def start (s : σ) (c : τ) : Link σ τ β ε ι := ⟨s, [], c, []⟩

/-- What has arrived at the client. -/
def arrived (n : Link σ τ β ε ι) : List ι := n.heard.filterMap Heard.item

theorem arrived_arrival (heard : List (Heard β ε ι)) (how : ε) (item : ι) :
    (heard ++ [Heard.arrival how item]).filterMap Heard.item = heard.filterMap Heard.item ++ [item] :=
  filterMap_snoc _ heard _

theorem arrived_other (heard : List (Heard β ε ι)) (b : β) :
    (heard ++ [Heard.other b]).filterMap Heard.item = heard.filterMap Heard.item :=
  (filterMap_snoc _ heard _).trans (List.append_nil _)

/-- A step of the server or of the client, or what becomes of the `i`-th message on the link. -/
inductive Action (α β ε : Type*)
  | server (a : α)
  | client (b : β)
  | deliver (i : Nat) (how : ε)
  | lose (i : Nat)

def Action.served : Action α β ε → Option α
  | .server a => some a
  | .client _ | .deliver _ _ | .lose _ => none

def atServer {M : Type*} [Zero M] (f : σ → α → M) (n : Link σ τ β ε ι) : Action α β ε → M
  | .server a => f n.server a
  | .client _ | .deliver _ _ | .lose _ => 0

theorem atServer_unserved {M : Type*} [Zero M] (f : σ → α → M) (n : Link σ τ β ε ι)
    {a : Action α β ε} (h : a.served = none) : atServer f n a = 0 := by
  cases a with
  | server a => cases h
  | _ => rfl

/-- The server meets `ok`, whatever the others do. -/
def ServerMeets (ok : σ → α → Prop) (n : Link σ τ β ε ι) : Action α β ε → Prop
  | .server a => ok n.server a
  | .client _ | .deliver _ _ | .lose _ => True

instance (ok : σ → α → Prop) [∀ s a, Decidable (ok s a)] (n : Link σ τ β ε ι) :
    ∀ a, Decidable (ServerMeets ok n a)
  | .server a => inferInstanceAs (Decidable (ok n.server a))
  | .client _ | .deliver _ _ | .lose _ => .isTrue trivial

/-- The server meets `ok`, and what was sent first arrives first. -/
def InTurn (ok : σ → α → Prop) (n : Link σ τ β ε ι) : Action α β ε → Prop
  | .server a => ok n.server a
  | .deliver i _ => i = 0
  | .client _ | .lose _ => True

instance (ok : σ → α → Prop) [∀ s a, Decidable (ok s a)] (n : Link σ τ β ε ι) :
    ∀ a, Decidable (InTurn ok n a)
  | .server a => inferInstanceAs (Decidable (ok n.server a))
  | .deliver i _ => inferInstanceAs (Decidable (i = 0))
  | .client _ | .lose _ => .isTrue trivial

end Link

/-! ## What arrives in each connection -/

section Connections

variable (cuts : β → Bool)

def Heard.record (h : List (List ι) × List ι) : Heard β ε ι → List (List ι) × List ι
  | .arrival _ item => (h.1, h.2 ++ [item])
  | .other b => if cuts b then (h.1 ++ [h.2], []) else h

/-- What arrived in each connection that has ended, and since then. What `cuts` ends a connection. -/
def Link.arrivals (heard : List (Heard β ε ι)) : List (List ι) × List ι :=
  heard.foldl (Heard.record cuts) ([], [])

/-- What arrived in each connection, oldest first. -/
def Link.connections (heard : List (Heard β ε ι)) : List (List ι) :=
  (Link.arrivals cuts heard).1 ++ [(Link.arrivals cuts heard).2]

theorem Link.arrivals_snoc (heard : List (Heard β ε ι)) (e : Heard β ε ι) :
    Link.arrivals cuts (heard ++ [e]) = Heard.record cuts (Link.arrivals cuts heard) e := by
  unfold Link.arrivals
  rw [List.foldl_append]
  rfl

theorem Link.connections_flatten (heard : List (Heard β ε ι)) :
    (Link.connections cuts heard).flatten = heard.filterMap Heard.item := by
  induction heard using List.reverseRecOn with
  | nil => rfl
  | append_singleton heard e ih =>
    rw [filterMap_snoc, ← ih]
    unfold Link.connections
    rw [Link.arrivals_snoc]
    cases e with
    | arrival how item => simp [Heard.record, Heard.item]
    | other b =>
      simp only [Heard.record, Heard.item, Option.toList_none, List.append_nil]
      split <;> simp

theorem Link.arrived_eq (n : Link σ τ β ε ι) :
    n.arrived = (Link.arrivals cuts n.heard).1.flatten ++ (Link.arrivals cuts n.heard).2 := by
  rw [Link.arrived, ← Link.connections_flatten cuts, Link.connections, List.flatten_append,
    List.flatten_singleton]

end Connections

/-! ## The two sides -/

/-- The two sides of a link. The client is notified of what arrives and of nothing else. -/
structure Sides (σ α τ β ε ι : Type*) where
  serve : σ → α → Option σ
  /-- all that the server has handed to its stack -/
  sent : σ → List ι
  /-- what a step hands to the stack -/
  handed : σ → α → List ι
  /-- the stack sends it -/
  succeeds : α → Bool
  sent_serve : ∀ s a t, serve s a = some t → sent t = sent s ++ handed s a
  hear : τ → β → Option τ
  arrival : ε → ι → β
  receive : ε → ι → τ → τ
  hear_arrival : ∀ how item c, hear c (arrival how item) = some (receive how item c)
  /-- brings no message -/
  quiet : β → Bool

namespace Sides

variable (w : Sides σ α τ β ε ι)

def step (n : Link σ τ β ε ι) : Link.Action α β ε → Option (Link σ τ β ε ι)
  | .server a => (w.serve n.server a).map fun s =>
    { n with server := s, air := n.air ++ if w.succeeds a then w.handed n.server a else [] }
  | .client b =>
    if w.quiet b then
      (w.hear n.client b).map fun c => { n with client := c, heard := n.heard ++ [.other b] }
    else none
  | .deliver i how => n.air[i]?.map fun item =>
    { n with
      air := n.air.eraseIdx i
      client := w.receive how item n.client
      heard := n.heard ++ [.arrival how item] }
  | .lose i => n.air[i]?.map fun _ => { n with air := n.air.eraseIdx i }

/-- Lost on the link, or not sent by the stack. -/
def lost (n : Link σ τ β ε ι) : Link.Action α β ε → Multiset ι
  | .server a => if w.succeeds a then 0 else ↑(w.handed n.server a)
  | .lose i => ↑n.air[i]?.toList
  | .client _ | .deliver _ _ => 0

variable {w}

theorem step_serve {n : Link σ τ β ε ι} {a : α} {s : σ} (h : w.serve n.server a = some s) :
    w.step n (.server a) = some { n with
      server := s
      air := n.air ++ if w.succeeds a then w.handed n.server a else [] } :=
  Option.map_eq_some_iff.mpr ⟨s, h, rfl⟩

theorem step_hear {n : Link σ τ β ε ι} {b : β} {c : τ} (hquiet : w.quiet b = true)
    (h : w.hear n.client b = some c) :
    w.step n (.client b) = some { n with client := c, heard := n.heard ++ [.other b] } :=
  (if_pos hquiet).trans (Option.map_eq_some_iff.mpr ⟨c, h, rfl⟩)

theorem step_deliver {n : Link σ τ β ε ι} {i : Nat} {item : ι} (h : n.air[i]? = some item)
    (how : ε) :
    w.step n (.deliver i how) = some { n with
      air := n.air.eraseIdx i
      client := w.receive how item n.client
      heard := n.heard ++ [.arrival how item] } :=
  Option.map_eq_some_iff.mpr ⟨item, h, rfl⟩

/-! ## The server -/

theorem step_server {n n' : Link σ τ β ε ι} {a : Link.Action α β ε} (hstep : w.step n a = some n') :
    (∃ b, a = .server b ∧ w.serve n.server b = some n'.server) ∨
      a.served = none ∧ n'.server = n.server := by
  cases a with
  | server a =>
    obtain ⟨s, hs, rfl⟩ := Option.map_eq_some_iff.mp hstep
    exact Or.inl ⟨a, rfl, hs⟩
  | client b =>
    obtain ⟨-, hstep⟩ := Option.ite_none_right_eq_some.mp hstep
    obtain ⟨c, -, rfl⟩ := Option.map_eq_some_iff.mp hstep
    exact Or.inr ⟨rfl, rfl⟩
  | deliver i how =>
    obtain ⟨item, -, rfl⟩ := Option.map_eq_some_iff.mp hstep
    exact Or.inr ⟨rfl, rfl⟩
  | lose i =>
    obtain ⟨item, -, rfl⟩ := Option.map_eq_some_iff.mp hstep
    exact Or.inr ⟨rfl, rfl⟩

section Served

variable {n n' : Link σ τ β ε ι} {acts : List (Link.Action α β ε)}

theorem run_served (hrun : run w.step n acts = some n') :
    run w.serve n.server (acts.filterMap Link.Action.served) = some n'.server := by
  induction acts generalizing n with
  | nil =>
    obtain rfl := Option.some.inj hrun
    rfl
  | cons a acts ih =>
    obtain ⟨u, hu, hrest⟩ := Option.bind_eq_some_iff.mp hrun
    rcases step_server hu with ⟨b, rfl, hs⟩ | ⟨hnone, hsame⟩
    · exact (run_cons hs _).trans (ih hrest)
    · rw [List.filterMap_cons_none hnone, ← hsame]
      exact ih hrest

theorem flow_served {M : Type*} [AddMonoid M] (f : σ → α → M) (hrun : run w.step n acts = some n') :
    flow w.step (Link.atServer f) n acts =
      flow w.serve f n.server (acts.filterMap Link.Action.served) := by
  induction acts generalizing n with
  | nil => rfl
  | cons a acts ih =>
    obtain ⟨u, hu, hrest⟩ := Option.bind_eq_some_iff.mp hrun
    rw [flow_cons hu, ih hrest]
    rcases step_server hu with ⟨b, rfl, hs⟩ | ⟨hnone, hsame⟩
    · exact (flow_cons hs _).symm
    · rw [List.filterMap_cons_none hnone, ← hsame, Link.atServer_unserved f n hnone, zero_add]

theorem meets_served {ok : σ → α → Prop} (hok : Meets w.step (Link.ServerMeets ok) n acts)
    (hrun : run w.step n acts = some n') :
    Meets w.serve ok n.server (acts.filterMap Link.Action.served) := by
  induction acts generalizing n with
  | nil => trivial
  | cons a acts ih =>
    obtain ⟨u, hu, hrest⟩ := Option.bind_eq_some_iff.mp hrun
    have hmeets := ih (hok.2 u hu) hrest
    rcases step_server hu with ⟨b, rfl, hs⟩ | ⟨hnone, hsame⟩
    · refine ⟨hok.1, fun t ht => ?_⟩
      obtain rfl := Option.some.inj (hs.symm.trans ht)
      exact hmeets
    · rw [List.filterMap_cons_none hnone, ← hsame]
      exact hmeets

end Served

/-! ## The link -/

/-- `m` is what was lost on the link so far. -/
def OnLink (w : Sides σ α τ β ε ι) (m : Multiset ι) (n : Link σ τ β ε ι) : Prop :=
  ↑(w.sent n.server) = (↑n.arrived + ↑n.air : Multiset ι) + m

theorem onLink_start {s : σ} (hs : w.sent s = []) (c : τ) : w.OnLink 0 (.start s c) := by
  unfold OnLink
  rw [Link.start, hs]
  rfl

theorem OnLink.mem {m : Multiset ι} {n : Link σ τ β ε ι} (h : w.OnLink m n) {item : ι}
    (hitem : item ∈ n.air) : item ∈ w.sent n.server := by
  rw [← Multiset.mem_coe, h]
  simp [hitem]

theorem take_out {l : List ι} {i : Nat} {item : ι} (h : l[i]? = some item) :
    (↑l : Multiset ι) = ↑(l.eraseIdx i) + {item} := by
  obtain ⟨hi, rfl⟩ := List.getElem?_eq_some_iff.mp h
  rw [add_comm, ← Multiset.coe_eq_coe.mpr (List.getElem_cons_eraseIdx_perm hi),
    ← Multiset.cons_coe, Multiset.singleton_add]

theorem step_onLink {m : Multiset ι} {n n' : Link σ τ β ε ι} {a : Link.Action α β ε}
    (h : w.OnLink m n) (hstep : w.step n a = some n') : w.OnLink (m + w.lost n a) n' := by
  unfold OnLink Link.arrived at *
  cases a with
  | server a =>
    obtain ⟨s, hs, rfl⟩ := Option.map_eq_some_iff.mp hstep
    rw [w.sent_serve _ _ _ hs, ← Multiset.coe_add, h, lost]
    split_ifs
    · simp only [← Multiset.coe_add, add_zero]
      abel
    · simp only [List.append_nil]
      abel
  | client b =>
    obtain ⟨-, hstep⟩ := Option.ite_none_right_eq_some.mp hstep
    obtain ⟨c, -, rfl⟩ := Option.map_eq_some_iff.mp hstep
    rw [Link.arrived_other, h, lost, add_zero]
  | deliver i how =>
    obtain ⟨item, hi, rfl⟩ := Option.map_eq_some_iff.mp hstep
    rw [h, take_out hi, lost, Link.arrived_arrival]
    simp only [← Multiset.coe_add, Multiset.coe_singleton, add_zero]
    abel
  | lose i =>
    obtain ⟨item, hi, rfl⟩ := Option.map_eq_some_iff.mp hstep
    rw [h, take_out hi, lost, hi]
    simp only [Option.toList_some, Multiset.coe_singleton]
    abel

/-! ## In turn -/

/-- What has arrived and what is on the link were sent in this order. -/
def InOrder (w : Sides σ α τ β ε ι) (n : Link σ τ β ε ι) : Prop :=
  (n.arrived ++ n.air).Sublist (w.sent n.server)

theorem step_inOrder {ok : σ → α → Prop} {n n' : Link σ τ β ε ι} {a : Link.Action α β ε}
    (h : w.InOrder n) (hok : Link.InTurn ok n a) (hstep : w.step n a = some n') : w.InOrder n' := by
  unfold InOrder Link.arrived at *
  cases a with
  | server a =>
    obtain ⟨s, hs, rfl⟩ := Option.map_eq_some_iff.mp hstep
    rw [w.sent_serve _ _ _ hs, ← List.append_assoc]
    apply h.append
    split_ifs
    · exact List.Sublist.refl _
    · exact List.nil_sublist _
  | client b =>
    obtain ⟨-, hstep⟩ := Option.ite_none_right_eq_some.mp hstep
    obtain ⟨c, -, rfl⟩ := Option.map_eq_some_iff.mp hstep
    rwa [Link.arrived_other]
  | deliver i how =>
    obtain ⟨item, hi, rfl⟩ := Option.map_eq_some_iff.mp hstep
    obtain rfl : i = 0 := hok
    obtain ⟨rest, hair⟩ := List.head?_eq_some_iff.mp (List.head?_eq_getElem?.trans hi)
    rw [Link.arrived_arrival, hair, List.append_assoc]
    rwa [hair] at h
  | lose i =>
    obtain ⟨item, -, rfl⟩ := Option.map_eq_some_iff.mp hstep
    exact ((List.Sublist.refl _).append (List.eraseIdx_sublist _ _)).trans h

/-! ## The client -/

variable (w) in
def action : Heard β ε ι → β
  | .arrival how item => w.arrival how item
  | .other b => b

/-- The client has done what it does after all it has heard. -/
structure Heeds (w : Sides σ α τ β ε ι) (c : τ) (n : Link σ τ β ε ι) : Prop where
  run : run w.hear c (n.heard.map w.action) = some n.client
  quiet : ∀ b, Heard.other b ∈ n.heard → w.quiet b = true

theorem heeds_start (s : σ) (c : τ) : w.Heeds c (.start s c) := ⟨rfl, by simp [Link.start]⟩

theorem Heeds.snoc {c d : τ} {n : Link σ τ β ε ι} (h : w.Heeds c n) {e : Heard β ε ι}
    (hhear : w.hear n.client (w.action e) = some d) (hquiet : ∀ b, e = .other b → w.quiet b = true)
    (air : List ι) : w.Heeds c { n with air := air, client := d, heard := n.heard ++ [e] } := by
  refine ⟨?_, fun b hb => ?_⟩
  · rw [List.map_append, List.map_cons, List.map_nil]
    exact run_snoc.mpr ⟨n.client, h.run, hhear⟩
  · rcases List.mem_append.mp hb with hold | hnew
    · exact h.quiet b hold
    · exact hquiet b (List.mem_singleton.mp hnew).symm

theorem step_heeds {c : τ} {n n' : Link σ τ β ε ι} {a : Link.Action α β ε} (h : w.Heeds c n)
    (hstep : w.step n a = some n') : w.Heeds c n' := by
  cases a with
  | server a =>
    obtain ⟨s, -, rfl⟩ := Option.map_eq_some_iff.mp hstep
    exact ⟨h.run, h.quiet⟩
  | client b =>
    obtain ⟨hquiet, hstep⟩ := Option.ite_none_right_eq_some.mp hstep
    obtain ⟨d, hd, rfl⟩ := Option.map_eq_some_iff.mp hstep
    exact h.snoc (e := .other b) hd (fun b' hb => by cases hb; exact hquiet) n.air
  | deliver i how =>
    obtain ⟨item, hi, rfl⟩ := Option.map_eq_some_iff.mp hstep
    exact h.snoc (e := .arrival how item) (w.hear_arrival how item n.client)
      (fun b hb => by cases hb) (n.air.eraseIdx i)
  | lose i =>
    obtain ⟨item, -, rfl⟩ := Option.map_eq_some_iff.mp hstep
    exact ⟨h.run, h.quiet⟩

end Sides

end NearLink
