import Mathlib.Data.List.Sublists
import Mathlib.Logic.Relation

/-!
# A queue with several readers

What a relay is for: items are put in a queue, readers take them out and hand them on.
Handing on the oldest item first keeps the order.
-/

namespace NearLink

/-- The items in the queue and in the hands of readers, both oldest first, with all items that
were put in and all that were handed on. -/
structure Relay (α : Type*) where
  put : List α
  queue : List α
  held : List α
  sent : List α

namespace Relay

variable {α : Type*}

def empty : Relay α := ⟨[], [], [], []⟩

inductive Step : Relay α → Relay α → Prop
  | put (r : Relay α) (a : α) : Step r { r with put := r.put ++ [a], queue := r.queue ++ [a] }
  | drain (r : Relay α) : Step r { r with queue := [] }
  | take (r : Relay α) {a : α} {q : List α} (h : r.queue = a :: q) :
      Step r { r with queue := q, held := r.held ++ [a] }
  | drop (r : Relay α) {h : List α} (hsub : h.Sublist r.held) : Step r { r with held := h }
  | send (r : Relay α) {a : α} {h : List α} (hheld : r.held = a :: h) :
      Step r { r with held := h, sent := r.sent ++ [a] }

abbrev Steps : Relay α → Relay α → Prop := Relation.ReflTransGen Step

/-- What was handed on, what is held and what is queued came in, in this order. -/
def Ordered (r : Relay α) : Prop := (r.sent ++ r.held ++ r.queue).Sublist r.put

theorem ordered_empty : (empty : Relay α).Ordered := List.Sublist.refl _

theorem Step.ordered {r s : Relay α} (h : Step r s) (hr : r.Ordered) : s.Ordered := by
  unfold Ordered at hr ⊢
  cases h with
  | put a =>
    rw [← List.append_assoc]
    exact hr.append (List.Sublist.refl [a])
  | drain =>
    exact (((List.Sublist.refl _).append (List.nil_sublist _))).trans hr
  | take hq =>
    rw [hq] at hr
    simpa using hr
  | drop hsub =>
    exact ((List.Sublist.refl _).append hsub |>.append (List.Sublist.refl _)).trans hr
  | send hheld =>
    rw [hheld] at hr
    simpa using hr

theorem Steps.ordered {r s : Relay α} (h : Steps r s) (hr : r.Ordered) : s.Ordered := by
  induction h with
  | refl => exact hr
  | tail _ hstep ih => exact hstep.ordered ih

/-- **What is handed on is a subsequence of what came in.** -/
theorem Steps.sent_sublist {s : Relay α} (h : Steps empty s) : s.sent.Sublist s.put := by
  have hord := h.ordered ordered_empty
  rw [Ordered, List.append_assoc] at hord
  exact (List.sublist_append_left _ _).trans hord

theorem steps_put (r : Relay α) (as : List α) :
    Steps r { r with put := r.put ++ as, queue := r.queue ++ as } := by
  induction as generalizing r with
  | nil => simp only [List.append_nil]; exact .refl
  | cons a as ih =>
    refine .head (.put r a) ?_
    simpa using ih { r with put := r.put ++ [a], queue := r.queue ++ [a] }

end Relay

end NearLink
