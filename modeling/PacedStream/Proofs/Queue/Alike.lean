import PacedStream.Queue.Sizing
import PacedStream.Proofs.Queue.Lists
import Mathlib.Data.List.Forall2

/-!
Queues of the same size with corresponding items. Where the cursors stand and what unused slots hold
shows in no operation: operations on such queues succeed together and lead to such queues again.
-/

namespace PacedStream
set_option autoImplicit false

variable {α : Type} [Inhabited α] {R : α → α → Prop} {q r : Queue α} {items items' : List α}

/-- The same size, and corresponding items on both sides of the mark. -/
structure Queue.Alike (R : α → α → Prop) (q r : Queue α) : Prop where
  ordered : q.Ordered
  ordered' : r.Ordered
  size_eq : r.size = q.size
  minSize_eq : r.minSize = q.minSize
  passed : List.Forall₂ R q.passed r.passed
  ahead : List.Forall₂ R q.ahead r.ahead

namespace Queue

theorem Alike.toList (h : q.Alike R r) : List.Forall₂ R q.toList r.toList := by
  rw [h.ordered.toList_eq, h.ordered'.toList_eq]
  exact List.rel_append h.passed h.ahead

theorem Alike.length_eq (h : q.Alike R r) : r.length = q.length := by
  rw [← length_toList, ← length_toList, h.toList.length_eq]

theorem Alike.room_eq (h : q.Alike R r) : r.room = q.room := by
  rw [room, room, h.size_eq, h.length_eq]

theorem Alike.head_eq_mark_iff (h : q.Alike R r) : r.head = r.mark ↔ q.head = q.mark := by
  rw [h.ordered.head_eq_mark_iff, h.ordered'.head_eq_mark_iff, ← List.length_eq_zero_iff,
    ← List.length_eq_zero_iff, h.passed.length_eq]

theorem Alike.front (h : q.Alike R r) (hne : q.head ≠ q.tail) (hne' : r.head ≠ r.tail) :
    R q.front r.front := by
  have hlists := h.toList
  rw [toList_pop h.ordered hne, toList_pop h.ordered' hne'] at hlists
  exact (List.forall₂_cons.mp hlists).1

theorem alike_of_empty (hq : q.Ordered) (hr : r.Ordered) (size_eq : r.size = q.size)
    (minSize_eq : r.minSize = q.minSize) (hnil : q.toList = []) (hnil' : r.toList = []) :
    q.Alike R r := by
  rw [hq.toList_eq, List.append_eq_nil_iff] at hnil
  rw [hr.toList_eq, List.append_eq_nil_iff] at hnil'
  refine ⟨hq, hr, size_eq, minSize_eq, ?_, ?_⟩
  · rw [hnil.1, hnil'.1]
    exact .nil
  · rw [hnil.2, hnil'.2]
    exact .nil

theorem Alike.rewind (h : q.Alike R r) : q.rewind.Alike R r.rewind := by
  refine ⟨ordered_rewind h.ordered, ordered_rewind h.ordered', h.size_eq, h.minSize_eq, ?_, ?_⟩
  · rw [passed_rewind h.ordered, passed_rewind h.ordered']
    exact .nil
  · rw [ahead_rewind, ahead_rewind]
    exact h.toList

theorem Alike.clear (h : q.Alike R r) : q.clear.Alike R r.clear :=
  alike_of_empty (ordered_clear h.ordered) (ordered_clear h.ordered') h.size_eq h.minSize_eq
    (toList_clear h.ordered) (toList_clear h.ordered')

theorem Alike.pop (h : q.Alike R r) (lead : q.head ≠ q.mark) : q.pop.Alike R r.pop := by
  have lead' : r.head ≠ r.mark := fun heq => lead (h.head_eq_mark_iff.mp heq)
  have hne := h.ordered.head_ne_tail lead
  have hne' := h.ordered'.head_ne_tail lead'
  refine ⟨ordered_pop h.ordered hne, ordered_pop h.ordered' hne', h.size_eq, h.minSize_eq, ?_, ?_⟩
  · rw [passed_pop h.ordered hne, passed_pop h.ordered' hne']
    simpa only [List.drop_one] using List.forall₂_drop 1 h.passed
  · rw [ahead_pop lead, ahead_pop lead']
    exact h.ahead

theorem alike_push? (h : q.Alike R r) (hitems : List.Forall₂ R items items') :
    Option.Rel (Alike R) (q.push? items) (r.push? items') := by
  have hfits : items'.length ≤ r.room ↔ items.length ≤ q.room := by
    rw [h.room_eq, hitems.length_eq]
  cases hpush : q.push? items with
  | none =>
    have hfull : ¬ items.length ≤ q.room := fun hroom => by simp [push?, hroom] at hpush
    have hfull' : r.push? items' = none := if_neg fun hroom => hfull (hfits.mp hroom)
    rw [hfull']
    exact .none
  | some queue =>
    have hroom : items.length ≤ q.room := by
      by_contra hfull
      simp [push?, hfull] at hpush
    have hpush' : r.push? items' = some (items'.foldl write r) := if_pos (hfits.mpr hroom)
    have hpushed := pushed_of_push? h.ordered hpush
    have hpushed' := pushed_of_push? h.ordered' hpush'
    rw [hpush']
    refine .some ⟨hpushed.ordered, hpushed'.ordered, ?_, ?_, ?_, ?_⟩
    · rw [hpushed.size_eq, hpushed'.size_eq, h.size_eq]
    · rw [hpushed.minSize_eq, hpushed'.minSize_eq, h.minSize_eq]
    · rw [hpushed.passed_eq, hpushed'.passed_eq]
      exact h.passed
    · rw [hpushed.ahead_eq, hpushed'.ahead_eq]
      exact List.rel_append h.ahead hitems

theorem alike_resize? (h : q.Alike R r) (size : Nat) :
    Option.Rel (Alike R) (q.resize? size) (r.resize? size) := by
  cases hresize : q.resize? size with
  | none =>
    have hnone : r.resize? size = none := by
      rw [resize?_eq_none_iff, h.size_eq, h.minSize_eq, h.length_eq]
      exact resize?_eq_none_iff.mp hresize
    rw [hnone]
    exact .none
  | some queue =>
    cases hresize' : r.resize? size with
    | none =>
      rw [resize?_eq_none_iff, h.size_eq, h.minSize_eq, h.length_eq, ← resize?_eq_none_iff,
        hresize] at hresize'
      cases hresize'
    | some queue' =>
      have hresized := resized_of_resize? h.ordered hresize
      have hresized' := resized_of_resize? h.ordered' hresize'
      refine .some ⟨hresized.ordered, hresized'.ordered, ?_, ?_, ?_, ?_⟩
      · rw [hresized.size_eq, hresized'.size_eq, h.minSize_eq]
      · rw [hresized.minSize_eq, hresized'.minSize_eq, h.minSize_eq]
      · rw [hresized.passed_eq, hresized'.passed_eq]
        exact h.passed
      · rw [hresized.ahead_eq, hresized'.ahead_eq]
        exact h.ahead

end Queue

namespace Sizing

theorem alike_grow (h : q.Alike R r) (maxSize count n : Nat) :
    (grow maxSize count n r).enough = (grow maxSize count n q).enough ∧
      (grow maxSize count n q).queue.Alike R (grow maxSize count n r).queue := by
  induction n generalizing q r with
  | zero => exact ⟨by simp only [grow, h.room_eq], h⟩
  | succ n ih =>
    unfold grow
    rw [h.room_eq, h.size_eq]
    split
    · exact ⟨rfl, h⟩
    · split
      · exact ⟨rfl, h⟩
      · have hresize := Queue.alike_resize? h (min (q.size * 2) maxSize)
        generalize q.resize? (min (q.size * 2) maxSize) = larger? at hresize ⊢
        generalize r.resize? (min (q.size * 2) maxSize) = larger?' at hresize ⊢
        cases hresize with
        | none => exact ⟨rfl, h⟩
        | some hlarger => exact ih hlarger

theorem alike_makeRoom (s : Sizing) (h : q.Alike R r) (count : Nat) :
    (s.makeRoom r count).enough = (s.makeRoom q count).enough ∧
      (s.makeRoom q count).queue.Alike R (s.makeRoom r count).queue := by
  unfold makeRoom
  rw [h.size_eq]
  exact alike_grow h s.maxSize count _

theorem alike_halve? (s : Sizing) (h : q.Alike R r) (now : Int) :
    Option.Rel (Queue.Alike R) (s.halve? q now) (s.halve? r now) := by
  unfold halve? halved?
  rw [h.length_eq, h.size_eq, h.minSize_eq]
  split
  · split
    · exact Queue.alike_resize? h _
    · exact .none
  · exact .none

end Sizing
end PacedStream
