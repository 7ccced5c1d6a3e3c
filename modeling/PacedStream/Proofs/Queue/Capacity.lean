import Mathlib.Algebra.Group.Nat.Defs
import PacedStream.Proofs.Queue.Growth

/-!
How far a queue grows. Doubling ends at the first number of slots that leaves room, and at the
greatest one allowed if none does. It moves all slots and neither list.
-/

namespace PacedStream
namespace Sizing
set_option autoImplicit false

variable {maxSize size need k : Nat}

/-- The slots after `k` doublings, none of which goes beyond the greatest number. A queue with more
than that keeps them. -/
def sizeAfter (maxSize size k : Nat) : Nat := max size (min (size * 2 ^ k) maxSize)

/-- After `k` doublings, and not before, more than `need` slots are there. -/
structure FirstFit (maxSize size need k : Nat) : Prop where
  fits : need < sizeAfter maxSize size k
  short : ∀ j < k, sizeAfter maxSize size j ≤ need

@[simp] theorem sizeAfter_zero : sizeAfter maxSize size 0 = size := by
  unfold sizeAfter
  omega

theorem sizeAfter_le : sizeAfter maxSize size k ≤ max size maxSize := by
  unfold sizeAfter
  omega

theorem sizeAfter_succ (hmax : size < maxSize) :
    sizeAfter maxSize size (k + 1) = sizeAfter maxSize (min (size * 2) maxSize) k := by
  have hpos : 0 < 2 ^ k := Nat.two_pow_pos k
  have hpow : size * 2 ^ (k + 1) = size * 2 * 2 ^ k := by rw [Nat.pow_succ', Nat.mul_assoc]
  have hle : size * 2 ≤ size * 2 * 2 ^ k := Nat.le_mul_of_pos_right _ hpos
  unfold sizeAfter
  rw [hpow]
  by_cases hdouble : size * 2 ≤ maxSize
  · rw [Nat.min_eq_left hdouble]
    omega
  · have hcapped : maxSize ≤ maxSize * 2 ^ k := Nat.le_mul_of_pos_right _ hpos
    rw [Nat.min_eq_right (by omega : maxSize ≤ size * 2)]
    omega

theorem firstFit_zero (h : need < size) : FirstFit maxSize size need 0 :=
  ⟨by rwa [sizeAfter_zero], fun _ hj => absurd hj (Nat.not_lt_zero _)⟩

theorem FirstFit.succ (hmax : size < maxSize) (hshort : size ≤ need)
    (h : FirstFit maxSize (min (size * 2) maxSize) need k) :
    FirstFit maxSize size need (k + 1) := by
  refine ⟨sizeAfter_succ hmax ▸ h.fits, fun j hj => ?_⟩
  cases j with
  | zero => rwa [sizeAfter_zero]
  | succ j =>
    rw [sizeAfter_succ hmax]
    exact h.short j (Nat.lt_of_succ_lt_succ hj)

theorem FirstFit.unique {j : Nat} (h : FirstFit maxSize size need j)
    (h' : FirstFit maxSize size need k) : j = k := by
  rcases Nat.lt_trichotomy j k with hlt | heq | hlt
  · exact absurd h.fits (Nat.not_lt.mpr (h'.short j hlt))
  · exact heq
  · exact absurd h'.fits (Nat.not_lt.mpr (h.short k hlt))

variable {α : Type} [Inhabited α] {q : Queue α} {count n : Nat}

theorem length_doubled (hq : q.Ordered) (hmax : q.size < maxSize) :
    (doubled maxSize q).length = q.length := by
  have hlt := lt_size_doubled hq hmax
  have hlength := hq.length_lt
  rw [size_doubled hq hmax] at hlt
  exact Queue.length_relaid (by omega)

theorem grow_of_fits (hq : q.Ordered) (hn : maxSize - q.size ≤ n)
    (hfits : q.length + count < max q.size maxSize) :
    (grow maxSize count n q).enough = true ∧ ∃ k, FirstFit maxSize q.size (q.length + count) k ∧
      (grow maxSize count n q).queue.size = sizeAfter maxSize q.size k := by
  induction n generalizing q with
  | zero =>
    have hroom : q.length + count < q.size := by omega
    rw [grow_of_room ((Queue.le_room_iff hq).mpr hroom)]
    exact ⟨rfl, 0, firstFit_zero hroom, sizeAfter_zero.symm⟩
  | succ n ih =>
    by_cases hroom : q.length + count < q.size
    · rw [grow_of_room ((Queue.le_room_iff hq).mpr hroom)]
      exact ⟨rfl, 0, firstFit_zero hroom, sizeAfter_zero.symm⟩
    · have hmax : q.size < maxSize := by omega
      have hlt := lt_size_doubled hq hmax
      have hsize := size_doubled hq hmax
      have hlength := length_doubled hq hmax
      obtain ⟨henough, k, hfirst, hgrown⟩ := ih (ordered_doubled hq hmax) (by omega) (by omega)
      rw [hlength, hsize] at hfirst
      rw [hsize, ← sizeAfter_succ hmax] at hgrown
      rw [grow_of_short hq (fun h => hroom ((Queue.le_room_iff hq).mp h)) hmax]
      exact ⟨henough, k + 1, hfirst.succ hmax (Nat.le_of_not_lt hroom), hgrown⟩

theorem grow_of_excess (hq : q.Ordered) (hn : maxSize - q.size ≤ n)
    (hexcess : max q.size maxSize ≤ q.length + count) :
    (grow maxSize count n q).enough = false ∧
      (grow maxSize count n q).queue.size = max q.size maxSize := by
  have hshort : ¬ count ≤ q.room := fun h => by
    have hroom := (Queue.le_room_iff hq).mp h
    omega
  induction n generalizing q with
  | zero =>
    have hmax : maxSize ≤ q.size := by omega
    rw [grow_of_full hshort hmax]
    exact ⟨rfl, (Nat.max_eq_left hmax).symm⟩
  | succ n ih =>
    by_cases hmax : q.size < maxSize
    · have hlt := lt_size_doubled hq hmax
      have hsize := size_doubled hq hmax
      have hlength := length_doubled hq hmax
      have hdoubled := ordered_doubled hq hmax
      have hshort' : ¬ count ≤ (doubled maxSize q).room := fun h => by
        have hroom := (Queue.le_room_iff hdoubled).mp h
        omega
      rw [grow_of_short hq hshort hmax]
      have hnext := ih hdoubled (by omega) (by omega) hshort'
      exact ⟨hnext.1, hnext.2.trans (by omega)⟩
    · rw [grow_of_full hshort (Nat.le_of_not_lt hmax)]
      exact ⟨rfl, (Nat.max_eq_left (Nat.le_of_not_lt hmax)).symm⟩

theorem size_grow_le (hq : q.Ordered) (hn : maxSize - q.size ≤ n) :
    (grow maxSize count n q).queue.size ≤ max q.size maxSize := by
  by_cases hfits : q.length + count < max q.size maxSize
  · obtain ⟨_, k, _, hsize⟩ := grow_of_fits hq hn hfits
    rw [hsize]
    exact sizeAfter_le
  · exact Nat.le_of_eq (grow_of_excess hq hn (Nat.le_of_not_lt hfits)).2

end Sizing
end PacedStream
