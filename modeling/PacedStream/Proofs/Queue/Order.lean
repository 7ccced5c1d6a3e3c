import PacedStream.Queue.Basic

/-!
Cursors in order. A queue whose cursors are slots and whose mark lies between head and tail is two
lists, the items that the scan has passed and those ahead of it, and every operation has a short
description on them.
-/

namespace PacedStream
namespace Queue
set_option autoImplicit false

section Circle
variable {α : Type} {q : Queue α} {i j k n : Nat}

theorem add_mod_eq (hi : i < n) (hk : k < n) :
    (i + k) % n = if i + k < n then i + k else i + k - n := by
  split
  · rename_i h
    exact Nat.mod_eq_of_lt h
  · rename_i h
    rw [Nat.mod_eq_sub_mod (by omega), Nat.mod_eq_of_lt (by omega)]

theorem distance_eq (hi : i < q.size) (hj : j < q.size) :
    q.distance i j = if i ≤ j then j - i else j + q.size - i := by
  unfold distance
  split
  · rename_i h
    have hsum : j + q.size - i = (j - i) + q.size := by omega
    rw [hsum, Nat.add_mod_right, Nat.mod_eq_of_lt (by omega)]
  · exact Nat.mod_eq_of_lt (by omega)

theorem distance_lt (hi : i < q.size) : q.distance i j < q.size := Nat.mod_lt _ (by omega)

theorem distance_self (hi : i < q.size) : q.distance i i = 0 := by
  rw [distance_eq hi hi]
  simp

theorem distance_eq_zero_iff (hi : i < q.size) (hj : j < q.size) :
    q.distance i j = 0 ↔ i = j := by
  rw [distance_eq hi hj]
  split <;> omega

theorem next_lt (hi : i < q.size) : q.next i < q.size := by
  unfold next
  split <;> omega

theorem next_eq_mod (hi : i < q.size) : q.next i = (i + 1) % q.size := by
  unfold next
  split
  · rename_i h
    rw [h, Nat.mod_self]
  · exact (Nat.mod_eq_of_lt (by omega)).symm

theorem add_distance (hi : i < q.size) (hj : j < q.size) :
    (i + q.distance i j) % q.size = j := by
  rw [add_mod_eq hi (distance_lt hi), distance_eq hi hj]
  split <;> split <;> omega

theorem distance_add (hi : i < q.size) (hk : k < q.size) :
    q.distance i ((i + k) % q.size) = k := by
  rw [distance_eq hi (Nat.mod_lt _ (by omega)), add_mod_eq hi hk]
  split <;> split <;> omega

theorem distance_next_left (hi : i < q.size) (hj : j < q.size) (hne : i ≠ j) :
    q.distance (q.next i) j + 1 = q.distance i j := by
  rw [distance_eq (next_lt hi) hj, distance_eq hi hj]
  unfold next
  split <;> split <;> split <;> omega

theorem distance_next_right (hi : i < q.size) (hj : j < q.size)
    (hroom : q.distance i j + 1 < q.size) : q.distance i (q.next j) = q.distance i j + 1 := by
  rw [distance_eq hi hj] at hroom
  rw [distance_eq hi (next_lt hj), distance_eq hi hj]
  unfold next
  split at hroom <;> split <;> split <;> omega

theorem distance_trans {l : Nat} (hi : i < q.size) (hj : j < q.size) (hl : l < q.size)
    (h : q.distance i j ≤ q.distance i l) :
    q.distance i j + q.distance j l = q.distance i l := by
  rw [distance_eq hi hj, distance_eq hi hl] at h
  rw [distance_eq hi hj, distance_eq hj hl, distance_eq hi hl]
  split at h <;> split at h <;> split <;> split <;> omega

/-- Cursors are slots, and in logical order the mark lies between head and tail. -/
structure Ordered (q : Queue α) : Prop where
  head_lt : q.head < q.size
  mark_lt : q.mark < q.size
  tail_lt : q.tail < q.size
  scanned_le : q.scanned ≤ q.length
  minSize_le : q.minSize ≤ q.size
  two_le : 2 ≤ q.minSize

theorem Ordered.length_lt (hq : q.Ordered) : q.length < q.size := distance_lt hq.head_lt

theorem Ordered.scanned_add_unscanned (hq : q.Ordered) : q.scanned + q.unscanned = q.length :=
  distance_trans hq.head_lt hq.mark_lt hq.tail_lt hq.scanned_le

theorem Ordered.before_mark (hq : q.Ordered) (hpos : 0 < q.scanned) :
    (q.head + (q.scanned - 1)) % q.size = (q.mark + q.size - 1) % q.size := by
  have hhead := hq.head_lt
  have hmark := hq.mark_lt
  have hlt : q.scanned < q.size := distance_lt hhead
  have hscanned : q.scanned = if q.head ≤ q.mark then q.mark - q.head
      else q.mark + q.size - q.head := distance_eq hhead hmark
  have hback : (q.mark + q.size - 1) % q.size =
      if q.mark = 0 then q.size - 1 else q.mark - 1 := by
    split
    · rename_i hzero
      rw [hzero, Nat.zero_add, Nat.mod_eq_of_lt (by omega)]
    · have hsum : q.mark + q.size - 1 = q.mark - 1 + q.size := by omega
      rw [hsum, Nat.add_mod_right, Nat.mod_eq_of_lt (by omega)]
  rw [add_mod_eq hhead (by omega), hback]
  split at hscanned <;> split <;> split <;> omega

end Circle

variable {α : Type} [Inhabited α] {q : Queue α}

section Items
variable {i j m n : Nat}

@[simp] theorem length_itemsFrom : (q.itemsFrom i n).length = n := by simp [itemsFrom]

@[simp] theorem itemsFrom_zero : q.itemsFrom i 0 = [] := rfl

theorem getElem?_itemsFrom {k : Nat} (hk : k < n) :
    (q.itemsFrom i n)[k]? = some (q.slot ((i + k) % q.size)) := by
  simp [itemsFrom, hk]

theorem itemsFrom_add : q.itemsFrom i (m + n) =
    q.itemsFrom i m ++ q.itemsFrom ((i + m) % q.size) n := by
  simp only [itemsFrom, List.range_add, List.map_append, List.map_map]
  congr 1
  apply List.map_congr_left
  intro k _
  simp only [Function.comp, Nat.mod_add_mod, Nat.add_assoc]

theorem itemsFrom_succ (hi : i < q.size) :
    q.itemsFrom i (n + 1) = q.slot i :: q.itemsFrom (q.next i) n := by
  rw [Nat.add_comm n 1, itemsFrom_add, ← next_eq_mod hi]
  simp [itemsFrom, Nat.mod_eq_of_lt hi]

theorem itemsFrom_congr {r : Queue α} (hsize : r.size = q.size)
    (hslot : ∀ k < n, r.slot ((i + k) % q.size) = q.slot ((i + k) % q.size)) :
    r.itemsFrom i n = q.itemsFrom i n := by
  apply List.map_congr_left
  intro k hk
  rw [hsize]
  exact hslot k (List.mem_range.mp hk)

end Items

def passed (q : Queue α) : List α := q.itemsFrom q.head q.scanned

def ahead (q : Queue α) : List α := q.itemsFrom q.mark q.unscanned

@[simp] theorem length_passed : q.passed.length = q.scanned := length_itemsFrom

@[simp] theorem length_ahead : q.ahead.length = q.unscanned := length_itemsFrom

@[simp] theorem length_toList : q.toList.length = q.length := length_itemsFrom

namespace Ordered

theorem toList_eq (hq : q.Ordered) : q.toList = q.passed ++ q.ahead := by
  have hmark : (q.head + q.scanned) % q.size = q.mark := add_distance hq.head_lt hq.mark_lt
  rw [toList, ← hq.scanned_add_unscanned, itemsFrom_add, hmark]
  rfl

theorem head_eq_mark_iff (hq : q.Ordered) : q.head = q.mark ↔ q.passed = [] := by
  rw [← List.length_eq_zero_iff, length_passed]
  exact (distance_eq_zero_iff hq.head_lt hq.mark_lt).symm

theorem head_eq_tail_iff (hq : q.Ordered) : q.head = q.tail ↔ q.toList = [] := by
  rw [← List.length_eq_zero_iff, length_toList]
  exact (distance_eq_zero_iff hq.head_lt hq.tail_lt).symm

theorem isEmpty_iff (hq : q.Ordered) : q.isEmpty = true ↔ q.toList = [] := by
  rw [isEmpty, beq_iff_eq]
  exact hq.head_eq_tail_iff

theorem passed_eq_nil (hq : q.Ordered) (h : q.toList = []) : q.passed = [] := by
  rw [hq.toList_eq] at h
  exact (List.append_eq_nil_iff.mp h).1

theorem head_ne_tail (hq : q.Ordered) (lead : q.head ≠ q.mark) : q.head ≠ q.tail := by
  intro htail
  have hnil := hq.head_eq_tail_iff.mp htail
  rw [hq.toList_eq] at hnil
  exact lead (hq.head_eq_mark_iff.mpr (List.append_eq_nil_iff.mp hnil).1)

/-- A slot below the size holds an item, so reading it needs no default. -/
theorem slot?_eq (_ : q.Ordered) {i : Nat} (hi : i < q.size) : q.slot? i = some (q.slot i) := by
  have hget : q.slots[i]? = some q.slots[i] := Array.getElem?_eq_getElem hi
  simp [slot, slot?, hget]

theorem slot?_head (hq : q.Ordered) {a : α} {rest : List α} (h : q.toList = a :: rest) :
    q.slot? q.head = some a ∧ q.front = a := by
  have hlength : q.length = rest.length + 1 := by simpa using congrArg List.length h
  rw [toList, hlength, itemsFrom_succ hq.head_lt] at h
  obtain ⟨hslot, _⟩ := List.cons.inj h
  exact ⟨by rw [hq.slot?_eq hq.head_lt, hslot], hslot⟩

end Ordered

end Queue
end PacedStream
