import PacedStream.Proofs.Buffer.Course
import PacedStream.Proofs.Queue.View

/-!
Guarded operations on a queue. Each does the same as the operation it is named after, slot by slot,
and refuses where a slot is not one of the queue's, where a precondition fails or where the cursors
end up out of order. On queues with ordered cursors they refuse nothing that may be asked for.
-/

namespace PacedStream
namespace Guarded
set_option autoImplicit false

section Cursors
variable {α : Type} {q : Queue α} {a : α} {i : Nat}

/-- Cursors are slots, and the mark lies between head and tail. -/
def Sound (q : Queue α) : Prop := q.InCircle ∧ q.scanned ≤ q.length

instance : Decidable (Sound q) := inferInstanceAs (Decidable (_ ∧ _))

def checked (q : Queue α) : Option (Queue α) := if Sound q then some q else none

def write (q : Queue α) (a : α) : Option (Queue α) :=
  if q.tail < q.size then checked (q.write a) else none

def push (q : Queue α) (items : List α) : Option (Queue α) :=
  if items.length ≤ q.room then items.foldlM write q else none

def pop (q : Queue α) : Option (Queue α) := if q.head ≠ q.tail then checked q.pop else none

def pass (q : Queue α) : Option (Queue α) := if q.mark ≠ q.tail then checked q.pass else none

/-- Only slots from the head to the mark may be dropped to. -/
def dropTo (q : Queue α) (i : Nat) : Option (Queue α) :=
  if q.distance q.head i ≤ q.scanned then checked (q.dropTo i) else none

def rewind (q : Queue α) : Option (Queue α) := checked q.rewind

def clear (q : Queue α) : Option (Queue α) := checked q.clear

def readFrom (q : Queue α) : Nat → Nat → Option (List α)
  | _, 0 => some []
  | i, n + 1 => do
    let a ← q.slot? i
    let rest ← readFrom q (q.next i) n
    return a :: rest

def fillFrom (slots : Array α) : Nat → List α → Option (Array α)
  | _, [] => some slots
  | i, a :: rest =>
    if _ : i < slots.size then fillFrom (slots.set i a) (i + 1) rest else none

def resize [Inhabited α] (q : Queue α) (size : Nat) : Option (Option (Queue α)) :=
  let target := max size q.minSize
  if target = q.size then some (some q)
  else if target ≤ q.length then some none
  else do
    let items ← readFrom q q.head q.length
    let slots ← fillFrom (Array.replicate target default) 0 items
    let queue ← checked
      { slots, head := 0, mark := q.scanned, tail := q.length, minSize := q.minSize }
    return some queue

theorem sound_of_ordered (hq : q.Ordered) : Sound q := ⟨hq.inCircle, hq.scanned_le⟩

theorem checked_eq (hq : q.Ordered) : checked q = some q := if_pos (sound_of_ordered hq)

theorem write_eq (hq : q.Ordered) (hroom : q.length + 1 < q.size) :
    write q a = some (q.write a) := by
  rw [write, if_pos hq.tail_lt, checked_eq (Queue.ordered_write hq hroom)]

theorem push_eq {items : List α} (hq : q.Ordered) (hroom : items.length ≤ q.room) :
    push q items = some (items.foldl Queue.write q) := by
  have hlength := (Queue.le_room_iff hq).mp hroom
  rw [push, if_pos hroom]
  clear hroom
  induction items generalizing q with
  | nil => rfl
  | cons a rest ih =>
    rw [List.length_cons] at hlength
    have hone : q.length + 1 < q.size := by omega
    have hrest : (q.write a).length + rest.length < (q.write a).size := by
      rw [Queue.length_write hq hone, Queue.size_write]
      omega
    rw [List.foldlM_cons, write_eq hq hone, List.foldl_cons, Option.bind_eq_bind,
      Option.bind_some]
    exact ih (Queue.ordered_write hq hone) hrest

theorem pop_eq (hq : q.Ordered) (hne : q.head ≠ q.tail) : pop q = some q.pop := by
  rw [pop, if_pos hne, checked_eq (Queue.ordered_pop hq hne)]

/-- Nothing can be popped from an empty queue. -/
example : (pop (Queue.create 4 4 : Queue Nat)).isNone = true := by decide

theorem pass_eq (hq : q.Ordered) (hne : q.mark ≠ q.tail) : pass q = some q.pass := by
  rw [pass, if_pos hne, checked_eq (Queue.ordered_pass hq hne)]

theorem dropTo_eq (hq : q.Ordered) (hi : i < q.size) (h : q.distance q.head i ≤ q.scanned) :
    dropTo q i = some (q.dropTo i) := by
  rw [dropTo, if_pos h, checked_eq (Queue.ordered_dropTo hq hi h)]

theorem rewind_eq (hq : q.Ordered) : rewind q = some q.rewind :=
  checked_eq (Queue.ordered_rewind hq)

theorem clear_eq (hq : q.Ordered) : clear q = some q.clear := checked_eq (Queue.ordered_clear hq)

end Cursors

variable {α : Type} [Inhabited α] {q : Queue α} {i n : Nat}

theorem slot?_eq (hi : i < q.size) : q.slot? i = some (q.slot i) := by
  have hget : q.slots[i]? = some q.slots[i] := Array.getElem?_eq_getElem hi
  simp [Queue.slot, Queue.slot?, hget]

theorem readFrom_eq (hi : i < q.size) : readFrom q i n = some (q.itemsFrom i n) := by
  induction n generalizing i with
  | zero => rfl
  | succ n ih =>
    rw [readFrom, slot?_eq hi, ih (Queue.next_lt hi), Queue.itemsFrom_succ hi]
    rfl

omit [Inhabited α] in
theorem fillFrom_eq (slots : Array α) (items : List α) (h : i + items.length ≤ slots.size) :
    ∃ filled, fillFrom slots i items = some filled ∧
      filled.toList = slots.toList.take i ++ items ++ slots.toList.drop (i + items.length) := by
  induction items generalizing slots i with
  | nil => exact ⟨slots, rfl, by simp⟩
  | cons a rest ih =>
    rw [List.length_cons] at h
    have hi : i < slots.size := by omega
    obtain ⟨filled, hfilled, hlist⟩ := ih (slots.set i a) (i := i + 1)
      (by rw [Array.size_set]; omega)
    have hset : (slots.set i a).toList =
        (slots.toList.take i ++ [a]) ++ slots.toList.drop (i + 1) := by
      rw [Array.toList_set, List.set_eq_take_append_cons_drop, if_pos (by simpa using hi),
        List.append_assoc]
      rfl
    have hfront : (slots.toList.take i ++ [a]).length = i + 1 := by
      rw [List.length_append, List.length_take_of_le (by simpa using Nat.le_of_lt hi)]
      rfl
    refine ⟨filled, ?_, ?_⟩
    · rw [fillFrom, dif_pos hi, hfilled]
    · rw [hlist, hset, List.take_left' hfront, ← List.drop_drop, List.drop_left' hfront,
        List.drop_drop, List.append_assoc, List.append_assoc, List.append_assoc]
      rw [List.length_cons, Nat.add_right_comm, Nat.add_assoc]
      rfl

theorem resize_eq (hq : q.Ordered) (size : Nat) : resize q size = some (q.resize? size) := by
  rw [Queue.resize?_eq]
  unfold resize
  dsimp only
  split
  · rfl
  · split
    · rfl
    · rename_i hfits
      have hlength : q.length < max size q.minSize := Nat.lt_of_not_le hfits
      have hread : readFrom q q.head q.length = some q.toList := readFrom_eq hq.head_lt
      obtain ⟨slots, hslots, hlist⟩ := fillFrom_eq (i := 0)
        (Array.replicate (max size q.minSize) default) q.toList
        (by rw [Queue.length_toList, Array.size_replicate]; omega)
      have hrelaid : (q.relaid (max size q.minSize)).slots = slots := by
        apply Array.toList_inj.mp
        rw [hlist]
        simp [Queue.relaid]
      have hordered := Queue.ordered_relaid hq hlength (Nat.le_max_right _ _)
      simp only [hread, Option.bind_eq_bind, Option.bind_some, hslots]
      rw [← hrelaid]
      exact congrArg (fun r => Option.bind r fun queue => some (some queue)) (checked_eq hordered)

def grow (maxSize count : Nat) : Nat → Queue α → Option (Sizing.Growth α)
  | 0, q => some { queue := q, enough := count ≤ q.room }
  | n + 1, q =>
    if count ≤ q.room then some { queue := q, enough := true }
    else if maxSize ≤ q.size then some { queue := q, enough := false }
    else do
      match ← resize q (min (q.size * 2) maxSize) with
      | none => return { queue := q, enough := false }
      | some larger =>
        let growth ← grow maxSize count n larger
        return { growth with log := .grown larger.size :: growth.log }

def makeRoom (s : Sizing) (q : Queue α) (count : Nat) : Option (Sizing.Growth α) :=
  grow s.maxSize count (s.maxSize - q.size) q

def halve (s : Sizing) (q : Queue α) (now : Int) : Option (Option (Queue α)) :=
  if s.isDue now then
    if q.length < q.size / 4 ∧ q.minSize < q.size then resize q (q.size / 2) else some none
  else some none

theorem grow_eq (maxSize count : Nat) (hq : q.Ordered) :
    grow maxSize count n q = some (Sizing.grow maxSize count n q) := by
  induction n generalizing q with
  | zero => rfl
  | succ n ih =>
    unfold grow Sizing.grow
    split
    · rfl
    · split
      · rfl
      · rw [resize_eq hq]
        cases hresize : q.resize? (min (q.size * 2) maxSize) with
        | none => rfl
        | some larger =>
          have hordered := (Queue.resized_of_resize? hq hresize).ordered
          simp [ih hordered]

theorem makeRoom_eq (s : Sizing) (hq : q.Ordered) (count : Nat) :
    makeRoom s q count = some (s.makeRoom q count) := grow_eq _ _ hq

theorem halve_eq (s : Sizing) (hq : q.Ordered) (now : Int) :
    halve s q now = some (s.halve? q now) := by
  unfold halve Sizing.halve? Sizing.halved?
  split
  · split
    · exact resize_eq hq _
    · rfl
  · rfl

end Guarded
end PacedStream
