import PacedStream.Proofs.Queue.Lists

/-!
A queue in a circle of slots refines a list with a marker. Main statement: on every queue reached
by operations that are permitted and leave the cursors in the circle, each operation and each
observation is the one on the list.
-/

namespace PacedStream
set_option autoImplicit false

/-- A list of queued items with a marker in it, and the bounds of its length. -/
@[ext] structure View (α : Type) where
  items : List α
  /-- Items in front of the marker. -/
  offset : Nat
  size : Nat
  minSize : Nat

namespace Queue

inductive Operation (α : Type) where
  | push (items : List α)
  | pop
  | pass
  | dropTo (slot : Nat)
  | rewind
  | clear
  | resize (size : Nat)

section Circle
variable {α : Type} {q : Queue α}

def InCircle (q : Queue α) : Prop := q.head < q.size ∧ q.mark < q.size ∧ q.tail < q.size

instance : Decidable q.InCircle := inferInstanceAs (Decidable (_ ∧ _ ∧ _))

theorem Ordered.inCircle (hq : q.Ordered) : q.InCircle := ⟨hq.head_lt, hq.mark_lt, hq.tail_lt⟩

end Circle

variable {α : Type} [Inhabited α]

def perform (q : Queue α) : Operation α → Queue α × Bool
  | .push items => ((q.push? items).getD q, (q.push? items).isSome)
  | .pop => (q.pop, true)
  | .pass => (q.pass, true)
  | .dropTo i => (q.dropTo i, true)
  | .rewind => (q.rewind, true)
  | .clear => (q.clear, true)
  | .resize size => ((q.resize? size).getD q, (q.resize? size).isSome)

def Permits (q : Queue α) : Operation α → Prop
  | .pop => q.head ≠ q.tail
  | .pass => q.mark ≠ q.tail
  | .dropTo i => q.distance q.head i ≤ q.scanned
  | _ => True

instance (q : Queue α) : (op : Operation α) → Decidable (q.Permits op)
  | .pop => inferInstanceAs (Decidable (q.head ≠ q.tail))
  | .pass => inferInstanceAs (Decidable (q.mark ≠ q.tail))
  | .dropTo i => inferInstanceAs (Decidable (q.distance q.head i ≤ q.scanned))
  | .push _ | .rewind | .clear | .resize _ => isTrue trivial

inductive Reachable : Queue α → Prop where
  | create (size minSize : Nat) : Reachable (create size minSize)
  | perform {q : Queue α} (op : Operation α) :
      Reachable q → q.Permits op → (q.perform op).1.InCircle → Reachable (q.perform op).1

def view (q : Queue α) : View α where
  items := q.toList
  offset := q.scanned
  size := q.size
  minSize := q.minSize

end Queue

namespace View
variable {α : Type}

/-- The same operations on a list with a marker. The items in front of a slot are counted by
`before`. -/
def perform (v : View α) (before : Nat → Nat) : Queue.Operation α → View α × Bool
  | .push items =>
    if v.items.length + items.length < v.size then ({ v with items := v.items ++ items }, true)
    else (v, false)
  | .pop => ({ v with items := v.items.tail, offset := v.offset - 1 }, true)
  | .pass => ({ v with offset := v.offset + 1 }, true)
  | .dropTo i =>
    ({ v with items := v.items.drop (before i), offset := v.offset - before i }, true)
  | .rewind => ({ v with offset := 0 }, true)
  | .clear => ({ v with items := [], offset := 0 }, true)
  | .resize size =>
    let target := max size v.minSize
    if target ≠ v.size ∧ target ≤ v.items.length then (v, false)
    else ({ v with size := target }, true)

end View

namespace Queue
variable {α : Type} [Inhabited α]

/-- A queue behaves as a list with a marker. -/
structure Refines (q : Queue α) (v : View α) : Prop where
  inCircle : q.InCircle
  offset_le : v.offset ≤ v.items.length
  length_lt : v.items.length < v.size
  length_eq : q.length = v.items.length
  scanned_eq : q.scanned = v.offset
  room_eq : q.room = v.size - v.items.length - 1
  isEmpty_iff : q.isEmpty ↔ v.items = []
  front_eq : ∀ a rest, v.items = a :: rest → q.slot? q.head = some a
  /-- A slot of the queue reads the item behind as many as lie in front of that slot. -/
  slot_eq : ∀ i < q.size, q.distance q.head i < v.items.length →
    q.slot? i = v.items[q.distance q.head i]?
  /-- Only dropping to a place outside the circle takes a cursor out of it. -/
  inCircle_iff : ∀ op, q.Permits op →
    ((q.perform op).1.InCircle ↔ ∀ i, op = .dropTo i → i < q.size)
  refused : ∀ op, (q.perform op).2 = false → (q.perform op).1 = q
  answer_eq : ∀ op, q.Permits op → (q.perform op).1.InCircle →
    (q.perform op).2 = (v.perform (q.distance q.head) op).2
  view_eq : ∀ op, q.Permits op → (q.perform op).1.InCircle →
    (q.perform op).1.view = (v.perform (q.distance q.head) op).1

variable {q : Queue α} {op : Operation α}

theorem ordered_getD_push? (hq : q.Ordered) (items : List α) : ((q.push? items).getD q).Ordered := by
  cases h : q.push? items with
  | none => exact hq
  | some r => exact (pushed_of_push? hq h).ordered

theorem ordered_getD_resize? (hq : q.Ordered) (size : Nat) :
    ((q.resize? size).getD q).Ordered := by
  cases h : q.resize? size with
  | none => exact hq
  | some r => exact (resized_of_resize? hq h).ordered

/-- Dropping is the one operation that can leave the order, by taking the head out of the circle. -/
theorem ordered_perform (hq : q.Ordered) (hop : q.Permits op)
    (hslot : ∀ i, op = .dropTo i → i < q.size) : (q.perform op).1.Ordered := by
  cases op with
  | push items => exact ordered_getD_push? hq items
  | pop => exact ordered_pop hq hop
  | pass => exact ordered_pass hq hop
  | dropTo i => exact ordered_dropTo hq (hslot i rfl) hop
  | rewind => exact ordered_rewind hq
  | clear => exact ordered_clear hq
  | resize size => exact ordered_getD_resize? hq size

theorem inCircle_perform_iff (hq : q.Ordered) (hop : q.Permits op) :
    (q.perform op).1.InCircle ↔ ∀ i, op = .dropTo i → i < q.size := by
  constructor
  · rintro h i rfl
    exact h.1
  · intro hslot
    exact (ordered_perform hq hop hslot).inCircle

theorem Reachable.ordered (h : Reachable q) : q.Ordered := by
  induction h with
  | create size minSize => exact ordered_create size minSize
  | perform op _ hop hcircle ih =>
    exact ordered_perform ih hop ((inCircle_perform_iff ih hop).mp hcircle)

theorem perform_of_refused (h : (q.perform op).2 = false) : (q.perform op).1 = q := by
  cases op with
  | push items =>
    have hnone : q.push? items = none := by simpa [perform] using h
    simp [perform, hnone]
  | resize size =>
    have hnone : q.resize? size = none := by simpa [perform] using h
    simp [perform, hnone]
  | pop | pass | dropTo | rewind | clear => cases h

theorem perform_push_view (hq : q.Ordered) (items : List α) (before : Nat → Nat) :
    ((q.perform (.push items)).1.view, (q.perform (.push items)).2) =
      q.view.perform before (.push items) := by
  have hiff : (q.push? items).isSome ↔ q.length + items.length < q.size := isSome_push?_iff hq
  cases h : q.push? items with
  | none =>
    have hfull : ¬ q.length + items.length < q.size := by
      rw [← hiff, h]
      simp
    simp [perform, View.perform, view, h, hfull]
  | some r =>
    have hpushed := pushed_of_push? hq h
    have hroom : q.length + items.length < q.size := by
      rw [← hiff, h]
      rfl
    have hscanned : r.scanned = q.scanned := by
      rw [← length_passed, hpushed.passed_eq, length_passed]
    simp [perform, View.perform, view, h, hroom, hpushed.toList_eq hq, hscanned, hpushed.size_eq,
      hpushed.minSize_eq]

theorem perform_resize_view (hq : q.Ordered) (size : Nat) (before : Nat → Nat) :
    ((q.perform (.resize size)).1.view, (q.perform (.resize size)).2) =
      q.view.perform before (.resize size) := by
  have hiff := resize?_eq_none_iff (q := q) (n := size)
  cases h : q.resize? size with
  | none =>
    have hsmall := hiff.mp h
    simp only [perform, View.perform, view, h, length_toList]
    rw [if_pos hsmall]
    rfl
  | some r =>
    have hresized := resized_of_resize? hq h
    have hfits : ¬ (max size q.minSize ≠ q.size ∧ max size q.minSize ≤ q.length) := by
      rw [← hiff, h]
      simp
    have hscanned : r.scanned = q.scanned := by
      rw [← length_passed, hresized.passed_eq, length_passed]
    simp only [perform, View.perform, view, h, length_toList, Option.getD_some, Option.isSome_some]
    rw [if_neg hfits, hresized.toList_eq hq, hscanned, hresized.size_eq, hresized.minSize_eq]

theorem perform_view (hq : q.Ordered) (hop : q.Permits op)
    (hslot : ∀ i, op = .dropTo i → i < q.size) :
    ((q.perform op).1.view, (q.perform op).2) = q.view.perform (q.distance q.head) op := by
  cases op with
  | push items => exact perform_push_view hq items _
  | resize size => exact perform_resize_view hq size _
  | pop =>
    have hlist : q.pop.toList = q.toList.tail := by
      rw [toList_pop hq hop, List.tail_cons]
    exact Prod.ext (View.ext hlist (scanned_pop hq) rfl rfl) rfl
  | pass =>
    exact Prod.ext (View.ext toList_pass (scanned_pass hq hop) rfl rfl) rfl
  | dropTo i =>
    have hi := hslot i rfl
    obtain ⟨hscanned, _⟩ := distance_add_dropTo hq hi hop
    have hleft : (q.dropTo i).scanned = q.scanned - q.distance q.head i := by omega
    exact Prod.ext (View.ext (toList_dropTo hq hi hop) hleft rfl rfl) rfl
  | rewind =>
    have hzero : q.rewind.scanned = 0 := distance_self hq.head_lt
    exact Prod.ext (View.ext toList_rewind hzero rfl rfl) rfl
  | clear =>
    have hzero : q.clear.scanned = 0 := distance_self (ordered_clear hq).head_lt
    exact Prod.ext (View.ext (toList_clear hq) hzero rfl rfl) rfl

theorem refines_view (h : Reachable q) : q.Refines q.view := by
  have hq := h.ordered
  constructor
  case inCircle => exact hq.inCircle
  case offset_le => simpa [view] using hq.scanned_le
  case length_lt => simpa [view] using hq.length_lt
  case length_eq => exact length_toList.symm
  case scanned_eq => rfl
  case room_eq => simp [view, room]
  case isEmpty_iff =>
    rw [isEmpty, beq_iff_eq]
    exact hq.head_eq_tail_iff
  case front_eq => exact fun a rest hcons => (hq.slot?_head hcons).1
  case slot_eq =>
    intro i hi hlt
    have hlt' : q.distance q.head i < q.length := by simpa [view] using hlt
    have hget : q.toList[q.distance q.head i]? = some (q.slot i) := by
      rw [toList, getElem?_itemsFrom hlt', add_distance hq.head_lt hi]
    rw [hq.slot?_eq hi]
    exact hget.symm
  case inCircle_iff => exact fun op hop => inCircle_perform_iff hq hop
  case refused => exact fun op hno => perform_of_refused hno
  case answer_eq =>
    intro op hop hcircle
    have hslot := (inCircle_perform_iff hq hop).mp hcircle
    exact congrArg Prod.snd (perform_view hq hop hslot)
  case view_eq =>
    intro op hop hcircle
    have hslot := (inCircle_perform_iff hq hop).mp hcircle
    exact congrArg Prod.fst (perform_view hq hop hslot)

/-- Items on both sides of the end of the circle, with the scan between them. -/
theorem refines_view_wrapped :
    ∃ q : Queue Nat, Reachable q ∧ q.tail < q.head ∧ q.view = ⟨[3, 4, 5], 1, 4, 4⟩ ∧
      q.Refines q.view := by
  have hfull : Reachable (Queue.create 4 4 |>.perform (.push [1, 2, 3])).1 :=
    .perform _ (.create 4 4) (by decide) (by decide)
  have hone := Reachable.perform .pop hfull (by decide) (by decide)
  have htwo := Reachable.perform .pop hone (by decide) (by decide)
  have hwrapped := Reachable.perform (.push [4, 5]) htwo (by decide) (by decide)
  have hscanned := Reachable.perform .pass hwrapped (by decide) (by decide)
  exact ⟨_, hscanned, by decide, by rfl, refines_view hscanned⟩

end Queue
end PacedStream
