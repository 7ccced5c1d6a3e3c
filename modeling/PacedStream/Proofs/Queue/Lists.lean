import PacedStream.Proofs.Queue.Order

/-!
What each operation does to the items passed and the items ahead. Pushing lengthens the second
list, a scan moves items from the second to the first, and only popping, dropping and clearing take
items away; a change of size moves all slots and neither list.
-/

namespace PacedStream
namespace Queue
set_option autoImplicit false

section Cursors
variable {α : Type} {q : Queue α} {a : α} {i n : Nat}

theorem ordered_clear (hq : q.Ordered) : q.clear.Ordered := by
  have hsize : 0 < q.size := Nat.lt_of_le_of_lt (Nat.zero_le _) hq.head_lt
  exact ⟨hsize, hsize, hsize, Nat.le_refl _, hq.minSize_le, hq.two_le⟩

@[simp] theorem size_write : (q.write a).size = q.size := by simp [write, Queue.size]

@[simp] theorem scanned_write : (q.write a).scanned = q.scanned := by
  simp [scanned, distance, write, Queue.size]

theorem length_write (hq : q.Ordered) (hroom : q.length + 1 < q.size) :
    (q.write a).length = q.length + 1 := by
  have h := distance_next_right hq.head_lt hq.tail_lt hroom
  simpa [length, distance, write, Queue.size] using h

theorem ordered_write (hq : q.Ordered) (hroom : q.length + 1 < q.size) : (q.write a).Ordered := by
  have hlength := length_write (a := a) hq hroom
  have hscanned := hq.scanned_le
  constructor
  · rw [size_write]
    exact hq.head_lt
  · rw [size_write]
    exact hq.mark_lt
  · rw [size_write]
    exact next_lt hq.tail_lt
  · rw [hlength, scanned_write]
    omega
  · rw [size_write]
    exact hq.minSize_le
  · exact hq.two_le

theorem unscanned_write (hq : q.Ordered) (hroom : q.length + 1 < q.size) :
    (q.write a).unscanned = q.unscanned + 1 := by
  have hold := hq.scanned_add_unscanned
  have hnew := (ordered_write (a := a) hq hroom).scanned_add_unscanned
  rw [length_write hq hroom, scanned_write] at hnew
  omega

theorem le_room_iff (hq : q.Ordered) : n ≤ q.room ↔ q.length + n < q.size := by
  have h := hq.length_lt
  unfold room
  omega

theorem isSome_push?_iff {items : List α} (hq : q.Ordered) :
    (q.push? items).isSome ↔ q.length + items.length < q.size := by
  rw [← le_room_iff hq]
  unfold push?
  split <;> simp_all

@[simp] theorem length_pass : q.pass.length = q.length := rfl

theorem scanned_pass (hq : q.Ordered) (hne : q.mark ≠ q.tail) :
    q.pass.scanned = q.scanned + 1 := by
  have hpos : q.unscanned ≠ 0 := fun hzero =>
    hne ((distance_eq_zero_iff hq.mark_lt hq.tail_lt).mp hzero)
  have hsum := hq.scanned_add_unscanned
  have hlt := hq.length_lt
  have hroom : q.scanned + 1 < q.size := by omega
  exact distance_next_right hq.head_lt hq.mark_lt hroom

theorem unscanned_pass (hq : q.Ordered) (hne : q.mark ≠ q.tail) :
    q.pass.unscanned + 1 = q.unscanned :=
  distance_next_left hq.mark_lt hq.tail_lt hne

theorem ordered_pass (hq : q.Ordered) (hne : q.mark ≠ q.tail) : q.pass.Ordered := by
  have hscanned := scanned_pass hq hne
  have hunscanned := unscanned_pass hq hne
  have hsum := hq.scanned_add_unscanned
  refine ⟨hq.head_lt, next_lt hq.mark_lt, hq.tail_lt, ?_, hq.minSize_le, hq.two_le⟩
  rw [hscanned, length_pass]
  omega

theorem distance_add_dropTo (hq : q.Ordered) (hi : i < q.size)
    (h : q.distance q.head i ≤ q.scanned) :
    q.distance q.head i + (q.dropTo i).scanned = q.scanned ∧
      q.distance q.head i + (q.dropTo i).length = q.length :=
  ⟨distance_trans hq.head_lt hi hq.mark_lt h,
    distance_trans hq.head_lt hi hq.tail_lt (Nat.le_trans h hq.scanned_le)⟩

theorem ordered_dropTo (hq : q.Ordered) (hi : i < q.size)
    (h : q.distance q.head i ≤ q.scanned) : (q.dropTo i).Ordered := by
  obtain ⟨hscanned, hlength⟩ := distance_add_dropTo hq hi h
  have hle := hq.scanned_le
  refine ⟨hi, hq.mark_lt, hq.tail_lt, ?_, hq.minSize_le, hq.two_le⟩
  omega

theorem ordered_rewind (hq : q.Ordered) : q.rewind.Ordered := by
  refine ⟨hq.head_lt, hq.head_lt, hq.tail_lt, ?_, hq.minSize_le, hq.two_le⟩
  have hzero : q.rewind.scanned = 0 := distance_self hq.head_lt
  omega

theorem length_pop (hq : q.Ordered) (hne : q.head ≠ q.tail) : q.pop.length + 1 = q.length :=
  distance_next_left hq.head_lt hq.tail_lt hne

theorem scanned_pop (hq : q.Ordered) : q.pop.scanned = q.scanned - 1 := by
  by_cases h : q.head = q.mark
  · have hzero : q.scanned = 0 := (distance_eq_zero_iff hq.head_lt hq.mark_lt).mpr h
    have hnext : q.pop.scanned = q.distance (q.next q.head) (q.next q.mark) := by
      simp [scanned, pop, h, distance, Queue.size]
    rw [hnext, ← h, distance_self (next_lt hq.head_lt), hzero]
  · have hstep := distance_next_left hq.head_lt hq.mark_lt h
    have hnext : q.pop.scanned = q.distance (q.next q.head) q.mark := by
      simp [scanned, pop, h, distance, Queue.size]
    have hdist : q.scanned = q.distance q.head q.mark := rfl
    omega

theorem ordered_pop (hq : q.Ordered) (hne : q.head ≠ q.tail) : q.pop.Ordered := by
  have hlength := length_pop hq hne
  have hscanned := scanned_pop hq
  have hle := hq.scanned_le
  refine ⟨next_lt hq.head_lt, ?_, hq.tail_lt, by omega, hq.minSize_le, hq.two_le⟩
  change (if q.head = q.mark then q.next q.mark else q.mark) < q.size
  split
  · exact next_lt hq.mark_lt
  · exact hq.mark_lt

end Cursors

variable {α : Type} [Inhabited α] {q r : Queue α} {a : α} {items : List α} {i n : Nat}

@[simp] theorem size_create (size minSize : Nat) :
    (create size minSize : Queue α).size = max size (max minSize 2) := by
  simp [create, Queue.size]

theorem ordered_create (size minSize : Nat) : (create size minSize : Queue α).Ordered := by
  have hsize : 0 < (create size minSize : Queue α).size := by
    rw [size_create]
    omega
  constructor
  · exact hsize
  · exact hsize
  · exact hsize
  · exact Nat.le_refl _
  · rw [size_create]
    exact Nat.le_max_right _ _
  · exact Nat.le_max_right _ _

@[simp] theorem toList_create (size minSize : Nat) : (create size minSize : Queue α).toList = [] :=
  (ordered_create size minSize).head_eq_tail_iff.mp rfl

theorem toList_clear (hq : q.Ordered) : q.clear.toList = [] :=
  (ordered_clear hq).head_eq_tail_iff.mp rfl

theorem slot_write (ht : q.tail < q.size) :
    (q.write a).slot i = if i = q.tail then a else q.slot i := by
  have ht' : q.tail < q.slots.size := ht
  by_cases hi : i = q.tail
  · subst hi
    simp [slot, slot?, write, ht']
  · have hne : q.tail ≠ i := fun h => hi h.symm
    simp [slot, slot?, write, hi, hne]

theorem itemsFrom_write (hq : q.Ordered) (hi : i < q.size) (hn : n ≤ q.distance i q.tail) :
    (q.write a).itemsFrom i n = q.itemsFrom i n := by
  apply itemsFrom_congr size_write
  intro k hk
  have hlt := distance_lt (j := q.tail) hi
  have hne : (i + k) % q.size ≠ q.tail := by
    intro h
    have hdist := distance_add (q := q) hi (k := k) (by omega)
    rw [h] at hdist
    omega
  rw [slot_write hq.tail_lt, if_neg hne]

theorem passed_write (hq : q.Ordered) : (q.write a).passed = q.passed := by
  rw [passed, scanned_write]
  exact itemsFrom_write hq hq.head_lt hq.scanned_le

theorem ahead_write (hq : q.Ordered) (hroom : q.length + 1 < q.size) :
    (q.write a).ahead = q.ahead ++ [a] := by
  have hkept : (q.write a).itemsFrom q.mark q.unscanned = q.ahead :=
    itemsFrom_write hq hq.mark_lt (Nat.le_refl _)
  have htail : (q.mark + q.unscanned) % q.size = q.tail := add_distance hq.mark_lt hq.tail_lt
  have hlast : (q.write a).itemsFrom q.tail 1 = [a] := by
    rw [itemsFrom_succ (by rw [size_write]; exact hq.tail_lt), slot_write hq.tail_lt, if_pos rfl,
      itemsFrom_zero]
  have hmark : (q.write a).mark = q.mark := rfl
  rw [ahead, unscanned_write hq hroom, hmark, itemsFrom_add, size_write, htail, hlast, hkept]

/-- How a queue stands to the one before a push. -/
structure Pushed (q r : Queue α) (items : List α) : Prop where
  ordered : r.Ordered
  passed_eq : r.passed = q.passed
  ahead_eq : r.ahead = q.ahead ++ items
  size_eq : r.size = q.size
  minSize_eq : r.minSize = q.minSize

theorem pushed_foldl (hq : q.Ordered) (hroom : q.length + items.length < q.size) :
    Pushed q (items.foldl write q) items := by
  induction items generalizing q with
  | nil => exact ⟨hq, rfl, by simp, rfl, rfl⟩
  | cons a items ih =>
    simp only [List.length_cons] at hroom
    have hone : q.length + 1 < q.size := by omega
    have hmany : (q.write a).length + items.length < (q.write a).size := by
      rw [length_write hq hone, size_write]
      omega
    have h := ih (ordered_write hq hone) hmany
    refine ⟨h.ordered, h.passed_eq.trans (passed_write hq), ?_, h.size_eq.trans size_write,
      h.minSize_eq⟩
    rw [List.foldl_cons, h.ahead_eq, ahead_write hq hone, List.append_assoc, List.singleton_append]

theorem pushed_of_push? (hq : q.Ordered) (h : q.push? items = some r) : Pushed q r items := by
  have hroom := (isSome_push?_iff hq).mp (by rw [h]; rfl)
  unfold push? at h
  rw [if_pos ((le_room_iff hq).mpr hroom)] at h
  cases h
  exact pushed_foldl hq hroom

theorem Pushed.toList_eq (h : Pushed q r items) (hq : q.Ordered) :
    r.toList = q.toList ++ items := by
  rw [h.ordered.toList_eq, hq.toList_eq, h.passed_eq, h.ahead_eq, List.append_assoc]

theorem length_foldl_write (hq : q.Ordered) (hroom : q.length + items.length < q.size) :
    (items.foldl write q).length = q.length + items.length := by
  rw [← length_toList, (pushed_foldl hq hroom).toList_eq hq, List.length_append, length_toList]

theorem passed_pass (hq : q.Ordered) (hne : q.mark ≠ q.tail) :
    q.pass.passed = q.passed ++ [q.slot q.mark] := by
  have hmark : (q.head + q.scanned) % q.size = q.mark := add_distance hq.head_lt hq.mark_lt
  have hlast : q.itemsFrom q.mark 1 = [q.slot q.mark] := by
    rw [itemsFrom_succ hq.mark_lt, itemsFrom_zero]
  have hsame : q.pass.itemsFrom q.head (q.scanned + 1) = q.itemsFrom q.head (q.scanned + 1) := rfl
  have hhead : q.pass.head = q.head := rfl
  rw [passed, scanned_pass hq hne, hhead, hsame, itemsFrom_add, hmark, hlast]
  rfl

theorem ahead_eq_cons (hq : q.Ordered) (hne : q.mark ≠ q.tail) :
    q.ahead = q.slot q.mark :: q.pass.ahead := by
  rw [ahead, ← unscanned_pass hq hne, itemsFrom_succ hq.mark_lt]
  rfl

theorem toList_pass : q.pass.toList = q.toList := rfl

@[simp] theorem passed_rewind (hq : q.Ordered) : q.rewind.passed = [] :=
  (ordered_rewind hq).head_eq_mark_iff.mp rfl

@[simp] theorem toList_rewind : q.rewind.toList = q.toList := rfl

@[simp] theorem ahead_rewind : q.rewind.ahead = q.toList := rfl

theorem passed_dropTo (hq : q.Ordered) (hi : i < q.size) (h : q.distance q.head i ≤ q.scanned) :
    (q.dropTo i).passed = q.passed.drop (q.distance q.head i) := by
  obtain ⟨hscanned, _⟩ := distance_add_dropTo hq hi h
  have hsame : (q.dropTo i).itemsFrom i (q.dropTo i).scanned =
      q.itemsFrom i (q.dropTo i).scanned := rfl
  have hhead : (q.head + q.distance q.head i) % q.size = i := add_distance hq.head_lt hi
  rw [passed, passed, ← hscanned, itemsFrom_add, hhead, List.drop_left' length_itemsFrom]
  exact hsame

@[simp] theorem ahead_dropTo : (q.dropTo i).ahead = q.ahead := rfl

theorem toList_dropTo (hq : q.Ordered) (hi : i < q.size) (h : q.distance q.head i ≤ q.scanned) :
    (q.dropTo i).toList = q.toList.drop (q.distance q.head i) := by
  rw [(ordered_dropTo hq hi h).toList_eq, hq.toList_eq, passed_dropTo hq hi h, ahead_dropTo,
    List.drop_append_of_le_length (by rw [length_passed]; exact h)]

theorem toList_pop (hq : q.Ordered) (hne : q.head ≠ q.tail) : q.toList = q.front :: q.pop.toList := by
  rw [toList, ← length_pop hq hne, itemsFrom_succ hq.head_lt]
  rfl

theorem passed_pop (hq : q.Ordered) (hne : q.head ≠ q.tail) : q.pop.passed = q.passed.tail := by
  have hlist := toList_pop hq hne
  rw [hq.toList_eq, (ordered_pop hq hne).toList_eq] at hlist
  have hlength : q.pop.passed.length = q.passed.length - 1 := by
    rw [length_passed, length_passed, scanned_pop hq]
  cases hp : q.passed with
  | nil =>
    rw [hp] at hlength
    exact List.length_eq_zero_iff.mp hlength
  | cons a rest =>
    rw [hp] at hlist hlength
    obtain ⟨_, hrest⟩ := List.cons.inj hlist
    exact (List.append_inj_left hrest (by simpa using hlength.symm)).symm

theorem passed_eq_cons (hq : q.Ordered) (lead : q.head ≠ q.mark) :
    q.passed = q.front :: q.pop.passed := by
  have hlist := toList_pop hq (hq.head_ne_tail lead)
  rw [hq.toList_eq] at hlist
  rw [passed_pop hq (hq.head_ne_tail lead)]
  cases hcons : q.passed with
  | nil => exact absurd (hq.head_eq_mark_iff.mpr hcons) lead
  | cons a rest =>
    rw [hcons] at hlist
    rw [(List.cons.inj hlist).1]
    rfl

theorem ahead_pop (lead : q.head ≠ q.mark) : q.pop.ahead = q.ahead := by
  have hmark : q.pop.mark = q.mark := if_neg lead
  rw [ahead, unscanned, hmark]
  rfl

structure Resized (q r : Queue α) (size : Nat) : Prop where
  ordered : r.Ordered
  passed_eq : r.passed = q.passed
  ahead_eq : r.ahead = q.ahead
  size_eq : r.size = max size q.minSize
  minSize_eq : r.minSize = q.minSize

/-- The queue laid out from the first of a number of slots that suffices. -/
def relaid (q : Queue α) (size : Nat) : Queue α where
  slots := (q.toList ++ List.replicate (size - q.length) default).toArray
  head := 0
  mark := q.scanned
  tail := q.length
  minSize := q.minSize

theorem resize?_eq : q.resize? n =
    if max n q.minSize = q.size then some q
    else if max n q.minSize ≤ q.length then none
    else some (q.relaid (max n q.minSize)) := rfl

theorem resize?_eq_none_iff :
    q.resize? n = none ↔ max n q.minSize ≠ q.size ∧ max n q.minSize ≤ q.length := by
  rw [resize?_eq]
  split
  · simp_all
  · split <;> simp_all

theorem size_relaid (h : q.length ≤ n) : (q.relaid n).size = n := by
  simp [relaid, Queue.size]
  omega

theorem slot_relaid {k : Nat} (hk : k < q.length) :
    (q.relaid n).slot k = q.slot ((q.head + k) % q.size) := by
  have hlist : (q.toList)[k]? = some (q.slot ((q.head + k) % q.size)) := getElem?_itemsFrom hk
  have hlt : k < q.toList.length := by rw [length_toList]; exact hk
  simp [slot, slot?, relaid, List.getElem?_append_left hlt, hlist]

theorem scanned_relaid (hq : q.Ordered) (hfit : q.length < n) :
    (q.relaid n).scanned = q.scanned := by
  have hsize : (q.relaid n).size = n := size_relaid (Nat.le_of_lt hfit)
  have hmark : q.scanned < n := Nat.lt_of_le_of_lt hq.scanned_le hfit
  rw [scanned, distance_eq (by rw [hsize]; exact Nat.zero_lt_of_lt hfit) (by rw [hsize]; exact hmark)]
  simp [relaid]

theorem length_relaid (hfit : q.length < n) : (q.relaid n).length = q.length := by
  have hsize : (q.relaid n).size = n := size_relaid (Nat.le_of_lt hfit)
  rw [length, distance_eq (by rw [hsize]; exact Nat.zero_lt_of_lt hfit) (by rw [hsize]; exact hfit)]
  simp [relaid]

theorem ordered_relaid (hq : q.Ordered) (hfit : q.length < n) (hmin : q.minSize ≤ n) :
    (q.relaid n).Ordered := by
  have hsize : (q.relaid n).size = n := size_relaid (Nat.le_of_lt hfit)
  constructor
  · rw [hsize]
    exact Nat.zero_lt_of_lt hfit
  · rw [hsize]
    exact Nat.lt_of_le_of_lt hq.scanned_le hfit
  · rw [hsize]
    exact hfit
  · rw [scanned_relaid hq hfit, length_relaid hfit]
    exact hq.scanned_le
  · rw [hsize]
    exact hmin
  · exact hq.two_le

theorem toList_relaid (hfit : q.length < n) : (q.relaid n).toList = q.toList := by
  have hsize : (q.relaid n).size = n := size_relaid (Nat.le_of_lt hfit)
  have hhead : (q.relaid n).head = 0 := rfl
  rw [toList, toList, length_relaid hfit, itemsFrom, itemsFrom]
  apply List.map_congr_left
  intro k hk
  have hk' : k < q.length := List.mem_range.mp hk
  rw [hsize, hhead, Nat.zero_add, Nat.mod_eq_of_lt (by omega), slot_relaid hk']

theorem resized_relaid (hq : q.Ordered) (hfit : q.length < max n q.minSize) :
    Resized q (q.relaid (max n q.minSize)) n := by
  have hordered := ordered_relaid hq hfit (Nat.le_max_right _ _)
  have hlist := toList_relaid hfit
  rw [hordered.toList_eq, hq.toList_eq] at hlist
  have hlength : (q.relaid (max n q.minSize)).passed.length = q.passed.length := by
    rw [length_passed, length_passed, scanned_relaid hq hfit]
  obtain ⟨hpassed, hahead⟩ := List.append_inj hlist hlength
  exact ⟨hordered, hpassed, hahead, size_relaid (Nat.le_of_lt hfit), rfl⟩

theorem resized_of_resize? (hq : q.Ordered) (h : q.resize? n = some r) : Resized q r n := by
  rw [resize?_eq] at h
  split at h
  · rename_i hsame
    cases h
    exact ⟨hq, rfl, rfl, hsame.symm, rfl⟩
  · split at h
    · cases h
    · rename_i hfits
      cases h
      exact resized_relaid hq (by omega)

theorem Resized.toList_eq (h : Resized q r n) (hq : q.Ordered) : r.toList = q.toList := by
  rw [h.ordered.toList_eq, hq.toList_eq, h.passed_eq, h.ahead_eq]

end Queue
end PacedStream
