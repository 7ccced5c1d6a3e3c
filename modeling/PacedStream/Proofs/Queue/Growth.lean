import PacedStream.Proofs.Buffer.Course

/-!
Growth in steps. A queue that grows for some items, takes them, and then grows for more of them ends
in the same slots as one that grows for all of them at once.
-/

namespace PacedStream
set_option autoImplicit false

namespace Queue

variable {α : Type} [Inhabited α] {q : Queue α} {a : α} {items : List α} {n : Nat}

theorem write_relaid (hq : q.Ordered) (hroom : q.length + 1 < q.size) (hfit : q.length + 1 < n) :
    (q.write a).relaid n = (q.relaid n).write a := by
  have hlength := length_write (a := a) hq hroom
  have hlist : (q.write a).toList = q.toList ++ [a] := by
    rw [(ordered_write hq hroom).toList_eq, passed_write hq, ahead_write hq hroom,
      ← List.append_assoc, ← hq.toList_eq]
  have hsize : (q.relaid n).size = n := size_relaid (by omega)
  have hnext : (q.relaid n).next q.length = q.length + 1 := by
    unfold next
    rw [hsize, if_neg (by omega)]
  -- The slot behind the items is the first of the unused ones.
  have hslots : (q.toList ++ List.replicate (n - q.length) default).set q.length a =
      q.toList ++ [a] ++ List.replicate (n - (q.length + 1)) default := by
    have hunused : n - q.length = n - (q.length + 1) + 1 := by omega
    rw [List.set_append_right _ _ (Nat.le_of_eq length_toList), length_toList, Nat.sub_self, hunused,
      List.replicate_succ, List.set_cons_zero, List.append_assoc, List.singleton_append]
  have hwritten : (q.relaid n).write a =
      { q.relaid n with
        slots := (q.relaid n).slots.setIfInBounds q.length a
        tail := (q.relaid n).next q.length } := rfl
  rw [hwritten, hnext]
  unfold relaid
  rw [hlist, hlength, scanned_write, List.setIfInBounds_toArray, hslots]
  rfl

theorem foldl_write_relaid (hq : q.Ordered) (hroom : q.length + items.length < q.size)
    (hfit : q.length + items.length < n) :
    (items.foldl write q).relaid n = items.foldl write (q.relaid n) := by
  induction items generalizing q with
  | nil => rfl
  | cons a items ih =>
    simp only [List.length_cons] at hroom hfit
    have hone : q.length + 1 < q.size := by omega
    have hlength := length_write (a := a) hq hone
    rw [List.foldl_cons, List.foldl_cons, ← write_relaid hq hone (by omega)]
    exact ih (ordered_write hq hone) (by rw [hlength, size_write]; omega) (by omega)

end Queue

namespace Sizing

variable {α : Type} [Inhabited α] {q : Queue α} {items : List α} {s : Sizing}
  {maxSize count less m n : Nat}

def doubled (maxSize : Nat) (q : Queue α) : Queue α := q.relaid (min (q.size * 2) maxSize)

theorem resize?_doubled (hq : q.Ordered) (hmax : q.size < maxSize) :
    q.resize? (min (q.size * 2) maxSize) = some (doubled maxSize q) := by
  have hmin := hq.minSize_le
  have htwo := hq.two_le
  have hlength := hq.length_lt
  have htarget : max (min (q.size * 2) maxSize) q.minSize = min (q.size * 2) maxSize := by omega
  rw [Queue.resize?_eq, htarget, if_neg (by omega), if_neg (by omega)]
  rfl

theorem ordered_doubled (hq : q.Ordered) (hmax : q.size < maxSize) : (doubled maxSize q).Ordered :=
  (Queue.resized_of_resize? hq (resize?_doubled hq hmax)).ordered

theorem size_doubled (hq : q.Ordered) (hmax : q.size < maxSize) :
    (doubled maxSize q).size = min (q.size * 2) maxSize := by
  have hlength := hq.length_lt
  exact Queue.size_relaid (by omega)

theorem lt_size_doubled (hq : q.Ordered) (hmax : q.size < maxSize) :
    q.size < (doubled maxSize q).size := by
  have hmin := hq.minSize_le
  have htwo := hq.two_le
  rw [size_doubled hq hmax]
  omega

theorem grow_of_room (h : count ≤ q.room) (n : Nat) :
    grow maxSize count n q = { queue := q, enough := true } := by
  cases n with
  | zero => simp [grow, h]
  | succ n => rw [grow, if_pos h]

theorem grow_of_full (hshort : ¬ count ≤ q.room) (hmax : maxSize ≤ q.size) (n : Nat) :
    grow maxSize count n q = { queue := q, enough := false } := by
  cases n with
  | zero => simp [grow, hshort]
  | succ n => rw [grow, if_neg hshort, if_pos hmax]

theorem grow_of_short (hq : q.Ordered) (hshort : ¬ count ≤ q.room) (hmax : q.size < maxSize)
    (n : Nat) : grow maxSize count (n + 1) q =
      { grow maxSize count n (doubled maxSize q) with
        log := .grown (doubled maxSize q).size :: (grow maxSize count n (doubled maxSize q)).log } := by
  rw [grow, if_neg hshort, if_neg (Nat.not_le.mpr hmax), resize?_doubled hq hmax]

theorem grow_of_fuel (hq : q.Ordered) (hm : maxSize - q.size ≤ m) (hn : maxSize - q.size ≤ n) :
    grow maxSize count m q = grow maxSize count n q := by
  induction m generalizing n q with
  | zero =>
    by_cases hroom : count ≤ q.room
    · rw [grow_of_room hroom, grow_of_room hroom]
    · rw [grow_of_full hroom (by omega), grow_of_full hroom (by omega)]
  | succ m ih =>
    by_cases hroom : count ≤ q.room
    · rw [grow_of_room hroom, grow_of_room hroom]
    · by_cases hmax : q.size < maxSize
      · obtain ⟨n, rfl⟩ : ∃ n', n = n' + 1 := ⟨n - 1, by omega⟩
        have hlt := lt_size_doubled hq hmax
        rw [grow_of_short hq hroom hmax, grow_of_short hq hroom hmax,
          ih (n := n) (ordered_doubled hq hmax) (by omega) (by omega)]
      · rw [grow_of_full hroom (by omega), grow_of_full hroom (by omega)]

theorem le_room_foldl_write (hq : q.Ordered) (hroom : q.length + items.length < q.size) :
    count ≤ (items.foldl Queue.write q).room ↔ items.length + count ≤ q.room := by
  have hpushed := Queue.pushed_foldl hq hroom
  rw [Queue.le_room_iff hpushed.ordered, Queue.le_room_iff hq, Queue.length_foldl_write hq hroom,
    hpushed.size_eq]
  omega

theorem doubled_foldl_write (hq : q.Ordered) (hroom : q.length + items.length < q.size)
    (hmax : q.size < maxSize) :
    doubled maxSize (items.foldl Queue.write q) = items.foldl Queue.write (doubled maxSize q) := by
  have hlt := lt_size_doubled hq hmax
  rw [size_doubled hq hmax] at hlt
  unfold doubled
  rw [(Queue.pushed_foldl hq hroom).size_eq]
  exact Queue.foldl_write_relaid hq hroom (by omega)

/-- Items may be written before or after a queue grows. -/
theorem grow_foldl_write (hq : q.Ordered) (hroom : q.length + items.length < q.size) (n : Nat) :
    grow maxSize count n (items.foldl Queue.write q) =
      { grow maxSize (items.length + count) n q with
        queue := items.foldl Queue.write (grow maxSize (items.length + count) n q).queue } := by
  induction n generalizing q with
  | zero =>
    have hsame : count ≤ (items.foldl Queue.write q).room ↔ items.length + count ≤ q.room :=
      le_room_foldl_write hq hroom
    simp [grow, hsame]
  | succ n ih =>
    have hpushed := Queue.pushed_foldl hq hroom
    have hsame : count ≤ (items.foldl Queue.write q).room ↔ items.length + count ≤ q.room :=
      le_room_foldl_write hq hroom
    by_cases hfits : items.length + count ≤ q.room
    · rw [grow_of_room hfits, grow_of_room (hsame.mpr hfits)]
    · have hshort : ¬ count ≤ (items.foldl Queue.write q).room := fun h => hfits (hsame.mp h)
      by_cases hmax : q.size < maxSize
      · have hlt := lt_size_doubled hq hmax
        have hlength : (doubled maxSize q).length = q.length :=
          Queue.length_relaid (by rw [size_doubled hq hmax] at hlt; have := hq.length_lt; omega)
        have hdoubled := ordered_doubled hq hmax
        have hroom' : (doubled maxSize q).length + items.length < (doubled maxSize q).size := by
          omega
        rw [grow_of_short hpushed.ordered hshort (hpushed.size_eq ▸ hmax),
          grow_of_short hq hfits hmax, doubled_foldl_write hq hroom hmax, ih hdoubled hroom',
          (Queue.pushed_foldl hdoubled hroom').size_eq]
      · rw [grow_of_full hfits (by omega), grow_of_full hshort (by rw [hpushed.size_eq]; omega)]

/-- A queue that has grown for fewer items can grow on, unless it has no room even for those. -/
structure GrowsOn (maxSize less count n : Nat) (q : Queue α) : Prop where
  full : (grow maxSize less n q).enough = false → grow maxSize count n q = grow maxSize less n q
  more : (grow maxSize less n q).enough = true → grow maxSize count n q =
    { grow maxSize count (maxSize - (grow maxSize less n q).queue.size)
        (grow maxSize less n q).queue with
      log := (grow maxSize less n q).log ++ (grow maxSize count
        (maxSize - (grow maxSize less n q).queue.size) (grow maxSize less n q).queue).log }

theorem growsOn_of_done (hq : q.Ordered) (hle : less ≤ count) (hn : maxSize - q.size ≤ n)
    (hdone : less ≤ q.room ∨ maxSize ≤ q.size) : GrowsOn maxSize less count n q := by
  by_cases hroom : less ≤ q.room
  · have hgrow : grow maxSize less n q = { queue := q, enough := true } := grow_of_room hroom n
    refine ⟨fun h => by simp [hgrow] at h, fun _ => ?_⟩
    rw [hgrow, grow_of_fuel hq hn (Nat.le_refl _)]
    rfl
  · have hmax := hdone.resolve_left hroom
    have hroom' : ¬ count ≤ q.room := fun h => hroom (Nat.le_trans hle h)
    have hgrow : grow maxSize less n q = { queue := q, enough := false } := grow_of_full hroom hmax n
    refine ⟨fun _ => ?_, fun h => by simp [hgrow] at h⟩
    rw [hgrow, grow_of_full hroom' hmax]

theorem growsOn (hq : q.Ordered) (hle : less ≤ count) (hn : maxSize - q.size ≤ n) :
    GrowsOn maxSize less count n q := by
  induction n generalizing q with
  | zero => exact growsOn_of_done hq hle hn (.inr (by omega))
  | succ n ih =>
    by_cases hdone : less ≤ q.room ∨ maxSize ≤ q.size
    · exact growsOn_of_done hq hle hn hdone
    · obtain ⟨hroom, hmax⟩ := not_or.mp hdone
      have hroom' : ¬ count ≤ q.room := fun h => hroom (Nat.le_trans hle h)
      have hsmall : q.size < maxSize := Nat.lt_of_not_le hmax
      have hlt := lt_size_doubled hq hsmall
      have hnext := ih (ordered_doubled hq hsmall) (by omega)
      constructor <;> rw [grow_of_short hq hroom hsmall, grow_of_short hq hroom' hsmall]
      · intro h
        rw [hnext.full h]
      · intro h
        rw [hnext.more h]
        rfl

end Sizing
end PacedStream
