import PacedStream.Proofs.Queue.Growth

/-!
One burst in two. If a burst is taken at once, both parts of it are taken one after the other, and
the buffer ends the same, slot by slot; and the other way round.
-/

namespace PacedStream
set_option autoImplicit false

namespace Sizing

variable {α : Type} [Inhabited α] {q : Queue α} {s : Sizing}

theorem makeRoom_foldl_write {items : List α} (hq : q.Ordered) (hroom : items.length ≤ q.room)
    (count : Nat) : s.makeRoom (items.foldl Queue.write q) count =
      { s.makeRoom q (items.length + count) with
        queue := items.foldl Queue.write (s.makeRoom q (items.length + count)).queue } := by
  have hroom' := (Queue.le_room_iff hq).mp hroom
  rw [makeRoom, (Queue.pushed_foldl hq hroom').size_eq]
  exact grow_foldl_write hq hroom' _

theorem makeRoom_of_full {less count : Nat} (hq : q.Ordered) (hle : less ≤ count)
    (h : (s.makeRoom q less).enough = false) : s.makeRoom q count = s.makeRoom q less :=
  (growsOn hq hle (Nat.le_refl _)).full h

theorem makeRoom_of_enough {less count : Nat} (hq : q.Ordered) (hle : less ≤ count)
    (h : (s.makeRoom q less).enough = true) : s.makeRoom q count =
      { s.makeRoom (s.makeRoom q less).queue count with
        log := (s.makeRoom q less).log ++ (s.makeRoom (s.makeRoom q less).queue count).log } :=
  (growsOn hq hle (Nat.le_refl _)).more h

theorem makeRoom_add {growth more : Growth α} {items : List α} (count : Nat) (hq : q.Ordered)
    (hgrowth : s.makeRoom q items.length = growth) (h : growth.enough = true)
    (hmore : s.makeRoom (items.foldl Queue.write growth.queue) count = more) :
    (s.makeRoom q (items.length + count)).enough = more.enough ∧
      items.foldl Queue.write (s.makeRoom q (items.length + count)).queue = more.queue ∧
      (s.makeRoom q (items.length + count)).log = growth.log ++ more.log := by
  subst hgrowth hmore
  have hroom : items.length ≤ (s.makeRoom q items.length).queue.room :=
    le_room_of_enough _ _ _ h
  rw [makeRoom_foldl_write (lists_makeRoom hq s items.length).1 hroom,
    makeRoom_of_enough hq (Nat.le_add_right items.length count) h]
  exact ⟨rfl, rfl, rfl⟩

end Sizing

namespace Buffer

variable {b : Buffer} {burst : List Packet}

theorem offer_of_enough (hne : burst ≠ [])
    (h : (b.sizing.makeRoom b.queue burst.length).enough = true) :
    b.offer burst =
      { buffer := { b with
          flow := b.flow.feed
          queue := burst.foldl Queue.write (b.sizing.makeRoom b.queue burst.length).queue }
        log := (b.sizing.makeRoom b.queue burst.length).log.toArray } := by
  have hempty : ¬ burst.isEmpty = true := by simpa using hne
  have hpush : (b.sizing.makeRoom b.queue burst.length).queue.push? burst =
      some (burst.foldl Queue.write (b.sizing.makeRoom b.queue burst.length).queue) :=
    if_pos (Sizing.le_room_of_enough _ _ _ h)
  unfold offer
  rw [if_neg hempty]
  dsimp only
  rw [if_pos h, hpush]
  rfl

variable {first second : List Packet}

theorem accepted_of_nil (b : Buffer) : (b.offer []).accepted = true := rfl

theorem accepted_offer_append (hq : b.queue.Ordered) (first second : List Packet) :
    (b.offer (first ++ second)).accepted =
      ((b.offer first).accepted && ((b.offer first).buffer.offer second).accepted) := by
  by_cases hfirst : first = []
  · subst hfirst
    rfl
  · by_cases hsecond : second = []
    · subst hsecond
      rw [List.append_nil, accepted_of_nil, Bool.and_true]
    · have hne : first ++ second ≠ [] := by simp [hfirst]
      rw [accepted_offer hne, accepted_offer hfirst, List.length_append]
      cases henough : (b.sizing.makeRoom b.queue first.length).enough with
      | false =>
        have hsame := Sizing.makeRoom_of_full hq
          (Nat.le_add_right first.length second.length) henough
        rw [hsame, henough, Bool.false_and]
      | true =>
        rw [offer_of_enough hfirst henough, accepted_offer hsecond, Bool.true_and]
        exact (Sizing.makeRoom_add _ hq rfl henough rfl).1

theorem offer_append (hq : b.queue.Ordered) (h : (b.offer (first ++ second)).accepted = true) :
    (b.offer (first ++ second)).buffer = ((b.offer first).buffer.offer second).buffer ∧
      (b.offer (first ++ second)).log =
        (b.offer first).log ++ ((b.offer first).buffer.offer second).log := by
  by_cases hfirst : first = []
  · subst hfirst
    exact ⟨rfl, Array.empty_append.symm⟩
  · by_cases hsecond : second = []
    · subst hsecond
      rw [List.append_nil]
      exact ⟨rfl, Array.append_empty.symm⟩
    · have hne : first ++ second ≠ [] := by simp [hfirst]
      have hboth := h
      rw [accepted_offer_append hq, Bool.and_eq_true, accepted_offer hfirst] at hboth
      obtain ⟨henough, hmore⟩ := hboth
      rw [offer_of_enough hfirst henough, accepted_offer hsecond] at hmore
      rw [accepted_offer hne] at h
      obtain ⟨_, hqueue, hlog⟩ := Sizing.makeRoom_add (s := b.sizing) second.length hq
        rfl henough rfl
      have hfeed : b.flow.feed.feed = b.flow.feed := by cases b.flow <;> rfl
      rw [offer_of_enough hne h, offer_of_enough hfirst henough, offer_of_enough hsecond hmore]
      dsimp only
      rw [List.length_append, List.foldl_append, hqueue, hlog, hfeed, ← List.append_toArray]
      exact ⟨rfl, rfl⟩

end Buffer
end PacedStream
