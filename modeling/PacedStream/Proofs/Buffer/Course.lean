import PacedStream.Proofs.Buffer.Move

/-!
Input and changes of settings as courses of moves: a burst is taken after as many changes of size as
it needs, and settings move nothing but the scan.
-/

namespace PacedStream
set_option autoImplicit false

namespace Sizing

variable {α : Type} [Inhabited α] {q : Queue α}

theorem grow_induct {motive : Queue α → Prop} (maxSize count n : Nat)
    (keeps : ∀ {q r : Queue α} {size : Nat}, q.resize? size = some r → motive q → motive r)
    (start : motive q) : motive (grow maxSize count n q).queue := by
  induction n generalizing q with
  | zero => exact start
  | succ n ih =>
    unfold grow
    split
    · exact start
    · split
      · exact start
      · split
        · exact start
        · rename_i larger hlarger
          exact ih (keeps hlarger start)

theorem lists_makeRoom (hq : q.Ordered) (s : Sizing) (count : Nat) :
    (s.makeRoom q count).queue.Ordered ∧ (s.makeRoom q count).queue.passed = q.passed ∧
      (s.makeRoom q count).queue.ahead = q.ahead := by
  refine grow_induct (motive := fun r => r.Ordered ∧ r.passed = q.passed ∧ r.ahead = q.ahead) _ _ _
    ?_ ⟨hq, rfl, rfl⟩
  intro r r' size hresize ⟨hordered, hpassed, hahead⟩
  have hresized := Queue.resized_of_resize? hordered hresize
  exact ⟨hresized.ordered, hresized.passed_eq.trans hpassed, hresized.ahead_eq.trans hahead⟩

theorem le_room_of_enough (maxSize count n : Nat)
    (h : (grow maxSize count n q).enough = true) : count ≤ (grow maxSize count n q).queue.room := by
  induction n generalizing q with
  | zero => simpa [grow] using h
  | succ n ih =>
    unfold grow at h ⊢
    split
    · assumption
    · rename_i hroom
      rw [if_neg hroom] at h
      split
      · rename_i hfull
        rw [if_pos hfull] at h
        cases h
      · rename_i hfull
        rw [if_neg hfull] at h
        cases hlarger : q.resize? (min (q.size * 2) maxSize) with
        | none =>
          rw [hlarger] at h
          cases h
        | some larger =>
          rw [hlarger] at h
          exact ih h

theorem resize?_of_halve? {s : Sizing} {r : Queue α} {now : Int} (h : s.halve? q now = some r) :
    q.resize? (q.size / 2) = some r := by
  unfold halve? halved? at h
  split at h
  · split at h
    · exact h
    · cases h
  · cases h

end Sizing

namespace Buffer

variable {b : Buffer} {burst : List Packet}

theorem accepted_offer (hne : burst ≠ []) :
    (b.offer burst).accepted = (b.sizing.makeRoom b.queue burst.length).enough := by
  have hempty : ¬ burst.isEmpty = true := by simpa using hne
  unfold offer Step.accepted
  rw [if_neg hempty]
  dsimp only
  split
  · rename_i h
    exact h.symm
  · rename_i h
    simpa using h

theorem feed_ne_empty (f : Flow) : f.feed ≠ .empty := by
  cases f <;> simp [Flow.feed]

theorem course_makeRoom (b : Buffer) (count : Nat) :
    Course b [] { b with flow := b.flow.feed, queue := (b.sizing.makeRoom b.queue count).queue } := by
  refine .quiet (.feed b) ?_
  refine Sizing.grow_induct (motive := fun q => Course { b with flow := b.flow.feed } []
    { b with flow := b.flow.feed, queue := q }) _ _ _ ?_ (.done _)
  intro q r size hresize hbefore
  exact hbefore.trans (.single (.resize hresize))

theorem course_offer (b : Buffer) (burst : List Packet) :
    Course b (b.taking burst) (b.offer burst).buffer := by
  by_cases hne : burst = []
  · subst hne
    exact .done b
  · have hroom := course_makeRoom b burst.length
    have hempty : ¬ burst.isEmpty = true := by simpa using hne
    unfold taking
    rw [accepted_offer hne]
    unfold offer
    rw [if_neg hempty]
    dsimp only
    by_cases henough : (b.sizing.makeRoom b.queue burst.length).enough = true
    · have hfits := Sizing.le_room_of_enough _ _ _ henough
      have hpush : (b.sizing.makeRoom b.queue burst.length).queue.push? burst =
          some (burst.foldl Queue.write (b.sizing.makeRoom b.queue burst.length).queue) :=
        if_pos hfits
      rw [if_pos henough, if_pos ⟨hne, henough⟩, hpush]
      exact hroom.trans (.single (.take (feed_ne_empty b.flow) hpush))
    · rw [if_neg henough, if_neg fun h => henough h.2]
      exact hroom

theorem buffer_push : (b.push burst).buffer = (b.offer burst).buffer := by
  unfold push
  dsimp only
  split <;> rfl

theorem buffer_pushBytes (bytes : List UInt8) : (b.pushBytes bytes).buffer =
    (b.offer (Packet.frame .empty bytes).packets.toList).buffer := by
  rw [← buffer_push]
  unfold pushBytes
  dsimp only
  split <;> rfl

/-- What taking settings over makes of a buffer: at most the queue moves, to the slots they allow. -/
inductive TakesOver (b : Buffer) (settings : Settings) : Step → Prop where
  | stays (log : Array Message) (kept : b.queue.size ≤ maxSlots settings ∨
      b.queue.resize? (maxSlots settings) = none) : TakesOver b settings
      { buffer := { b with settings, sizing := { b.sizing with maxSize := maxSlots settings } }, log }
  | moves {queue : Queue Packet} (large : maxSlots settings < b.queue.size)
      (resize : b.queue.resize? (maxSlots settings) = some queue) : TakesOver b settings
      { buffer :=
          { b with settings, sizing := { b.sizing with maxSize := maxSlots settings }, queue } }

theorem takesOver_adopt (b : Buffer) (settings : Settings) :
    TakesOver b settings (b.adopt settings) := by
  unfold adopt
  dsimp only
  split
  · rename_i hsmall
    exact .stays #[] (.inl hsmall)
  · rename_i hlarge
    split
    · rename_i queue hresize
      exact .moves (Nat.not_le.mp hlarge) hresize
    · rename_i hnone
      exact .stays _ (.inr hnone)

theorem TakesOver.course {settings : Settings} {s : Step} (h : TakesOver b settings s) :
    Course b [] s.buffer := by
  cases h with
  | stays => exact .single (.adjust rfl rfl rfl rfl)
  | moves _ hresize =>
    have hadjust : Move b []
        { b with settings, sizing := { b.sizing with maxSize := maxSlots settings } } :=
      .adjust rfl rfl rfl rfl
    exact .quiet hadjust (.single (.resize hresize))

end Buffer
end PacedStream
