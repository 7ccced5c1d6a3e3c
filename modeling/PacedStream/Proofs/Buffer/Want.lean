import PacedStream.Proofs.Buffer.Adjustments

/-!
The burst that a buffer asks for. Main statement: in every buffer reached from a new one a burst of
exactly that many packets is taken. Without a block the number comes from the slots there are, and
with one from the greatest size, which may be less; a burst has to fit only the greater of the two.
-/

namespace PacedStream.Buffer
set_option autoImplicit false

variable {b : Buffer} {burst : List Packet}

theorem fits_of_want (hq : b.queue.Ordered) (hpos : 0 < b.want) :
    b.queue.length + b.want < max b.queue.size b.sizing.maxSize := by
  unfold want at hpos ⊢
  by_cases hblock : b.clock.blockLength = 0
  · rw [if_pos hblock]
    have hroom : b.queue.length + b.queue.room < b.queue.size :=
      (Queue.le_room_iff hq).mp (Nat.le_refl _)
    exact Nat.lt_of_lt_of_le hroom (Nat.le_max_left _ _)
  · rw [if_neg hblock] at hpos ⊢
    dsimp only at hpos ⊢
    have hleft := Nat.min_le_right
      (UInt64.ofNat (b.settings.enough.toNat - b.clock.blocks) *
        UInt64.ofNat b.clock.blockLength).toNat
      (b.sizing.maxSize - (b.queue.length + 1))
    omega

theorem takes_offer (hq : b.queue.Ordered)
    (hfits : burst ≠ [] → b.queue.length + burst.length < max b.queue.size b.sizing.maxSize) :
    (b.offer burst).accepted = true ∧
      (b.offer burst).buffer.queue.toList = b.queue.toList ++ burst := by
  by_cases hnil : burst = []
  · subst hnil
    exact ⟨accepted_of_nil b, (List.append_nil _).symm⟩
  · have hanswers := answers_offer hq hnil
    have haccepted := hanswers.accepted_iff.mpr (hfits hnil)
    obtain ⟨queue, _, hbuffer, htoList, _⟩ := hanswers.taken haccepted
    exact ⟨haccepted, hbuffer ▸ htoList⟩

theorem want_accepted (settings : Settings) (history : List Operation) (burst : List Packet)
    (hwant : burst.length = ((create settings).buffer.run history).status.want) :
    let b := (create settings).buffer.run history
    (b.offer burst).accepted = true ∧ (b.push burst).accepted = true ∧
      (b.push burst).buffer.queue.toList = b.queue.toList ++ burst := by
  intro b
  have hnew := ordered_create settings
  have hq : b.queue.Ordered := (course_run hnew history).ordered hnew
  have hlength : burst.length = b.want := hwant
  have hfits : burst ≠ [] →
      b.queue.length + burst.length < max b.queue.size b.sizing.maxSize := by
    intro hne
    have hpos : 0 < b.want := hlength ▸ List.length_pos_iff.mpr hne
    rw [hlength]
    exact fits_of_want hq hpos
  have htakes := takes_offer hq hfits
  refine ⟨htakes.1, (accepted_push b burst).trans htakes.1, ?_⟩
  rw [buffer_push]
  exact htakes.2

theorem run_push_setMaxSize (b : Buffer) (burst : List Packet) (megabytes : Nat) :
    b.run [.push burst, .setMaxSize megabytes] =
      ((b.offer burst).buffer.setMaxSize megabytes).buffer := by
  rw [← buffer_push]
  rfl

theorem sizes_of_offered {queued : List Packet} (hqueued : queued.length = 6000) :
    let fed := ((create {}).buffer.offer queued).buffer
    fed.queue.size = 10920 ∧ fed.queue.length = 6000 := by
  intro fed
  have hq := ordered_create {}
  have hlength : (create {}).buffer.queue.length = 0 := by decide +kernel
  have hsize : (create {}).buffer.queue.size = 1365 := by decide +kernel
  have hmaxSize : (create {}).buffer.sizing.maxSize = 44620 := by decide +kernel
  have hne : queued ≠ [] := List.ne_nil_of_length_pos (by omega)
  have hfits : (create {}).buffer.queue.length + queued.length <
      max (create {}).buffer.queue.size (create {}).buffer.sizing.maxSize := by omega
  obtain ⟨htaken, htoList⟩ := takes_offer hq fun _ => hfits
  have hfirst : Sizing.FirstFit (create {}).buffer.sizing.maxSize (create {}).buffer.queue.size
      ((create {}).buffer.queue.length + queued.length) 3 := by
    rw [hmaxSize, hsize, hlength, hqueued]
    exact ⟨by decide, by decide⟩
  constructor
  · rw [size_offer_of_firstFit hq hne hfirst htaken, hmaxSize, hsize]
    rfl
  · rw [← Queue.length_toList, htoList, List.length_append, Queue.length_toList, hlength, hqueued]

theorem queue_of_lowered {queued : List Packet} (hqueued : queued.length = 6000) :
    let b := (create {}).buffer.run [.push queued, .setMaxSize 1]
    b.sizing.maxSize = 5577 ∧ b.queue.size = 10920 ∧ b.queue.length = 6000 ∧
      b.clock.blockLength = 0 := by
  intro b
  have hrun : b = _ := run_push_setMaxSize (create {}).buffer queued 1
  have hq : ((create {}).buffer.offer queued).buffer.queue.Ordered :=
    ordered_apply (ordered_create {}) (.offer queued)
  have hmin := ((consistent_create {}).fixed (fixed_offer _ queued)).minSize_eq
  have hnoBlock : ((create {}).buffer.offer queued).buffer.clock.blockLength = 0 :=
    congrArg Clock.blockLength (keeps_offer _ queued).1
  obtain ⟨hsize, hlength⟩ := sizes_of_offered hqueued
  have hlowers := changes_setMaxSize hq hmin 1
  obtain ⟨maxBytes, hbytes, hadopts⟩ := hlowers.made (hlowers.accepted_iff.mpr (by decide))
  have hslots : maxSlots { ((create {}).buffer.offer queued).buffer.settings with maxBytes } =
      5577 := by
    rw [maxSlots, Settings.maxPackets, hbytes]
    rfl
  have hsame := hadopts.kept (.inr (by rw [hslots]; omega))
  have hmaxSize := congrArg (·.sizing.maxSize) hadopts.rest_eq
  have hnone := congrArg (·.clock.blockLength) hadopts.rest_eq
  rw [hrun, hsame]
  exact ⟨hmaxSize.trans hslots, hsize, hlength, hnone.trans hnoBlock⟩

theorem want_of_lowered {queued : List Packet} (hqueued : queued.length = 6000) :
    let b := (create {}).buffer.run [.push queued, .setMaxSize 1]
    b.sizing.maxSize = 5577 ∧ b.queue.size = 10920 ∧ b.status.want = 4919 := by
  intro b
  obtain ⟨hmaxSize, hsize, hlength, hnoBlock⟩ := queue_of_lowered hqueued
  have hwant : b.status.want = b.queue.room := if_pos hnoBlock
  refine ⟨hmaxSize, hsize, hwant.trans ?_⟩
  rw [Queue.room, hsize, hlength]

/-- The 4919 packets that the 10920 slots still have room for are asked for, and taken. -/
theorem want_accepted_in_large_queue :
    let queued := List.replicate 6000 Packet.stuffing
    let b := (create {}).buffer.run [.push queued, .setMaxSize 1]
    let burst := List.replicate 4919 Packet.stuffing
    b.sizing.maxSize = 5577 ∧ b.queue.size = 10920 ∧ b.status.want = 4919 ∧
      (b.push burst).accepted = true := by
  intro queued b burst
  have hqueued : queued.length = 6000 := List.length_replicate
  have hburst : burst.length = 4919 := List.length_replicate
  clear_value queued burst
  obtain ⟨hmaxSize, hsize, hwant⟩ := want_of_lowered hqueued
  exact ⟨hmaxSize, hsize, hwant, (want_accepted {} [.push queued, .setMaxSize 1] burst
    (hburst.trans hwant.symm)).2.1⟩

end PacedStream.Buffer
