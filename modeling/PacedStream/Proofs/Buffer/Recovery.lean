import PacedStream.Proofs.Buffer.Backed
import PacedStream.Proofs.Buffer.Fifo
import PacedStream.Proofs.Buffer.Remembered

/-!
The end of a stall. Main statement: with enough readings queued a stall ends at the next tick that
counts exactly if a block is located, which it is unless thresholds were changed. A stall without a
block goes on however much is queued, and ends with the loss of the queue.
-/

namespace PacedStream.Buffer
set_option autoImplicit false

variable {b : Buffer} {now last since : Int} {history : List Operation}

theorem references_le_two (hc : b.Coherent) (hs : b.Sparse) (hfed : b.flow ≠ .empty)
    (hflows : b.flow ≠ .buffering) : b.queue.passed.countP b.clock.isReference ≤ 2 := by
  rcases (hc.times hfed hflows).2 with hnil | htimes
  · simp [hnil]
  · have hblock := htimes.hasBlock
    obtain ⟨pid, _, _, last, bounds, _, ends⟩ := htimes
    have hnull := Clock.ne_nullPid_of_reading? ends
    have htwo : b.clock.remembered = 2 := if_pos hblock
    rw [Clock.isReference_eq_owns bounds.reference_eq hnull, ← htwo]
    exact hs.readings_le

theorem enough_of_references (hc : b.Coherent) (hs : b.Sparse) (hcons : b.Consistent)
    (hstalled : b.flow = .underflow since) (hblock : b.clock.hasBlock = true)
    (hdata : b.settings.low.toNat + 1 ≤ b.queue.toList.countP b.clock.isReference) :
    b.settings.low.toNat ≤ b.recount.clock.blocks := by
  have htwo := references_le_two hc hs (by simp [hstalled]) (by simp [hstalled])
  have hle := hcons.low_le
  rw [hc.ordered.toList_eq, List.countP_append] at hdata
  rw [blocks_of_hasBlock hc.ordered hblock]
  omega

structure EndsStall (b : Buffer) (now since : Int) : Prop where
  resumes_iff : (b.tick now).buffer.flow = .running ↔ b.clock.hasBlock = true
  untouched : b.clock.hasBlock = true →
    (b.tick now).buffer.queue = b.queue ∧ (b.tick now).sent = #[]
  /-- Without a block the queue is kept for a while and then lost. -/
  stranded : b.clock.hasBlock = false → (b.tick now).buffer.queue.toList =
    if Flow.maxStall < Instant.since now since then [] else b.queue.toList

theorem endsStall (hc : b.Coherent) (hs : b.Sparse) (hcons : b.Consistent)
    (hstalled : b.flow = .underflow since) (hlast : b.lastTick? = some last)
    (hfrom : last + 1000 ≤ now) (hto : now ≤ last + 1000000000)
    (hdata : b.settings.low.toNat + 1 ≤ b.queue.toList.countP b.clock.isReference) :
    b.EndsStall now since := by
  obtain ⟨microseconds, _, _, htick⟩ := tick_of_span hlast hfrom hto
  obtain ⟨hbuffer, hsent⟩ := tick_of_stalled hstalled htick
  cases hblock : b.clock.hasBlock with
  | true =>
    have henough := enough_of_references hc hs hcons hstalled hblock hdata
    obtain ⟨hresumed, hsilent⟩ := recover_of_enough (b := b.timed now) now hstalled henough
    refine ⟨?_, ?_, ?_⟩
    · rw [hbuffer, hresumed, hblock]
      exact iff_of_true rfl rfl
    · rw [hbuffer, hresumed, hsent, hsilent]
      exact fun _ => ⟨rfl, rfl⟩
    · rw [hblock]
      exact nofun
  | false =>
    have hfew : b.recount.clock.blocks < b.settings.low.toNat := by
      rw [blocks_of_no_block hblock]
      exact hcons.low_pos
    have hrecover := recover_of_few (b := b.timed now) now hstalled hfew
    rw [hrecover] at hbuffer
    refine ⟨?_, ?_, ?_⟩
    · rw [hbuffer, hblock]
      refine iff_of_false ?_ nofun
      split
      · rcases still_dropAll (b.timed now).recount with h | h <;> simp [h]
      · exact fun hrun => absurd (hstalled.symm.trans hrun) nofun
    · rw [hblock]
      exact nofun
    · intro _
      rw [hbuffer]
      split
      · exact toList_dropAll hc.ordered
      · rfl

theorem recovers_iff_block (settings : Settings) (history : List Operation) :
    let b := (create settings).buffer.run history
    b.flow = .underflow since → b.lastTick? = some last → last + 1000 ≤ now →
      now ≤ last + 1000000000 →
      b.settings.low.toNat + 1 ≤ b.queue.toList.countP b.clock.isReference →
      b.EndsStall now since ∧
        ((∀ op ∈ history, op.rethresholds = false) → b.clock.hasBlock = true) := by
  intro b hstalled hlast hfrom hto hdata
  have hq := ordered_create settings
  have hcons := consistent_create settings
  refine ⟨endsStall ((coherent_create settings).run history) ((sparse_create settings).run hq history)
    (hcons.run history) hstalled hlast hfrom hto hdata, fun hops => ?_⟩
  exact ((backed_of_still (.inl rfl)).run hq hcons hops).stalled since hstalled

/-- A millisecond of the clock for each packet. -/
def readings (count : Nat) : List Packet :=
  (List.range count).map fun k =>
    Packet.Draft.packet { pid := 256, clock? := some (UInt64.ofNat (k * 27000)) }

/-- A stall when the second of three readings was sent, and then more of them. -/
theorem recovers_iff_block_sample :
    let history := [.push (readings 3), .tick 0, .tick 1000000, .tick 2000000, .tick 3000000,
      .tick 4000000, .tick 5000000, .push ((readings 6).drop 3)]
    let b := (create { enough := 2, low := 2 }).buffer.run history
    b.flow = .underflow 5000000 ∧ b.clock.hasBlock = true ∧ b.EndsStall 6000000 5000000 := by
  intro history b
  have hstalled : b.flow = .underflow 5000000 := by decide +kernel
  have hlast : b.lastTick? = some 5000000 := by decide +kernel
  have hends : b.EndsStall 6000000 5000000 ∧ _ :=
    recovers_iff_block { enough := 2, low := 2 } history hstalled hlast (by omega) (by omega)
      (by decide +kernel)
  exact ⟨hstalled, hends.2 (by simp [history, Operation.rethresholds]), hends.1⟩

/-- Thresholds raised before the first block is located: five readings are queued where four are
enough, but the stall goes on, and after 200 ms they are lost. -/
theorem stranded_by_raised_thresholds :
    let history := [.push (readings 5), .tick 0, .tick 1000000, .setThresholds 3 3, .tick 2000000]
    let b := (create { enough := 2, low := 1 }).buffer.run history
    b.flow = .underflow 2000000 ∧ b.lastTick? = some 2000000 ∧
      b.settings.low.toNat + 1 ≤ b.queue.toList.countP b.clock.isReference ∧
      (b.tick 3000000).buffer.flow ≠ .running ∧
      ((b.tick 202000001).buffer.queue.toList = []) := by
  decide +kernel

end PacedStream.Buffer
