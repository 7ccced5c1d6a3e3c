import PacedStream.Proofs.Clock.Even
import PacedStream.Proofs.Buffer.Coherence

/-!
What a flow starts from. Between the start of the flow and the first block it locates nothing is
scanned or sent, so that the two readings that located a block before are still queued.
-/

namespace PacedStream
set_option autoImplicit false

theorem Clock.IsBlock.two_le_readings {c : Clock} {block : List Packet} (h : c.IsBlock block) :
    2 ≤ (readings block).length := by
  cases h with
  | intro _ opens _ ends =>
    rw [readings_cons_of_read opens, readings_append, readings_cons_of_read ends]
    simp only [List.length_cons, List.length_append]
    omega

namespace Buffer

structure Primed (b : Buffer) : Prop where
  latest : b.clock.hasBlock = true → b.clock.latest?.isSome = true
  pair : b.flow ≠ .empty → b.flow ≠ .buffering → b.clock.hasBlock = false →
    b.clock.latest? = none ∧ b.queue.passed = [] ∧ 2 ≤ (Clock.readings b.queue.toList).length

variable {b b' : Buffer} {es : List Event}

theorem primed_create (settings : Settings) : (create settings).buffer.Primed :=
  ⟨nofun, fun h => absurd rfl h⟩

theorem Primed.congr (h : b.Primed) (passed_eq : b'.queue.passed = b.queue.passed)
    (more : b.queue.toList <+: b'.queue.toList) (flow_eq : b'.flow = b.flow)
    (opening_eq : b'.clock.opening? = b.clock.opening?)
    (latest_eq : b'.clock.latest? = b.clock.latest?) : b'.Primed := by
  have hblock : b'.clock.hasBlock = b.clock.hasBlock := congrArg Option.isSome opening_eq
  constructor
  · rw [hblock, latest_eq]
    exact h.latest
  · rw [hblock, latest_eq, flow_eq, passed_eq]
    intro hfed hflows hnone
    obtain ⟨hlatest, hpassed, htwo⟩ := h.pair hfed hflows hnone
    obtain ⟨_, hmore⟩ := more
    refine ⟨hlatest, hpassed, ?_⟩
    rw [← hmore, Clock.readings_append, List.length_append]
    exact Nat.le_add_right_of_le htwo

theorem primed_of_times (htimes : b.clock.Times b.queue.passed) : b.Primed := by
  have hblock := htimes.hasBlock
  obtain ⟨_, _, latest, _, bounds, _⟩ := htimes
  refine ⟨fun _ => by rw [bounds.latest_eq]; rfl, fun _ _ hnone => ?_⟩
  rw [hblock] at hnone
  cases hnone

theorem primed_of_still (hstill : b.flow = .empty ∨ b.flow = .buffering)
    (hopening : b.clock.opening? = none) : b.Primed := by
  constructor
  · intro hblock
    simp [Clock.hasBlock, hopening] at hblock
  · intro hfed hflows
    rcases hstill with h | h
    · exact absurd h hfed
    · exact absurd h hflows

theorem primed_move (hmove : Move b es b') (hc : b.Coherent) (h : b.Primed) : b'.Primed := by
  cases hmove with
  | adjust queue_eq clock_eq flow_eq =>
    refine h.congr ?_ ?_ flow_eq ?_ ?_
    · rw [queue_eq]
    · simp only [queue_eq, List.prefix_rfl]
    all_goals rw [clock_eq]
  | connect | credit | recount => exact h.congr rfl (List.prefix_refl _) rfl rfl rfl
  | resize resized =>
    have hresized := Queue.resized_of_resize? hc.ordered resized
    refine h.congr hresized.passed_eq ?_ rfl rfl rfl
    simp only [hresized.toList_eq hc.ordered, List.prefix_rfl]
  | feed =>
    cases hflow : b.flow with
    | empty =>
      obtain ⟨hopening, _⟩ := hc.unfed hflow
      exact primed_of_still (.inr rfl) hopening
    | buffering | running | underflow => exact h.congr rfl (List.prefix_refl _) hflow.symm rfl rfl
  | take _ pushed =>
    have hpushed := Queue.pushed_of_push? hc.ordered pushed
    refine h.congr hpushed.passed_eq ?_ rfl rfl rfl
    rw [hpushed.toList_eq hc.ordered]
    exact List.prefix_append _ _
  | seek hbuffering noBlock =>
    cases hfound : b.sought.found with
    | true => exact primed_of_times (times_sought hc.ordered hfound)
    | false =>
      have hnone := hc.noBlock_of_lost hbuffering noBlock hfound
      exact primed_of_still (.inr hbuffering) (opening?_of_hasBlock (b := b.withScan b.sought) hnone)
  | start hbuffering block =>
    obtain ⟨lead, located, hpassed, hlocated, _⟩ := hc.located hbuffering block
    refine ⟨nofun, fun _ _ _ => ⟨rfl, Queue.passed_rewind hc.ordered, ?_⟩⟩
    change 2 ≤ (Clock.readings b.queue.toList).length
    have htwo := hlocated.two_le_readings
    rw [hc.ordered.toList_eq, hpassed, Clock.readings_append, Clock.readings_append,
      List.length_append, List.length_append]
    omega
  | next _ _ found => exact primed_of_times (times_sought hc.ordered found)
  | lose => exact primed_of_still (.inr rfl) rfl
  | send hrunning lead =>
    refine ⟨h.latest, fun hfed hflows hnone => ?_⟩
    obtain ⟨_, hpassed, _⟩ := h.pair hfed hflows hnone
    exact absurd (hc.ordered.head_eq_mark_iff.mpr hpassed) lead
  | stall now hrunning =>
    refine ⟨h.latest, fun _ _ hnone => ?_⟩
    exact h.pair (by simp [hrunning]) (by simp [hrunning]) hnone
  | resume stalled =>
    refine ⟨h.latest, fun _ _ hnone => ?_⟩
    exact h.pair (by simp [stalled]) (by simp [stalled]) hnone
  | empty => exact primed_of_still (still_dropAll b) rfl
  | pin _ unfed => exact primed_of_still (.inl unfed) (hc.unfed unfed).1
  | repin => exact primed_of_still (.inr rfl) rfl

theorem primed_course (h : Course b es b') (hc : b.Coherent) (hp : b.Primed) : b'.Primed := by
  have hkeeps := h.induct (motive := fun b => b.Coherent ∧ b.Primed) (P := fun _ => True)
    (fun _ _ => trivial)
    (fun hmove _ ⟨hc, hp⟩ => ⟨coherent_move hmove hc, primed_move hmove hc hp⟩) ⟨hc, hp⟩
  exact hkeeps.1.2

end Buffer
end PacedStream
