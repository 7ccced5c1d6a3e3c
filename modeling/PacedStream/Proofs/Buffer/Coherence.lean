import PacedStream.Proofs.Buffer.Effect
import PacedStream.Proofs.Buffer.Histories

/-!
Flow, clock and scan fit together. While buffering the clock tracks what the scan has passed; as
soon as packets may flow it is locked, and the packet that the scan passed last ends the located
block, unless the scan stands at the front.
-/

namespace PacedStream.Buffer
set_option autoImplicit false

structure Coherent (b : Buffer) : Prop where
  ordered : b.queue.Ordered
  /-- Nothing was read before anything was pushed. -/
  unfed : b.flow = .empty → b.clock.opening? = none ∧ b.clock.latest? = none
  tracks : b.flow = .buffering → b.clock.Tracks b.queue.passed
  times : b.flow ≠ .empty → b.flow ≠ .buffering →
    b.clock.locked = true ∧ (b.queue.passed = [] ∨ b.clock.Times b.queue.passed)

variable {b b' : Buffer} {es : List Event}

theorem coherent_create (settings : Settings) : (create settings).buffer.Coherent :=
  ⟨ordered_create settings, fun _ => ⟨rfl, rfl⟩, nofun, fun h => absurd rfl h⟩

theorem Coherent.congr (h : b.Coherent) (ordered : b'.queue.Ordered)
    (passed_eq : b'.queue.passed = b.queue.passed) (flow_eq : b'.flow = b.flow)
    (reference_eq : b'.clock.reference? = b.clock.reference?)
    (opening_eq : b'.clock.opening? = b.clock.opening?)
    (latest_eq : b'.clock.latest? = b.clock.latest?)
    (locked_eq : b'.clock.locked = b.clock.locked) : b'.Coherent := by
  constructor
  · exact ordered
  · rw [flow_eq, opening_eq, latest_eq]
    exact h.unfed
  · rw [flow_eq, passed_eq]
    intro hbuffering
    exact (h.tracks hbuffering).congr reference_eq opening_eq latest_eq locked_eq
  · rw [flow_eq, passed_eq, locked_eq]
    intro hfed hflows
    obtain ⟨hlocked, htimes⟩ := h.times hfed hflows
    exact ⟨hlocked, htimes.imp id fun h => h.congr reference_eq opening_eq latest_eq⟩

theorem coherent_of_idle (ordered : b.queue.Ordered)
    (flow_eq : b.flow = .empty ∨ b.flow = .buffering) (noOpening : b.clock.opening? = none)
    (noLatest : b.clock.latest? = none) : b.Coherent := by
  refine ⟨ordered, fun _ => ⟨noOpening, noLatest⟩, fun _ => .idle noOpening noLatest, ?_⟩
  intro hfed hflows
  rcases flow_eq with h | h
  · exact absurd h hfed
  · exact absurd h hflows

theorem coherent_of_flowing (ordered : b.queue.Ordered) (hfed : b.flow ≠ .empty)
    (hflows : b.flow ≠ .buffering) (locked : b.clock.locked = true)
    (htimes : b.queue.passed = [] ∨ b.clock.Times b.queue.passed) : b.Coherent :=
  ⟨ordered, fun h => absurd h hfed, fun h => absurd h hflows, fun _ _ => ⟨locked, htimes⟩⟩

theorem Coherent.running (h : b.Coherent) (hrunning : b.flow = .running) :
    b.clock.locked = true ∧ (b.queue.passed = [] ∨ b.clock.Times b.queue.passed) :=
  h.times (by simp [hrunning]) (by simp [hrunning])

theorem Coherent.feed (h : b.Coherent) : { b with flow := b.flow.feed }.Coherent := by
  cases hflow : b.flow with
  | empty =>
    obtain ⟨hopening, hlatest⟩ := h.unfed hflow
    exact coherent_of_idle h.ordered (.inr rfl) hopening hlatest
  | buffering | running | underflow =>
    exact h.congr h.ordered rfl hflow.symm rfl rfl rfl rfl

theorem opening?_of_hasBlock (h : b.clock.hasBlock = false) : b.clock.opening? = none := by
  simpa [Clock.hasBlock] using h

theorem Coherent.finds (h : b.Coherent) (hbuffering : b.flow = .buffering)
    (hblock : b.clock.hasBlock = false) (hfound : b.sought.found = true) :
    b.sought.clock.Finds b.clock.locked b.sought.queue.passed := by
  have hat := b.clock.seek_at h.ordered
  have hwalk := Clock.tracks_walk (h.tracks hbuffering) (opening?_of_hasBlock hblock)
    b.queue.ahead
  rw [sought, hat.clock_eq, hat.passed_eq]
  exact hwalk.2 (hat.found_eq ▸ hfound)

theorem Coherent.lost (h : b.Coherent) (hbuffering : b.flow = .buffering)
    (hblock : b.clock.hasBlock = false) (hlost : b.sought.found = false) :
    b.sought.clock.Tracks b.sought.queue.passed ∧ b.sought.clock.locked = b.clock.locked := by
  have hat := b.clock.seek_at h.ordered
  have hwalk := Clock.tracks_walk (h.tracks hbuffering) (opening?_of_hasBlock hblock)
    b.queue.ahead
  obtain ⟨htracks, _, hlocked⟩ := hwalk.1 (hat.found_eq ▸ hlost)
  rw [sought, hat.clock_eq, hat.passed_eq]
  exact ⟨htracks, hlocked⟩

theorem Coherent.noBlock_of_lost (h : b.Coherent) (hbuffering : b.flow = .buffering)
    (hblock : b.clock.hasBlock = false) (hlost : b.sought.found = false) :
    b.sought.clock.hasBlock = false := by
  have hat := b.clock.seek_at h.ordered
  have hwalk := Clock.tracks_walk (h.tracks hbuffering) (opening?_of_hasBlock hblock)
    b.queue.ahead
  obtain ⟨_, hopening, _⟩ := hwalk.1 (hat.found_eq ▸ hlost)
  rw [← hat.clock_eq] at hopening
  exact congrArg Option.isSome hopening

theorem Coherent.located (h : b.Coherent) (hbuffering : b.flow = .buffering)
    (hblock : b.clock.hasBlock = true) :
    ∃ lead block, b.queue.passed = lead ++ block ∧ b.clock.IsBlock block ∧
      b.clock.locked = true := by
  cases h.tracks hbuffering with
  | idle noOpening => simp [Clock.hasBlock, noOpening] at hblock
  | anchored _ _ noOpening => simp [Clock.hasBlock, noOpening] at hblock
  | located split isBlock locked => exact ⟨_, _, split, isBlock, locked⟩

theorem coherent_move (hmove : Move b es b') (h : b.Coherent) : b'.Coherent := by
  have ordered := ordered_move hmove h.ordered
  cases hmove with
  | adjust queue_eq clock_eq flow_eq =>
    refine h.congr ordered ?_ flow_eq ?_ ?_ ?_ ?_
    · rw [queue_eq]
    all_goals rw [clock_eq]
  | connect | credit | recount => exact h.congr ordered rfl rfl rfl rfl rfl rfl
  | resize resized =>
    have hresized := Queue.resized_of_resize? h.ordered resized
    exact h.congr ordered hresized.passed_eq rfl rfl rfl rfl rfl
  | feed => exact h.feed
  | take _ pushed =>
    have hpushed := Queue.pushed_of_push? h.ordered pushed
    exact h.congr ordered hpushed.passed_eq rfl rfl rfl rfl rfl
  | seek hbuffering noBlock =>
    refine ⟨ordered, ?_, fun _ => ?_, fun _ hflows => absurd hbuffering hflows⟩
    · intro hempty
      have hflow : b.flow = .empty := hempty
      rw [hbuffering] at hflow
      cases hflow
    · -- Found or not, the clock goes on tracking what the scan has passed.
      cases hfound : b.sought.found with
      | true => exact (h.finds hbuffering noBlock hfound).tracks
      | false => exact (h.lost hbuffering noBlock hfound).1
  | start hbuffering block =>
    obtain ⟨_, _, _, _, locked⟩ := h.located hbuffering block
    exact coherent_of_flowing ordered nofun nofun locked (.inl (Queue.passed_rewind h.ordered))
  | next hrunning _ found =>
    obtain ⟨locked, _⟩ := h.running hrunning
    have hflow : (b.withScan b.sought).flow = .running := hrunning
    refine coherent_of_flowing ordered ?_ ?_ ((follows_sought h.ordered).locked locked)
      (.inr (times_sought h.ordered found))
    · simp [hflow]
    · simp [hflow]
  | lose => exact coherent_of_idle ordered (.inr rfl) rfl rfl
  | send hrunning lead =>
    obtain ⟨locked, htimes⟩ := h.running hrunning
    have hflow : b.sendOff.flow = .running := hrunning
    have hpassed : b.sendOff.queue.passed = b.queue.passed.tail :=
      Queue.passed_pop h.ordered (h.ordered.head_ne_tail lead)
    refine coherent_of_flowing ordered (by simp [hflow]) (by simp [hflow]) locked ?_
    rw [hpassed]
    rcases htimes with hnil | htimes
    · exact .inl (by rw [hnil]; rfl)
    · exact htimes.tail
  | stall now hrunning =>
    obtain ⟨locked, htimes⟩ := h.running hrunning
    exact coherent_of_flowing ordered nofun nofun locked htimes
  | resume stalled =>
    obtain ⟨locked, htimes⟩ := h.times (by simp [stalled]) (by simp [stalled])
    exact coherent_of_flowing ordered nofun nofun locked
      (htimes.imp id fun h => h.congr rfl rfl rfl)
  | empty => exact coherent_of_idle ordered (still_dropAll b) rfl rfl
  | pin _ unfed =>
    obtain ⟨hopening, hlatest⟩ := h.unfed unfed
    exact coherent_of_idle ordered (.inl unfed) hopening hlatest
  | repin => exact coherent_of_idle ordered (.inr rfl) rfl rfl

theorem Coherent.course (hc : b.Coherent) (h : Course b es b') : b'.Coherent :=
  (h.induct (P := fun _ => True) (fun _ _ => trivial) (fun hmove _ => coherent_move hmove) hc).1

theorem Coherent.run (hc : b.Coherent) (history : List Operation) : (b.run history).Coherent :=
  hc.course (course_run hc.ordered history)

end PacedStream.Buffer
