import PacedStream.Proofs.Buffer.Asking
import PacedStream.Proofs.Buffer.Primed

/-!
The count of blocks against what is queued. It is made behind a located block and kept while packets
come and go. Main statement: it is never more than the readings that are still queued bear out, and
while packets flow it is never zero.
-/

namespace PacedStream
set_option autoImplicit false

namespace Clock

variable {c c' : Clock} {p : Packet} {v : Verdict} {passed ahead : List Packet}

theorem blocks_observes (hobs : Observes c p c' v) (h : c.blocks = 0) : c'.blocks = 0 := by
  cases hobs with
  | pass | anchor | located => exact h
  | broken => rfl

theorem blocks_walk (h : c.blocks = 0) : (c.walk passed ahead).clock.blocks = 0 :=
  walk_keeps (fun c' _ _ => c'.blocks = 0) blocks_observes h

end Clock

namespace Buffer

variable {b b' : Buffer} {es : List Event} {history : List Operation}

/-- Without a located block nothing is counted before packets flow, and then no more than the blocks
between the readings that are queued. -/
structure Covered (b : Buffer) : Prop where
  still : b.flow = .empty ∨ b.flow = .buffering → b.clock.hasBlock = false → b.clock.blocks = 0
  flowing : b.flow ≠ .empty → b.flow ≠ .buffering → b.clock.hasBlock = false →
    b.clock.blocks + 1 ≤ b.queue.toList.countP b.clock.isReference

theorem covered_of_block (hblock : b.clock.hasBlock = true) : b.Covered := by
  constructor
  all_goals
    intros
    simp_all

theorem covered_of_still (hstill : b.flow = .empty ∨ b.flow = .buffering)
    (hblocks : b.clock.blocks = 0) : b.Covered := by
  refine ⟨fun _ _ => hblocks, fun hfed hflows => ?_⟩
  rcases hstill with hflow | hflow
  · exact absurd hflow hfed
  · exact absurd hflow hflows

theorem covered_create (settings : Settings) : (create settings).buffer.Covered :=
  covered_of_still (.inl rfl) rfl

theorem Covered.congr (h : b.Covered) (more : b.queue.toList <+: b'.queue.toList)
    (flow_eq : b'.flow = b.flow) (opening_eq : b'.clock.opening? = b.clock.opening?)
    (reference_eq : b'.clock.reference? = b.clock.reference?)
    (blocks_le : b.clock.hasBlock = false → b'.clock.blocks ≤ b.clock.blocks) : b'.Covered := by
  have hblock : b'.clock.hasBlock = b.clock.hasBlock := congrArg Option.isSome opening_eq
  have hreads : b'.clock.isReference = b.clock.isReference :=
    funext fun _ => Clock.isReference_congr reference_eq
  constructor
  · rw [flow_eq, hblock]
    intro hstill hnone
    have hzero := h.still hstill hnone
    have hle := blocks_le hnone
    omega
  · rw [flow_eq, hblock, hreads]
    intro hfed hflows hnone
    have hcovered := h.flowing hfed hflows hnone
    have hle := blocks_le hnone
    have hmore : b.queue.toList.countP b.clock.isReference ≤
        b'.queue.toList.countP b.clock.isReference := more.sublist.countP_le
    omega

/-- At the start of the flow the scan goes back in front of the block that was located, which adds
its two readings to those counted. -/
theorem covered_start (hc : b.Coherent) (hbuffering : b.flow = .buffering)
    (hblock : b.clock.hasBlock = true) :
    { b.recount.withScan b.recount.scan.rewind with flow := .running }.Covered := by
  obtain ⟨lead, block, hpassed, isBlock, _⟩ := hc.located hbuffering hblock
  refine ⟨nofun, fun _ _ _ => ?_⟩
  change b.recount.clock.blocks + 1 ≤ b.queue.toList.countP b.clock.isReference
  have htwo := isBlock.two_le_countP
  have hblocks := blocks_recount hc.ordered hblock
  rw [hc.ordered.toList_eq, hpassed, List.countP_append, List.countP_append]
  omega

theorem covered_move (hmove : Move b es b') (hc : b.Coherent) (hp : b.Primed) (h : b.Covered) :
    b'.Covered := by
  cases hmove with
  | adjust queue_eq clock_eq flow_eq =>
    refine h.congr ?_ flow_eq ?_ ?_ fun _ => ?_
    · simp only [queue_eq, List.prefix_rfl]
    all_goals rw [clock_eq]
  | connect | credit => exact h.congr (List.prefix_refl _) rfl rfl rfl fun _ => Nat.le_refl _
  | recount =>
    refine h.congr (List.prefix_refl _) rfl rfl rfl fun hnone => ?_
    rw [blocks_of_no_block hnone]
    exact Nat.zero_le _
  | resize resized =>
    have htoList := (Queue.resized_of_resize? hc.ordered resized).toList_eq hc.ordered
    refine h.congr ?_ rfl rfl rfl fun _ => Nat.le_refl _
    simp only [htoList, List.prefix_rfl]
  | feed =>
    cases hflow : b.flow with
    | empty =>
      have hnone : b.clock.hasBlock = false := by
        rw [Clock.hasBlock, (hc.unfed hflow).1]
        rfl
      exact covered_of_still (.inr rfl) (h.still (.inl hflow) hnone)
    | buffering | running | underflow =>
      exact h.congr (List.prefix_refl _) hflow.symm rfl rfl fun _ => Nat.le_refl _
  | take _ pushed =>
    refine h.congr ?_ rfl rfl rfl fun _ => Nat.le_refl _
    rw [(Queue.pushed_of_push? hc.ordered pushed).toList_eq hc.ordered]
    exact List.prefix_append _ _
  | seek hbuffering noBlock =>
    refine covered_of_still (.inr hbuffering) ?_
    change b.sought.clock.blocks = 0
    rw [sought, (b.clock.seek_at hc.ordered).clock_eq]
    exact Clock.blocks_walk (h.still (.inr hbuffering) noBlock)
  | start hbuffering hblock => exact covered_start hc hbuffering hblock
  | next _ _ found => exact covered_of_block (times_sought hc.ordered found).hasBlock
  | lose => exact covered_of_still (.inr rfl) rfl
  | send hrunning lead =>
    cases hblock : b.clock.hasBlock with
    | true => exact covered_of_block hblock
    | false =>
      -- Without a block the scan still stands at the front, and nothing is sent.
      obtain ⟨_, hpassed, _⟩ := hp.pair (by simp [hrunning]) (by simp [hrunning]) hblock
      exact absurd (hc.ordered.head_eq_mark_iff.mpr hpassed) lead
  | stall now hrunning =>
    exact ⟨by simp, fun _ _ => h.flowing (by simp [hrunning]) (by simp [hrunning])⟩
  | resume hstalled =>
    exact ⟨by simp, fun _ _ => h.flowing (by simp [hstalled]) (by simp [hstalled])⟩
  | empty => exact covered_of_still (still_dropAll b) rfl
  | pin _ unfed =>
    have hnone : b.clock.hasBlock = false := by
      rw [Clock.hasBlock, (hc.unfed unfed).1]
      rfl
    exact covered_of_still (.inl unfed) (h.still (.inl unfed) hnone)
  | repin => exact covered_of_still (.inr rfl) rfl

theorem Covered.course (h : b.Covered) (hcourse : Course b es b') (hc : b.Coherent)
    (hp : b.Primed) : b'.Covered := by
  have hkeeps := hcourse.induct (motive := fun b => b.Coherent ∧ b.Primed ∧ b.Covered)
    (P := fun _ => True) (fun _ _ => trivial)
    (fun hmove _ ⟨hc, hp, h⟩ =>
      ⟨coherent_move hmove hc, primed_move hmove hc hp, covered_move hmove hc hp h⟩) ⟨hc, hp, h⟩
  exact hkeeps.1.2.2

theorem covered_run (settings : Settings) (history : List Operation) :
    ((create settings).buffer.run history).Covered := by
  have hc := coherent_create settings
  exact (covered_create settings).course (course_run hc.ordered history) hc (primed_create settings)

theorem counted_tick (hq : b.queue.Ordered) (hc : b.Consistent) {now : Int}
    (h : b.flow = .running → 1 ≤ b.clock.blocks) (hrun : (b.tick now).buffer.flow = .running) :
    1 ≤ (b.tick now).buffer.clock.blocks := by
  have hlow := hc.low_pos
  have hle := hc.low_le
  have hturns := turns_tick hq (Nat.le_trans hlow hle) now
  generalize (b.tick now).buffer = after at hrun hturns
  cases hturns with
  | still hstill => rcases hstill with hstill | hstill <;> cases hstill.symm.trans hrun
  | skip flow_eq clock_eq => exact clock_eq ▸ h (flow_eq.symm.trans hrun)
  | start _ henough => exact Nat.le_trans (Nat.le_trans hlow hle) henough
  | keep hrunning _ hcounts => exact hcounts.pos (h hrunning)
  | stall _ _ hstall | wait _ hstall => cases hstall.symm.trans hrun
  | resume _ _ hback => exact Nat.le_trans hlow hback

theorem counted_apply (hq : b.queue.Ordered) (hc : b.Consistent)
    (h : b.flow = .running → 1 ≤ b.clock.blocks) (op : Operation)
    (hrun : (b.apply op).buffer.flow = .running) : 1 ≤ (b.apply op).buffer.clock.blocks := by
  rcases op.tick_or_not with ⟨now, rfl⟩ | hop
  · exact counted_tick hq hc h hrun
  · have huntimed := untimed_apply (b := b) hop
    generalize b.events op = es at huntimed
    generalize b.apply op = s at huntimed hrun
    cases huntimed with
    | offer burst buffer_eq =>
      obtain ⟨hclock, hrunning⟩ := keeps_offer b burst
      rw [buffer_eq] at hrun ⊢
      rw [hclock]
      exact h (hrunning hrun)
    | reset => rcases still_dropAll b with hstill | hstill <;> cases hstill.symm.trans hrun
    | adopt settings =>
      obtain ⟨hclock, hflow⟩ := (takesOver_adopt b settings).keeps
      rw [hclock]
      exact h (hflow.symm.trans hrun)
    | adjust _ clock_eq flow_eq =>
      rw [clock_eq]
      exact h (flow_eq.symm.trans hrun)
    | pin | connect => exact h hrun
    | repin => cases hrun

theorem counted_run (hq : b.queue.Ordered) (hc : b.Consistent)
    (h : b.flow = .running → 1 ≤ b.clock.blocks) (history : List Operation) :
    (b.run history).flow = .running → 1 ≤ (b.run history).clock.blocks := by
  induction history generalizing b with
  | nil => exact h
  | cons op rest ih =>
    exact ih (ordered_apply hq op) (consistent_apply hc op) (counted_apply hq hc h op)

/-- A fresh count stands for one block and those that end ahead, and readings only come on. -/
theorem Fresh.blocks_le {taken : List Packet} (h : b.Fresh) (hq : b.queue.Ordered)
    (hstands : Stands b taken b') (hblock' : b'.clock.hasBlock = true) :
    b'.clock.blocks ≤ 1 + b'.queue.ahead.countP b'.clock.isReference := by
  have hblock : b.clock.hasBlock = true := hstands.hasBlock_eq ▸ hblock'
  rw [hstands.blocks_eq, h hblock, blocks_recount hq hblock, hstands.ahead_eq,
    hstands.isReference_eq, List.countP_append]
  omega

/-- The count of blocks is borne out by the readings that are queued. -/
structure Supported (b : Buffer) : Prop where
  located : b.clock.hasBlock = true →
    b.clock.blocks ≤ 1 + b.queue.ahead.countP b.clock.isReference
  flowing : b.flow = .running → b.clock.hasBlock = false →
    b.clock.blocks + 1 ≤ b.queue.toList.countP b.clock.isReference
  still : b.flow = .empty ∨ b.flow = .buffering → b.clock.hasBlock = false → b.clock.blocks = 0
  counted : b.flow = .running → 1 ≤ b.clock.blocks

theorem count_supported (settings : Settings) (history : List Operation) :
    ((create settings).buffer.run history).Supported := by
  have hc := coherent_create settings
  have hcovered := covered_run settings history
  have hcounted := counted_run hc.ordered (consistent_create settings) nofun history
  obtain ⟨before, after, hsplit, hfresh, hstands⟩ :=
    fresh_before hc (fresh_of_no_block rfl) history
  refine ⟨hfresh.blocks_le (hc.run before).ordered hstands, fun hrunning => ?_, hcovered.still,
    hcounted⟩
  exact hcovered.flowing (by simp [hrunning]) (by simp [hrunning])

end Buffer
end PacedStream
