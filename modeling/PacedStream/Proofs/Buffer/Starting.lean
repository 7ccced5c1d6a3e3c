import PacedStream.Proofs.Buffer.Stalls
import PacedStream.Proofs.Buffer.Tally
import PacedStream.Proofs.Clock.Relocation

/-!
The start of the flow. While buffering the packets of a located block are counted, and the tick that
starts the flow takes the scan back to the front. Main statement: until a flow has located a block of
its own, nothing is sent or scanned, and packets are only taken behind those queued at the start.
-/

namespace PacedStream.Buffer
set_option autoImplicit false

variable {b b' b'' m : Buffer} {es : List Event} {taken taken' : List Packet} {now : Int}
  {op : Operation} {history : List Operation}

/-- While buffering the packets since the latest reading are counted, and so are those of a located
block. -/
structure Numbered (b : Buffer) : Prop where
  seeking : b.flow = .buffering → b.clock.hasBlock = false →
    b.clock.latest? = none ∨ b.clock.Anchored b.queue.passed
  located : b.flow = .buffering → b.clock.hasBlock = true → b.clock.Sized b.queue.passed

theorem numbered_of_flow (h : b.flow ≠ .buffering) : b.Numbered :=
  ⟨fun hbuffering => absurd hbuffering h, fun hbuffering => absurd hbuffering h⟩

theorem numbered_of_idle (noOpening : b.clock.opening? = none) (noLatest : b.clock.latest? = none) :
    b.Numbered := by
  refine ⟨fun _ _ => .inl noLatest, fun _ hblock => ?_⟩
  rw [Clock.hasBlock, noOpening] at hblock
  cases hblock

theorem Numbered.congr (h : b.Numbered) (flow_eq : b'.flow = b.flow)
    (passed_eq : b'.queue.passed = b.queue.passed)
    (clock_eq : b'.clock = { b.clock with blocks := b'.clock.blocks, credit := b'.clock.credit }) :
    b'.Numbered := by
  constructor
  · rw [flow_eq, passed_eq, clock_eq]
    intro hbuffering hnone
    exact (h.seeking hbuffering hnone).imp id fun hanchored => hanchored.congr rfl rfl rfl
  · rw [flow_eq, passed_eq, clock_eq]
    intro hbuffering hblock
    exact (h.located hbuffering hblock).congr rfl rfl rfl rfl rfl rfl

theorem numbered_sought (hc : b.Coherent) (hbuffering : b.flow = .buffering)
    (noBlock : b.clock.hasBlock = false)
    (h : b.clock.latest? = none ∨ b.clock.Anchored b.queue.passed) :
    (b.withScan b.sought).Numbered := by
  have hat := b.clock.seek_at hc.ordered
  have hwalk := Clock.sized_walk h b.queue.ahead
  rw [← hat.clock_eq, ← hat.passed_eq, ← hat.found_eq] at hwalk
  cases hfound : b.sought.found with
  | true =>
    have hblock : b.sought.clock.hasBlock = true := (times_sought hc.ordered hfound).hasBlock
    exact ⟨fun _ hnone => absurd (hblock.symm.trans hnone) nofun, fun _ _ => hwalk.2 hfound⟩
  | false =>
    have hnone := hc.noBlock_of_lost hbuffering noBlock hfound
    exact ⟨fun _ _ => hwalk.1 hfound, fun _ hblock => absurd (hnone.symm.trans hblock) nofun⟩

theorem numbered_move (hmove : Move b es b') (hc : b.Coherent) (h : b.Numbered) : b'.Numbered := by
  cases hmove with
  | adjust queue_eq clock_eq flow_eq =>
    refine h.congr flow_eq ?_ ?_
    · rw [queue_eq]
    · rw [clock_eq]
  | connect | credit | recount => exact h.congr rfl rfl rfl
  | resize resized =>
    exact h.congr rfl (Queue.resized_of_resize? hc.ordered resized).passed_eq rfl
  | feed =>
    cases hflow : b.flow with
    | empty =>
      obtain ⟨hopening, hlatest⟩ := hc.unfed hflow
      exact numbered_of_idle hopening hlatest
    | buffering | running | underflow => exact h.congr hflow.symm rfl rfl
  | take _ pushed => exact h.congr rfl (Queue.pushed_of_push? hc.ordered pushed).passed_eq rfl
  | seek hbuffering noBlock =>
    exact numbered_sought hc hbuffering noBlock (h.seeking hbuffering noBlock)
  | start | stall | resume => exact numbered_of_flow nofun
  | next hrunning | send hrunning =>
    refine numbered_of_flow fun hbuffering => ?_
    exact absurd (hrunning.symm.trans hbuffering) nofun
  | lose => exact numbered_of_idle rfl rfl
  | empty => exact numbered_of_idle rfl rfl
  | pin _ unfed => exact numbered_of_idle (hc.unfed unfed).1 (hc.unfed unfed).2
  | repin => exact numbered_of_idle rfl rfl

theorem numbered_create (settings : Settings) : (create settings).buffer.Numbered :=
  numbered_of_flow nofun

theorem Numbered.run (h : b.Numbered) (hc : b.Coherent) (history : List Operation) :
    (b.run history).Numbered := by
  have hkeeps := (course_run hc.ordered history).induct
    (motive := fun b => b.Coherent ∧ b.Numbered) (P := fun _ => True) (fun _ _ => trivial)
    (fun hmove _ ⟨hc, h⟩ => ⟨coherent_move hmove hc, numbered_move hmove hc h⟩) ⟨hc, h⟩
  exact hkeeps.1.2

def searched (b : Buffer) : Buffer := if b.clock.hasBlock then b else b.withScan b.sought

def started (b : Buffer) : Buffer :=
  { b.recount.withScan b.recount.scan.rewind with flow := .running }

/-- A tick that starts the flow behind the block located last. -/
structure Starts (b : Buffer) (now : Int) : Prop where
  buffering : b.flow = .buffering
  block : (b.timed now).searched.clock.hasBlock = true
  enough : b.settings.enough.toNat ≤ (b.timed now).searched.recount.clock.blocks
  buffer_eq : (b.tick now).buffer = (b.timed now).searched.started

theorem started_of_tryStart (hbuffering : b.flow = .buffering)
    (hrun : (b.tryStart now).buffer.flow = .running) :
    b.settings.enough.toNat ≤ b.recount.clock.blocks ∧ (b.tryStart now).buffer = b.started := by
  have henough := enough_of_tryStart hbuffering hrun
  refine ⟨henough, ?_⟩
  unfold tryStart
  dsimp only
  rw [updateFlow_recount hbuffering, if_pos henough]
  rfl

theorem begins_tick (hq : b.queue.Ordered) (hstill : b.flow = .empty ∨ b.flow = .buffering)
    (hrun : (b.tick now).buffer.flow = .running) : b.Starts now := by
  have hprepares := (prepares_tick hstill now).1
  generalize hafter : (b.tick now).buffer = after at hprepares hrun
  cases hprepares with
  | idle => rcases hstill with hflow | hflow <;> cases hflow.symm.trans hrun
  | jump => rcases still_dropAll b with hflow | hflow <;> cases hflow.symm.trans hrun
  | ready buffering block =>
    have hsearched : (b.timed now).searched = b.timed now := if_pos block
    obtain ⟨henough, hstarted⟩ := started_of_tryStart (b := b.timed now) buffering hrun
    refine ⟨buffering, ?_, ?_, ?_⟩
    all_goals rw [hsearched]
    · exact block
    · exact henough
    · exact hafter.trans hstarted
  | found buffering noBlock found =>
    have hsearched : (b.timed now).searched = (b.timed now).withScan b.sought :=
      if_neg (Bool.eq_false_iff.mp noBlock)
    obtain ⟨henough, hstarted⟩ :=
      started_of_tryStart (b := (b.timed now).withScan b.sought) buffering hrun
    refine ⟨buffering, ?_, ?_, ?_⟩
    all_goals rw [hsearched]
    · exact (times_sought hq found).hasBlock
    · exact henough
    · exact hafter.trans hstarted
  | lost buffering => exact absurd (buffering.symm.trans hrun) nofun

structure Relocatable (m : Buffer) : Prop where
  ordered : m.queue.Ordered
  sized : m.clock.Sized m.queue.passed
  readings_le : m.queue.passed.countP m.clock.owns ≤ 2

theorem relocatable_of_block (hc : m.Coherent) (hs : m.Sparse) (hn : m.Numbered)
    (hbuffering : m.flow = .buffering) (hblock : m.clock.hasBlock = true) : m.Relocatable := by
  have htwo : m.clock.remembered = 2 := if_pos hblock
  exact ⟨hc.ordered, hn.located hbuffering hblock, htwo ▸ hs.readings_le⟩

theorem Starts.relocatable (h : b.Starts now) (hc : b.Coherent) (hs : b.Sparse) (hn : b.Numbered) :
    (b.timed now).searched.Relocatable := by
  have htime := move_timed b now
  have hc' := coherent_move htime hc
  have hs' := sparse_move htime hc.ordered hs
  have hn' := numbered_move htime hc hn
  have hbuffering : (b.timed now).flow = .buffering := h.buffering
  have hblock := h.block
  generalize b.timed now = b₀ at hc' hs' hn' hbuffering hblock
  unfold searched at hblock ⊢
  split
  · rename_i hready
    exact relocatable_of_block hc' hs' hn' hbuffering hready
  · rename_i hnone
    rw [if_neg hnone] at hblock
    have hseek : Move b₀ [] (b₀.withScan b₀.sought) :=
      .seek hbuffering (Bool.eq_false_iff.mpr hnone)
    exact relocatable_of_block (coherent_move hseek hc') (sparse_move hseek hc'.ordered hs')
      (numbered_move hseek hc' hn') hbuffering hblock

/-- Of the clock only credit and count of blocks changed, and packets were taken behind those
queued. -/
structure Rests (b : Buffer) (taken : List Packet) (b' : Buffer) : Prop where
  clock_eq : b'.clock = { b.clock with blocks := b'.clock.blocks, credit := b'.clock.credit }
  toList_eq : b'.queue.toList = b.queue.toList ++ taken
  scanned_eq : b'.queue.scanned = b.queue.scanned

theorem Rests.of_eq
    (clock_eq : b'.clock = { b.clock with blocks := b'.clock.blocks, credit := b'.clock.credit })
    (queue_eq : b'.queue = b.queue) : Rests b [] b' :=
  ⟨clock_eq, by rw [queue_eq, List.append_nil], by rw [queue_eq]⟩

theorem Rests.trans (h : Rests b taken b') (h' : Rests b' taken' b'') :
    Rests b (taken ++ taken') b'' := by
  refine ⟨h'.clock_eq.trans ?_, ?_, h'.scanned_eq.trans h.scanned_eq⟩
  · rw [h.clock_eq]
  · rw [h'.toList_eq, h.toList_eq, List.append_assoc]

theorem Paused.rests (h : Paused b taken b') : Rests b taken b' := by
  refine ⟨?_, h.toList_eq, h.scanned_eq⟩
  rw [h.clock_eq]

theorem Rests.passed_eq (h : Rests b taken b') (hq : b.queue.Ordered) (hq' : b'.queue.Ordered) :
    b'.queue.passed = b.queue.passed := by
  have hlists := h.toList_eq
  rw [hq.toList_eq, hq'.toList_eq, List.append_assoc] at hlists
  refine (List.append_inj hlists ?_).1
  rw [Queue.length_passed, Queue.length_passed, h.scanned_eq]

theorem block_of_moment (hq : b.queue.Ordered) (h : b.moment? now = some m)
    (ready : b.clock.hasBlock = true ∨ b.queue.head = b.queue.mark) : m.clock.hasBlock = true := by
  cases comesTo_of_moment h with
  | ahead lead => exact ready.resolve_right lead
  | found _ found =>
    rw [clock_settle]
    exact (times_sought (b := b.spend) hq found).hasBlock

theorem quiet_pace (hq : b.queue.Ordered) (hrunning : b.flow = .running)
    (ready : b.clock.hasBlock = true ∨ b.queue.head = b.queue.mark) (now : Int) :
    (b.pace now).buffer = b ∨ (b.pace now).buffer.clock.hasBlock = true ∨
      (b.pace now).buffer.flow = .buffering := by
  unfold pace
  split
  · exact .inl rfl
  · have hrounds := paceLoop_induct now
      (fun s => s.buffer.flow = .running ∧ s.buffer.queue.Ordered ∧
        (s.buffer = b ∨ s.buffer.clock.hasBlock = true))
      (fun s => s.buffer.flow = .buffering)
      (b.queue.length + 1) (s := { buffer := b }) ?_ (fun _ _ _ => rfl) ⟨hrunning, hq, .inl rfl⟩
    · rcases hrounds with ⟨_, _, hsame | hblock⟩ | hbuffering
      · exact .inl hsame
      · exact .inr (.inl hblock)
      · exact .inr (.inr hbuffering)
    · intro s m log ⟨hrun, hordered, hrest⟩ hmoment
      obtain ⟨_, hordered', hrun', lead⟩ := course_moment hordered hrun hmoment
      have hready : s.buffer.clock.hasBlock = true ∨ s.buffer.queue.head = s.buffer.queue.mark := by
        rcases hrest with hsame | hblock
        · exact hsame ▸ ready
        · exact .inl hblock
      have hblock : m.clock.hasBlock = true := block_of_moment hordered hmoment hready
      exact ⟨hrun', Queue.ordered_pop hordered' (hordered'.head_ne_tail lead), .inr hblock⟩

theorem rests_tick (hq : b.queue.Ordered) (hfed : b.flow ≠ .empty) (hflows : b.flow ≠ .buffering)
    (ready : b.clock.hasBlock = true ∨ b.queue.head = b.queue.mark) (now : Int) :
    (b.tick now).buffer.flow = .buffering ∨ (b.tick now).buffer.clock.hasBlock = true ∨
      Rests b [] (b.tick now).buffer := by
  have hdropped : ∀ b : Buffer, b.flow ≠ .empty → b.dropAll.flow = .buffering := fun _ h => if_neg h
  have hticks := ticks b now
  generalize b.tick now = s at hticks
  cases hticks with
  | jump => exact .inl (hdropped b hfed)
  | skip => exact .inr (.inr (.of_eq rfl rfl))
  | @count microseconds =>
    obtain ⟨asked, hadvance⟩ := advance_eq b now microseconds
    rw [hadvance]
    cases hflow : b.flow with
    | empty => exact absurd hflow hfed
    | buffering => exact absurd hflow hflows
    | running =>
      dsimp only
      by_cases hfew : b.clock.blocks < b.settings.low.toNat
      · rw [play_of_few (b := b.timed now) hflow hfew]
        exact .inr (.inr (.of_eq rfl rfl))
      · rw [play_of_enough hflow (Nat.le_of_not_lt hfew)]
        rcases quiet_pace (b := b.credited now microseconds) hq hflow ready now with
          hsame | hblock | hbuffering
        · rw [hsame]
          exact .inr (.inr (.of_eq rfl rfl))
        · exact .inr (.inl hblock)
        · exact .inl hbuffering
    | underflow since =>
      have htimed : (b.timed now).flow = .underflow since := hflow
      dsimp only
      by_cases hback : b.settings.low.toNat ≤ (b.timed now).recount.clock.blocks
      · rw [(recover_of_enough now htimed hback).1]
        exact .inr (.inr (.of_eq rfl rfl))
      · rw [recover_of_few now htimed (Nat.not_le.mp hback)]
        split
        · exact .inl (hdropped (b.timed now).recount hfed)
        · exact .inr (.inr (.of_eq rfl rfl))

theorem rests_apply (hq : b.queue.Ordered) (hfed : b.flow ≠ .empty) (hflows : b.flow ≠ .buffering)
    (ready : b.clock.hasBlock = true ∨ b.queue.head = b.queue.mark) (op : Operation) :
    (b.apply op).buffer.flow = .buffering ∨ (b.apply op).buffer.clock.hasBlock = true ∨
      Rests b ((b.events op).flatMap Event.accepted) (b.apply op).buffer := by
  rcases op.tick_or_not with ⟨now, rfl⟩ | hop
  · rw [nothing_taken_tick]
    exact rests_tick hq hfed hflows ready now
  · by_cases hbuffering : (b.apply op).buffer.flow = .buffering
    · exact .inl hbuffering
    · exact .inr (.inr (paused_untimed hq hop hfed hbuffering).rests)

theorem begins_apply (hq : b.queue.Ordered) (hc : b.Consistent)
    (hstill : b.flow = .empty ∨ b.flow = .buffering) (hfed : (b.apply op).buffer.flow ≠ .empty)
    (hflows : (b.apply op).buffer.flow ≠ .buffering) : ∃ now, op = .tick now ∧ b.Starts now := by
  cases hflow : (b.apply op).buffer.flow with
  | empty => exact absurd hflow hfed
  | buffering => exact absurd hflow hflows
  | running =>
    rcases op.tick_or_not with ⟨now, rfl⟩ | hop
    · exact ⟨now, rfl, begins_tick hq hstill hflow⟩
    · have hbefore := (of_not_tick hop).2 hflow
      rcases hstill with hstill | hstill <;> cases hstill.symm.trans hbefore
  | underflow since =>
    rcases stalled_apply hq hc hflow with hbefore | ⟨_, hbefore⟩
    all_goals rcases hstill with hstill | hstill <;> cases hstill.symm.trans hbefore

/-- A flow that has located no block yet, seen from the tick that started it. -/
theorem rests_run (hc : b.Coherent) (hs : b.Consistent) (hp : b.Primed) (hstart : b.flow = .empty)
    (history : List Operation) (hfed : (b.run history).flow ≠ .empty)
    (hflows : (b.run history).flow ≠ .buffering)
    (noBlock : (b.run history).clock.hasBlock = false) :
    ∃ before now after, history = before ++ .tick now :: after ∧ (b.run before).Starts now ∧
      Rests ((b.run before).timed now).searched.started
        (((b.run before).timed now).searched.started.accepted after) (b.run history) := by
  induction history using List.reverseRecOn with
  | nil => exact absurd hstart hfed
  | append_singleton history op ih =>
    have hlast : b.run (history ++ [op]) = ((b.run history).apply op).buffer := run_append _ _ _
    have hq := (hc.run history).ordered
    rw [hlast] at hfed hflows noBlock ⊢
    by_cases hstill : (b.run history).flow = .empty ∨ (b.run history).flow = .buffering
    · obtain ⟨now, rfl, hstarts⟩ := begins_apply hq (hs.run history) hstill hfed hflows
      refine ⟨history, now, [], rfl, hstarts, ?_⟩
      have hbuffer : ((b.run history).apply (.tick now)).buffer = _ := hstarts.buffer_eq
      rw [hbuffer]
      exact .of_eq rfl rfl
    · obtain ⟨hfed', hflows'⟩ := not_or.mp hstill
      have hprimed := primed_course (course_run hc.ordered history) hc hp
      have hready : (b.run history).clock.hasBlock = true ∨
          (b.run history).queue.head = (b.run history).queue.mark := by
        cases hblock : (b.run history).clock.hasBlock with
        | true => exact .inl rfl
        | false => exact .inr (hq.head_eq_mark_iff.mpr (hprimed.pair hfed' hflows' hblock).2.1)
      rcases rests_apply hq hfed' hflows' hready op with hbuffering | hblock | hrests
      · exact absurd hbuffering hflows
      · exact absurd (hblock.symm.trans noBlock) nofun
      · have hnone : (b.run history).clock.hasBlock = false := by
          rw [← noBlock, hrests.clock_eq]
          rfl
        obtain ⟨before, now, after, hsplit, hstarts, hbefore⟩ := ih hfed' hflows' hnone
        have hrest : b.run history = ((b.run before).timed now).searched.started.run after := by
          rw [hsplit, run_append, ← hstarts.buffer_eq]
          rfl
        refine ⟨before, now, after ++ [op], by simp [hsplit], hstarts, ?_⟩
        have haccepted := accepted_concat ((b.run before).timed now).searched.started after op
        rw [← hrest, ← accepted_events] at haccepted
        rw [haccepted]
        exact hbefore.trans hrests

end PacedStream.Buffer
