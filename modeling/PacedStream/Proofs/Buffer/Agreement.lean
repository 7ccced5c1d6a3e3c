import Mathlib.Data.List.Induction
import PacedStream.Proofs.Queue.Capacity
import PacedStream.Proofs.Buffer.Renewal
import PacedStream.Proofs.Flow.Sessions

/-!
Parts of a buffer that hold the same facts. Main statement: in every buffer reached from a new one
thresholds fit together, sizing, queue and clock have the sizes and the identifier that the settings
name, and before the first packets queue and clock are new; a queue has more slots than the
settings allow only if they allowed as many before, and a stall lasts since the tick that began it.
-/

namespace PacedStream
set_option autoImplicit false

namespace Clock

variable {c c' : Clock} {p : Packet} {v : Verdict} {passed ahead : List Packet}

/-- A pinned clock is read from the identifier it is pinned to, and none learns that of stuffing. -/
structure Tuned (c : Clock) : Prop where
  pinned : ∀ pid, c.pinned? = some pid → c.reference? = some pid
  learned : c.pinned? = none → c.reference? ≠ some Packet.nullPid

theorem Tuned.congr (h : c.Tuned) (pinned_eq : c'.pinned? = c.pinned?)
    (reference_eq : c'.reference? = c.reference?) : c'.Tuned := by
  constructor
  · rw [pinned_eq, reference_eq]
    exact h.pinned
  · rw [pinned_eq, reference_eq]
    exact h.learned

theorem tuned_of_reference (h : c.reference? = c.pinned?) : c.Tuned := by
  constructor
  · intro pid hpinned
    rw [h, hpinned]
  · intro hnone
    rw [h, hnone]
    nofun

theorem Tuned.learn {pid : UInt16} {ticks : UInt64} (h : c.Tuned)
    (read : reading? p = some (pid, ticks)) (own : c.reference?.getD pid = pid) :
    (c.counted.learn pid).Tuned := by
  have hreference := learn_reference? own
  constructor
  · intro pid' hpinned
    rw [hreference, ← eq_of_own (h.pinned pid' hpinned) own]
  · rw [hreference]
    intro _ hnull
    exact ne_nullPid_of_reading? read (Option.some.inj hnull)

theorem tuned_observes (hobs : Observes c p c' v) (h : c.Tuned) : c'.Tuned := by
  cases hobs with
  | pass => exact h.congr rfl rfl
  | anchor read own | broken read own | located read own => exact (h.learn read own).congr rfl rfl

theorem tuned_walk (h : c.Tuned) : (c.walk passed ahead).clock.Tuned :=
  walk_keeps (fun c' _ _ => c'.Tuned) tuned_observes h

end Clock

namespace Buffer

variable {b b' : Buffer} {es : List Event} {op : Operation} {burst : List Packet}
  {history : List Operation}

theorem tuned_move (hmove : Move b es b') (hq : b.queue.Ordered) (h : b.clock.Tuned) :
    b'.clock.Tuned := by
  cases hmove with
  | adjust _ clock_eq => rwa [clock_eq]
  | connect | resize | feed | take | send | stall => exact h
  | credit | recount | start | resume => exact h.congr rfl rfl
  | seek | next =>
    have hat := b.clock.seek_at hq
    change b.sought.clock.Tuned
    rw [sought, hat.clock_eq]
    exact Clock.tuned_walk h
  | lose | empty | pin | repin => exact Clock.tuned_of_reference rfl

theorem tuned_course (h : Course b es b') (hq : b.queue.Ordered) (ht : b.clock.Tuned) :
    b'.clock.Tuned :=
  (h.induct (motive := fun b => b.queue.Ordered ∧ b.clock.Tuned) (P := fun _ => True)
    (fun _ _ => trivial)
    (fun hmove _ ⟨hq, ht⟩ => ⟨ordered_move hmove hq, tuned_move hmove hq ht⟩) ⟨hq, ht⟩).1.2

theorem fed_move (hmove : Move b es b') (hfed : b.flow ≠ .empty) : b'.flow ≠ .empty := by
  cases hmove with
  | adjust _ _ flow_eq => rwa [flow_eq]
  | feed => exact feed_ne_empty b.flow
  | start | lose | stall | resume | repin => exact nofun
  | empty =>
    change (if b.flow = .empty then Flow.empty else .buffering) ≠ .empty
    rw [if_neg hfed]
    exact nofun
  | connect | credit | recount | resize | take | seek | next | send | pin => exact hfed

theorem fed_course (h : Course b es b') (hfed : b.flow ≠ .empty) : b'.flow ≠ .empty :=
  (h.induct (motive := fun b => b.flow ≠ .empty) (P := fun _ => True) (fun _ _ => trivial)
    (fun hmove _ => fed_move hmove) hfed).1

theorem buffer_apply_of_burst (b : Buffer) (hne : op.burst ≠ []) :
    (b.apply op).buffer = (b.offer op.burst).buffer := by
  cases op with
  | push burst => exact buffer_push
  | offer burst => rfl
  | pushBytes bytes => exact buffer_pushBytes bytes
  | _ => exact absurd rfl hne

theorem flow_offer (b : Buffer) (hne : burst ≠ []) : (b.offer burst).buffer.flow = b.flow.feed := by
  have hempty : ¬ burst.isEmpty = true := by simpa using hne
  unfold offer
  rw [if_neg hempty]
  dsimp only
  split <;> rfl

theorem unfed_apply (hq : b.queue.Ordered) (h : b.flow = .empty → b.Unfed) (op : Operation)
    (hempty : (b.apply op).buffer.flow = .empty) : (b.apply op).buffer.Unfed := by
  by_cases hop : op.burst = []
  · by_cases hflow : b.flow = .empty
    · exact (feeds_apply (h hflow) hop).unfed
    · exact absurd hempty (fed_course (course_apply hq op).1 hflow)
  · rw [buffer_apply_of_burst b hop, flow_offer b hop] at hempty
    exact absurd hempty (feed_ne_empty b.flow)

theorem unfed_run (hq : b.queue.Ordered) (h : b.flow = .empty → b.Unfed)
    (history : List Operation) : (b.run history).flow = .empty → (b.run history).Unfed := by
  induction history generalizing b with
  | nil => exact h
  | cons op rest ih => exact ih (ordered_apply hq op) (unfed_apply hq h op)

theorem unfed_create (settings : Settings) : (create settings).buffer.Unfed :=
  ⟨rfl, ordered_create settings, Queue.toList_create _ _, rfl⟩

theorem size_sought (b : Buffer) : b.sought.queue.size = b.queue.size := (Scan.keeps_run _ _).2.2

theorem size_dropAll_le (hq : b.queue.Ordered) : b.dropAll.queue.size ≤ b.queue.size := by
  rw [size_dropAll hq]
  exact hq.minSize_le

theorem size_settle_le (hq : b.queue.Ordered) (now : Int) :
    (b.settle now).buffer.queue.size ≤ b.queue.size := by
  have hmin := hq.minSize_le
  unfold settle
  dsimp only
  split
  · exact Nat.le_refl _
  · rename_i queue hhalve
    have hsize := (Queue.resized_of_resize? hq (Sizing.resize?_of_halve? hhalve)).size_eq
    change queue.size ≤ b.queue.size
    omega

theorem size_moment_le {now : Int} {m : Buffer} (hq : b.queue.Ordered)
    (h : b.moment? now = some m) : m.queue.size ≤ b.queue.size := by
  cases comesTo_of_moment h with
  | ahead => exact Nat.le_refl _
  | found =>
    refine Nat.le_trans (size_settle_le (ordered_sought (b := b.spend) hq) now) ?_
    exact Nat.le_of_eq (size_sought b.spend)

theorem size_pace_le (hq : b.queue.Ordered) (hrunning : b.flow = .running) (now : Int) :
    (b.pace now).buffer.queue.size ≤ b.queue.size := by
  unfold pace
  split
  · exact Nat.le_refl _
  · have hrounds := paceLoop_induct now
      (fun s => (s.buffer.queue.Ordered ∧ s.buffer.flow = .running) ∧
        s.buffer.queue.size ≤ b.queue.size)
      (fun s => s.buffer.queue.size ≤ b.queue.size) (b.queue.length + 1) (s := { buffer := b })
      ?_ ?_ ⟨⟨hq, hrunning⟩, Nat.le_refl _⟩
    · exact hrounds.elim And.right id
    · intro s m log ⟨⟨hordered, hrun⟩, hsize⟩ hmoment
      obtain ⟨_, hordered', hrun', lead⟩ := course_moment hordered hrun hmoment
      have hle := size_moment_le hordered hmoment
      exact ⟨⟨Queue.ordered_pop hordered' (hordered'.head_ne_tail lead), hrun'⟩,
        Nat.le_trans hle hsize⟩
    · intro s log ⟨_, hsize⟩ _
      exact Nat.le_trans (Nat.le_of_eq (size_sought s.buffer.spend)) hsize

theorem size_tryStart (b : Buffer) (now : Int) :
    (b.tryStart now).buffer.queue.size = b.queue.size := by
  unfold tryStart
  dsimp only
  split <;> rfl

theorem size_prepare (b : Buffer) (now : Int) :
    (b.prepare now).buffer.queue.size = b.queue.size := by
  unfold prepare
  split
  · exact size_tryStart b now
  · dsimp only
    split
    · exact (size_tryStart (b.withScan b.sought) now).trans (size_sought b)
    · exact size_sought b

theorem size_play_le (hq : b.queue.Ordered) (hrunning : b.flow = .running) (now : Int)
    (microseconds : Nat) :
    ((b.timed now).play now microseconds).buffer.queue.size ≤ b.queue.size := by
  by_cases hfew : b.clock.blocks < b.settings.low.toNat
  · rw [play_of_few (b := b.timed now) hrunning hfew]
    exact Nat.le_refl _
  · rw [play_of_enough hrunning (Nat.le_of_not_lt hfew)]
    exact size_pace_le (b := b.credited now microseconds) hq hrunning now

theorem size_recover_le {since : Int} (hq : b.queue.Ordered) (hstalled : b.flow = .underflow since)
    (now : Int) : (b.recover now).buffer.queue.size ≤ b.queue.size := by
  by_cases hback : b.settings.low.toNat ≤ b.recount.clock.blocks
  · rw [(recover_of_enough now hstalled hback).1]
    exact Nat.le_refl _
  · rw [recover_of_few now hstalled (Nat.not_le.mp hback)]
    split
    · exact size_dropAll_le (b := b.recount) hq
    · exact Nat.le_refl _

theorem size_tick_le (hq : b.queue.Ordered) (now : Int) :
    (b.tick now).buffer.queue.size ≤ b.queue.size := by
  have hticks := ticks b now
  generalize b.tick now = s at hticks
  cases hticks with
  | jump => exact size_dropAll_le hq
  | skip => exact Nat.le_refl _
  | @count microseconds =>
    obtain ⟨asked, hadvance⟩ := advance_eq b now microseconds
    rw [hadvance]
    cases hflow : b.flow with
    | empty => exact Nat.le_refl _
    | buffering => exact Nat.le_of_eq (size_prepare (b.timed now) now)
    | running => exact size_play_le hq hflow now microseconds
    | underflow since => exact size_recover_le (b := b.timed now) hq hflow now

theorem size_offer_le (hq : b.queue.Ordered) (burst : List Packet) :
    (b.offer burst).buffer.queue.size ≤ max b.queue.size b.sizing.maxSize := by
  have hgrown : (b.sizing.makeRoom b.queue burst.length).queue.size ≤
      max b.queue.size b.sizing.maxSize := Sizing.size_grow_le hq (Nat.le_refl _)
  have hordered := (Sizing.lists_makeRoom hq b.sizing burst.length).1
  unfold offer
  dsimp only
  split
  · exact Nat.le_max_left _ _
  · split
    · change (((b.sizing.makeRoom b.queue burst.length).queue.push? burst).getD
        (b.sizing.makeRoom b.queue burst.length).queue).size ≤ _
      cases hpush : (b.sizing.makeRoom b.queue burst.length).queue.push? burst with
      | none => exact hgrown
      | some queue => exact (Queue.pushed_of_push? hordered hpush).size_eq ▸ hgrown
    · exact hgrown

theorem TakesOver.size_le {settings : Settings} {s : Step} (hq : b.queue.Ordered)
    (h : TakesOver b settings s) : s.buffer.queue.size ≤ b.queue.size := by
  cases h with
  | stays => exact Nat.le_refl _
  | @moves queue hlarge hresize =>
    have hmin := hq.minSize_le
    have hsize := (Queue.resized_of_resize? hq hresize).size_eq
    change queue.size ≤ b.queue.size
    omega

theorem size_apply_le (hq : b.queue.Ordered) (op : Operation) :
    (b.apply op).buffer.queue.size ≤
      max b.queue.size (b.apply op).buffer.sizing.maxSize := by
  rcases op.tick_or_not with ⟨now, rfl⟩ | hop
  · exact Nat.le_trans (size_tick_le hq now) (Nat.le_max_left _ _)
  · have huntimed := untimed_apply (b := b) hop
    generalize b.events op = es at huntimed
    generalize b.apply op = s at huntimed
    cases huntimed with
    | offer burst buffer_eq =>
      rw [buffer_eq, (fixed_offer b burst).maxSize_eq]
      exact size_offer_le hq burst
    | reset => exact Nat.le_trans (size_dropAll_le hq) (Nat.le_max_left _ _)
    | adopt settings => exact Nat.le_trans ((takesOver_adopt b settings).size_le hq) (Nat.le_max_left _ _)
    | adjust queue_eq =>
      rw [queue_eq]
      exact Nat.le_max_left _ _
    | pin | repin | connect => exact Nat.le_max_left _ _

theorem size_create_le (settings : Settings) :
    (create settings).buffer.queue.size ≤ (create settings).buffer.sizing.maxSize := by
  change (Queue.create Queue.standardMinSize Queue.standardMinSize : Queue Packet).size ≤
    max (usable settings).1.maxPackets Queue.standardMinSize
  rw [Queue.size_create]
  exact Nat.le_trans (Nat.max_le.mpr ⟨Nat.le_refl _, by decide⟩) (Nat.le_max_right _ _)

/-- Some operation of a history took the greatest size from at least `size` slots below it. -/
def Lowered (b : Buffer) (history : List Operation) (size : Nat) : Prop :=
  ∃ before op after, history = before ++ op :: after ∧ size ≤ (b.run before).sizing.maxSize ∧
    ((b.run before).apply op).buffer.sizing.maxSize < size

theorem Lowered.concat {size : Nat} (h : b.Lowered history size) (op : Operation) :
    b.Lowered (history ++ [op]) size := by
  obtain ⟨before, first, after, hsplit, hle, hlt⟩ := h
  exact ⟨before, first, after ++ [op], by simp [hsplit], hle, hlt⟩

theorem lowered_of_large (hq : b.queue.Ordered) (hstart : b.queue.size ≤ b.sizing.maxSize)
    (history : List Operation) {size : Nat} (hsize : size ≤ (b.run history).queue.size)
    (hlarge : (b.run history).sizing.maxSize < size) : b.Lowered history size := by
  induction history using List.reverseRecOn with
  | nil => exact absurd (Nat.le_trans hsize hstart) (Nat.not_le.mpr hlarge)
  | append_singleton history op ih =>
    have hlast : b.run (history ++ [op]) = ((b.run history).apply op).buffer := run_append _ _ _
    have hordered := (course_run hq history).ordered hq
    have hgrows := size_apply_le hordered op
    rw [hlast] at hsize hlarge
    by_cases hallowed : size ≤ (b.run history).sizing.maxSize
    · exact ⟨history, op, [], rfl, hallowed, hlarge⟩
    · exact (ih (by omega) (Nat.lt_of_not_le hallowed)).concat op

theorem stalled_tick {now since : Int} (hq : b.queue.Ordered) (hc : b.Consistent)
    (h : (b.tick now).buffer.flow = .underflow since) :
    b.flow = .underflow since ∨ now = since ∧ b.flow = .running := by
  have hturns := turns_tick hq (Nat.le_trans hc.low_pos hc.low_le) now
  generalize (b.tick now).buffer = after at h hturns
  cases hturns with
  | still hstill => rcases hstill with hstill | hstill <;> cases hstill.symm.trans h
  | skip flow_eq => exact .inl (flow_eq.symm.trans h)
  | start hrun | keep _ hrun | resume _ hrun => cases hrun.symm.trans h
  | stall hrunning _ hstall => exact .inr ⟨Flow.underflow.inj (hstall.symm.trans h), hrunning⟩
  | wait hstalled hwait => exact .inl (hstalled.trans (hwait.symm.trans h))

theorem stalled_apply {since : Int} (hq : b.queue.Ordered) (hc : b.Consistent)
    (h : (b.apply op).buffer.flow = .underflow since) :
    b.flow = .underflow since ∨ op = .tick since ∧ b.flow = .running := by
  rcases op.tick_or_not with ⟨now, rfl⟩ | hop
  · rcases stalled_tick hq hc h with hbefore | ⟨rfl, hrunning⟩
    · exact .inl hbefore
    · exact .inr ⟨rfl, hrunning⟩
  · refine .inl ?_
    have huntimed := untimed_apply (b := b) hop
    generalize b.events op = es at huntimed
    generalize b.apply op = s at huntimed h
    cases huntimed with
    | offer burst buffer_eq => exact stalled_of_offer (buffer_eq ▸ h)
    | reset => rcases still_dropAll b with hstill | hstill <;> simp [reset, hstill] at h
    | adopt settings => exact (takesOver_adopt b settings).keeps.2 ▸ h
    | adjust _ _ flow_eq => exact flow_eq ▸ h
    | pin | connect => exact h
    | repin => cases h

/-- A tick of a history at the given instant ended the flow of packets. -/
def Stalled (b : Buffer) (history : List Operation) (since : Int) : Prop :=
  ∃ before after, history = before ++ .tick since :: after ∧ (b.run before).flow = .running ∧
    ((b.run before).apply (.tick since)).buffer.flow = .underflow since

theorem stalled_run {since : Int} (hq : b.queue.Ordered) (hc : b.Consistent)
    (hstart : b.flow.since? = none) (history : List Operation)
    (h : (b.run history).flow.since? = some since) :
    b.Stalled history since := by
  induction history using List.reverseRecOn with
  | nil => exact absurd (hstart.symm.trans h) nofun
  | append_singleton history op ih =>
    have hlast : b.run (history ++ [op]) = ((b.run history).apply op).buffer := run_append _ _ _
    rw [hlast, Flow.since?_eq_some_iff] at h
    have hordered := (course_run hq history).ordered hq
    rcases stalled_apply hordered (hc.run history) h with hbefore | ⟨rfl, hrunning⟩
    · obtain ⟨before, after, hsplit, hstall⟩ := ih (Flow.since?_eq_some_iff.mpr hbefore)
      exact ⟨before, after ++ [op], by simp [hsplit], hstall⟩
    · exact ⟨history, [], rfl, hrunning, h⟩

structure Agrees (b : Buffer) : Prop where
  low_pos : 1 ≤ b.settings.low.toNat
  low_le : b.settings.low.toNat ≤ b.settings.enough.toNat
  maxSize_eq : b.sizing.maxSize = max b.settings.maxPackets 1365
  minSize_eq : b.queue.minSize = 1365
  minSize_le : 1365 ≤ b.queue.size
  pinned_eq : b.clock.pinned? = b.settings.pid?
  reference_eq : ∀ pid, b.clock.pinned? = some pid → b.clock.reference? = some pid
  learned_ne : b.clock.pinned? = none → b.clock.reference? ≠ some Packet.nullPid
  since_iff : b.flow.since?.isSome = true ↔ b.flow.state = .underflow
  unfed : b.flow.state = .empty → b.queue.isEmpty = true ∧ b.clock = { pinned? := b.settings.pid? }

theorem agrees_of_parts (hc : b.Consistent) (hq : b.queue.Ordered) (ht : b.clock.Tuned)
    (hunfed : b.flow = .empty → b.Unfed) : b.Agrees := by
  have hmin : b.queue.minSize = 1365 := hc.minSize_eq
  refine ⟨hc.low_pos, hc.low_le, hc.maxSize_eq, hmin, hmin ▸ hq.minSize_le, hc.pinned_eq, ht.pinned,
    ht.learned, ?_, ?_⟩
  · cases b.flow <;> simp [Flow.since?, Flow.state]
  · intro hstate
    have hempty : b.flow = .empty := by
      cases hflow : b.flow <;> simp [hflow, Flow.state] at hstate
      rfl
    obtain ⟨_, _, hnil, hclock⟩ := hunfed hempty
    rw [hc.pinned_eq] at hclock
    exact ⟨hq.isEmpty_iff.mpr hnil, hclock⟩

/-- The parts agree after a history, the queue keeps to the greatest size, and a stall lasts since
the tick that began it. -/
structure Together (start : Buffer) (history : List Operation) : Prop where
  agrees : (start.run history).Agrees
  size_le : ∀ op, ((start.run history).apply op).buffer.queue.size ≤
    max (start.run history).queue.size ((start.run history).apply op).buffer.sizing.maxSize
  lowered : (start.run history).sizing.maxSize < (start.run history).queue.size →
    start.Lowered history (start.run history).queue.size
  stalled : ∀ since, (start.run history).flow.since? = some since → start.Stalled history since

theorem parts_agree (settings : Settings) (history : List Operation) :
    Together (create settings).buffer history := by
  have hnew := ordered_create settings
  have hcourse := course_run hnew history
  have hq := hcourse.ordered hnew
  have htuned := tuned_course hcourse hnew (Clock.tuned_of_reference rfl)
  have hunfed := unfed_run hnew (fun _ => unfed_create settings) history
  have hstart := size_create_le settings
  have hc := consistent_create settings
  refine ⟨agrees_of_parts (hc.run history) hq htuned hunfed,
    size_apply_le hq, lowered_of_large hnew hstart history (Nat.le_refl _), fun _ => ?_⟩
  exact stalled_run hnew hc rfl history

end Buffer
end PacedStream
