import PacedStream.Proofs.Buffer.Alike
import PacedStream.Proofs.Buffer.Backed

/-!
Full resets. Main statement: a buffer after a full reset, asked for or not, runs like a new one with
its settings. All that can be seen of its past is that it is buffering where a new one is empty, up to
the first packets.
-/

namespace PacedStream
set_option autoImplicit false

theorem Clock.likeness_eq : Likeness Eq Eq where
  pid_eq := by
    rintro p _ rfl
    rfl
  clock := by
    rintro p _ rfl
    cases p.clock? with
    | none => exact .none
    | some ticks => exact .some rfl
  gap_eq := by
    rintro a _ b _ rfl rfl
    rfl

namespace Buffer

variable {b s f : Buffer} {now : Int} {op : Operation} {history : List Operation}

theorem Operation.Alike.refl (op : Operation) : op.Alike Eq op := by
  cases op with
  | push burst => exact .push (List.forall₂_refl _)
  | offer burst => exact .offer (List.forall₂_refl _)
  | pushBytes bytes => exact .pushBytes (List.forall₂_refl _)
  | tick now => exact .tick now
  | reset => exact .reset
  | setThresholds enough low => exact .setThresholds enough low
  | setMaxSize megabytes => exact .setMaxSize megabytes
  | setOptions options => exact .setOptions options
  | setName name => exact .setName name
  | setPid pid? => exact .setPid pid?
  | setDelivers on => exact .setDelivers on
  | setAsks on => exact .setAsks on

/-- Nothing was pushed, and the clock is new. -/
structure Unfed (f : Buffer) : Prop where
  flow_eq : f.flow = .empty
  ordered : f.queue.Ordered
  toList_eq : f.queue.toList = []
  clock_eq : f.clock = { pinned? := f.clock.pinned? }

def fed (f : Buffer) : Buffer := { f with flow := .buffering }

theorem Unfed.rewind_eq (h : f.Unfed) : f.queue.rewind = f.queue := by
  have hmark := h.ordered.head_eq_mark_iff.mpr (h.ordered.passed_eq_nil h.toList_eq)
  change { f.queue with mark := f.queue.head } = f.queue
  rw [hmark]

theorem Unfed.timed (h : f.Unfed) (lastTick? : Option Int) : ({ f with lastTick? } : Buffer).Unfed :=
  ⟨h.flow_eq, h.ordered, h.toList_eq, h.clock_eq⟩

theorem Unfed.dropAll (h : f.Unfed) : f.dropAll.Unfed := by
  refine ⟨?_, ordered_dropAll h.ordered, toList_dropAll h.ordered, rfl⟩
  exact if_pos h.flow_eq

/-- Steps of a new buffer and of one that is buffering: the same answers, and the difference stays. -/
structure Step.Feeds (s t : Step) : Prop where
  unfed : s.buffer.Unfed
  step_eq : ∃ log, t = { s with buffer := s.buffer.fed, log }

/-- With nothing to scan, a tick that counts does nothing while buffering. -/
theorem prepare_fed (h : f.Unfed) (now : Int) : f.fed.prepare now = { buffer := f.fed } := by
  have hblock : f.fed.clock.hasBlock = false := by
    change f.clock.opening?.isSome = false
    rw [h.clock_eq]
    rfl
  have hscan : f.fed.clock.seek f.fed.queue = { clock := f.clock, queue := f.queue } := by
    have hnone : f.queue.unscanned = 0 := by
      have hsum := h.ordered.scanned_add_unscanned
      have hlength := congrArg List.length h.toList_eq
      rw [Queue.length_toList, List.length_nil] at hlength
      omega
    change f.clock.seek f.queue = _
    unfold Clock.seek
    rw [hnone]
    rfl
  unfold prepare
  rw [hblock, hscan]
  rfl

theorem feeds_tick (h : f.Unfed) (now : Int) : Step.Feeds (f.tick now) (f.fed.tick now) := by
  have hjump : ∀ elapsed?, Step.Feeds (f.jump now elapsed?) (f.fed.jump now elapsed?) :=
    fun _ => ⟨h.dropAll.timed (some now), _, rfl⟩
  have hadvance : ∀ microseconds,
      Step.Feeds (f.advance now microseconds) (f.fed.advance now microseconds) := by
    intro microseconds
    obtain ⟨asked, hadvance⟩ := advance_eq f now microseconds
    obtain ⟨asked', hadvance'⟩ := advance_eq f.fed now microseconds
    have hasked : (f.fed.advance now microseconds).asked = (f.advance now microseconds).asked := rfl
    have hprepare : (f.fed.timed now).prepare now = { buffer := (f.timed now).fed } :=
      prepare_fed (h.timed (some now)) now
    have hflow : f.fed.flow = .buffering := rfl
    rw [hadvance, hadvance'] at hasked ⊢
    rw [h.flow_eq, hflow]
    dsimp only at hasked ⊢
    rw [hprepare, hasked]
    exact ⟨h.timed (some now), _, rfl⟩
  have hlast : f.fed.lastTick? = f.lastTick? := rfl
  unfold tick
  rw [hlast]
  split
  · exact ⟨h.timed (some now), _, rfl⟩
  · split
    · exact hjump none
    · split
      · exact hjump _
      · split
        · exact ⟨h, _, rfl⟩
        · exact hadvance _

theorem feeds_adopt (h : f.Unfed) (settings : Settings) :
    Step.Feeds (f.adopt settings) (f.fed.adopt settings) := by
  have hqueue : f.fed.queue = f.queue := rfl
  unfold adopt
  dsimp only
  rw [hqueue]
  split
  · exact ⟨⟨h.flow_eq, h.ordered, h.toList_eq, h.clock_eq⟩, _, rfl⟩
  · split
    · rename_i queue hresize
      have hresized := Queue.resized_of_resize? h.ordered hresize
      exact ⟨⟨h.flow_eq, hresized.ordered, (hresized.toList_eq h.ordered).trans h.toList_eq,
        h.clock_eq⟩, _, rfl⟩
    · exact ⟨⟨h.flow_eq, h.ordered, h.toList_eq, h.clock_eq⟩, _, rfl⟩

theorem feeds_setPid (h : f.Unfed) (pid? : Option UInt16) :
    Step.Feeds (f.setPid pid?) (f.fed.setPid pid?) := by
  unfold setPid
  split
  · exact ⟨h, _, rfl⟩
  · have hpin : f.clock.pin pid? = { pinned? := pid? } := by
      rw [h.clock_eq]
      rfl
    have hclock : (f.clock.pin pid?).relearn = f.clock.pin pid? := by
      rw [hpin]
      rfl
    have hfed : ¬ f.fed.flow = .empty := nofun
    dsimp only
    rw [if_pos h.flow_eq, if_neg hfed]
    refine ⟨⟨h.flow_eq, h.ordered, h.toList_eq, ?_⟩, #[], ?_⟩
    · change f.clock.pin pid? = { pinned? := (f.clock.pin pid?).pinned? }
      rw [hpin]
    · simp only [relearn, withScan, scan, Scan.relearn, fed, hclock, h.rewind_eq]

theorem feeds_apply (h : f.Unfed) (hop : op.burst = []) : Step.Feeds (f.apply op) (f.fed.apply op) := by
  cases op with
  | push burst =>
    cases hop
    exact ⟨h, _, rfl⟩
  | offer burst =>
    cases hop
    exact ⟨h, _, rfl⟩
  | pushBytes bytes =>
    have hempty : (Packet.frame .empty bytes).packets.toList = [] := hop
    obtain ⟨log, hpush⟩ := exists_pushBytes_eq f bytes
    obtain ⟨log', hpush'⟩ := exists_pushBytes_eq f.fed bytes
    change Step.Feeds (f.pushBytes bytes) (f.fed.pushBytes bytes)
    rw [hpush, hpush', hempty]
    exact ⟨h, _, rfl⟩
  | tick now => exact feeds_tick h now
  | reset => exact ⟨h.dropAll, _, rfl⟩
  | setThresholds enough low =>
    change Step.Feeds (f.setThresholds enough low) (f.fed.setThresholds enough low)
    unfold setThresholds
    split
    · exact ⟨h, _, rfl⟩
    · exact ⟨⟨h.flow_eq, h.ordered, h.toList_eq, h.clock_eq⟩, _, rfl⟩
  | setMaxSize megabytes =>
    change Step.Feeds (f.setMaxSize megabytes) (f.fed.setMaxSize megabytes)
    unfold setMaxSize
    split
    · exact ⟨h, _, rfl⟩
    · exact feeds_adopt h _
  | setOptions options =>
    change Step.Feeds (f.setOptions options) (f.fed.setOptions options)
    unfold setOptions
    have hsettings : f.fed.settings = f.settings := rfl
    rw [hsettings]
    split
    · exact ⟨h, _, rfl⟩
    · exact feeds_adopt h _
  | setName name => exact ⟨⟨h.flow_eq, h.ordered, h.toList_eq, h.clock_eq⟩, _, rfl⟩
  | setPid pid? => exact feeds_setPid h pid?
  | setDelivers on => exact ⟨⟨h.flow_eq, h.ordered, h.toList_eq, h.clock_eq⟩, _, rfl⟩
  | setAsks on => exact ⟨⟨h.flow_eq, h.ordered, h.toList_eq, h.clock_eq⟩, _, rfl⟩

theorem apply_fed_of_burst (h : f.flow = .empty) (hne : op.burst ≠ []) :
    f.fed.apply op = f.apply op := by
  have hfeed : f.fed.flow.feed = f.flow.feed := by
    rw [h]
    rfl
  have hoffer : ∀ burst : List Packet, burst ≠ [] → f.fed.offer burst = f.offer burst := by
    intro burst hburst
    have hempty : ¬ burst.isEmpty = true := by simpa using hburst
    unfold offer
    rw [if_neg hempty, if_neg hempty, hfeed]
    rfl
  have hpush : ∀ burst : List Packet, burst ≠ [] → f.fed.push burst = f.push burst := by
    intro burst hburst
    unfold push
    rw [hoffer burst hburst]
  cases op with
  | push burst => exact hpush burst hne
  | offer burst => exact hoffer burst hne
  | pushBytes bytes =>
    change f.fed.pushBytes bytes = f.pushBytes bytes
    have hframed : f.fed.push (Packet.frame .empty bytes).packets.toList =
        f.push (Packet.frame .empty bytes).packets.toList := hpush _ hne
    unfold pushBytes
    dsimp only
    rw [hframed]
  | _ => exact absurd rfl hne

def fullReset (b : Buffer) : Operation → Bool
  | .reset => true
  | .tick now => b.jumps now || b.givesUp now
  | _ => false

/-- A new buffer with the settings, the connections and the last tick of another. -/
def renewed (s : Buffer) : Buffer :=
  { (create s.settings).buffer with
    lastTick? := s.lastTick?
    delivers := s.delivers
    asks := s.asks }

/-- The two run alike, at once or as soon as packets come. -/
def Continues (s f : Buffer) : Prop := s.Alike Eq Eq f ∨ f.Unfed ∧ s.Alike Eq Eq f.fed

/-- Nothing tells `s` from the new buffer `f`, now and after any further history, but that one may
be buffering and the other empty before the first packets. -/
structure Renews (s f : Buffer) : Prop where
  answers : ∀ later op, ((s.run later).apply op).fault? = ((f.run later).apply op).fault?
  sends : ∀ later op, ((s.run later).apply op).sent = ((f.run later).apply op).sent
  asks : ∀ later op, ((s.run later).apply op).asked = ((f.run later).apply op).asked
  statuses : ∀ later, (s.run later).status = (f.run later).status ∨
    (∀ op ∈ later, op.burst = []) ∧ (f.run later).status.state = .empty ∧
      (s.run later).status = { (f.run later).status with state := .buffering }

theorem buffer_fullReset (h : b.fullReset op = true) :
    ∃ lastTick?, (b.apply op).buffer = { b.dropAll with lastTick? } := by
  cases op with
  | reset => exact ⟨b.lastTick?, rfl⟩
  | tick now =>
    have hreset : (b.jumps now || b.givesUp now) = true := h
    change ∃ lastTick?, (b.tick now).buffer = { b.dropAll with lastTick? }
    have hticks := ticks b now
    generalize htick : b.tick now = s at hticks ⊢
    cases hticks with
    | jump => exact ⟨some now, rfl⟩
    | skip lastTick? steady uncounted =>
      have hstays : b.givesUp now = false := by
        unfold givesUp
        split <;> simp [uncounted]
      rw [steady, hstays] at hreset
      cases hreset
    | @count microseconds steady counted =>
      rw [steady, Bool.false_or] at hreset
      cases hflow : b.flow with
      | underflow since =>
        simp only [givesUp, hflow, counted, Option.isSome_some, Bool.true_and, Bool.and_eq_true,
          decide_eq_true_eq] at hreset
        obtain ⟨hfew, hlong⟩ := hreset
        obtain ⟨hbuffer, _⟩ := tick_of_stalled hflow htick
        have hdrop := recover_of_few (b := b.timed now) now hflow hfew
        rw [if_pos hlong] at hdrop
        rw [htick] at hbuffer
        exact ⟨some now, hbuffer.trans hdrop⟩
      | _ => simp [givesUp, hflow] at hreset
  | _ => cases h

theorem size_dropAll (hq : b.queue.Ordered) : b.dropAll.queue.size = b.queue.minSize := by
  have hclear := Queue.ordered_clear hq
  change ((b.queue.clear.resize? b.queue.clear.minSize).getD b.queue.clear).size = b.queue.minSize
  cases hresize : b.queue.clear.resize? b.queue.clear.minSize with
  | none =>
    -- The least size always holds an empty queue.
    have hzero : b.queue.clear.length = 0 := by
      rw [← Queue.length_toList, Queue.toList_clear hq, List.length_nil]
    have hleast := (Queue.resize?_eq_none_iff.mp hresize).2
    have htwo : 2 ≤ b.queue.clear.minSize := hclear.two_le
    omega
  | some queue =>
    have hsize := (Queue.resized_of_resize? hclear hresize).size_eq
    rw [Nat.max_self] at hsize
    exact hsize

theorem continues_fullReset (hq : b.queue.Ordered) (hc : b.Consistent)
    (h : b.fullReset op = true) : (b.apply op).buffer.Continues (b.apply op).buffer.renewed := by
  obtain ⟨lastTick?, hbuffer⟩ := buffer_fullReset h
  have husable := usable_of_thresholds hc.low_pos hc.low_le
  have hnew : (create b.settings).buffer = {
      settings := b.settings
      queue := Queue.create Queue.standardMinSize Queue.standardMinSize
      clock := { pinned? := b.settings.pid? }
      sizing := { maxSize := maxSlots b.settings } } := by
    simp only [create, husable]
  have hqueue : b.dropAll.queue.Alike Eq
      (Queue.create Queue.standardMinSize Queue.standardMinSize) := by
    refine Queue.alike_of_empty (ordered_dropAll hq) (Queue.ordered_create _ _) ?_ ?_
      (toList_dropAll hq) (Queue.toList_create _ _)
    · rw [size_dropAll hq, hc.minSize_eq, Queue.size_create]
      decide
    · rw [minSize_dropAll, hc.minSize_eq]
      decide
  have hclock : b.dropAll.clock.Alike Eq { pinned? := b.settings.pid? } := by
    rw [← hc.pinned_eq]
    exact .fresh _
  have hsizing : b.dropAll.sizing = { maxSize := maxSlots b.settings } := by
    rw [← hc.maxSize_eq]
    rfl
  have hrenewed : ({ b.dropAll with lastTick? } : Buffer).renewed = {
      settings := b.settings
      queue := Queue.create Queue.standardMinSize Queue.standardMinSize
      clock := { pinned? := b.settings.pid? }
      sizing := b.dropAll.sizing
      lastTick?
      delivers := b.delivers
      asks := b.asks } := by
    change { (create b.settings).buffer with lastTick?, delivers := b.delivers, asks := b.asks } = _
    rw [hnew, hsizing]
  rw [hbuffer, hrenewed]
  by_cases hflow : b.flow = .empty
  · have hdropped : b.dropAll.flow = .empty := if_pos hflow
    rw [← hdropped]
    exact .inl (.mk hqueue hclock)
  · have hdropped : b.dropAll.flow = .buffering := if_neg hflow
    refine .inr ⟨⟨rfl, Queue.ordered_create _ _, Queue.toList_create _ _, rfl⟩, ?_⟩
    unfold fed
    rw [← hdropped]
    exact .mk hqueue hclock

theorem continues_apply (h : s.Continues f) (op : Operation) :
    (s.apply op).fault? = (f.apply op).fault? ∧ (s.apply op).sent = (f.apply op).sent ∧
      (s.apply op).asked = (f.apply op).asked ∧
      ((s.apply op).buffer.Alike Eq Eq (f.apply op).buffer ∨ op.burst = [] ∧
        (f.apply op).buffer.Unfed ∧ (s.apply op).buffer.Alike Eq Eq (f.apply op).buffer.fed) := by
  have hanswers : ∀ {x y : Step}, x.Alike Eq Eq y →
      x.fault? = y.fault? ∧ x.sent = y.sent ∧ x.asked = y.asked := by
    intro x y hxy
    have hsent := hxy.sent
    rw [List.forall₂_eq_eq_eq] at hsent
    exact ⟨hxy.fault_eq.symm, Array.toList_inj.mp hsent, hxy.asked_eq.symm⟩
  rcases h with h | ⟨hunfed, h⟩
  · have hstep := alike_apply Clock.likeness_eq h (.refl op)
    obtain ⟨hfault, hsent, hasked⟩ := hanswers hstep
    exact ⟨hfault, hsent, hasked, .inl hstep.buffer⟩
  · have hstep := alike_apply Clock.likeness_eq h (.refl op)
    obtain ⟨hfault, hsent, hasked⟩ := hanswers hstep
    by_cases hop : op.burst = []
    · obtain ⟨hunfed', log, hfed⟩ := feeds_apply hunfed hop
      rw [hfed] at hfault hsent hasked hstep
      exact ⟨hfault, hsent, hasked, .inr ⟨hop, hunfed', hstep.buffer⟩⟩
    · rw [apply_fed_of_burst hunfed.flow_eq hop] at hfault hsent hasked hstep
      exact ⟨hfault, hsent, hasked, .inl hstep.buffer⟩

theorem continues_run (h : s.Continues f) (later : List Operation) :
    (s.run later).Alike Eq Eq (f.run later) ∨ (∀ op ∈ later, op.burst = []) ∧
      (f.run later).Unfed ∧ (s.run later).Alike Eq Eq (f.run later).fed := by
  induction later generalizing s f with
  | nil =>
    rcases h with h | ⟨hunfed, h⟩
    · exact .inl h
    · exact .inr ⟨nofun, hunfed, h⟩
  | cons op rest ih =>
    have hsame : List.Forall₂ (Operation.Alike Eq) rest rest :=
      List.forall₂_same.mpr fun op _ => .refl op
    obtain ⟨_, _, _, hnext | ⟨hop, hunfed, hnext⟩⟩ := continues_apply h op
    · have hlater := alike_run Clock.likeness_eq hnext hsame
      exact .inl hlater
    · rcases ih (.inr ⟨hunfed, hnext⟩) with hlater | ⟨hops, hlater⟩
      · exact .inl hlater
      · exact .inr ⟨List.forall_mem_cons.mpr ⟨hop, hops⟩, hlater⟩

theorem renews_of_continues (h : s.Continues f) : s.Renews f := by
  have hlater : ∀ later, (s.run later).Continues (f.run later) := by
    intro later
    rcases continues_run h later with halike | ⟨_, hunfed, halike⟩
    · exact .inl halike
    · exact .inr ⟨hunfed, halike⟩
  constructor
  · intro later op
    exact (continues_apply (hlater later) op).1
  · intro later op
    exact (continues_apply (hlater later) op).2.1
  · intro later op
    exact (continues_apply (hlater later) op).2.2.1
  · intro later
    rcases continues_run h later with halike | ⟨hops, hunfed, halike⟩
    · exact .inl halike.status_eq.symm
    · have hempty : (f.run later).status.state = .empty := congrArg Flow.state hunfed.flow_eq
      exact .inr ⟨hops, hempty, halike.status_eq.symm⟩

theorem renews_fullReset (settings : Settings) (history : List Operation) (op : Operation) :
    let b := (create settings).buffer.run history
    b.fullReset op = true → (b.apply op).buffer.Renews (b.apply op).buffer.renewed := by
  intro b hreset
  have hq := (course_run (ordered_create settings) history).ordered (ordered_create settings)
  have hc := (consistent_create settings).run history
  exact renews_of_continues (continues_fullReset hq hc hreset)

/-- A stall that is given up: two blocks are asked for where one is queued. -/
theorem renews_after_stall :
    let history := [.push sample, .tick 0, .tick 1000000, .setThresholds 2 2, .tick 2000000]
    let b := (create sampleSettings).buffer.run history
    b.flow = .underflow 2000000 ∧ b.queue.length = 3 ∧
      (b.apply (.tick 203000000)).buffer.Renews (b.apply (.tick 203000000)).buffer.renewed := by
  intro history b
  exact ⟨by decide +kernel, by decide +kernel,
    renews_fullReset sampleSettings history (.tick 203000000) (by decide +kernel)⟩

end Buffer
end PacedStream
