import PacedStream.Proofs.Buffer.Fifo
import PacedStream.Proofs.Clock.Alike

/-!
Two buffers that run alike. They have the same settings and state, corresponding packets queued, and
clocks that differ in nothing but corresponding readings. Main statement: operations with
corresponding packets have the same answers, send corresponding packets and lead to such buffers
again.
-/

namespace PacedStream
set_option autoImplicit false

variable {R : Packet → Packet → Prop} {T : UInt64 → UInt64 → Prop}

/-- The same buffer, but for corresponding packets and readings. -/
inductive Buffer.Alike (R : Packet → Packet → Prop) (T : UInt64 → UInt64 → Prop) (b : Buffer) :
    Buffer → Prop where
  | mk {queue : Queue Packet} {clock : Clock} (queue_alike : b.queue.Alike R queue)
      (clock_alike : b.clock.Alike T clock) : Alike R T b { b with queue, clock }

/-- Steps to such buffers, with corresponding packets sent and the same answers. -/
structure Step.Alike (R : Packet → Packet → Prop) (T : UInt64 → UInt64 → Prop) (s s' : Step) :
    Prop where
  buffer : s.buffer.Alike R T s'.buffer
  sent : List.Forall₂ R s.sent.toList s'.sent.toList
  asked_eq : s'.asked = s.asked
  fault_eq : s'.fault? = s.fault?

namespace Buffer

inductive Operation.Alike (R : Packet → Packet → Prop) : Operation → Operation → Prop where
  | push {burst burst' : List Packet} (bursts : List.Forall₂ R burst burst') :
      Alike R (.push burst) (.push burst')
  | offer {burst burst' : List Packet} (bursts : List.Forall₂ R burst burst') :
      Alike R (.offer burst) (.offer burst')
  | pushBytes {bytes bytes' : List UInt8} (bursts : List.Forall₂ R
      (Packet.frame .empty bytes).packets.toList (Packet.frame .empty bytes').packets.toList) :
      Alike R (.pushBytes bytes) (.pushBytes bytes')
  | tick (now : Int) : Alike R (.tick now) (.tick now)
  | reset : Alike R .reset .reset
  | setThresholds (enough low : UInt64) : Alike R (.setThresholds enough low) (.setThresholds enough low)
  | setMaxSize (megabytes : Nat) : Alike R (.setMaxSize megabytes) (.setMaxSize megabytes)
  | setOptions (options : String) : Alike R (.setOptions options) (.setOptions options)
  | setName (name : String) : Alike R (.setName name) (.setName name)
  | setPid (pid? : Option UInt16) : Alike R (.setPid pid?) (.setPid pid?)
  | setDelivers (on : Bool) : Alike R (.setDelivers on) (.setDelivers on)
  | setAsks (on : Bool) : Alike R (.setAsks on) (.setAsks on)

inductive Event.Alike (R : Packet → Packet → Prop) (T : UInt64 → UInt64 → Prop) :
    Event → Event → Prop where
  | took {burst burst' : List Packet} (bursts : List.Forall₂ R burst burst') :
      Alike R T (.took burst) (.took burst')
  | sent {moment moment' : Buffer} (moments : moment.Alike R T moment') :
      Alike R T (.sent moment) (.sent moment')
  | emptied : Alike R T .emptied .emptied
  | connected (on : Bool) : Alike R T (.connected on) (.connected on)

variable {b b' : Buffer} {now : Int} {burst burst' : List Packet} {op op' : Operation}
  {history history' : List Operation}

theorem Alike.queue (h : b.Alike R T b') : b.queue.Alike R b'.queue := by
  cases h with
  | mk hqueue _ => exact hqueue

theorem Alike.clock (h : b.Alike R T b') : b.clock.Alike T b'.clock := by
  cases h with
  | mk _ hclock => exact hclock

theorem Alike.delivers_eq (h : b.Alike R T b') : b'.delivers = b.delivers := by
  cases h
  rfl

theorem Alike.flow_eq (h : b.Alike R T b') : b'.flow = b.flow := by
  cases h
  rfl

theorem Alike.settings_eq (h : b.Alike R T b') : b'.settings = b.settings := by
  cases h
  rfl

theorem Alike.lastTick_eq (h : b.Alike R T b') : b'.lastTick? = b.lastTick? := by
  cases h
  rfl

theorem Alike.scan (h : b.Alike R T b') : b.scan.Alike R T b'.scan := ⟨h.clock, h.queue, rfl⟩

theorem Alike.updateFlow_eq (h : b.Alike R T b') (now : Int) :
    b'.updateFlow now = b.updateFlow now := by
  cases h with
  | mk _ hclock =>
    cases hclock
    rfl

theorem Alike.status_eq (h : b.Alike R T b') : b'.status = b.status := by
  cases h with
  | mk hqueue hclock =>
    cases hclock
    simp only [status, want, missingPackets?, Clock.bitrate, hqueue.length_eq, hqueue.size_eq,
      hqueue.room_eq]

theorem Alike.quiet (h : b.Alike R T b') {log log' : Array Message} {fault? : Option Fault} :
    Step.Alike R T { buffer := b, log, fault? } { buffer := b', log := log', fault? } :=
  ⟨h, .nil, rfl, rfl⟩

theorem alike_flow (h : b.Alike R T b') (flow : Flow) :
    ({ b with flow } : Buffer).Alike R T { b' with flow } := by
  cases h with
  | mk hqueue hclock => exact .mk hqueue hclock

theorem alike_credit (h : b.Alike R T b') (change : Float → Float) :
    ({ b with clock := { b.clock with credit := change b.clock.credit } } : Buffer).Alike R T
      { b' with clock := { b'.clock with credit := change b'.clock.credit } } := by
  cases h with
  | mk hqueue hclock =>
    cases hclock with
    | mk opening latest => exact .mk hqueue (.mk opening latest)

theorem alike_spend (h : b.Alike R T b') : b.spend.Alike R T b'.spend := by
  unfold spend
  rw [h.clock.quantum_eq]
  exact alike_credit h (· - b.clock.quantum)

theorem alike_withScan (h : b.Alike R T b') {s s' : Scan} (hs : s.Alike R T s') :
    (b.withScan s).Alike R T (b'.withScan s') := by
  cases h
  exact .mk hs.queue hs.clock

theorem alike_sought (hlike : Clock.Likeness R T) (h : b.Alike R T b') :
    b.sought.Alike R T b'.sought :=
  Clock.alike_seek hlike h.clock h.queue

theorem alike_relearn (h : b.Alike R T b') : b.relearn.Alike R T b'.relearn :=
  alike_flow (alike_withScan h h.scan.relearn) .buffering

theorem alike_recount (hlike : Clock.Likeness R T) (h : b.Alike R T b') :
    b.recount.Alike R T b'.recount := by
  cases h with
  | mk hqueue hclock => exact .mk hqueue (Clock.alike_recount hlike hclock hqueue _)

theorem alike_dropAll (h : b.Alike R T b') : b.dropAll.Alike R T b'.dropAll := by
  cases h with
  | @mk queue clock hqueue hclock =>
    have hpinned : clock.pinned? = b.clock.pinned? := by
      cases hclock
      rfl
    have hcleared : ((b.queue.clear.resize? b.queue.minSize).getD b.queue.clear).Alike R
        ((queue.clear.resize? queue.minSize).getD queue.clear) := by
      have hresize := Queue.alike_resize? hqueue.clear b.queue.minSize
      rw [hqueue.minSize_eq]
      generalize b.queue.clear.resize? b.queue.minSize = small? at hresize ⊢
      generalize queue.clear.resize? b.queue.minSize = small?' at hresize ⊢
      cases hresize with
      | none => exact hqueue.clear
      | some hsmall => exact hsmall
    refine .mk hcleared ?_
    unfold Clock.forget
    rw [hpinned]
    exact .fresh _

theorem alike_settle (hlike : Clock.Likeness R T) (h : b.Alike R T b') (now : Int) :
    (b.settle now).buffer.Alike R T (b'.settle now).buffer := by
  cases h with
  | @mk queue clock hqueue hclock =>
    have hcounted := Clock.alike_recount hlike hclock hqueue b.settings.enough.toNat
    have hhalve := Sizing.alike_halve? b.sizing hqueue now
    unfold settle
    dsimp only
    generalize b.sizing.halve? b.queue now = halved? at hhalve ⊢
    generalize b.sizing.halve? queue now = halved?' at hhalve ⊢
    cases hhalve with
    | none => exact .mk (b := { b.recount with sizing := b.sizing.consider now }) hqueue hcounted
    | some hhalved =>
      exact .mk (b := { b.recount with queue := _, sizing := b.sizing.consider now }) hhalved hcounted

theorem alike_moment? (hlike : Clock.Likeness R T) (h : b.Alike R T b') (now : Int) :
    Option.Rel (Alike R T) (b.moment? now) (b'.moment? now) := by
  have hspent := alike_spend h
  have hsought := alike_sought hlike hspent
  have hfound : (b'.spend.clock.seek b'.spend.queue).found =
      (b.spend.clock.seek b.spend.queue).found := hsought.found_eq
  unfold moment?
  dsimp only
  rw [hfound]
  by_cases hlead : b.spend.queue.head = b.spend.queue.mark
  · rw [if_pos hlead, if_pos (hspent.queue.head_eq_mark_iff.mpr hlead)]
    split
    · exact .some (alike_settle hlike (alike_withScan hspent hsought) now)
    · exact .none
  · rw [if_neg hlead, if_neg fun hlead' => hlead (hspent.queue.head_eq_mark_iff.mp hlead')]
    exact .some hspent

theorem alike_sendOff (h : b.Alike R T b') (lead : b.queue.head ≠ b.queue.mark) :
    b.sendOff.Alike R T b'.sendOff := by
  have hpop := h.queue.pop lead
  cases h with
  | mk _ hclock => exact .mk hpop hclock

theorem alike_sendFront {s s' : Step} (h : s.Alike R T s')
    (lead : s.buffer.queue.head ≠ s.buffer.queue.mark) : (sendFront s).Alike R T (sendFront s') := by
  have hbuffer := h.buffer
  have hqueue := hbuffer.queue
  have lead' := fun hmark => lead (hqueue.head_eq_mark_iff.mp hmark)
  have hfront := hqueue.front (hqueue.ordered.head_ne_tail lead) (hqueue.ordered'.head_ne_tail lead')
  have hdelivers := hbuffer.delivers_eq
  refine ⟨alike_sendOff hbuffer lead, ?_, h.asked_eq, h.fault_eq⟩
  unfold sendFront
  dsimp only
  rw [hdelivers]
  split
  · rw [Array.toList_push, Array.toList_push]
    exact List.rel_append h.sent (.cons hfront .nil)
  · exact h.sent

theorem alike_paceLoop (hlike : Clock.Likeness R T) (now : Int) (n : Nat) {s s' : Step}
    (h : s.Alike R T s') (hrun : s.buffer.flow = .running) :
    (paceLoop now n s).Alike R T (paceLoop now n s') := by
  induction n generalizing s s' with
  | zero => exact h
  | succ n ih =>
    have hmoment := alike_moment? hlike h.buffer now
    unfold paceLoop
    rw [h.buffer.clock.quantum_eq, h.buffer.clock.credit_eq]
    split
    · cases hm : s.buffer.moment? now with
      | none =>
        rw [hm] at hmoment
        cases hm' : s'.buffer.moment? now with
        | some => rw [hm'] at hmoment; cases hmoment
        | none =>
          obtain ⟨log, honce⟩ := paceOnce_of_lost hm
          obtain ⟨log', honce'⟩ := paceOnce_of_lost hm'
          have hspent := alike_spend h.buffer
          rw [honce, honce']
          exact ⟨alike_relearn (alike_withScan hspent (alike_sought hlike hspent)), h.sent,
            h.asked_eq, h.fault_eq⟩
      | some m =>
        rw [hm] at hmoment
        cases hm' : s'.buffer.moment? now with
        | none => rw [hm'] at hmoment; cases hmoment
        | some m' =>
          rw [hm'] at hmoment
          cases hmoment with
          | some hmoments =>
            obtain ⟨log, honce⟩ := paceOnce_of_moment hm
            obtain ⟨log', honce'⟩ := paceOnce_of_moment hm'
            obtain ⟨_, _, hrunning, hlead⟩ := course_moment h.buffer.queue.ordered hrun hm
            have hsteps : Step.Alike R T { s with buffer := m, log }
                { s' with buffer := m', log := log' } :=
              ⟨hmoments, h.sent, h.asked_eq, h.fault_eq⟩
            rw [honce, honce']
            exact ih (alike_sendFront hsteps hlead) hrunning
    · exact h

theorem alike_pace (hlike : Clock.Likeness R T) (h : b.Alike R T b') (hrun : b.flow = .running)
    (now : Int) : (b.pace now).Alike R T (b'.pace now) := by
  have hstart : Step.Alike R T { buffer := b } { buffer := b' } := h.quiet
  unfold pace
  rw [h.queue.length_eq, h.clock.quantum_eq]
  split
  · exact hstart
  · exact alike_paceLoop hlike now (b.queue.length + 1) hstart hrun

theorem alike_play (hlike : Clock.Likeness R T) (h : b.Alike R T b') (hrun : b.flow = .running)
    (now : Int) (microseconds : Nat) :
    (b.play now microseconds).Alike R T (b'.play now microseconds) := by
  unfold play
  rw [h.updateFlow_eq, updateFlow_running hrun]
  by_cases hfew : b.clock.blocks < b.settings.low.toNat
  · rw [if_pos hfew]
    exact (alike_flow h (.underflow now)).quiet
  · rw [if_neg hfew]
    exact alike_pace hlike (alike_credit (alike_flow h .running)
      (· + Float.ofNat microseconds * ticksPerMicrosecond)) rfl now

theorem alike_tryStart (hlike : Clock.Likeness R T) (h : b.Alike R T b') (now : Int) :
    (b.tryStart now).Alike R T (b'.tryStart now) := by
  have hcounted := alike_recount hlike h
  have hheld := alike_flow hcounted (b.recount.updateFlow now).1
  have hrewound := alike_withScan hcounted hcounted.scan.rewind
  have hstarted := alike_flow hrewound (b.recount.updateFlow now).1
  unfold tryStart
  dsimp only
  rw [hcounted.updateFlow_eq]
  split
  · exact hstarted.quiet
  · exact hheld.quiet

theorem alike_prepare (hlike : Clock.Likeness R T) (h : b.Alike R T b') (now : Int) :
    (b.prepare now).Alike R T (b'.prepare now) := by
  have hsought := alike_sought hlike h
  have hfound : (b'.clock.seek b'.queue).found = (b.clock.seek b.queue).found := hsought.found_eq
  have hscanned := alike_withScan h hsought
  unfold prepare
  dsimp only
  rw [h.clock.hasBlock_eq, hfound]
  split
  · exact alike_tryStart hlike h now
  · split
    · have hstart := alike_tryStart hlike hscanned now
      exact ⟨hstart.buffer, hstart.sent, hstart.asked_eq, hstart.fault_eq⟩
    · exact hscanned.quiet

theorem alike_recover (hlike : Clock.Likeness R T) (h : b.Alike R T b') (now : Int) :
    (b.recover now).Alike R T (b'.recover now) := by
  have hcounted := alike_recount hlike h
  have hheld := alike_flow hcounted (b.recount.updateFlow now).1
  unfold recover
  dsimp only
  rw [hcounted.updateFlow_eq]
  split
  · exact (alike_dropAll hheld).quiet
  · exact (alike_credit hheld fun _ => 0).quiet
  · exact hheld.quiet

theorem Alike.timed (h : b.Alike R T b') (lastTick? : Option Int) :
    ({ b with lastTick? } : Buffer).Alike R T { b' with lastTick? } := by
  cases h with
  | mk hqueue hclock => exact .mk hqueue hclock

theorem alike_advance (hlike : Clock.Likeness R T) (h : b.Alike R T b') (now : Int)
    (microseconds : Nat) : (b.advance now microseconds).Alike R T (b'.advance now microseconds) := by
  have htimed : (b.timed now).Alike R T (b'.timed now) := h.timed (some now)
  have hasked : (b'.advance now microseconds).asked = (b.advance now microseconds).asked := by
    cases h with
    | mk _ hclock =>
      cases hclock
      rfl
  obtain ⟨asked, hadvance⟩ := advance_eq b now microseconds
  obtain ⟨asked', hadvance'⟩ := advance_eq b' now microseconds
  rw [hadvance, hadvance'] at hasked ⊢
  rw [h.flow_eq]
  have hjoin : ∀ {s s' : Step}, s.Alike R T s' → asked' = asked →
      Step.Alike R T { s with asked } { s' with asked := asked' } :=
    fun hstep hsame => ⟨hstep.buffer, hstep.sent, hsame, hstep.fault_eq⟩
  cases hflow : b.flow with
  | empty => exact hjoin htimed.quiet hasked
  | buffering => exact hjoin (alike_prepare hlike htimed now) hasked
  | running => exact hjoin (alike_play hlike htimed hflow now microseconds) hasked
  | underflow since => exact hjoin (alike_recover hlike htimed now) hasked

theorem alike_jump (h : b.Alike R T b') (now : Int) (elapsed? : Option Nat) :
    (b.jump now elapsed?).Alike R T (b'.jump now elapsed?) :=
  ((alike_dropAll h).timed (some now)).quiet

theorem alike_tick (hlike : Clock.Likeness R T) (h : b.Alike R T b') (now : Int) :
    (b.tick now).Alike R T (b'.tick now) := by
  unfold tick
  rw [h.lastTick_eq]
  split
  · exact (h.timed (some now)).quiet
  · split
    · exact alike_jump h now none
    · split
      · exact alike_jump h now _
      · split
        · exact h.quiet
        · exact alike_advance hlike h now _

theorem alike_offer (h : b.Alike R T b') (hburst : List.Forall₂ R burst burst') :
    (b.offer burst).Alike R T (b'.offer burst') := by
  have hempty : burst'.isEmpty = burst.isEmpty := by
    cases hburst <;> rfl
  have hlength := hburst.length_eq
  obtain ⟨henough, hgrown⟩ := Sizing.alike_makeRoom b.sizing h.queue burst.length
  have hpush := Queue.alike_push? hgrown hburst
  cases h with
  | @mk queue clock hqueue hclock =>
    have hlocked : clock.locked = b.clock.locked := by
      cases hclock
      rfl
    unfold offer
    dsimp only at hgrown henough hpush ⊢
    rw [hempty, ← hlength, henough, hlocked]
    split
    · exact ⟨.mk hqueue hclock, .nil, rfl, rfl⟩
    · split
      · refine ⟨?_, .nil, rfl, rfl⟩
        dsimp only
        generalize (b.sizing.makeRoom b.queue burst.length).queue.push? burst = full? at hpush ⊢
        generalize (b.sizing.makeRoom queue burst.length).queue.push? burst' = full?' at hpush ⊢
        cases hpush with
        | none => exact .mk hgrown hclock
        | some hfull => exact .mk hfull hclock
      · exact ⟨.mk hgrown hclock, .nil, rfl, rfl⟩

theorem exists_push_eq (b : Buffer) (burst : List Packet) :
    ∃ log, b.push burst = { b.offer burst with log } := by
  unfold push
  dsimp only
  split <;> exact ⟨_, rfl⟩

theorem exists_pushBytes_eq (b : Buffer) (bytes : List UInt8) : ∃ log, b.pushBytes bytes =
    { b.offer (Packet.frame .empty bytes).packets.toList with log } := by
  obtain ⟨log, hpush⟩ := exists_push_eq b (Packet.frame .empty bytes).packets.toList
  unfold pushBytes
  dsimp only
  rw [hpush]
  split <;> exact ⟨_, rfl⟩

theorem alike_push (h : b.Alike R T b') (hburst : List.Forall₂ R burst burst') :
    (b.push burst).Alike R T (b'.push burst') := by
  have hoffer := alike_offer h hburst
  obtain ⟨log, hpush⟩ := exists_push_eq b burst
  obtain ⟨log', hpush'⟩ := exists_push_eq b' burst'
  rw [hpush, hpush']
  exact ⟨hoffer.buffer, hoffer.sent, hoffer.asked_eq, hoffer.fault_eq⟩

theorem alike_pushBytes (h : b.Alike R T b') {bytes bytes' : List UInt8}
    (hburst : List.Forall₂ R (Packet.frame .empty bytes).packets.toList
      (Packet.frame .empty bytes').packets.toList) :
    (b.pushBytes bytes).Alike R T (b'.pushBytes bytes') := by
  have hoffer := alike_offer h hburst
  obtain ⟨log, hpush⟩ := exists_pushBytes_eq b bytes
  obtain ⟨log', hpush'⟩ := exists_pushBytes_eq b' bytes'
  rw [hpush, hpush']
  exact ⟨hoffer.buffer, hoffer.sent, hoffer.asked_eq, hoffer.fault_eq⟩

theorem alike_adopt (h : b.Alike R T b') (settings : Settings) :
    (b.adopt settings).Alike R T (b'.adopt settings) := by
  have hresize := Queue.alike_resize? h.queue (maxSlots settings)
  cases h with
  | @mk queue clock hqueue hclock =>
    unfold adopt
    dsimp only at hresize ⊢
    rw [hqueue.size_eq]
    split
    · exact ⟨.mk hqueue hclock, .nil, rfl, rfl⟩
    · generalize b.queue.resize? (maxSlots settings) = small? at hresize ⊢
      generalize queue.resize? (maxSlots settings) = small?' at hresize ⊢
      cases hresize with
      | none => exact ⟨.mk hqueue hclock, .nil, rfl, rfl⟩
      | some hsmall => exact ⟨.mk hsmall hclock, .nil, rfl, rfl⟩

theorem Alike.withSettings (h : b.Alike R T b') (settings : Settings) :
    ({ b with settings } : Buffer).Alike R T { b' with settings } := by
  cases h with
  | mk hqueue hclock => exact .mk hqueue hclock

theorem alike_setPid (h : b.Alike R T b') (pid? : Option UInt16) :
    (b.setPid pid?).Alike R T (b'.setPid pid?) := by
  have hpinned : ({ b with settings := { b.settings with pid? }, clock := b.clock.pin pid? } :
      Buffer).Alike R T
        { b' with settings := { b'.settings with pid? }, clock := b'.clock.pin pid? } := by
    cases h with
    | mk hqueue hclock =>
      cases hclock with
      | mk opening latest => exact .mk hqueue (.mk opening latest)
  unfold setPid
  split
  · exact h.quiet
  · refine Alike.quiet ?_
    by_cases hunfed : b.flow = .empty
    · have hunfed' : b'.flow = .empty := h.flow_eq.trans hunfed
      simp only [hunfed, hunfed', if_true]
      simpa only [hunfed, hunfed'] using hpinned
    · have hfed : ¬ b'.flow = .empty := fun heq => hunfed (h.flow_eq.symm.trans heq)
      simp only [hunfed, hfed, if_false]
      exact alike_relearn hpinned

theorem alike_apply (hlike : Clock.Likeness R T) (h : b.Alike R T b') (hop : op.Alike R op') :
    (b.apply op).Alike R T (b'.apply op') := by
  cases hop with
  | push bursts => exact alike_push h bursts
  | offer bursts => exact alike_offer h bursts
  | pushBytes bursts => exact alike_pushBytes h bursts
  | tick now => exact alike_tick hlike h now
  | reset => exact (alike_dropAll h).quiet
  | setThresholds enough low =>
    have hchanged := h.withSettings { b.settings with enough, low }
    unfold apply setThresholds
    dsimp only
    rw [h.settings_eq]
    split
    · exact h.quiet
    · exact hchanged.quiet
  | setMaxSize megabytes =>
    unfold apply setMaxSize
    dsimp only
    rw [h.settings_eq]
    split
    · exact h.quiet
    · exact alike_adopt h _
  | setOptions options =>
    unfold apply setOptions
    dsimp only
    rw [h.settings_eq]
    split
    · exact h.quiet
    · exact alike_adopt h _
  | setName name =>
    unfold apply setName
    dsimp only
    rw [h.settings_eq]
    exact (h.withSettings _).quiet
  | setPid pid? => exact alike_setPid h pid?
  | setDelivers on =>
    cases h with
    | mk hqueue hclock => exact ⟨.mk hqueue hclock, .nil, rfl, rfl⟩
  | setAsks on =>
    cases h with
    | mk hqueue hclock => exact ⟨.mk hqueue hclock, .nil, rfl, rfl⟩

theorem alike_run (hlike : Clock.Likeness R T) (h : b.Alike R T b')
    (hops : List.Forall₂ (Operation.Alike R) history history') :
    (b.run history).Alike R T (b'.run history') := by
  induction hops generalizing b b' with
  | nil => exact h
  | cons hop _ ih => exact ih (alike_apply hlike h hop).buffer

theorem alike_moments (hlike : Clock.Likeness R T) (now : Int) (n : Nat) (h : b.Alike R T b')
    (hrun : b.flow = .running) :
    List.Forall₂ (Alike R T) (moments now n b) (moments now n b') := by
  induction n generalizing b b' with
  | zero => exact .nil
  | succ n ih =>
    have hmoment := alike_moment? hlike h now
    unfold moments
    rw [h.clock.quantum_eq, h.clock.credit_eq]
    split
    · cases hm : b.moment? now with
      | none =>
        rw [hm] at hmoment
        generalize b'.moment? now = m? at hmoment ⊢
        cases hmoment
        exact .nil
      | some m =>
        rw [hm] at hmoment
        generalize b'.moment? now = m? at hmoment ⊢
        cases hmoment with
        | some hmoments =>
          obtain ⟨_, _, hrunning, hlead⟩ := course_moment h.queue.ordered hrun hm
          exact .cons hmoments (ih (alike_sendOff hmoments hlead) hrunning)
    · exact .nil

theorem alike_departures (hlike : Clock.Likeness R T) (h : b.Alike R T b') (now : Int) :
    List.Forall₂ (Alike R T) (b.departures now) (b'.departures now) := by
  have hcounted : b'.counted? now = b.counted? now := by
    unfold counted?
    rw [h.lastTick_eq]
  unfold departures
  rw [hcounted, h.flow_eq, h.settings_eq, h.clock.blocks_eq, h.clock.quantum_eq, h.queue.length_eq]
  split
  · exact .nil
  · split
    · rename_i microseconds _ hflows
      refine alike_moments hlike now _ ?_ hflows.1
      exact (alike_credit h (· + Float.ofNat microseconds * ticksPerMicrosecond)).timed (some now)
    · exact .nil

theorem alike_taking (h : b.Alike R T b') (hburst : List.Forall₂ R burst burst') :
    List.Forall₂ (Event.Alike R T) (b.taking burst) (b'.taking burst') := by
  have haccepted : (b'.offer burst').accepted = (b.offer burst).accepted :=
    congrArg Option.isNone (alike_offer h hburst).fault_eq
  have hempty : burst' ≠ [] ↔ burst ≠ [] := by
    cases hburst <;> simp
  unfold taking
  by_cases htaken : burst ≠ [] ∧ (b.offer burst).accepted
  · rw [if_pos htaken, if_pos ⟨hempty.mpr htaken.1, haccepted.trans htaken.2⟩]
    exact .cons (.took hburst) .nil
  · rw [if_neg htaken, if_neg fun h' => htaken ⟨hempty.mp h'.1, haccepted.symm.trans h'.2⟩]
    exact .nil

theorem alike_events (hlike : Clock.Likeness R T) (h : b.Alike R T b') (hop : op.Alike R op') :
    List.Forall₂ (Event.Alike R T) (b.events op) (b'.events op') := by
  cases hop with
  | push bursts | offer bursts | pushBytes bursts => exact alike_taking h bursts
  | tick now =>
    have hjumps : b'.jumps now = b.jumps now := by
      unfold jumps
      rw [h.lastTick_eq]
    have hgives : b'.givesUp now = b.givesUp now := by
      unfold givesUp counted?
      rw [h.flow_eq, h.lastTick_eq, h.settings_eq, (alike_recount hlike h).clock.blocks_eq]
    unfold events
    dsimp only
    rw [hjumps, hgives]
    split
    · exact .cons .emptied .nil
    · rw [List.forall₂_map_left_iff, List.forall₂_map_right_iff]
      exact (alike_departures hlike h now).imp fun _ _ hmoments => .sent hmoments
  | reset => exact .cons .emptied .nil
  | setDelivers on => exact .cons (.connected on) .nil
  | setThresholds | setMaxSize | setOptions | setName | setPid | setAsks => exact .nil

theorem alike_happened (hlike : Clock.Likeness R T) (h : b.Alike R T b')
    (hops : List.Forall₂ (Operation.Alike R) history history') :
    List.Forall₂ (Event.Alike R T) (b.happened history) (b'.happened history') := by
  induction hops generalizing b b' with
  | nil => exact .nil
  | cons hop _ ih =>
    exact List.rel_append (alike_events hlike h hop) (ih (alike_apply hlike h hop).buffer)

theorem numbers_eq {es es' : List Event} (h : List.Forall₂ (Event.Alike R T) es es') (count : Nat) :
    numbers count es' = numbers count es := by
  induction h generalizing count with
  | nil => rfl
  | cons he _ ih =>
    cases he with
    | took bursts =>
      unfold numbers
      rw [ih, bursts.length_eq]
    | sent moments =>
      unfold numbers
      rw [ih, moments.delivers_eq, moments.queue.length_eq]
    | emptied => exact ih count
    | connected => exact ih count

theorem alike_accepted (hlike : Clock.Likeness R T) (h : b.Alike R T b')
    (hops : List.Forall₂ (Operation.Alike R) history history') :
    List.Forall₂ R (b.accepted history) (b'.accepted history') := by
  induction hops generalizing b b' with
  | nil => exact .nil
  | @cons op op' _ _ hop _ ih =>
    have hstep := alike_apply hlike h hop
    have haccepted : (b'.apply op').accepted = (b.apply op).accepted :=
      congrArg Option.isNone hstep.fault_eq
    have hburst : List.Forall₂ R op.burst op'.burst := by
      cases hop with
      | push bursts | offer bursts | pushBytes bursts => exact bursts
      | _ => exact .nil
    rw [accepted_cons, accepted_cons, haccepted]
    refine List.rel_append ?_ (ih hstep.buffer)
    split
    · exact hburst
    · exact .nil

end Buffer
end PacedStream
