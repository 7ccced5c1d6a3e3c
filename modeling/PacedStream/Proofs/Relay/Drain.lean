import PacedStream.Packet.Draft
import PacedStream.Proofs.Buffer.Hosted
import PacedStream.Proofs.Relay.Runs

/-!
The end of a run. When its input has ended, a relay goes on until everything through the last
queued reading is written. Main statement: in a run that ends well, what is written after the close
is the queue from its front, or from its first reading without a lock so far, through its last one.
-/

namespace PacedStream.Relay
set_option autoImplicit false

variable {σ : Type} {sink : Sink σ} {r : Relay σ} {b : Buffer} {interval k idle now : Nat}
  {timeline : List (Nat × Event σ)} {due rest : List Packet}

/-- Ticks are at least a microsecond apart, the least span that counts, and at most a second, beyond
which time jumps. -/
structure Steady (interval : Nat) : Prop where
  least : 1000 ≤ interval
  greatest : interval ≤ Span.milliseconds 1000

/-- The last tick before the one numbered `k`. -/
def clocked (interval : Nat) : Nat → Option Int
  | 0 => none
  | k + 1 => some (k * interval : Nat)

theorem tick_of_clocked (h : b.lastTick? = clocked interval k) (hsteady : Steady interval) :
    (k = 0 ∧ b.tick (k * interval : Nat) = { buffer := b.timed (k * interval : Nat) }) ∨
      ∃ microseconds,
        b.tick (k * interval : Nat) = b.advance (k * interval : Nat) microseconds := by
  cases k with
  | zero =>
    refine .inl ⟨rfl, ?_⟩
    have hnone : b.lastTick? = none := h
    unfold Buffer.tick
    rw [hnone]
    rfl
  | succ k =>
    obtain ⟨hleast, hgreatest⟩ := hsteady
    have hlimit : Span.milliseconds 1000 = 1000000000 := rfl
    have hlast : b.lastTick? = some ((k * interval : Nat) : Int) := h
    have hspan : (((k + 1) * interval : Nat) : Int) = (k * interval : Nat) + (interval : Int) := by
      rw [Nat.add_mul, Nat.one_mul, Int.natCast_add]
    obtain ⟨microseconds, _, _, htick⟩ :
        ∃ microseconds, b.counted? ((k + 1) * interval : Nat) = some microseconds ∧ _ ∧ _ :=
      Buffer.tick_of_span hlast (by omega) (by omega)
    exact .inr ⟨microseconds, htick⟩

theorem clocked_tick (h : b.lastTick? = clocked interval k) (hsteady : Steady interval) :
    (b.tick (k * interval : Nat)).buffer.lastTick? = clocked interval (k + 1) := by
  rcases tick_of_clocked h hsteady with ⟨_, htick⟩ | ⟨microseconds, htick⟩
  · rw [htick]
    rfl
  · rw [htick, (Buffer.fixed_advance b _ microseconds).lastTick_eq]
    rfl

/-- A tick of a drain sends what is due next. Nothing more is when the queue is empty, or when so
many ticks made no progress that the relay gives up. -/
theorem drains_tick (h : b.Drains due rest) (hlast : b.lastTick? = clocked interval k)
    (hidle : k = 0 → idle = 0) (hsteady : Steady interval) :
    let s := b.tick (k * interval : Nat)
    ∃ due', due = s.sent.toList ++ due' ∧ s.buffer.Drains due' rest ∧
      (s.buffer.queue.isEmpty ∨ patience ≤ idleAfter s.buffer idle s.sent.size →
        due' = [] ∧ rest = s.buffer.queue.toList) := by
  intro s
  obtain ⟨due', hdue, hdrains, hstops⟩ : ∃ due', due = s.sent.toList ++ due' ∧
      s.buffer.Drains due' rest ∧ (patience ≤ idleAfter s.buffer idle s.sent.size →
        due' = [] ∧ rest = s.buffer.queue.toList) := by
    rcases tick_of_clocked hlast hsteady with ⟨hzero, htick⟩ | ⟨microseconds, htick⟩
    · have hs : s = { buffer := b.timed (k * interval : Nat) } := htick
      rw [hs]
      refine ⟨due, rfl, h.timed _, fun hpatience => ?_⟩
      -- Patience outlasts the one tick that does not count.
      have hle : idleAfter (b.timed (k * interval : Nat)) idle 0 ≤ 1 := by
        unfold idleAfter
        rw [hidle hzero]
        split <;> omega
      exact absurd (Nat.le_trans hpatience hle) (by decide)
    · have hs : s = b.advance (k * interval : Nat) microseconds := htick
      rw [hs]
      obtain ⟨due', hdue, hdrains, hgoes⟩ := h.advance (k * interval : Nat) microseconds
      refine ⟨due', hdue, hdrains, fun hpatience => ?_⟩
      rcases hgoes with hrunning | hover
      · have hzero : idleAfter (b.advance (k * interval : Nat) microseconds).buffer idle
            (b.advance (k * interval : Nat) microseconds).sent.size = 0 :=
          if_pos (.inr (by rw [hrunning]; rfl))
        rw [hzero] at hpatience
        exact absurd hpatience (by decide)
      · exact hover
  refine ⟨due', hdue, hdrains, fun hover => ?_⟩
  rcases hover with hempty | hpatience
  · exact hdrains.of_nil (hdrains.ordered.isEmpty_iff.mp hempty)
  · exact hstops hpatience

/-- Draining before the tick numbered `k`, with what is still due and what will be left. -/
structure Draining (interval k : Nat) (due rest : List Packet) (r : Relay σ) : Prop where
  /-- Only the tick that starts the count of time makes no progress while something is due. -/
  phase : ∃ idle, r.phase = .draining idle ∧ (k = 0 → idle = 0)
  last : r.buffer.lastTick? = clocked interval k
  drains : r.buffer.Drains due rest

theorem Draining.tick (h : Draining interval k due rest r) (sink : Sink σ)
    (hsteady : Steady interval) :
    let r' := r.handle sink (k * interval, .tick)
    ∃ due', due = r.written (k * interval, .tick) ++ due' ∧
      (Draining interval (k + 1) due' rest r' ∨
        ∃ instant result, r'.phase = .ended instant result ∧
          (result = .ok () → due' = [] ∧ rest = r'.buffer.queue.toList)) := by
  intro r'
  obtain ⟨⟨idle, hphase, hidle⟩, hlast, hdrains⟩ := h
  have hr' : r' = r.drainBeat sink (k * interval) idle := tick_of_draining sink _ hphase
  have hwritten : r.written (k * interval, .tick) =
      (r.buffer.tick (k * interval : Nat)).sent.toList := by
    simp only [written, hphase]
  obtain ⟨due', hdue, hdrains', hover⟩ := drains_tick hdrains hlast hidle hsteady
  refine ⟨due', hwritten ▸ hdue, ?_⟩
  rcases beat_cases sink (k * interval) r with ⟨fault, hnone, hfailed⟩ | ⟨hsent, hbuffer, _⟩
  · rw [hr', drainBeat_of_none hnone]
    exact .inr ⟨_, _, hfailed, by simp⟩
  · rw [hr', drainBeat_of_some hsent, hbuffer]
    split
    · rename_i hstops
      obtain ⟨⟨result, hended⟩, hsame, _⟩ :=
        finish_cases sink (k * interval) (r.beat sink (k * interval)).1
      refine .inr ⟨_, result, hended, fun _ => ?_⟩
      rw [hsame, hbuffer]
      exact hover hstops
    · refine .inl ⟨⟨_, rfl, by simp⟩, ?_, ?_⟩
      · change (r.beat sink (k * interval)).1.buffer.lastTick? = _
        rw [hbuffer]
        exact clocked_tick hlast hsteady
      · change (r.beat sink (k * interval)).1.buffer.Drains due' rest
        rw [hbuffer]
        exact hdrains'

theorem Draining.run {instant : Nat} (h : Draining interval k due rest r)
    (hpaced : Paced interval k timeline) (hsteady : Steady interval)
    (hended : (r.run sink timeline).phase = .ended instant (.ok ())) :
    r.writes sink timeline = due ∧ (r.run sink timeline).buffer.queue.toList = rest := by
  -- On the events to come; what is due loses in front what each tick writes.
  induction hpaced generalizing r due with
  | done k =>
    obtain ⟨⟨idle, hphase, _⟩, _⟩ := h
    have hended' : r.phase = .ended instant (.ok ()) := hended
    rw [hphase] at hended'
    cases hended'
  | @other k now event rest' noTick _ ih =>
    obtain ⟨⟨idle, hphase, hidle⟩, hlast, hdrains⟩ := h
    obtain ⟨hphase', hbuffer⟩ := handle_of_not_feeding (r := r) sink now (by simp [hphase]) noTick
    have hnext : Draining interval k due rest (r.handle sink (now, event)) :=
      ⟨⟨idle, hphase'.trans hphase, hidle⟩, hbuffer ▸ hlast, hbuffer ▸ hdrains⟩
    obtain ⟨hwrites, hleft⟩ := ih hnext hended
    refine ⟨?_, hleft⟩
    rw [writes_cons, written_of_not_tick r now noTick, hwrites]
    rfl
  | @tick k rest' _ ih =>
    obtain ⟨due', hdue, hgoes⟩ := h.tick sink hsteady
    rcases hgoes with hdraining | ⟨instant', result, hphase, hover⟩
    · obtain ⟨hwrites, hleft⟩ := ih hdraining hended
      refine ⟨?_, hleft⟩
      rw [writes_cons, hwrites, hdue]
    · obtain ⟨hrun, hbuffer, hwrites⟩ := run_of_ended sink rest' hphase
      have hok : result = .ok () := by
        have hsame := (hrun.trans hphase).symm.trans hended
        cases hsame
        rfl
      obtain ⟨hnil, hleft⟩ := hover hok
      constructor
      · rw [writes_cons, hwrites, hdue, hnil]
      · exact (congrArg (fun b : Buffer => b.queue.toList) hbuffer).trans hleft.symm

/-- Taking input before the tick numbered `k`. -/
structure Feeding (interval k : Nat) (r : Relay σ) : Prop where
  phase : r.phase = .feeding
  last : r.buffer.lastTick? = clocked interval k
  hosted : r.buffer.Hosted

inductive Goes (interval k : Nat) (r : Relay σ) : Prop where
  | feeds (feeding : Feeding interval k r)
  | drains {b : Buffer} (phase_eq : r.phase = .draining 0)
      (buffer_eq : r.buffer = (b.setThresholds 1 1).buffer) (last : b.lastTick? = clocked interval k)
      (hosted : b.Hosted) (queued : b.queue.toList ≠ [])
  | ends {instant : Nat} {result : Except Fault Unit} (phase_eq : r.phase = .ended instant result)
      (unqueued : result = .ok () → r.buffer.queue.toList = [])

theorem goes_take (sink : Sink σ) (now : Nat) (h : Feeding interval k r) :
    Goes interval k (r.take sink now) := by
  have htakes := takes_take (P := fun b => b.Hosted ∧ b.lastTick? = clocked interval k)
    (fun b burst hb => ⟨hb.1.push burst,
      (Buffer.keeps_early (.push burst) rfl).2.trans hb.2⟩) sink now h.phase ⟨h.hosted, h.last⟩
  cases htakes with
  | feeds phase_eq _ buffer => exact .feeds ⟨phase_eq, buffer.2, buffer.1⟩
  | ends phase_eq _ buffer unqueued =>
    exact .ends phase_eq fun _ => buffer.1.coherent.ordered.isEmpty_iff.mp unqueued
  | drains phase_eq _ buffer_eq buffer queued =>
    refine .drains phase_eq buffer_eq buffer.2 buffer.1 fun hnil => ?_
    rw [buffer.1.coherent.ordered.isEmpty_iff.mpr hnil] at queued
    cases queued

theorem Feeding.handle {event : Event σ} (h : Feeding interval k r) (sink : Sink σ) (now : Nat)
    (noTick : event ≠ .tick) : Goes interval k (r.handle sink (now, event)) := by
  cases event with
  | tick => exact absurd rfl noTick
  | arrive chunk => exact goes_take sink now ⟨h.phase, h.last, h.hosted⟩
  | close => exact goes_take sink now ⟨h.phase, h.last, h.hosted⟩
  | disturb | look => exact .feeds ⟨h.phase, h.last, h.hosted⟩

theorem Feeding.tick (h : Feeding interval k r) (sink : Sink σ) (hsteady : Steady interval) :
    Goes interval (k + 1) (r.handle sink (k * interval, .tick)) := by
  rw [tick_of_feeding sink _ h.phase]
  rcases beat_cases sink (k * interval) r with ⟨fault, _, hfailed⟩ | ⟨_, hbuffer, hphase⟩
  · rw [take_of_not_feeding sink _ (by simp [hfailed])]
    exact .ends hfailed (by simp)
  · refine goes_take sink _ ⟨hphase.trans h.phase, ?_, ?_⟩
    · rw [hbuffer]
      exact clocked_tick h.last hsteady
    · rw [hbuffer]
      exact h.hosted.tick _

/-- From the close on the queue is played through its last reading, and what lies behind it is
left. -/
structure PlaysOut (sink : Sink σ) (closed : Relay σ) (after : List (Nat × Event σ)) : Prop where
  writes_eq : closed.writes sink after = Clock.timed closed.buffer.kept
  left_eq : (closed.run sink after).buffer.queue.toList = Clock.untimed closed.buffer.kept
  /-- A record of what the sink was handed grows by the packets played. -/
  seen_eq : ∀ seen, Records sink seen →
    (∀ e ∈ after, ∀ change state, e.2 = .disturb change → seen (change state) = seen state) →
    seen (closed.run sink after).sink = seen closed.sink ++ Clock.timed closed.buffer.kept

theorem playsOut_of_eq (hwrites : r.writes sink timeline = Clock.timed r.buffer.kept)
    (hleft : (r.run sink timeline).buffer.queue.toList = Clock.untimed r.buffer.kept) :
    PlaysOut sink r timeline := by
  refine ⟨hwrites, hleft, fun seen hrecords hchanges => ?_⟩
  rw [← hwrites]
  exact hrecords.run hchanges

theorem playsOut_of_draining {instant : Nat} (hphase : r.phase = .draining 0)
    (hbuffer : r.buffer = (b.setThresholds 1 1).buffer) (hlast : b.lastTick? = clocked interval k)
    (hosted : b.Hosted) (queued : b.queue.toList ≠ []) (hplayable : r.buffer.Playable)
    (hpaced : Paced interval k timeline) (hsteady : Steady interval)
    (hended : (r.run sink timeline).phase = .ended instant (.ok ())) : PlaysOut sink r timeline := by
  have hkept : r.buffer.kept = b.kept := by
    rw [hbuffer, Buffer.kept_setThresholds_one]
  have hlast' : r.buffer.lastTick? = clocked interval k := by
    rw [hbuffer]
    exact (Buffer.keeps_early (.setThresholds 1 1) rfl).2.trans hlast
  have hdrains : r.buffer.Drains (Clock.timed b.kept) (Clock.untimed b.kept) := by
    rw [hbuffer] at hplayable ⊢
    exact hosted.drains hplayable.of_setThresholds_one queued
  have hdraining : Draining interval k (Clock.timed b.kept) (Clock.untimed b.kept) r :=
    ⟨⟨0, hphase, fun _ => rfl⟩, hlast', hdrains⟩
  obtain ⟨hwrites, hleft⟩ := hdraining.run hpaced hsteady hended
  exact playsOut_of_eq (hkept ▸ hwrites) (hkept ▸ hleft)

theorem playsOut_of_ended {instant : Nat} {result : Except Fault Unit}
    (hphase : r.phase = .ended instant result) (hnil : r.buffer.queue.toList = []) :
    PlaysOut sink r timeline := by
  obtain ⟨_, hbuffer, hwrites⟩ := run_of_ended sink timeline hphase
  have hkept : r.buffer.kept = [] := Buffer.kept_of_nil hnil
  refine playsOut_of_eq ?_ ?_
  · rw [hwrites, hkept]
    rfl
  · rw [hbuffer, hnil, hkept]
    rfl

/-- A run takes input up to some event, and plays out what is queued then. -/
def Closes (sink : Sink σ) (r : Relay σ) (timeline : List (Nat × Event σ)) : Prop :=
  ∃ before e after, timeline = before ++ e :: after ∧
    (r.run sink before).phase = .feeding ∧ (r.run sink (before ++ [e])).phase ≠ .feeding ∧
    ((r.run sink (before ++ [e])).buffer.Playable → PlaysOut sink (r.run sink (before ++ [e])) after)

theorem Goes.closes {instant : Nat} {e : Nat × Event σ} (h : Goes interval k (r.handle sink e))
    (hphase : r.phase = .feeding) (hpaced : Paced interval k timeline) (hsteady : Steady interval)
    (hended : ((r.handle sink e).run sink timeline).phase = .ended instant (.ok ()))
    (hfeeds : Feeding interval k (r.handle sink e) → Closes sink (r.handle sink e) timeline) :
    Closes sink r (e :: timeline) := by
  have hnow (hnext : (r.handle sink e).phase ≠ .feeding)
      (hplays : (r.handle sink e).buffer.Playable → PlaysOut sink (r.handle sink e) timeline) :
      Closes sink r (e :: timeline) := ⟨[], e, timeline, rfl, hphase, hnext, hplays⟩
  cases h with
  | feeds feeding =>
    obtain ⟨before, e', after, htimeline, hcloses⟩ := hfeeds feeding
    exact ⟨e :: before, e', after, by rw [htimeline]; rfl, hcloses⟩
  | drains phase_eq buffer_eq last hosted queued =>
    exact hnow (by simp [phase_eq]) fun hplayable =>
      playsOut_of_draining phase_eq buffer_eq last hosted queued hplayable hpaced hsteady hended
  | ends phase_eq unqueued =>
    obtain ⟨hrun, _, _⟩ := run_of_ended sink timeline phase_eq
    have hok := (hrun.trans phase_eq).symm.trans hended
    cases hok
    exact hnow (by simp [phase_eq]) fun _ => playsOut_of_ended phase_eq (unqueued rfl)

theorem Feeding.closes {instant : Nat} (h : Feeding interval k r)
    (hpaced : Paced interval k timeline) (hsteady : Steady interval)
    (hended : (r.run sink timeline).phase = .ended instant (.ok ())) : Closes sink r timeline := by
  induction hpaced generalizing r with
  | done k =>
    have hended' : r.phase = .ended instant (.ok ()) := hended
    rw [h.phase] at hended'
    cases hended'
  | @other k now event rest noTick paced ih =>
    exact (h.handle sink now noTick).closes h.phase paced hsteady hended fun h' => ih h' hended
  | @tick k rest paced ih =>
    exact (h.tick sink hsteady).closes h.phase paced hsteady hended fun h' => ih h' hended

/-- Every run that ends well, whatever came before the first tick. -/
theorem plays_out {settings : Settings} {setup : List Buffer.Operation}
    {events : List (Nat × Event σ)} {instant : Nat} (sink : Sink σ) (state : σ) (total : Nat)
    (hsetup : ∀ op ∈ setup, op.early = true) (hfrom : 1000 ≤ interval)
    (hto : interval ≤ Span.milliseconds 1000) (hevents : ∀ e ∈ events, e.2 ≠ .tick) :
    let r := start ((host settings).buffer.run setup) state interval
    let timeline := Relay.timeline interval total 0 events
    (r.run sink timeline).phase = .ended instant (.ok ()) → Closes sink r timeline := by
  intro r timeline hended
  obtain ⟨hhosted, hlast⟩ := Buffer.hosted_run settings hsetup
  have hfeeding : Feeding interval 0 r := ⟨rfl, hlast, hhosted⟩
  exact hfeeding.closes (paced_timeline total hevents) ⟨hfrom, hto⟩ hended

def collect : Sink (List Packet) where
  write _ packets state := (state ++ packets.toList, none)

def sample : List Packet :=
  [none, some 0, none, some 54000, none].map fun clock? => Packet.Draft.packet { pid := 256, clock? }

/-- The close is seen at the tick after it, behind the first block. -/
theorem plays_out_sample :
    let r := start ((host {}).buffer.run [.push sample]) [] 1000000
    let timeline := Relay.timeline 1000000 8 0 [(0, .close)]
    Closes collect r timeline ∧
      (r.run collect [(0, .tick), (0, .close), (1000000, .tick)]).buffer.Playable ∧
      (r.run collect timeline).sink.map Packet.clock? = [some 0, none, some 54000] := by
  intro r timeline
  have hended : (r.run collect timeline).phase = .ended 7000000 (.ok ()) := by decide +kernel
  have hcloses : Closes collect r timeline :=
    plays_out collect [] 8 (by simp [Buffer.Operation.early]) (by decide) (by decide) (by simp)
      hended
  refine ⟨hcloses, ?_, by decide +kernel⟩
  generalize hclosed : (r.run collect [(0, .tick), (0, .close), (1000000, .tick)]).buffer = b
  have href : b.clock.reference? = some 256 := by
    subst hclosed
    decide +kernel
  have hread : Clock.readings b.queue.toList = [(256, 0), (256, 54000)] := by
    subst hclosed
    decide +kernel
  have hnone : Clock.readings b.queue.ahead = [] := by
    subst hclosed
    decide +kernel
  constructor
  · exact ⟨256, .inr href, by simp [hread]⟩
  · rw [hread]
    decide
  · simp [hnone]
  · exact .inr (.inr (by rw [hread]; decide))

end PacedStream.Relay
