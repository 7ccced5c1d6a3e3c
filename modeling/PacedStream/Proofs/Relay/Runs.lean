import PacedStream.Relay.Basic
import PacedStream.Gather

/-!
Runs of a relay. Ticks come in order, at the multiples of their interval; once a run has ended
nothing more happens; and a sink that keeps a record has all that the relay wrote.
-/

namespace PacedStream.Relay
set_option autoImplicit false

variable {σ : Type} {sink : Sink σ} {r : Relay σ} {interval k now : Nat} {event : Event σ}
  {events timeline before after : List (Nat × Event σ)}

/-- The ticks are those numbered from `k` on, in order. -/
inductive Paced (interval : Nat) : Nat → List (Nat × Event σ) → Prop where
  | done (k : Nat) : Paced interval k []
  | tick {k : Nat} {rest : List (Nat × Event σ)} (paced : Paced interval (k + 1) rest) :
      Paced interval k ((k * interval, .tick) :: rest)
  | other {k now : Nat} {event : Event σ} {rest : List (Nat × Event σ)} (noTick : event ≠ .tick)
      (paced : Paced interval k rest) : Paced interval k ((now, event) :: rest)

theorem paced_ticks (n : Nat) (h : Paced interval (k + n) events) :
    Paced interval k (((List.range n).map fun i => ((k + i) * interval, .tick)) ++ events) := by
  induction n generalizing k with
  | zero => exact h
  | succ n ih =>
    have hnext : Paced interval (k + 1 + n) events := by
      rwa [Nat.add_right_comm]
    have hshift : ((fun i => ((k + i) * interval, Event.tick)) ∘ Nat.succ : Nat → Nat × Event σ) =
        fun i => ((k + 1 + i) * interval, .tick) := by
      funext i
      simp only [Function.comp_apply, Nat.succ_eq_add_one, Nat.add_assoc, Nat.add_comm 1 i]
    rw [List.range_succ_eq_map, List.map_cons, List.map_map, List.cons_append, hshift]
    exact .tick (ih hnext)

theorem paced_ticks_to {stop : Nat} (h : Paced interval (max k stop) events) :
    Paced interval k (ticks interval k stop ++ events) := by
  have hstop : k + (stop - k) = max k stop := by omega
  exact paced_ticks (stop - k) (hstop.symm ▸ h)

theorem paced_timeline (total : Nat) (hevents : ∀ e ∈ events, e.2 ≠ .tick) :
    Paced interval k (Relay.timeline interval total k events) := by
  induction events generalizing k with
  | nil =>
    have hticks : Paced interval k (ticks interval k total ++ ([] : List (Nat × Event σ))) :=
      paced_ticks_to (.done _)
    rwa [List.append_nil] at hticks
  | cons e rest ih =>
    refine paced_ticks_to (.other (hevents e List.mem_cons_self) ?_)
    exact ih fun e' he' => hevents e' (List.mem_cons_of_mem _ he')

def written (r : Relay σ) : Nat × Event σ → List Packet
  | (now, .tick) =>
    match r.phase with
    | .ended .. => []
    | _ => (r.buffer.tick now).sent.toList
  | _ => []

def writes (sink : Sink σ) (r : Relay σ) (timeline : List (Nat × Event σ)) : List Packet :=
  gather (handle sink) written r timeline

theorem writes_cons (sink : Sink σ) (r : Relay σ) (e : Nat × Event σ) (rest : List (Nat × Event σ)) :
    r.writes sink (e :: rest) = r.written e ++ (r.handle sink e).writes sink rest := rfl

instance (phase : Phase) (instant : Nat) : Decidable (phase = .ended instant (.ok ())) :=
  match phase with
  | .feeding | .draining _ | .ended _ (.error _) => isFalse nofun
  | .ended instant' (.ok ()) =>
    if h : instant' = instant then isTrue (by rw [h]) else isFalse fun heq => by cases heq; exact h rfl

theorem beat_cases (sink : Sink σ) (now : Nat) (r : Relay σ) :
    (∃ fault, (r.beat sink now).2 = none ∧ (r.beat sink now).1.phase = .ended now (.error fault)) ∨
      (r.beat sink now).2 = some (r.buffer.tick now).sent.size ∧
        (r.beat sink now).1.buffer = (r.buffer.tick now).buffer ∧
        (r.beat sink now).1.phase = r.phase := by
  unfold beat
  dsimp only
  split
  · rename_i state fault hwrite
    exact .inl ⟨fault, rfl, rfl⟩
  · exact .inr ⟨rfl, rfl, rfl⟩

theorem sink_beat (sink : Sink σ) (now : Nat) (r : Relay σ) :
    (r.beat sink now).1.sink = (sink.write now (r.buffer.tick now).sent r.sink).1 := by
  unfold beat
  dsimp only
  split <;> rename_i hwrite <;> exact (congrArg Prod.fst hwrite).symm

theorem finish_cases (sink : Sink σ) (now : Nat) (r : Relay σ) :
    (∃ result, (r.finish sink now).phase = .ended now result) ∧
      (r.finish sink now).buffer = r.buffer ∧
      (r.finish sink now).sink = (sink.flush r.sink).1 := by
  unfold finish
  cases r.buffer.queue.isEmpty
  all_goals
    dsimp only
    split <;> rename_i hflush <;> exact ⟨⟨_, rfl⟩, rfl, (congrArg Prod.fst hflush).symm⟩

theorem tick_of_feeding (sink : Sink σ) (now : Nat) (hphase : r.phase = .feeding) :
    r.handle sink (now, .tick) = (r.beat sink now).1.take sink now := by
  unfold handle tick
  simp only [hphase]

theorem tick_of_draining {idle : Nat} (sink : Sink σ) (now : Nat)
    (hphase : r.phase = .draining idle) :
    r.handle sink (now, .tick) = r.drainBeat sink now idle := by
  unfold handle tick
  simp only [hphase]

def idleAfter (b : Buffer) (idle sent : Nat) : Nat :=
  if 0 < sent ∨ b.flow.isRunning then 0 else idle + 1

theorem drainBeat_of_none {idle : Nat} (h : (r.beat sink now).2 = none) :
    r.drainBeat sink now idle = (r.beat sink now).1 := by
  unfold drainBeat
  generalize r.beat sink now = beaten at h ⊢
  obtain ⟨r', sent?⟩ := beaten
  cases h
  rfl

theorem drainBeat_of_some {idle sent : Nat} (h : (r.beat sink now).2 = some sent) :
    r.drainBeat sink now idle =
      if (r.beat sink now).1.buffer.queue.isEmpty ∨
          patience ≤ idleAfter (r.beat sink now).1.buffer idle sent then
        (r.beat sink now).1.finish sink now
      else { (r.beat sink now).1 with
        phase := .draining (idleAfter (r.beat sink now).1.buffer idle sent) } := by
  unfold drainBeat
  generalize r.beat sink now = beaten at h ⊢
  obtain ⟨r', sent?⟩ := beaten
  cases h
  rfl

theorem receive_cases (r : Relay σ) (chunk : List UInt8) :
    ((r.receive chunk).buffer = r.buffer ∨
        ∃ burst, (r.receive chunk).buffer = (r.buffer.push burst).buffer) ∧
      (r.receive chunk).phase = r.phase ∧ (r.receive chunk).sink = r.sink := by
  unfold receive
  dsimp only
  split
  · exact ⟨.inl rfl, rfl, rfl⟩
  · exact ⟨.inr ⟨_, rfl⟩, rfl, rfl⟩

theorem receive_all {P : Buffer → Prop} (pushes : ∀ b burst, P b → P (b.push burst).buffer)
    (chunks : Array (List UInt8)) {r : Relay σ} (h : P r.buffer) :
    P (chunks.foldl receive r).buffer ∧ (chunks.foldl receive r).phase = r.phase ∧
      (chunks.foldl receive r).sink = r.sink := by
  rw [← Array.foldl_toList]
  induction chunks.toList generalizing r with
  | nil => exact ⟨h, rfl, rfl⟩
  | cons chunk rest ih =>
    obtain ⟨hbuffer, hphase, hsink⟩ := receive_cases r chunk
    have hchunk : P (r.receive chunk).buffer := by
      rcases hbuffer with hsame | ⟨burst, hpushed⟩
      · exact hsame ▸ h
      · exact hpushed ▸ pushes r.buffer burst h
    obtain ⟨hrest, hphase', hsink'⟩ := ih hchunk
    exact ⟨hrest, hphase'.trans hphase, hsink'.trans hsink⟩

/-- What becomes of a relay that takes its input, given the state of its sink and what holds of its
buffer until the end of the input. -/
inductive Takes (sink : Sink σ) (now : Nat) (P : Buffer → Prop) (state : σ) (r : Relay σ) : Prop where
  | feeds (phase_eq : r.phase = .feeding) (sink_eq : r.sink = state) (buffer : P r.buffer)
  | ends {result : Except Fault Unit} (phase_eq : r.phase = .ended now result)
      (sink_eq : r.sink = (sink.flush state).1) (buffer : P r.buffer)
      (unqueued : r.buffer.queue.isEmpty = true)
  | drains {b : Buffer} (phase_eq : r.phase = .draining 0) (sink_eq : r.sink = state)
      (buffer_eq : r.buffer = (b.setThresholds 1 1).buffer) (buffer : P b)
      (queued : b.queue.isEmpty = false)

variable {P : Buffer → Prop}

theorem takes_drain (sink : Sink σ) (now : Nat) (h : P r.buffer) :
    Takes sink now P r.sink (r.drain sink now) := by
  -- A packet that was cut short is only noted first.
  have hcases : ∀ r' : Relay σ, r'.buffer = r.buffer → r'.sink = r.sink →
      Takes sink now P r.sink (if r'.buffer.queue.isEmpty then r'.finish sink now else
        { r'.note #[.draining r'.buffer.queue.length] with
          buffer := (r'.buffer.setThresholds 1 1).buffer, phase := .draining 0 }) := by
    intro r' hbuffer hsink
    cases hempty : r'.buffer.queue.isEmpty with
    | true =>
      obtain ⟨⟨result, hphase⟩, hbuffer', hsink'⟩ := finish_cases sink now r'
      rw [if_pos rfl]
      refine .ends hphase (hsink'.trans (by rw [hsink])) ?_ ?_
      · rw [hbuffer', hbuffer]
        exact h
      · rw [hbuffer']
        exact hempty
    | false =>
      rw [if_neg nofun]
      exact .drains rfl hsink (congrArg (fun b => (b.setThresholds 1 1).buffer) hbuffer) h
        (hbuffer ▸ hempty)
  unfold drain
  dsimp only
  split
  · exact hcases r rfl rfl
  · exact hcases (r.note #[.cutShort r.carry.size]) rfl rfl

theorem takes_take (pushes : ∀ b burst, P b → P (b.push burst).buffer) (sink : Sink σ) (now : Nat)
    (hphase : r.phase = .feeding) (h : P r.buffer) : Takes sink now P r.sink (r.take sink now) := by
  unfold take
  split
  · split
    · obtain ⟨hall, hphase', hsink⟩ :=
        receive_all pushes r.waiting (r := { r with waiting := #[] }) h
      dsimp only
      split
      · have htakes := takes_drain sink now hall
        rw [hsink] at htakes
        exact htakes
      · exact .feeds (hphase'.trans hphase) hsink hall
    · exact .feeds hphase rfl h
  · exact absurd hphase ‹_›

theorem take_of_not_feeding (sink : Sink σ) (now : Nat) (hphase : r.phase ≠ .feeding) :
    r.take sink now = r := by
  unfold take
  split
  · exact absurd ‹_› hphase
  · rfl

theorem handle_of_not_feeding (sink : Sink σ) (now : Nat) (hphase : r.phase ≠ .feeding)
    (noTick : event ≠ .tick) :
    (r.handle sink (now, event)).phase = r.phase ∧
      (r.handle sink (now, event)).buffer = r.buffer := by
  cases event with
  | tick => exact absurd rfl noTick
  | arrive chunk =>
    have hsame := take_of_not_feeding (r := { r with waiting := r.waiting.push chunk }) sink now hphase
    unfold handle
    dsimp only
    rw [hsame]
    exact ⟨rfl, rfl⟩
  | close =>
    have hsame := take_of_not_feeding (r := { r with closed := true }) sink now hphase
    unfold handle
    dsimp only
    rw [hsame]
    exact ⟨rfl, rfl⟩
  | disturb | look => exact ⟨rfl, rfl⟩

theorem written_of_not_tick (r : Relay σ) (now : Nat) (noTick : event ≠ .tick) :
    r.written (now, event) = [] := by
  cases event with
  | tick => exact absurd rfl noTick
  | _ => rfl

theorem run_of_ended {instant : Nat} {result : Except Fault Unit} (sink : Sink σ)
    (timeline : List (Nat × Event σ)) (hphase : r.phase = .ended instant result) :
    (r.run sink timeline).phase = r.phase ∧ (r.run sink timeline).buffer = r.buffer ∧
      r.writes sink timeline = [] := by
  induction timeline generalizing r with
  | nil => exact ⟨rfl, rfl, rfl⟩
  | cons e rest ih =>
    obtain ⟨now, event⟩ := e
    have hstays : (r.handle sink (now, event)).phase = r.phase ∧
        (r.handle sink (now, event)).buffer = r.buffer := by
      by_cases htick : event = .tick
      · subst htick
        unfold handle tick
        rw [hphase]
        exact ⟨hphase, rfl⟩
      · exact handle_of_not_feeding sink now (by simp [hphase]) htick
    have hnone : r.written (now, event) = [] := by
      by_cases htick : event = .tick
      · subst htick
        simp only [written, hphase]
      · exact written_of_not_tick r now htick
    obtain ⟨hrun, hbuffer, hwrites⟩ := ih (hstays.1.trans hphase)
    refine ⟨hrun.trans hstays.1, hbuffer.trans hstays.2, ?_⟩
    rw [writes_cons, hnone, hwrites]
    rfl

/-- A sink that keeps a record of the packets that it was handed. -/
structure Records (sink : Sink σ) (seen : σ → List Packet) : Prop where
  write : ∀ now packets state,
    seen (sink.write now packets state).1 = seen state ++ packets.toList
  flush : ∀ state, seen (sink.flush state).1 = seen state

variable {seen : σ → List Packet}

theorem Records.take (h : Records sink seen) (now : Nat) (r : Relay σ) :
    seen (r.take sink now).sink = seen r.sink := by
  cases hphase : r.phase with
  | feeding =>
    cases takes_take (P := fun _ => True) (fun _ _ _ => trivial) sink now hphase trivial with
    | feeds _ sink_eq => rw [sink_eq]
    | ends _ sink_eq => rw [sink_eq, h.flush]
    | drains _ sink_eq => rw [sink_eq]
  | draining | ended => rw [take_of_not_feeding sink now (by simp [hphase])]

theorem Records.drainBeat (h : Records sink seen) (now idle : Nat) (r : Relay σ) :
    seen (r.drainBeat sink now idle).sink = seen (r.beat sink now).1.sink := by
  cases hsent : (r.beat sink now).2 with
  | none => rw [drainBeat_of_none hsent]
  | some sent =>
    rw [drainBeat_of_some hsent]
    split
    · rw [(finish_cases sink now _).2.2, h.flush]
    · rfl

/-- The record has grown by all that was written, unless something from outside changed it. -/
theorem Records.run (h : Records sink seen)
    (hchanges : ∀ e ∈ timeline, ∀ change state, e.2 = .disturb change →
      seen (change state) = seen state) :
    seen (r.run sink timeline).sink = seen r.sink ++ r.writes sink timeline := by
  induction timeline generalizing r with
  | nil => simp [Relay.run, writes, gather]
  | cons e rest ih =>
    have hstep : seen (r.handle sink e).sink = seen r.sink ++ r.written e := by
      obtain ⟨now, event⟩ := e
      cases event with
      | tick =>
        have hbeat : seen (r.beat sink now).1.sink =
            seen r.sink ++ (r.buffer.tick now).sent.toList := by
          rw [sink_beat, h.write]
        cases hphase : r.phase with
        | feeding => rw [tick_of_feeding sink now hphase, h.take, hbeat, written, hphase]
        | draining idle => rw [tick_of_draining sink now hphase, h.drainBeat, hbeat, written, hphase]
        | ended => simp [handle, tick, written, hphase]
      | arrive chunk =>
        refine (h.take now { r with waiting := r.waiting.push chunk }).trans ?_
        simp [written]
      | close =>
        refine (h.take now { r with closed := true }).trans ?_
        simp [written]
      | disturb change =>
        have hchange := hchanges _ List.mem_cons_self change r.sink rfl
        simp only [handle, written, hchange, List.append_nil]
      | look => simp [handle, written]
    have hrest := ih (r := r.handle sink e) fun e' he' => hchanges e' (List.mem_cons_of_mem _ he')
    rw [writes_cons, ← List.append_assoc, ← hstep]
    exact hrest

end PacedStream.Relay
