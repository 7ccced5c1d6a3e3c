import PacedStream.Proofs.Buffer.Bursts
import PacedStream.Proofs.Buffer.Upkeep
import PacedStream.Proofs.Relay.Drain
import PacedStream.Proofs.Relay.Reframing

/-!
The cut of the input into chunks. Main statement: if in one of two runs on the same bytes, cut
differently but arriving at the same instants, no push is refused, then none is in the other, and
both runs write the same at the same instants, publish the same and end the same.
-/

namespace PacedStream
set_option autoImplicit false

namespace Buffer

def refused (b : Buffer) (history : List Operation) : List (List Packet) :=
  gather after (fun b op => if (b.apply op).accepted then [] else [op.burst]) b history

theorem refused_append (b : Buffer) (before after : List Operation) :
    b.refused (before ++ after) = b.refused before ++ (b.run before).refused after :=
  gather_append _ _ b before after

theorem push_of_accepted {b : Buffer} {burst : List Packet} (h : (b.offer burst).accepted = true) :
    b.push burst = b.offer burst := by
  have hnone : (b.offer burst).fault? = none := by simpa [Step.accepted] using h
  unfold push
  dsimp only
  rw [hnone]

end Buffer

namespace Relay

variable {σ : Type} {sink : Sink σ} {r r' : Relay σ} {now interval total : Nat}
  {first second : List UInt8} {chunks chunks' : List (List UInt8)}
  {events events' rest : List (Nat × Event σ)}

def filled (r : Relay σ) (chunk : List UInt8) : List Packet :=
  (Packet.frame r.carry chunk).packets.toList

/-- A chunk that fills no packet is pushed as an empty burst, which does nothing. -/
theorem receive_eq_push (r : Relay σ) (chunk : List UInt8) :
    r.receive chunk =
      note { r with
        carry := (Packet.frame r.carry chunk).carry
        buffer := (r.buffer.push (r.filled chunk)).buffer } (r.buffer.push (r.filled chunk)).log := by
  unfold receive filled
  dsimp only
  split
  · rename_i hnone
    rw [Array.isEmpty_iff.mp hnone]
    have hpush : r.buffer.push (#[] : Array Packet).toList = { buffer := r.buffer } := rfl
    rw [hpush]
    simp [note]
  · rfl

theorem receive_of_accepted (h : (r.buffer.offer (r.filled first)).accepted = true) :
    r.receive first =
      note { r with
        carry := (Packet.frame r.carry first).carry
        buffer := (r.buffer.offer (r.filled first)).buffer } (r.buffer.offer (r.filled first)).log := by
  rw [receive_eq_push, Buffer.push_of_accepted h]

theorem note_note (r : Relay σ) (b b' : Buffer) (carry carry' : Packet.Carry)
    (messages messages' : Array Message) (hname : b'.settings.name = b.settings.name) :
    note { note { r with carry, buffer := b } messages with carry := carry', buffer := b' } messages' =
      note { r with carry := carry', buffer := b' } (messages ++ messages') := by
  simp only [note, hname, Array.map_append, Array.append_assoc]

theorem filled_append (r : Relay σ) (first second : List UInt8) :
    r.filled (first ++ second) = r.filled first ++ (r.receive first).filled second := by
  have hcarry := (receive_eq r first).2.1
  unfold filled
  rw [Packet.frame_append, hcarry, Array.toList_append]

theorem buffer_receive (r : Relay σ) (chunk : List UInt8) :
    (r.receive chunk).buffer = (r.buffer.offer (r.filled chunk)).buffer := by
  rw [receive_eq_push, ← Buffer.buffer_push]
  rfl

theorem accepted_receive (hq : r.buffer.queue.Ordered) (first second : List UInt8) :
    (r.buffer.offer (r.filled (first ++ second))).accepted =
      ((r.buffer.offer (r.filled first)).accepted &&
        ((r.receive first).buffer.offer ((r.receive first).filled second)).accepted) := by
  rw [filled_append, Buffer.accepted_offer_append hq, buffer_receive]

theorem offer_receive (hq : r.buffer.queue.Ordered)
    (h : (r.buffer.offer (r.filled (first ++ second))).accepted = true) :
    (r.buffer.offer (r.filled (first ++ second))).buffer =
        ((r.receive first).buffer.offer ((r.receive first).filled second)).buffer ∧
      (r.buffer.offer (r.filled (first ++ second))).log = (r.buffer.offer (r.filled first)).log ++
        ((r.receive first).buffer.offer ((r.receive first).filled second)).log := by
  rw [filled_append] at h ⊢
  rw [buffer_receive]
  exact Buffer.offer_append hq h

theorem receive_append (hq : r.buffer.queue.Ordered)
    (h : (r.buffer.offer (r.filled (first ++ second))).accepted = true) :
    r.receive (first ++ second) = (r.receive first).receive second := by
  have hboth := h
  rw [accepted_receive hq, Bool.and_eq_true] at hboth
  obtain ⟨hfirst, hsecond⟩ := hboth
  have hcarry : (Packet.frame r.carry (first ++ second)).carry =
      (Packet.frame (r.receive first).carry second).carry := by
    rw [Packet.frame_append, (receive_eq r first).2.1]
  obtain ⟨hbuffer, hlog⟩ := offer_receive hq h
  have hname := congrArg Settings.name
    (Buffer.fixed_offer (r.receive first).buffer ((r.receive first).filled second)).settings_eq
  rw [receive_of_accepted h, receive_of_accepted hsecond, hcarry, hbuffer, hlog]
  -- Only the relay in between is left to unfold.
  generalize (r.receive first).buffer.offer ((r.receive first).filled second) = more at hname ⊢
  generalize (Packet.frame (r.receive first).carry second).carry = carry
  rw [buffer_receive] at hname
  rw [receive_of_accepted hfirst]
  exact (note_note r _ _ _ _ _ _ hname).symm

theorem refused_pushes_singleton (r : Relay σ) (chunk : List UInt8) :
    r.buffer.refused (pushes r.carry [chunk]) = [] ↔
      (r.buffer.offer (r.filled chunk)).accepted = true := by
  unfold pushes filled
  dsimp only
  split
  · rename_i hnone
    rw [Array.isEmpty_iff.mp hnone]
    exact ⟨fun _ => rfl, fun _ => rfl⟩
  · have hpush : (r.buffer.apply (.push (Packet.frame r.carry chunk).packets.toList)).accepted =
        (r.buffer.offer (Packet.frame r.carry chunk).packets.toList).accepted :=
      Buffer.accepted_push r.buffer _
    have hrefused : r.buffer.refused [.push (Packet.frame r.carry chunk).packets.toList] =
        if (r.buffer.offer (Packet.frame r.carry chunk).packets.toList).accepted then []
        else [(Packet.frame r.carry chunk).packets.toList] := by
      rw [← hpush]
      exact List.append_nil _
    rw [pushes, hrefused]
    split <;> simp_all

theorem refused_pushes_cons (r : Relay σ) (chunk : List UInt8) (chunks : List (List UInt8)) :
    r.buffer.refused (pushes r.carry (chunk :: chunks)) =
      r.buffer.refused (pushes r.carry [chunk]) ++
        (r.receive chunk).buffer.refused (pushes (r.receive chunk).carry chunks) := by
  obtain ⟨hbuffer, hcarry, _⟩ := receive_eq r chunk
  rw [pushes_cons, Buffer.refused_append, hbuffer, hcarry]

theorem ordered_receive (hq : r.buffer.queue.Ordered) (chunk : List UInt8) :
    (r.receive chunk).buffer.queue.Ordered := by
  rw [(receive_eq r chunk).1]
  exact (Buffer.course_run hq _).ordered hq

theorem receive_flatten (chunks : List (List UInt8)) (hq : r.buffer.queue.Ordered) :
    (r.buffer.refused (pushes r.carry chunks) = [] ↔
      r.buffer.refused (pushes r.carry [chunks.flatten]) = []) ∧
    (r.buffer.refused (pushes r.carry chunks) = [] →
      chunks.foldl receive r = r.receive chunks.flatten) := by
  induction chunks generalizing r with
  | nil => exact ⟨Iff.rfl, fun _ => rfl⟩
  | cons chunk rest ih =>
    obtain ⟨hiff, hrest⟩ := ih (ordered_receive hq chunk)
    have hboth : r.buffer.refused (pushes r.carry (chunk :: rest)) = [] ↔
        (r.buffer.offer (r.filled (chunk ++ rest.flatten))).accepted = true := by
      rw [refused_pushes_cons, List.append_eq_nil_iff, hiff, refused_pushes_singleton,
        refused_pushes_singleton, accepted_receive hq, Bool.and_eq_true]
    refine ⟨?_, fun h => ?_⟩
    · rw [hboth, List.flatten_cons, refused_pushes_singleton]
    · have haccepted := hboth.mp h
      rw [refused_pushes_cons, List.append_eq_nil_iff] at h
      rw [List.foldl_cons, hrest h.2, List.flatten_cons, receive_append hq haccepted]

def withWaiting (r : Relay σ) (waiting : Array (List UInt8)) : Relay σ := { r with waiting }

/-- Two relays that differ at most in how the waiting bytes are cut. -/
structure SameBytes (r r' : Relay σ) : Prop where
  rest_eq : r' = r.withWaiting r'.waiting
  bytes_eq : r'.waiting.toList.flatten = r.waiting.toList.flatten

theorem SameBytes.refl (r : Relay σ) : SameBytes r r := ⟨rfl, rfl⟩

theorem SameBytes.published_eq (h : SameBytes r r') : r'.published = r.published := by
  rw [h.rest_eq]
  rfl

theorem intake_of_wanted (hphase : r.phase = .feeding) (hwanted : r.wanted = true) :
    r.intake = pushes r.carry r.waiting.toList ++
      if r.closed then ending r.received.buffer else [] := by
  have hbuffer := (advances_received r).buffer_eq
  simp only [intake, hphase, hwanted, if_true, hbuffer]
  split
  · rfl
  · exact (List.append_nil _).symm

theorem take_of_unwanted (sink : Sink σ) (now : Nat)
    (h : ¬ (r.phase = .feeding ∧ r.wanted = true)) : r.intake = [] ∧ r.take sink now = r := by
  unfold intake take
  cases hphase : r.phase with
  | feeding =>
    have hwanted : ¬ r.wanted = true := fun hwanted => h ⟨hphase, hwanted⟩
    dsimp only
    rw [if_neg hwanted, if_neg hwanted]
    exact ⟨rfl, rfl⟩
  | draining | ended => exact ⟨rfl, rfl⟩

theorem beat_waiting (sink : Sink σ) (now : Nat) (r : Relay σ) (waiting : Array (List UInt8)) :
    (r.withWaiting waiting).beat sink now =
      ((r.beat sink now).1.withWaiting waiting, (r.beat sink now).2) := by
  unfold beat note withWaiting
  dsimp only
  rcases sink.write now (r.buffer.tick now).sent r.sink with ⟨state, _ | fault⟩ <;> rfl

theorem finish_waiting (sink : Sink σ) (now : Nat) (r : Relay σ) (waiting : Array (List UInt8)) :
    (r.withWaiting waiting).finish sink now = (r.finish sink now).withWaiting waiting := by
  unfold finish note withWaiting
  cases r.buffer.queue.isEmpty
  all_goals
    simp only [if_true, if_false, Bool.false_eq_true]
    rcases sink.flush r.sink with ⟨state, _ | fault⟩ <;> rfl

theorem drainBeat_waiting (sink : Sink σ) (now idle : Nat) (r : Relay σ)
    (waiting : Array (List UInt8)) :
    (r.withWaiting waiting).drainBeat sink now idle =
      (r.drainBeat sink now idle).withWaiting waiting := by
  have hbeat := beat_waiting sink now r waiting
  cases hsent : (r.beat sink now).2 with
  | none => rw [drainBeat_of_none (by rw [hbeat]; exact hsent), drainBeat_of_none hsent, hbeat]
  | some sent =>
    have hbuffer : ((r.beat sink now).1.withWaiting waiting).buffer = (r.beat sink now).1.buffer :=
      rfl
    rw [drainBeat_of_some (by rw [hbeat]; exact hsent), drainBeat_of_some hsent, hbeat, hbuffer]
    split
    · exact finish_waiting sink now _ waiting
    · rfl

theorem take_waiting (sink : Sink σ) (now : Nat) (hq : r.buffer.queue.Ordered)
    {waiting : Array (List UInt8)} (hbytes : waiting.toList.flatten = r.waiting.toList.flatten)
    (hrefused : r.buffer.refused r.intake = []) :
    r.buffer.refused (r.withWaiting waiting).intake = [] ∧
      SameBytes (r.take sink now) ((r.withWaiting waiting).take sink now) := by
  by_cases htakes : r.phase = .feeding ∧ r.wanted = true
  · obtain ⟨hphase, hwanted⟩ := htakes
    obtain ⟨hiff, hpiece⟩ := receive_flatten (r := { r with waiting := #[] }) r.waiting.toList hq
    obtain ⟨hiff', hpiece'⟩ := receive_flatten (r := { r with waiting := #[] }) waiting.toList hq
    rw [intake_of_wanted hphase hwanted, Buffer.refused_append, List.append_eq_nil_iff] at hrefused
    obtain ⟨hpushes, hending⟩ := hrefused
    have hpushes' : r.buffer.refused (pushes r.carry waiting.toList) = [] :=
      hiff'.mpr (hbytes ▸ hiff.mp hpushes)
    have hsame : (r.withWaiting waiting).received = r.received := by
      have hall := hpiece hpushes
      have hall' := hpiece' hpushes'
      rw [hbytes] at hall'
      exact hall'.trans hall.symm
    have hrun : r.buffer.run (pushes r.carry waiting.toList) =
        r.buffer.run (pushes r.carry r.waiting.toList) :=
      ((advances_received (r.withWaiting waiting)).buffer_eq.symm.trans
        (congrArg Relay.buffer hsame)).trans (advances_received r).buffer_eq
    rw [take_of_wanted sink now hphase hwanted,
      take_of_wanted (r := (r.withWaiting waiting)) sink now hphase hwanted,
      intake_of_wanted (r := (r.withWaiting waiting)) hphase hwanted, hsame]
    refine ⟨?_, .refl _⟩
    rw [Buffer.refused_append, List.append_eq_nil_iff]
    refine ⟨hpushes', ?_⟩
    change (r.buffer.run (pushes r.carry waiting.toList)).refused
      (if r.closed then ending r.received.buffer else []) = []
    rw [hrun]
    exact hending
  · rw [(take_of_unwanted sink now htakes).2,
      (take_of_unwanted (r := (r.withWaiting waiting)) sink now htakes).2,
      (take_of_unwanted (r := (r.withWaiting waiting)) sink now htakes).1]
    exact ⟨rfl, rfl, hbytes⟩

def Settled (r : Relay σ) : Prop :=
  r.phase = .feeding → r.wanted = true → r.waiting = #[] ∧ r.closed = false

theorem phase_finish (sink : Sink σ) (now : Nat) (r : Relay σ) :
    (r.finish sink now).phase ≠ .feeding := by
  obtain ⟨⟨result, hphase⟩, _⟩ := finish_cases sink now r
  rw [hphase]
  nofun

theorem phase_drain (sink : Sink σ) (now : Nat) (r : Relay σ) :
    (r.drain sink now).phase ≠ .feeding := by
  unfold drain
  dsimp only
  split <;> split
  · exact phase_finish sink now _
  · nofun
  · exact phase_finish sink now _
  · nofun

theorem phase_drainBeat (sink : Sink σ) (now idle : Nat) (r : Relay σ) :
    (r.drainBeat sink now idle).phase ≠ .feeding := by
  rcases beat_cases sink now r with ⟨fault, hsent, hended⟩ | ⟨hsent, _, _⟩
  · rw [drainBeat_of_none hsent, hended]
    nofun
  · rw [drainBeat_of_some hsent]
    split
    · exact phase_finish sink now _
    · nofun

theorem settled_of_phase (hphase : r.phase ≠ .feeding) : r.Settled := fun h => absurd h hphase

theorem settled_take (sink : Sink σ) (now : Nat) (r : Relay σ) : (r.take sink now).Settled := by
  intro hphase hwanted
  by_cases htakes : r.phase = .feeding ∧ r.wanted = true
  · obtain ⟨hfeeding, hwants⟩ := htakes
    rw [take_of_wanted sink now hfeeding hwants] at hphase ⊢
    cases hclosed : r.closed with
    | true =>
      rw [hclosed, if_pos rfl] at hphase
      exact absurd hphase (phase_drain sink now _)
    | false =>
      rw [if_neg nofun, closed_received, hclosed]
      exact ⟨(receive_chunks r.waiting.toList { r with waiting := #[] }).2.2.1, rfl⟩
  · rw [(take_of_unwanted sink now htakes).2] at hphase hwanted
    exact absurd ⟨hphase, hwanted⟩ htakes

theorem settled_handle (sink : Sink σ) (h : r.Settled) (e : Nat × Event σ) :
    (r.handle sink e).Settled := by
  obtain ⟨now, event⟩ := e
  cases event with
  | tick =>
    cases hphase : r.phase with
    | feeding =>
      rw [tick_of_feeding sink now hphase]
      exact settled_take sink now _
    | draining idle =>
      rw [tick_of_draining sink now hphase]
      exact settled_of_phase (phase_drainBeat sink now idle r)
    | ended =>
      have hsame : r.handle sink (now, .tick) = r := by simp only [handle, tick, hphase]
      rw [hsame]
      exact h
  | arrive chunk => exact settled_take sink now _
  | close => exact settled_take sink now _
  | disturb change => exact h
  | look => exact h

/-- The same events, but for the cut of what arrives at one instant. -/
inductive Recut : List (Nat × Event σ) → List (Nat × Event σ) → Prop where
  | done : Recut [] []
  | same {events events' : List (Nat × Event σ)} (e : Nat × Event σ) (more : Recut events events') :
      Recut (e :: events) (e :: events')
  | cut {events events' : List (Nat × Event σ)} {chunks chunks' : List (List UInt8)} (now : Nat)
      (nonempty : chunks ≠ []) (nonempty' : chunks' ≠ []) (bytes_eq : chunks'.flatten = chunks.flatten)
      (more : Recut events events') :
      Recut (chunks.map (fun chunk => (now, .arrive chunk)) ++ events)
        (chunks'.map (fun chunk => (now, .arrive chunk)) ++ events')

theorem Recut.prepend (h : Recut events events') (before : List (Nat × Event σ)) :
    Recut (before ++ events) (before ++ events') := by
  induction before with
  | nil => exact h
  | cons e before ih => exact .same e ih

/-- Ticks are placed in front of the first chunk only. -/
theorem timeline_arrivals (k instant : Nat) (hsome : chunks ≠ []) :
    timeline interval total k (chunks.map (fun chunk => (instant, .arrive chunk)) ++ rest) =
      ticks interval k (min (instant / interval + 1) total) ++
        (chunks.map (fun chunk => (instant, Event.arrive chunk)) ++
          timeline interval total (max k (min (instant / interval + 1) total)) rest) := by
  induction chunks generalizing k with
  | nil => exact absurd rfl hsome
  | cons chunk chunks ih =>
    rw [List.map_cons, List.cons_append, timeline]
    cases chunks with
    | nil => rfl
    | cons chunk' chunks =>
      have hnone : ticks (σ := σ) interval (max k (min (instant / interval + 1) total))
          (min (instant / interval + 1) total) = [] := by
        unfold ticks
        rw [Nat.sub_eq_zero_of_le (Nat.le_max_right _ _)]
        rfl
      rw [ih _ nofun, hnone, List.nil_append, Nat.max_assoc, Nat.max_self]
      rfl

theorem recut_timeline (h : Recut events events') (k : Nat) :
    Recut (timeline interval total k events) (timeline interval total k events') := by
  induction h generalizing k with
  | done =>
    have hsame := Recut.done.prepend (ticks (σ := σ) interval k total)
    rwa [List.append_nil] at hsame
  | same e _ ih => exact .prepend (.same e (ih _)) _
  | cut now nonempty nonempty' bytes_eq _ ih =>
    rw [timeline_arrivals k now nonempty, timeline_arrivals k now nonempty']
    exact .prepend (.cut now nonempty nonempty' bytes_eq (ih _)) _

def write? (r : Relay σ) : Nat × Event σ → Option (Nat × List Packet)
  | (now, .tick) =>
    match r.phase with
    | .ended .. => none
    | _ => some (now, (r.buffer.tick now).sent.toList)
  | _ => none

/-- The writes of a run, each with its instant and the view that is published after it. -/
def transcript (sink : Sink σ) (r : Relay σ) (timeline : List (Nat × Event σ)) :
    List ((Nat × List Packet) × Status) :=
  gather (handle sink) (fun r e =>
    ((r.write? e).map fun write => (write, (r.handle sink e).published)).toList) r timeline

theorem transcript_cons (sink : Sink σ) (r : Relay σ) (e : Nat × Event σ)
    (rest : List (Nat × Event σ)) : r.transcript sink (e :: rest) =
      ((r.write? e).map fun write => (write, (r.handle sink e).published)).toList ++
        (r.handle sink e).transcript sink rest := rfl

theorem handle_of_looking {l : Relay σ} {e : Nat × Event σ} (h : r.looking? sink e = some l) :
    l.buffer = r.buffer.run (r.ticking e) ∧ r.handle sink e = l.take sink e.1 := by
  obtain ⟨now, event⟩ := e
  cases event with
  | tick =>
    cases hphase : r.phase with
    | feeding =>
      have hlooks : (r.beat sink now).1 = l := by simpa [looking?, hphase] using h
      have hticking : r.ticking (now, .tick) = [.tick now] := by simp only [ticking, hphase]
      rw [tick_of_feeding sink now hphase, hticking, hlooks, ← hlooks]
      exact ⟨(keeps_beat sink now r).1, rfl⟩
    | draining | ended => simp [looking?, hphase] at h
  | arrive | close =>
    cases h
    exact ⟨rfl, rfl⟩
  | disturb | look => cases h

theorem looking_waiting {l : Relay σ} {e : Nat × Event σ} {waiting : Array (List UInt8)}
    (h : r.looking? sink e = some l) (hbytes : waiting.toList.flatten = r.waiting.toList.flatten) :
    ∃ waiting' : Array (List UInt8), waiting'.toList.flatten = l.waiting.toList.flatten ∧
      (r.withWaiting waiting).looking? sink e = some (l.withWaiting waiting') := by
  obtain ⟨now, event⟩ := e
  cases event with
  | tick =>
    cases hphase : r.phase with
    | feeding =>
      have hphase' : (r.withWaiting waiting).phase = .feeding := hphase
      have hlooks : (r.beat sink now).1 = l := by simpa [looking?, hphase] using h
      refine ⟨waiting, ?_, ?_⟩
      · rw [hbytes, ← hlooks, (keeps_beat sink now r).2.2]
      · simp only [looking?, hphase', beat_waiting, hlooks]
    | draining | ended => simp [looking?, hphase] at h
  | arrive chunk =>
    cases h
    exact ⟨waiting.push chunk, by simp [hbytes], rfl⟩
  | close =>
    cases h
    exact ⟨waiting, hbytes, rfl⟩
  | disturb | look => cases h

theorem handle_of_not_looking {e : Nat × Event σ} (h : r.looking? sink e = none)
    (waiting : Array (List UInt8)) : (r.withWaiting waiting).looking? sink e = none ∧
      (r.withWaiting waiting).handle sink e = (r.handle sink e).withWaiting waiting ∧
      (r.handle sink e).waiting = r.waiting := by
  obtain ⟨now, event⟩ := e
  cases event with
  | tick =>
    cases hphase : r.phase with
    | feeding => simp [looking?, hphase] at h
    | draining idle =>
      have hphase' : (r.withWaiting waiting).phase = .draining idle := hphase
      refine ⟨by simp only [looking?, hphase'], ?_, ?_⟩
      · rw [tick_of_draining sink now hphase, tick_of_draining sink now hphase', drainBeat_waiting]
      · rw [tick_of_draining sink now hphase]
        exact Array.toList_inj.mp
          ((advances_drainBeat sink now idle r).waiting_eq.symm.trans (List.append_nil _))
    | ended =>
      have hphase' : (r.withWaiting waiting).phase = r.phase := rfl
      refine ⟨by simp only [looking?, hphase', hphase], ?_, ?_⟩
      · simp only [handle, tick, hphase', hphase]
      · simp only [handle, tick, hphase]
  | arrive | close => cases h
  | disturb | look => exact ⟨rfl, rfl, rfl⟩

theorem SameBytes.handle (h : SameBytes r r') (hq : r.buffer.queue.Ordered) (e : Nat × Event σ)
    (hrefused : r.buffer.refused (r.operations sink e) = []) :
    r'.buffer.refused (r'.operations sink e) = [] ∧ r'.write? e = r.write? e ∧
      SameBytes (r.handle sink e) (r'.handle sink e) := by
  obtain ⟨hrest, hbytes⟩ := h
  generalize r'.waiting = waiting at hrest hbytes
  subst hrest
  have hwrite : (r.withWaiting waiting).write? e = r.write? e := rfl
  unfold operations at hrefused ⊢
  cases hlooking : r.looking? sink e with
  | none =>
    obtain ⟨hlooking', hhandle, hwaiting⟩ := handle_of_not_looking hlooking waiting
    rw [hlooking] at hrefused
    rw [hlooking', hhandle]
    exact ⟨hrefused, hwrite, rfl, by rw [hwaiting]; exact hbytes⟩
  | some l =>
    obtain ⟨hbuffer, hhandle⟩ := handle_of_looking hlooking
    obtain ⟨waiting', hbytes', hlooking'⟩ := looking_waiting hlooking hbytes
    obtain ⟨_, hhandle'⟩ := handle_of_looking hlooking'
    have hordered : l.buffer.queue.Ordered := by
      rw [hbuffer]
      exact (Buffer.course_run hq _).ordered hq
    have hbuffer' : (r.withWaiting waiting).buffer.run ((r.withWaiting waiting).ticking e) =
        l.buffer := hbuffer.symm
    rw [hlooking, Buffer.refused_append, List.append_eq_nil_iff, ← hbuffer] at hrefused
    obtain ⟨hticking, hintake⟩ := hrefused
    obtain ⟨hintake', hsame⟩ := take_waiting sink e.1 hordered hbytes' hintake
    rw [hlooking', hhandle, hhandle', Buffer.refused_append, List.append_eq_nil_iff, hbuffer']
    exact ⟨⟨hticking, hintake'⟩, hwrite, hsame⟩

theorem arrivals_of_wanted (sink : Sink σ) (now : Nat) (chunks : List (List UInt8))
    (hsettled : r.Settled) (hphase : r.phase = .feeding) (hwanted : r.wanted = true) :
    r.run sink (chunks.map fun chunk => (now, .arrive chunk)) = chunks.foldl receive r ∧
      r.performed sink (chunks.map fun chunk => (now, .arrive chunk)) = pushes r.carry chunks := by
  induction chunks generalizing r with
  | nil => exact ⟨rfl, rfl⟩
  | cons chunk rest ih =>
    obtain ⟨hnone, hopen⟩ := hsettled hphase hwanted
    obtain ⟨_, hcarry, hwaiting, hclosed⟩ := receive_eq r chunk
    have hpushed : r.waiting.push chunk = #[chunk] := by rw [hnone]; rfl
    have hsame : r.withWaiting #[] = r := by rw [← hnone]; rfl
    have hreceived : (r.withWaiting #[chunk]).received = r.receive chunk :=
      congrArg (receive · chunk) hsame
    have hhandle : r.handle sink (now, .arrive chunk) = r.receive chunk := by
      change (r.withWaiting (r.waiting.push chunk)).take sink now = _
      rw [hpushed, take_of_wanted (r := r.withWaiting #[chunk]) sink now hphase hwanted, hreceived]
      exact if_neg (by simp [withWaiting, hopen])
    have hops : r.operations sink (now, .arrive chunk) = pushes r.carry [chunk] := by
      change (r.withWaiting (r.waiting.push chunk)).intake = _
      rw [hpushed, intake_of_wanted (r := r.withWaiting #[chunk]) hphase hwanted,
        if_neg (by simp [withWaiting, hopen]), List.append_nil]
      rfl
    have hwanted' : (r.receive chunk).wanted = true := by rw [receive_eq_push]; exact hwanted
    have hsettled' : (r.receive chunk).Settled :=
      fun _ _ => ⟨hwaiting.trans hnone, hclosed.trans hopen⟩
    obtain ⟨hrun, hperformed⟩ := ih hsettled' ((receive_cases r chunk).2.1.trans hphase) hwanted'
    rw [List.map_cons, performed_cons, hhandle, hops, hperformed, hcarry, ← pushes_cons]
    refine ⟨?_, rfl⟩
    change (r.handle sink (now, .arrive chunk)).run sink _ = _
    rw [hhandle, hrun]
    rfl

theorem arrivals_of_unwanted (sink : Sink σ) (now : Nat) (chunks : List (List UInt8))
    (h : ¬ (r.phase = .feeding ∧ r.wanted = true)) :
    r.run sink (chunks.map fun chunk => (now, .arrive chunk)) =
        r.withWaiting (r.waiting ++ chunks.toArray) ∧
      r.performed sink (chunks.map fun chunk => (now, .arrive chunk)) = [] := by
  induction chunks generalizing r with
  | nil => exact ⟨by simp [Relay.run, withWaiting], rfl⟩
  | cons chunk rest ih =>
    have hwaits : ¬ ((r.withWaiting (r.waiting.push chunk)).phase = .feeding ∧
        (r.withWaiting (r.waiting.push chunk)).wanted = true) := h
    obtain ⟨hintake, htake⟩ := take_of_unwanted sink now hwaits
    obtain ⟨hrun, hperformed⟩ := ih hwaits
    have hhandle : r.handle sink (now, .arrive chunk) = r.withWaiting (r.waiting.push chunk) := htake
    have hops : r.operations sink (now, .arrive chunk) = [] := hintake
    rw [List.map_cons, performed_cons, hhandle, hops, hperformed]
    refine ⟨?_, rfl⟩
    change (r.handle sink (now, .arrive chunk)).run sink _ = _
    rw [hhandle, hrun]
    simp [withWaiting]

theorem run_append (sink : Sink σ) (r : Relay σ) (before after : List (Nat × Event σ)) :
    r.run sink (before ++ after) = (r.run sink before).run sink after := List.foldl_append

theorem transcript_arrivals (sink : Sink σ) (r : Relay σ) (now : Nat) (chunks : List (List UInt8))
    (after : List (Nat × Event σ)) :
    r.transcript sink (chunks.map (fun chunk => (now, .arrive chunk)) ++ after) =
      (r.run sink (chunks.map fun chunk => (now, .arrive chunk))).transcript sink after := by
  induction chunks generalizing r with
  | nil => rfl
  | cons chunk rest ih => exact ih (r.handle sink (now, .arrive chunk))

theorem settled_run (sink : Sink σ) (h : r.Settled) (events : List (Nat × Event σ)) :
    (r.run sink events).Settled := by
  induction events generalizing r with
  | nil => exact h
  | cons e rest ih => exact ih (settled_handle sink h e)

theorem ordered_run (sink : Sink σ) (hq : r.buffer.queue.Ordered) (events : List (Nat × Event σ)) :
    (r.run sink events).buffer.queue.Ordered := by
  rw [(advances_run sink r events).buffer_eq]
  exact (Buffer.course_run hq _).ordered hq

theorem SameBytes.arrivals (h : SameBytes r r') (hq : r.buffer.queue.Ordered) (hsettled : r.Settled)
    (hsettled' : r'.Settled) (sink : Sink σ) (now : Nat)
    (hbytes : chunks'.flatten = chunks.flatten)
    (hrefused : r.buffer.refused
      (r.performed sink (chunks.map fun chunk => (now, .arrive chunk))) = []) :
    r'.buffer.refused (r'.performed sink (chunks'.map fun chunk => (now, .arrive chunk))) = [] ∧
      SameBytes (r.run sink (chunks.map fun chunk => (now, .arrive chunk)))
        (r'.run sink (chunks'.map fun chunk => (now, .arrive chunk))) := by
  obtain ⟨hrest, hflatten⟩ := h
  by_cases htakes : r.phase = .feeding ∧ r.wanted = true
  · obtain ⟨hphase, hwanted⟩ := htakes
    have hphase' : r'.phase = .feeding := by rw [hrest]; exact hphase
    have hwanted' : r'.wanted = true := by rw [hrest]; exact hwanted
    have hsame : r' = r := by
      rw [hrest, (hsettled' hphase' hwanted').1, ← (hsettled hphase hwanted).1]
      rfl
    subst hsame
    obtain ⟨hrun, hperformed⟩ := arrivals_of_wanted sink now chunks hsettled hphase hwanted
    obtain ⟨hrun', hperformed'⟩ := arrivals_of_wanted sink now chunks' hsettled hphase hwanted
    obtain ⟨hiff, hpiece⟩ := receive_flatten chunks hq
    obtain ⟨hiff', hpiece'⟩ := receive_flatten chunks' hq
    rw [hperformed] at hrefused
    have hrefused' := hiff'.mpr (by rw [hbytes]; exact hiff.mp hrefused)
    rw [hperformed', hrun, hrun', hpiece hrefused, hpiece' hrefused', hbytes]
    exact ⟨hrefused', .refl _⟩
  · have htakes' : ¬ (r'.phase = .feeding ∧ r'.wanted = true) := by rw [hrest]; exact htakes
    obtain ⟨hrun, _⟩ := arrivals_of_unwanted sink now chunks htakes
    obtain ⟨hrun', hperformed'⟩ := arrivals_of_unwanted sink now chunks' htakes'
    rw [hperformed', hrun, hrun']
    refine ⟨rfl, ?_, ?_⟩
    · rw [hrest]
      rfl
    · simp [withWaiting, hflatten, hbytes]

theorem sameBytes_run (sink : Sink σ) (hcut : Recut events events') (h : SameBytes r r')
    (hq : r.buffer.queue.Ordered) (hsettled : r.Settled) (hsettled' : r'.Settled)
    (hrefused : r.buffer.refused (r.performed sink events) = []) :
    r'.buffer.refused (r'.performed sink events') = [] ∧
      r'.transcript sink events' = r.transcript sink events ∧
      SameBytes (r.run sink events) (r'.run sink events') := by
  induction hcut generalizing r r' with
  | done => exact ⟨rfl, rfl, h⟩
  | same e _ ih =>
    rw [performed_cons, Buffer.refused_append, List.append_eq_nil_iff,
      ← (advances_handle sink r e).buffer_eq] at hrefused
    obtain ⟨hfirst, hwrite, hsame⟩ := h.handle hq e hrefused.1
    have hordered : (r.handle sink e).buffer.queue.Ordered := by
      rw [(advances_handle sink r e).buffer_eq]
      exact (Buffer.course_run hq _).ordered hq
    obtain ⟨hlater, hwrites, hend⟩ := ih hsame hordered (settled_handle sink hsettled e)
      (settled_handle sink hsettled' e) hrefused.2
    rw [performed_cons, Buffer.refused_append, List.append_eq_nil_iff,
      ← (advances_handle sink r' e).buffer_eq, transcript_cons, transcript_cons, hwrite,
      hsame.published_eq, hwrites]
    exact ⟨⟨hfirst, hlater⟩, rfl, hend⟩
  | @cut events events' chunks chunks' now _ _ bytes_eq _ ih =>
    rw [performed_append, Buffer.refused_append, List.append_eq_nil_iff,
      ← (advances_run sink r _).buffer_eq] at hrefused
    obtain ⟨hfirst, hsame⟩ := h.arrivals hq hsettled hsettled' sink now bytes_eq hrefused.1
    obtain ⟨hlater, hwrites, hend⟩ := ih hsame (ordered_run sink hq _) (settled_run sink hsettled _)
      (settled_run sink hsettled' _) hrefused.2
    rw [performed_append, Buffer.refused_append, List.append_eq_nil_iff,
      ← (advances_run sink r' _).buffer_eq, transcript_arrivals, transcript_arrivals, run_append,
      run_append]
    exact ⟨⟨hfirst, hlater⟩, hwrites, hend⟩

/-- Two runs that cannot be told apart. -/
structure Agree (sink : Sink σ) (r : Relay σ) (timeline timeline' : List (Nat × Event σ)) : Prop where
  refused_eq : r.buffer.refused (r.performed sink timeline') = []
  transcript_eq : r.transcript sink timeline' = r.transcript sink timeline
  looks_eq : (r.run sink timeline').looks = (r.run sink timeline).looks
  phase_eq : (r.run sink timeline').phase = (r.run sink timeline).phase
  same : SameBytes (r.run sink timeline) (r.run sink timeline')

theorem agrees_recut (settings : Settings) (setup : List Buffer.Operation) (interval total : Nat)
    (sink : Sink σ) (state : σ) (hcut : Recut events events') :
    let r := start ((host settings).buffer.run setup) state interval
    let timeline := Relay.timeline interval total 0 events
    r.buffer.refused (r.performed sink timeline) = [] →
      Agree sink r timeline (Relay.timeline interval total 0 events') := by
  intro r timeline hrefused
  have hhost : (host settings).buffer.queue.Ordered := Buffer.ordered_create settings
  have hq : r.buffer.queue.Ordered := (Buffer.course_run hhost setup).ordered hhost
  have hsettled : r.Settled := fun _ _ => ⟨rfl, rfl⟩
  obtain ⟨hrefused', htranscript, hsame⟩ := sameBytes_run sink (recut_timeline hcut 0) (.refl r) hq
    hsettled hsettled hrefused
  refine ⟨hrefused', htranscript, ?_, ?_, hsame⟩
  · rw [hsame.rest_eq]
    rfl
  · rw [hsame.rest_eq]
    rfl

/-- The end of a block comes packet by packet, or cut within a packet. -/
theorem agrees_recut_block :
    let piece (i : Nat) := Packet.bytesOf ((sample.drop i).take 1)
    let r := start ((host { enough := 1, low := 1 }).buffer.run [.push (sample.take 3)]) [] 1000000
    let timeline := Relay.timeline 1000000 4 0 [(0, .arrive (piece 3)), (0, .arrive (piece 4))]
    let timeline' := Relay.timeline 1000000 4 0
      [(0, .arrive ((piece 3).take 100)), (0, .arrive ((piece 3).drop 100 ++ piece 4))]
    Agree collect r timeline timeline' ∧
      (r.transcript collect timeline).map (fun entry => (entry.1.1, entry.1.2.length)) =
        [(0, 0), (1000000, 0), (2000000, 0), (3000000, 1)] := by
  have hcut (first second : List UInt8) :
      Recut [(0, .arrive first), (0, .arrive second)]
        [(0, .arrive (first.take 100)),
          (0, (.arrive (first.drop 100 ++ second) : Event (List Packet)))] := by
    have hbytes : [first.take 100, first.drop 100 ++ second].flatten = [first, second].flatten := by
      simp only [List.flatten_cons, List.flatten_nil, List.append_nil]
      rw [← List.append_assoc, List.take_append_drop]
    exact .cut 0 (List.cons_ne_nil _ _) (List.cons_ne_nil _ _) hbytes .done
  intro piece r timeline timeline'
  have hrefused : r.buffer.refused (r.performed collect timeline) = [] := by decide +kernel
  exact ⟨agrees_recut { enough := 1, low := 1 } [.push (sample.take 3)] 1000000 4 collect []
    (hcut _ _) hrefused, by decide +kernel⟩

end Relay
end PacedStream
