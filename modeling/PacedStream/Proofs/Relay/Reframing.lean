import PacedStream.Proofs.Buffer.Lossless
import PacedStream.Proofs.Packet.Framing
import PacedStream.Proofs.Relay.Runs

/-!
From chunks to packets and on to the sink. A timeline is any list of events, so that a chunk which
has arrived but is read later stands in it where it is read. Main statement: the packets pushed are
the groups of the bytes taken, those written are picked from them in order, and a refused write is
the last call of the sink.
-/

namespace PacedStream
set_option autoImplicit false

namespace Buffer

theorem sublist_of_numbers {α : Type} {items picked : List α} {numbers : List Nat} {k : Nat}
    (hincreasing : numbers.Pairwise (· < ·)) (hfrom : ∀ n ∈ numbers, k ≤ n)
    (hpicked : picked.map some = numbers.map (items[·]?)) : picked.Sublist (items.drop k) := by
  induction numbers generalizing picked k with
  | nil =>
    rw [List.map_nil, List.map_eq_nil_iff] at hpicked
    rw [hpicked]
    exact List.nil_sublist _
  | cons n rest ih =>
    obtain ⟨hlater, hrest⟩ := List.pairwise_cons.mp hincreasing
    cases picked with
    | nil => simp at hpicked
    | cons a picked =>
      rw [List.map_cons, List.map_cons] at hpicked
      obtain ⟨hfirst, hpicked⟩ := List.cons.inj hpicked
      obtain ⟨hn, ha⟩ := List.getElem?_eq_some_iff.mp hfirst.symm
      have hdrop : items.drop n = a :: items.drop (n + 1) := by
        rw [List.drop_eq_getElem_cons hn, ha]
      have htail : picked.Sublist (items.drop (n + 1)) := ih hrest hlater hpicked
      have hk : k ≤ n := hfrom n List.mem_cons_self
      refine List.Sublist.trans ?_ (List.drop_sublist_drop_left items hk)
      rw [hdrop]
      exact htail.cons_cons a

theorem InOrder.sublist {accepted sent queued : List Packet} {numbers : List Nat} {first : Nat}
    (h : InOrder accepted sent queued numbers first) : sent.Sublist accepted :=
  sublist_of_numbers (k := 0) h.increasing (fun _ _ => Nat.zero_le _) h.sent_eq

theorem accepted_sublist (b : Buffer) (history : List Operation) :
    (b.accepted history).Sublist (history.flatMap Operation.burst) := by
  induction history generalizing b with
  | nil => exact .refl _
  | cons op rest ih =>
    rw [accepted_cons, List.flatMap_cons]
    refine List.Sublist.append ?_ (ih _)
    split
    · exact .refl _
    · exact List.nil_sublist _

end Buffer

namespace Relay

variable {σ : Type} {sink : Sink σ} {r r' r'' : Relay σ} {now : Nat}
  {ops ops' : List Buffer.Operation} {chunks chunks' arrived arrived' : List (List UInt8)}

/-- The pushes by which chunks reach a buffer. A chunk that fills no packet is only carried. -/
def pushes (carry : Packet.Carry) : List (List UInt8) → List Buffer.Operation
  | [] => []
  | chunk :: rest =>
    let framing := Packet.frame carry chunk
    if framing.packets.isEmpty then pushes framing.carry rest
    else .push framing.packets.toList :: pushes framing.carry rest

def ending (b : Buffer) : List Buffer.Operation :=
  if b.queue.isEmpty then [] else [.setThresholds 1 1]

def due (r : Relay σ) : List (List UInt8) :=
  match r.phase with
  | .feeding => if r.wanted then r.waiting.toList else []
  | _ => []

def intake (r : Relay σ) : List Buffer.Operation :=
  match r.phase with
  | .feeding =>
    if r.wanted then
      let ops := pushes r.carry r.waiting.toList
      if r.closed then ops ++ ending (r.buffer.run ops) else ops
    else []
  | _ => []

/-- The relay that looks for input at an event, if one does. -/
def looking? (sink : Sink σ) (r : Relay σ) : Nat × Event σ → Option (Relay σ)
  | (now, .tick) =>
    match r.phase with
    | .feeding => some (r.beat sink now).1
    | _ => none
  | (_, .arrive chunk) => some { r with waiting := r.waiting.push chunk }
  | (_, .close) => some { r with closed := true }
  | (_, .disturb _) | (_, .look) => none

def ticking (r : Relay σ) : Nat × Event σ → List Buffer.Operation
  | (now, .tick) =>
    match r.phase with
    | .ended .. => []
    | _ => [.tick now]
  | _ => []

def operations (sink : Sink σ) (r : Relay σ) (e : Nat × Event σ) : List Buffer.Operation :=
  r.ticking e ++ (r.looking? sink e).elim [] intake

def performed (sink : Sink σ) (r : Relay σ) (timeline : List (Nat × Event σ)) :
    List Buffer.Operation :=
  gather (handle sink) (operations sink) r timeline

theorem performed_cons (sink : Sink σ) (r : Relay σ) (e : Nat × Event σ)
    (rest : List (Nat × Event σ)) :
    r.performed sink (e :: rest) = r.operations sink e ++ (r.handle sink e).performed sink rest :=
  rfl

theorem performed_append (sink : Sink σ) (r : Relay σ) (before after : List (Nat × Event σ)) :
    r.performed sink (before ++ after) =
      r.performed sink before ++ (r.run sink before).performed sink after :=
  gather_append _ _ r before after

def taken (sink : Sink σ) (r : Relay σ) (timeline : List (Nat × Event σ)) : List (List UInt8) :=
  gather (handle sink) (fun r e => (r.looking? sink e).elim [] due) r timeline

def arrival : Nat × Event σ → List (List UInt8)
  | (_, .arrive chunk) => [chunk]
  | _ => []

/-- From one moment of a relay to a later one, with the operations on its buffer, the chunks taken
and those that arrived in between. -/
structure Advances (r : Relay σ) (ops : List Buffer.Operation) (chunks arrived : List (List UInt8))
    (r' : Relay σ) : Prop where
  buffer_eq : r'.buffer = r.buffer.run ops
  bytes_eq : r.carry.bytes.toList ++ chunks.flatten =
    Packet.bytesOf (ops.flatMap Buffer.Operation.burst) ++ r'.carry.bytes.toList
  waiting_eq : r.waiting.toList ++ arrived = chunks ++ r'.waiting.toList

theorem advances_of_eq (buffer_eq : r'.buffer = r.buffer.run ops)
    (hburst : ops.flatMap Buffer.Operation.burst = []) (carry_eq : r'.carry = r.carry)
    (waiting_eq : r'.waiting = r.waiting) : Advances r ops [] [] r' := by
  refine ⟨buffer_eq, ?_, ?_⟩
  · rw [hburst, carry_eq, Packet.bytesOf_nil, List.flatten_nil, List.append_nil, List.nil_append]
  · rw [waiting_eq, List.append_nil, List.nil_append]

theorem Advances.refl (r : Relay σ) : Advances r [] [] [] r := advances_of_eq rfl rfl rfl rfl

theorem Advances.trans (h : Advances r ops chunks arrived r')
    (h' : Advances r' ops' chunks' arrived' r'') :
    Advances r (ops ++ ops') (chunks ++ chunks') (arrived ++ arrived') r'' := by
  refine ⟨?_, ?_, ?_⟩
  · rw [h'.buffer_eq, h.buffer_eq, Buffer.run_append]
  · rw [List.flatten_append, ← List.append_assoc, h.bytes_eq, List.append_assoc, h'.bytes_eq,
      List.flatMap_append, Packet.bytesOf_append, List.append_assoc]
  · rw [← List.append_assoc, h.waiting_eq, List.append_assoc, h'.waiting_eq, List.append_assoc]

theorem receive_eq (r : Relay σ) (chunk : List UInt8) :
    (r.receive chunk).buffer = r.buffer.run (pushes r.carry [chunk]) ∧
      (r.receive chunk).carry = (Packet.frame r.carry chunk).carry ∧
      (r.receive chunk).waiting = r.waiting ∧ (r.receive chunk).closed = r.closed := by
  unfold receive pushes
  dsimp only
  split
  · exact ⟨rfl, rfl, rfl, rfl⟩
  · exact ⟨rfl, rfl, rfl, rfl⟩

theorem pushes_cons (carry : Packet.Carry) (chunk : List UInt8) (rest : List (List UInt8)) :
    pushes carry (chunk :: rest) =
      pushes carry [chunk] ++ pushes (Packet.frame carry chunk).carry rest := by
  simp only [pushes]
  split <;> rfl

theorem burst_pushes_singleton (carry : Packet.Carry) (chunk : List UInt8) :
    (pushes carry [chunk]).flatMap Buffer.Operation.burst =
      (Packet.frame carry chunk).packets.toList := by
  unfold pushes
  dsimp only
  split
  · rename_i hnone
    rw [Array.isEmpty_iff.mp hnone]
    rfl
  · exact List.append_nil _

theorem receive_chunks (chunks : List (List UInt8)) (r : Relay σ) :
    (chunks.foldl receive r).buffer = r.buffer.run (pushes r.carry chunks) ∧
      r.carry.bytes.toList ++ chunks.flatten =
        Packet.bytesOf ((pushes r.carry chunks).flatMap Buffer.Operation.burst) ++
          (chunks.foldl receive r).carry.bytes.toList ∧
      (chunks.foldl receive r).waiting = r.waiting ∧
      (chunks.foldl receive r).closed = r.closed := by
  induction chunks generalizing r with
  | nil => exact ⟨rfl, List.append_nil _, rfl, rfl⟩
  | cons chunk rest ih =>
    obtain ⟨hbuffer, hcarry, hwaiting, hclosed⟩ := receive_eq r chunk
    obtain ⟨hbuffer', hbytes', hwaiting', hclosed'⟩ := ih (r.receive chunk)
    rw [hcarry] at hbuffer' hbytes'
    refine ⟨?_, ?_, hwaiting'.trans hwaiting, hclosed'.trans hclosed⟩
    · rw [pushes_cons, Buffer.run_append, ← hbuffer]
      exact hbuffer'
    · rw [pushes_cons, List.flatMap_append, burst_pushes_singleton, Packet.bytesOf_append,
        List.flatten_cons, ← List.append_assoc, Packet.bytes_frame, List.append_assoc, hbytes',
        List.append_assoc]
      rfl

theorem keeps_finish (sink : Sink σ) (now : Nat) (r : Relay σ) :
    (r.finish sink now).carry = r.carry ∧ (r.finish sink now).waiting = r.waiting := by
  unfold finish
  cases r.buffer.queue.isEmpty
  all_goals
    dsimp only
    split <;> exact ⟨rfl, rfl⟩

theorem advances_drain (sink : Sink σ) (now : Nat) (r : Relay σ) :
    Advances r (ending r.buffer) [] [] (r.drain sink now) := by
  have hcases : ∀ r' : Relay σ, r'.buffer = r.buffer → r'.carry = r.carry →
      r'.waiting = r.waiting → Advances r (ending r.buffer) [] []
        (if r'.buffer.queue.isEmpty then r'.finish sink now else
          { r'.note #[.draining r'.buffer.queue.length] with
            buffer := (r'.buffer.setThresholds 1 1).buffer, phase := .draining 0 }) := by
    intro r' hbuffer hcarry hwaiting
    unfold ending
    rw [← hbuffer]
    cases hempty : r'.buffer.queue.isEmpty with
    | true =>
      obtain ⟨_, hbuffer', _⟩ := finish_cases sink now r'
      obtain ⟨hcarry', hwaiting'⟩ := keeps_finish sink now r'
      rw [if_pos rfl, if_pos rfl]
      exact advances_of_eq (hbuffer'.trans hbuffer) rfl (hcarry'.trans hcarry)
        (hwaiting'.trans hwaiting)
    | false =>
      rw [if_neg nofun, if_neg nofun]
      exact advances_of_eq (congrArg (fun b => (b.setThresholds 1 1).buffer) hbuffer) rfl hcarry
        hwaiting
  unfold drain
  dsimp only
  split
  · exact hcases r rfl rfl rfl
  · exact hcases (r.note #[.cutShort r.carry.size]) rfl rfl rfl

def received (r : Relay σ) : Relay σ := r.waiting.toList.foldl receive { r with waiting := #[] }

theorem closed_received (r : Relay σ) : r.received.closed = r.closed :=
  (receive_chunks r.waiting.toList { r with waiting := #[] }).2.2.2

theorem advances_received (r : Relay σ) :
    Advances r (pushes r.carry r.waiting.toList) r.waiting.toList [] r.received := by
  obtain ⟨hbuffer, hbytes, hwaiting, _⟩ :=
    receive_chunks r.waiting.toList { r with waiting := #[] }
  refine ⟨hbuffer, hbytes, ?_⟩
  rw [received, hwaiting]

theorem take_of_wanted (sink : Sink σ) (now : Nat) (hphase : r.phase = .feeding)
    (hwanted : r.wanted = true) :
    r.take sink now = if r.closed then r.received.drain sink now else r.received := by
  rw [← closed_received]
  unfold take
  simp only [hphase, hwanted, if_true, Array.foldl_toList, received]

theorem advances_take (sink : Sink σ) (now : Nat) (r : Relay σ) :
    Advances r r.intake r.due [] (r.take sink now) := by
  by_cases hphase : r.phase = .feeding
  · by_cases hwanted : r.wanted = true
    · have hdue : r.due = r.waiting.toList := by simp only [due, hphase, hwanted, if_true]
      have hreceived := advances_received r
      unfold intake
      rw [take_of_wanted sink now hphase hwanted, hphase, hdue]
      dsimp only
      rw [if_pos hwanted]
      by_cases hclose : r.closed = true
      · have hended := hreceived.trans (advances_drain sink now r.received)
        rw [hreceived.buffer_eq, List.append_nil, List.append_nil] at hended
        rw [if_pos hclose, if_pos hclose]
        exact hended
      · rw [if_neg hclose, if_neg hclose]
        exact hreceived
    · have hnone : r.intake = [] ∧ r.due = [] ∧ r.take sink now = r := by
        unfold intake due take
        rw [hphase]
        exact ⟨if_neg hwanted, if_neg hwanted, if_neg hwanted⟩
      rw [hnone.1, hnone.2.1, hnone.2.2]
      exact .refl r
  · have hnone : r.intake = [] ∧ r.due = [] := by
      unfold intake due
      cases hother : r.phase with
      | feeding => exact absurd hother hphase
      | draining | ended => exact ⟨rfl, rfl⟩
    rw [take_of_not_feeding sink now hphase, hnone.1, hnone.2]
    exact .refl r

theorem keeps_beat (sink : Sink σ) (now : Nat) (r : Relay σ) :
    (r.beat sink now).1.buffer = (r.buffer.tick now).buffer ∧
      (r.beat sink now).1.carry = r.carry ∧ (r.beat sink now).1.waiting = r.waiting := by
  unfold beat
  dsimp only
  split <;> exact ⟨rfl, rfl, rfl⟩

theorem advances_beat (sink : Sink σ) (now : Nat) (r : Relay σ) :
    Advances r [.tick now] [] [] (r.beat sink now).1 := by
  obtain ⟨hbuffer, hcarry, hwaiting⟩ := keeps_beat sink now r
  exact advances_of_eq hbuffer rfl hcarry hwaiting

theorem advances_drainBeat (sink : Sink σ) (now idle : Nat) (r : Relay σ) :
    Advances r [.tick now] [] [] (r.drainBeat sink now idle) := by
  have hbeat := advances_beat sink now r
  cases hsent : (r.beat sink now).2 with
  | none =>
    rw [drainBeat_of_none hsent]
    exact hbeat
  | some sent =>
    rw [drainBeat_of_some hsent]
    split
    · obtain ⟨_, hbuffer, _⟩ := finish_cases sink now (r.beat sink now).1
      obtain ⟨hcarry, hwaiting⟩ := keeps_finish sink now (r.beat sink now).1
      have hfinish : Advances (r.beat sink now).1 [] [] [] ((r.beat sink now).1.finish sink now) :=
        advances_of_eq hbuffer rfl hcarry hwaiting
      exact hbeat.trans hfinish
    · exact ⟨hbeat.buffer_eq, hbeat.bytes_eq, hbeat.waiting_eq⟩

theorem advances_handle (sink : Sink σ) (r : Relay σ) (e : Nat × Event σ) :
    Advances r (r.operations sink e) ((r.looking? sink e).elim [] due) (arrival e)
      (r.handle sink e) := by
  obtain ⟨now, event⟩ := e
  cases event with
  | tick =>
    unfold operations ticking looking?
    cases hphase : r.phase with
    | feeding =>
      rw [tick_of_feeding sink now hphase]
      exact (advances_beat sink now r).trans (advances_take sink now _)
    | draining idle =>
      rw [tick_of_draining sink now hphase]
      exact advances_drainBeat sink now idle r
    | ended instant result =>
      simp only [handle, tick, hphase]
      exact .refl r
  | arrive chunk =>
    have hwaits : Advances r [] [] [chunk] { r with waiting := r.waiting.push chunk } := by
      refine ⟨rfl, List.append_nil _, ?_⟩
      rw [List.nil_append, Array.toList_push]
    exact hwaits.trans (advances_take sink now _)
  | close =>
    have hcloses : Advances r [] [] [] { r with closed := true } := advances_of_eq rfl rfl rfl rfl
    exact hcloses.trans (advances_take sink now _)
  | disturb change => exact advances_of_eq rfl rfl rfl rfl
  | look => exact advances_of_eq rfl rfl rfl rfl

theorem advances_run (sink : Sink σ) (r : Relay σ) (timeline : List (Nat × Event σ)) :
    Advances r (r.performed sink timeline) (r.taken sink timeline) (timeline.flatMap arrival)
      (r.run sink timeline) := by
  induction timeline generalizing r with
  | nil => exact .refl r
  | cons e rest ih => exact (advances_handle sink r e).trans (ih (r.handle sink e))

theorem sent_pushes (b : Buffer) (carry : Packet.Carry) (chunks : List (List UInt8)) :
    b.sent (pushes carry chunks) = [] := by
  induction chunks generalizing b carry with
  | nil => rfl
  | cons chunk rest ih =>
    unfold pushes
    dsimp only
    split
    · exact ih b _
    · have hquiet : (b.apply (.push (Packet.frame carry chunk).packets.toList)).sent = #[] :=
        (Buffer.sent_push b _).2
      rw [Buffer.sent_cons, hquiet, ih]
      rfl

theorem sent_ending (b b' : Buffer) : b.sent (ending b') = [] := by
  unfold ending
  split
  · rfl
  · have hother : ∀ now, Buffer.Operation.setThresholds 1 1 ≠ .tick now := fun _ => nofun
    have hquiet : (b.apply (.setThresholds 1 1)).sent.toList = [] :=
      Buffer.sent_untimed (Buffer.untimed_apply hother)
    rw [Buffer.sent_cons, hquiet]
    rfl

theorem sent_intake (b : Buffer) (r : Relay σ) : b.sent r.intake = [] := by
  unfold intake
  split
  · split
    · dsimp only
      split
      · rw [Buffer.sent_append, sent_pushes, sent_ending]
        rfl
      · exact sent_pushes b _ _
    · rfl
  · rfl

theorem written_eq (sink : Sink σ) (r : Relay σ) (e : Nat × Event σ) :
    r.written e = r.buffer.sent (r.operations sink e) := by
  have hintake : ∀ b : Buffer, b.sent ((r.looking? sink e).elim [] intake) = [] := by
    intro b
    cases r.looking? sink e with
    | none => rfl
    | some r' => exact sent_intake b r'
  rw [operations, Buffer.sent_append, hintake, List.append_nil]
  obtain ⟨now, event⟩ := e
  cases event with
  | tick =>
    unfold written ticking
    cases r.phase with
    | feeding | draining => exact (List.append_nil _).symm
    | ended => rfl
  | arrive | close | disturb | look => rfl

theorem writes_eq (sink : Sink σ) (r : Relay σ) (timeline : List (Nat × Event σ)) :
    r.writes sink timeline = r.buffer.sent (r.performed sink timeline) := by
  induction timeline generalizing r with
  | nil => rfl
  | cons e rest ih =>
    rw [writes_cons, performed_cons, Buffer.sent_append, ← written_eq, ih,
      (advances_handle sink r e).buffer_eq]

end Relay

inductive Call where
  | write (packets : List Packet) (fault? : Option Fault)
  | flush (fault? : Option Fault)
deriving DecidableEq

def Call.packets : Call → List Packet
  | .write packets _ => packets
  | .flush _ => []

/-- A sink with a list of the calls it got. -/
def Sink.traced {σ : Type} (sink : Sink σ) : Sink (σ × List Call) where
  write now packets state :=
    let answer := sink.write now packets state.1
    ((answer.1, state.2 ++ [.write packets.toList answer.2]), answer.2)
  flush state :=
    let answer := sink.flush state.1
    ((answer.1, state.2 ++ [.flush answer.2]), answer.2)

namespace Relay

variable {σ : Type} {sink : Sink σ} {now : Nat} {calls : List Call}

def Event.traced : Event σ → Event (σ × List Call)
  | .tick => .tick
  | .arrive chunk => .arrive chunk
  | .close => .close
  | .disturb change => .disturb fun state => (change state.1, state.2)
  | .look => .look

/-- The calls of a sink, given how far the run has come. All but the last are writes that it took,
and the last may have ended the run. -/
inductive Ledger : Phase → List Call → Prop where
  | going {phase : Phase} {calls : List Call} (open_ : ∀ now result, phase ≠ .ended now result)
      (took : ∀ c ∈ calls, ∃ packets, c = .write packets none) : Ledger phase calls
  | refused {now : Nat} {packets : List Packet} {fault : Fault} {calls : List Call}
      (took : ∀ c ∈ calls, ∃ packets, c = .write packets none) :
      Ledger (.ended now (.error fault)) (calls ++ [.write packets (some fault)])
  | flushed {now : Nat} {result : Except Fault Unit} {fault? : Option Fault} {calls : List Call}
      (took : ∀ c ∈ calls, ∃ packets, c = .write packets none) :
      Ledger (.ended now result) (calls ++ [.flush fault?])

theorem took_append {packets : List Packet} (took : ∀ c ∈ calls, ∃ packets, c = .write packets none) :
    ∀ c ∈ calls ++ [.write packets none], ∃ packets, c = Call.write packets none := by
  intro c hc
  rcases List.mem_append.mp hc with hc | hc
  · exact took c hc
  · exact ⟨packets, List.mem_singleton.mp hc⟩

section Traced
variable {r : Relay (σ × List Call)}

theorem ledger_finish (sink : Sink σ) (now : Nat)
    (took : ∀ c ∈ r.sink.2, ∃ packets, c = .write packets none) :
    Ledger (r.finish sink.traced now).phase (r.finish sink.traced now).sink.2 := by
  obtain ⟨⟨result, hphase⟩, _, hsink⟩ := finish_cases sink.traced now r
  rw [hphase, hsink]
  exact .flushed took

theorem ledger_take (sink : Sink σ) (now : Nat) (h : Ledger r.phase r.sink.2) :
    Ledger (r.take sink.traced now).phase (r.take sink.traced now).sink.2 := by
  by_cases hphase : r.phase = .feeding
  · have took : ∀ c ∈ r.sink.2, ∃ packets, c = .write packets none := by
      rw [hphase] at h
      cases h with
      | going _ took => exact took
    cases takes_take (P := fun _ => True) (fun _ _ _ => trivial) sink.traced now hphase trivial with
    | feeds phase_eq sink_eq =>
      rw [phase_eq, sink_eq]
      exact .going nofun took
    | ends phase_eq sink_eq =>
      rw [phase_eq, sink_eq]
      exact .flushed took
    | drains phase_eq sink_eq =>
      rw [phase_eq, sink_eq]
      exact .going nofun took
  · rw [take_of_not_feeding sink.traced now hphase]
    exact h

theorem ledger_beat (sink : Sink σ) (now : Nat)
    (open_ : ∀ now result, r.phase ≠ .ended now result)
    (took : ∀ c ∈ r.sink.2, ∃ packets, c = .write packets none) :
    Ledger (r.beat sink.traced now).1.phase (r.beat sink.traced now).1.sink.2 ∧
      ((r.beat sink.traced now).2.isSome = true →
        ∀ c ∈ (r.beat sink.traced now).1.sink.2, ∃ packets, c = .write packets none) := by
  unfold beat
  dsimp only
  split
  · rename_i state fault hwrite
    have hstate := congrArg (fun answer => answer.1.2) hwrite
    have hfault := congrArg Prod.snd hwrite
    dsimp only [Sink.traced] at hstate hfault
    rw [hfault] at hstate
    refine ⟨?_, nofun⟩
    rw [← hstate]
    exact .refused took
  · rename_i state hwrite
    have hstate := congrArg (fun answer => answer.1.2) hwrite
    have hfault := congrArg Prod.snd hwrite
    dsimp only [Sink.traced] at hstate hfault
    rw [hfault] at hstate
    change Ledger r.phase state.2 ∧ (_ → ∀ c ∈ state.2, ∃ packets, c = .write packets none)
    rw [← hstate]
    exact ⟨.going open_ (took_append took), fun _ => took_append took⟩

theorem ledger_tick (sink : Sink σ) (now : Nat) (h : Ledger r.phase r.sink.2) :
    Ledger (r.tick sink.traced now).phase (r.tick sink.traced now).sink.2 := by
  cases hphase : r.phase with
  | ended instant result =>
    have hsame : r.tick sink.traced now = r := by simp only [tick, hphase]
    rw [hsame]
    exact h
  | feeding =>
    have hopen : ∀ now result, r.phase ≠ .ended now result := by simp [hphase]
    rw [hphase] at h
    cases h with
    | going _ took =>
      have htick : r.tick sink.traced now =
          (r.beat sink.traced now).1.take sink.traced now := by simp only [tick, hphase]
      rw [htick]
      exact ledger_take sink now (ledger_beat sink now hopen took).1
  | draining idle =>
    have hopen : ∀ now result, r.phase ≠ .ended now result := by simp [hphase]
    have htick : r.tick sink.traced now = r.drainBeat sink.traced now idle := by
      simp only [tick, hphase]
    rw [hphase] at h
    cases h with
    | going _ took =>
      obtain ⟨hbeat, htook⟩ := ledger_beat sink now hopen took
      rw [htick]
      cases hsent : (r.beat sink.traced now).2 with
      | none =>
        rw [drainBeat_of_none hsent]
        exact hbeat
      | some sent =>
        have htook' := htook (by rw [hsent]; rfl)
        rw [drainBeat_of_some hsent]
        split
        · exact ledger_finish sink now htook'
        · refine .going ?_ htook'
          intro now result hended
          cases hended

theorem ledger_handle (sink : Sink σ) (h : Ledger r.phase r.sink.2) (e : Nat × Event σ) :
    Ledger (r.handle sink.traced (e.1, e.2.traced)).phase
      (r.handle sink.traced (e.1, e.2.traced)).sink.2 := by
  obtain ⟨now, event⟩ := e
  cases event with
  | tick => exact ledger_tick sink now h
  | arrive chunk =>
    exact ledger_take (r := { r with waiting := r.waiting.push chunk }) sink now h
  | close => exact ledger_take (r := { r with closed := true }) sink now h
  | disturb | look => exact h

theorem ledger_run (sink : Sink σ) (h : Ledger r.phase r.sink.2)
    (timeline : List (Nat × Event σ)) :
    Ledger (r.run sink.traced (timeline.map fun e => (e.1, e.2.traced))).phase
      (r.run sink.traced (timeline.map fun e => (e.1, e.2.traced))).sink.2 := by
  induction timeline generalizing r with
  | nil => exact h
  | cons e rest ih => exact ih (ledger_handle sink h e)

end Traced

/-- After a write that the sink refused there is no other call, and the run has ended with it. -/
theorem Ledger.refusal {phase : Phase} {before more : List Call} {packets : List Packet}
    {fault : Fault} (h : Ledger phase calls)
    (hcalls : calls = before ++ .write packets (some fault) :: more) :
    more = [] ∧ ∃ now, phase = .ended now (.error fault) := by
  -- A refused write is not among those taken, so it is the last call.
  have hlast : ∀ {calls : List Call} {last : Call},
      (∀ c ∈ calls, ∃ packets, c = .write packets none) →
      calls ++ [last] = before ++ .write packets (some fault) :: more →
      more = [] ∧ last = .write packets (some fault) := by
    intro calls last took heq
    rcases List.eq_nil_or_concat more with hnil | ⟨rest, c, hmore⟩
    · rw [hnil] at heq
      obtain ⟨_, hsame⟩ := List.append_inj' heq rfl
      exact ⟨hnil, List.head_eq_of_cons_eq hsame⟩
    · rw [hmore, List.concat_eq_append, ← List.cons_append, ← List.append_assoc] at heq
      obtain ⟨hcalls, _⟩ := List.append_inj' heq rfl
      obtain ⟨_, hwrite⟩ := took (.write packets (some fault)) (by simp [hcalls])
      cases hwrite
  cases h with
  | going _ took =>
    obtain ⟨_, hwrite⟩ := took (.write packets (some fault)) (by simp [hcalls])
    cases hwrite
  | refused took =>
    obtain ⟨hmore, hwrite⟩ := hlast took hcalls
    cases hwrite
    exact ⟨hmore, _, rfl⟩
  | flushed took =>
    obtain ⟨_, hwrite⟩ := hlast took hcalls
    cases hwrite

theorem records_traced (sink : Sink σ) :
    Records sink.traced fun state => state.2.flatMap Call.packets := by
  constructor
  · intro now packets state
    simp [Sink.traced, Call.packets]
  · intro state
    simp [Sink.traced, Call.packets]

theorem arrival_traced (e : Nat × Event σ) : arrival (e.1, e.2.traced) = arrival e := by
  obtain ⟨now, event⟩ := e
  cases event <;> rfl

theorem forwards_groups (settings : Settings) (setup : List Buffer.Operation) (interval : Nat)
    (sink : Sink σ) (state : σ) (timeline : List (Nat × Event σ)) :
    let b := (host settings).buffer
    let start := Relay.start (b.run setup) (state, []) interval
    let events := timeline.map fun e => (e.1, e.2.traced)
    let operations := start.performed sink.traced events
    let chunks := start.taken sink.traced events
    let handed := operations.flatMap Buffer.Operation.burst
    let r := start.run sink.traced events
    r.buffer = (b.run setup).run operations ∧
    timeline.flatMap arrival = chunks ++ r.waiting.toList ∧
    Packet.Groups chunks.flatten handed r.carry.bytes.toList ∧
    (b.sent setup ++ r.sink.2.flatMap Call.packets).Sublist
      (setup.flatMap Buffer.Operation.burst ++ handed) ∧
    ∀ before packets fault more, r.sink.2 = before ++ .write packets (some fault) :: more →
      more = [] ∧ ∃ now, r.phase = .ended now (.error fault) := by
  intro b start events operations chunks handed r
  have hadvances : Advances start operations chunks (events.flatMap arrival) r :=
    advances_run sink.traced start events
  have harrivals : events.flatMap arrival = timeline.flatMap arrival := by
    simp only [events, List.flatMap_map, arrival_traced]
  have hcalls : r.sink.2.flatMap Call.packets = start.writes sink.traced events := by
    refine (records_traced sink).run ?_
    intro e he change state' hchange
    obtain ⟨⟨now, event⟩, _, rfl⟩ := List.mem_map.mp he
    cases event with
    | disturb change' =>
      cases hchange
      rfl
    | tick | arrive | close | look => cases hchange
  have hstart : Ledger start.phase start.sink.2 :=
    .going (fun _ _ h => nomatch h) fun _ hc => absurd hc List.not_mem_nil
  have hledger : Ledger r.phase r.sink.2 := ledger_run sink hstart timeline
  refine ⟨hadvances.buffer_eq, ?_, ?_, ?_, fun before packets fault more => hledger.refusal⟩
  · rw [← harrivals]
    exact hadvances.waiting_eq
  · exact Packet.groups_of_bytes hadvances.bytes_eq r.carry.short
  · have hordered : b.queue.Ordered := Buffer.ordered_create settings
    have hinOrder := Buffer.inOrder_run hordered (Queue.toList_create _ _) (setup ++ operations)
    have hbuffer : start.buffer = b.run setup := rfl
    rw [hcalls, writes_eq, hbuffer, ← Buffer.sent_append, ← List.flatMap_append]
    exact hinOrder.sublist.trans (Buffer.accepted_sublist b _)

/-- A sink that counts the writes and refuses the third. -/
def wary : Sink Nat where
  write _ _ count := (count + 1, if count = 2 then some .closed else none)

def fragment : List (Nat × Event Nat) :=
  [(0, .tick), (0, .arrive (List.replicate 191 0x47)), (1000000, .tick), (2000000, .tick),
    (3000000, .tick)]

def refusedRun : Relay (Nat × List Call) :=
  (start ((host {}).buffer.run []) (0, []) 1000000).run wary.traced
    (fragment.map fun e => (e.1, e.2.traced))

/-- The third tick is the last that writes. -/
theorem forwards_groups_refused :
    refusedRun.sink.2 = [.write [] none, .write [] none] ++ [.write [] (some .closed)] ∧
      refusedRun.buffer.queue.length = 1 ∧ refusedRun.carry.size = 3 ∧
      ∃ now, refusedRun.phase = .ended now (.error .closed) := by
  have hcalls : refusedRun.sink.2 =
      [.write [] none, .write [] none] ++ [.write [] (some .closed)] := by
    decide +kernel
  have hlength : refusedRun.buffer.queue.length = 1 ∧ refusedRun.carry.size = 3 := by decide +kernel
  have hrefusal := (forwards_groups {} [] 1000000 wary 0 fragment).2.2.2.2
  unfold refusedRun at hcalls hlength ⊢
  obtain ⟨_, hended⟩ := hrefusal _ [] .closed [] hcalls
  exact ⟨hcalls, hlength.1, hlength.2, hended⟩

end Relay
end PacedStream
