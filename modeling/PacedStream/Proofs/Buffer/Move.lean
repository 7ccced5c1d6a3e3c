import PacedStream.Proofs.Buffer.Events
import PacedStream.Proofs.Clock.Tracking

/-!
Elementary moves of a buffer. A move changes one thing and says under which condition and with which
event; operations are courses of moves, so that what all moves keep is kept by every history.
-/

namespace PacedStream.Buffer
set_option autoImplicit false

def sought (b : Buffer) : Scan := b.clock.seek b.queue

inductive Move : Buffer → List Event → Buffer → Prop where
  | adjust {b b' : Buffer} (queue_eq : b'.queue = b.queue) (clock_eq : b'.clock = b.clock)
      (flow_eq : b'.flow = b.flow) (delivers_eq : b'.delivers = b.delivers) : Move b [] b'
  | connect (b : Buffer) (on : Bool) : Move b [.connected on] { b with delivers := on }
  | credit (b : Buffer) (credit : Float) :
      Move b [] { b with clock := { b.clock with credit } }
  | recount (b : Buffer) : Move b [] b.recount
  | resize {b : Buffer} {queue : Queue Packet} {size : Nat}
      (resized : b.queue.resize? size = some queue) : Move b [] { b with queue }
  | feed (b : Buffer) : Move b [] { b with flow := b.flow.feed }
  | take {b : Buffer} {queue : Queue Packet} {burst : List Packet} (fed : b.flow ≠ .empty)
      (pushed : b.queue.push? burst = some queue) : Move b [.took burst] { b with queue }
  /-- The scan while buffering, with or without success. -/
  | seek {b : Buffer} (buffering : b.flow = .buffering) (noBlock : b.clock.hasBlock = false) :
      Move b [] (b.withScan b.sought)
  | start {b : Buffer} (buffering : b.flow = .buffering) (block : b.clock.hasBlock = true)
      (enough : b.settings.enough.toNat ≤ b.recount.clock.blocks) :
      Move b [] { b.recount.withScan b.recount.scan.rewind with flow := .running }
  | next {b : Buffer} (running : b.flow = .running) (noLead : b.queue.head = b.queue.mark)
      (found : b.sought.found = true) : Move b [] (b.withScan b.sought)
  | lose {b : Buffer} (running : b.flow = .running) (noLead : b.queue.head = b.queue.mark)
      (lost : b.sought.found = false) : Move b [] (b.withScan b.sought).relearn
  | send {b : Buffer} (running : b.flow = .running) (lead : b.queue.head ≠ b.queue.mark) :
      Move b [.sent b] b.sendOff
  | stall {b : Buffer} (now : Int) (running : b.flow = .running)
      (few : b.clock.blocks < b.settings.low.toNat) : Move b [] { b with flow := .underflow now }
  | resume {b : Buffer} {since : Int} (stalled : b.flow = .underflow since)
      (back : b.settings.low.toNat ≤ b.clock.blocks) :
      Move b [] { b with flow := .running, clock := { b.clock with credit := 0 } }
  | empty (b : Buffer) : Move b [.emptied] b.dropAll
  | pin {b : Buffer} (pid? : Option UInt16) (unfed : b.flow = .empty) :
      Move b [] { b with settings := { b.settings with pid? }, clock := b.clock.pin pid? }
  | repin {b : Buffer} (pid? : Option UInt16) (fed : b.flow ≠ .empty) :
      Move b []
        { b with settings := { b.settings with pid? }, clock := b.clock.pin pid? }.relearn

inductive Course : Buffer → List Event → Buffer → Prop where
  | done (b : Buffer) : Course b [] b
  | step {b b' b'' : Buffer} {es es' : List Event} :
      Move b es b' → Course b' es' b'' → Course b (es ++ es') b''

namespace Course

variable {b b' b'' : Buffer} {es es' : List Event}

theorem single (h : Move b es b') : Course b es b' := by
  have hcourse := Course.step h (.done b')
  rwa [List.append_nil] at hcourse

theorem trans (h : Course b es b') (h' : Course b' es' b'') : Course b (es ++ es') b'' := by
  induction h with
  | done => exact h'
  | step hmove _ ih =>
    rw [List.append_assoc]
    exact .step hmove (ih h')

theorem quiet (h : Move b [] b') (h' : Course b' es b'') : Course b es b'' := .step h h'

theorem induct {motive : Buffer → Prop} {P : Event → Prop} (h : Course b es b')
    (allowed : ∀ e ∈ es, P e)
    (keeps : ∀ {b es b'}, Move b es b' → (∀ e ∈ es, P e) → motive b → motive b')
    (start : motive b) :
    motive b' ∧ ∀ m, .sent m ∈ es → motive m ∧ m.flow = .running ∧ m.queue.head ≠ m.queue.mark := by
  induction h with
  | done => exact ⟨start, by simp⟩
  | @step b b₁ b₂ es es' hmove _ ih =>
    have hfirst : ∀ e ∈ es, P e := fun e he => allowed e (List.mem_append_left _ he)
    have hrest : ∀ e ∈ es', P e := fun e he => allowed e (List.mem_append_right _ he)
    obtain ⟨hend, hsent⟩ := ih hrest (keeps hmove hfirst start)
    refine ⟨hend, fun m hm => ?_⟩
    rcases List.mem_append.mp hm with hm | hm
    · cases hmove with
      | send running lead =>
        cases List.mem_singleton.mp hm
        exact ⟨start, running, lead⟩
      | _ => simp at hm
    · exact hsent m hm

end Course

variable {b b' : Buffer} {es : List Event}

theorem ordered_sought (hq : b.queue.Ordered) : b.sought.queue.Ordered :=
  (b.clock.seek_at hq).ordered

theorem times_sought (hq : b.queue.Ordered) (hfound : b.sought.found = true) :
    b.sought.clock.Times b.sought.queue.passed := by
  have hat := b.clock.seek_at hq
  rw [sought, hat.clock_eq, hat.passed_eq]
  exact Clock.times_walk (hat.found_eq ▸ hfound)

theorem ordered_dropAll (hq : b.queue.Ordered) : b.dropAll.queue.Ordered := by
  have hclear := Queue.ordered_clear hq
  change ((b.queue.clear.resize? b.queue.clear.minSize).getD b.queue.clear).Ordered
  cases h : b.queue.clear.resize? b.queue.clear.minSize with
  | none => exact hclear
  | some queue => exact (Queue.resized_of_resize? hclear h).ordered

theorem toList_dropAll (hq : b.queue.Ordered) : b.dropAll.queue.toList = [] := by
  have hclear := Queue.ordered_clear hq
  have hnil := Queue.toList_clear hq
  change ((b.queue.clear.resize? b.queue.clear.minSize).getD b.queue.clear).toList = []
  cases h : b.queue.clear.resize? b.queue.clear.minSize with
  | none => exact hnil
  | some queue => exact ((Queue.resized_of_resize? hclear h).toList_eq hclear).trans hnil

theorem still_dropAll (b : Buffer) : b.dropAll.flow = .empty ∨ b.dropAll.flow = .buffering := by
  change (if b.flow = .empty then Flow.empty else .buffering) = .empty ∨
    (if b.flow = .empty then Flow.empty else .buffering) = .buffering
  split
  · exact .inl rfl
  · exact .inr rfl

theorem ordered_move (h : Move b es b') (hq : b.queue.Ordered) : b'.queue.Ordered := by
  cases h with
  | adjust queue_eq => exact queue_eq ▸ hq
  | resize resized => exact (Queue.resized_of_resize? hq resized).ordered
  | take _ pushed => exact (Queue.pushed_of_push? hq pushed).ordered
  | seek | next => exact ordered_sought hq
  | lose => exact Queue.ordered_rewind (ordered_sought hq)
  | start => exact Queue.ordered_rewind hq
  | send _ lead => exact Queue.ordered_pop hq (hq.head_ne_tail lead)
  | empty => exact ordered_dropAll hq
  | repin => exact Queue.ordered_rewind hq
  | connect | credit | recount | feed | stall | resume | pin => exact hq

theorem Course.ordered (h : Course b es b') (hq : b.queue.Ordered) : b'.queue.Ordered :=
  (h.induct (P := fun _ => True) (fun _ _ => trivial) (fun hmove _ => ordered_move hmove) hq).1

end PacedStream.Buffer
