import PacedStream.Proofs.Buffer.Move

/-!
What a move does to the queued packets. Only a scan and an emptied queue take packets away without
sending them, and a scan does so only in front of what is left.
-/

namespace PacedStream.Buffer
set_option autoImplicit false

variable {b b' : Buffer} {es : List Event}

inductive Effect (b : Buffer) : List Event → Buffer → Prop where
  | scan {b' : Buffer}
      (follows : Clock.Follows b.clock b.queue.toList b'.clock b'.queue.toList) : Effect b [] b'
  | take {b' : Buffer} {burst : List Packet} (clock_eq : b'.clock = b.clock)
      (toList_eq : b'.queue.toList = b.queue.toList ++ burst) : Effect b [.took burst] b'
  | send {b' : Buffer} (clock_eq : b'.clock = b.clock)
      (toList_eq : b.queue.toList = b.queue.front :: b'.queue.toList) : Effect b [.sent b] b'
  | empty {b' : Buffer} (toList_eq : b'.queue.toList = []) : Effect b [.emptied] b'
  | connect {b' : Buffer} {on : Bool} (clock_eq : b'.clock = b.clock)
      (toList_eq : b'.queue.toList = b.queue.toList) : Effect b [.connected on] b'

theorem effect_of_eq (toList_eq : b'.queue.toList = b.queue.toList)
    (breaks_eq : b'.clock.breaks = b.clock.breaks) (locked_eq : b'.clock.locked = b.clock.locked) :
    Effect b [] b' := by
  have suffix : b'.queue.toList <:+ b.queue.toList := toList_eq ▸ List.suffix_refl _
  exact .scan ⟨suffix, Nat.le_of_eq breaks_eq.symm, fun h => locked_eq.trans h, fun _ _ => toList_eq⟩

theorem follows_sought (hq : b.queue.Ordered) :
    Clock.Follows b.clock b.queue.toList b.sought.clock b.sought.queue.toList := by
  have hat := b.clock.seek_at hq
  have h := Clock.follows_walk b.clock b.queue.passed b.queue.ahead
  rw [← hat.clock_eq, ← hat.passed_eq, ← hat.ahead_eq, ← hat.ordered.toList_eq,
    ← hq.toList_eq] at h
  exact h

theorem effect_move (h : Move b es b') (hq : b.queue.Ordered) : Effect b es b' := by
  cases h with
  | adjust queue_eq clock_eq =>
    exact effect_of_eq (congrArg Queue.toList queue_eq) (congrArg Clock.breaks clock_eq)
      (congrArg Clock.locked clock_eq)
  | connect on => exact .connect rfl rfl
  | resize resized =>
    exact effect_of_eq ((Queue.resized_of_resize? hq resized).toList_eq hq) rfl rfl
  | take _ pushed => exact .take rfl ((Queue.pushed_of_push? hq pushed).toList_eq hq)
  | seek | next => exact .scan (follows_sought hq)
  | lose =>
    have h := follows_sought hq
    exact .scan ⟨h.suffix, h.breaks_le, h.locked, h.whole⟩
  | send _ lead => exact .send rfl (Queue.toList_pop hq (hq.head_ne_tail lead))
  | empty => exact .empty (toList_dropAll hq)
  | credit | recount | feed | start | stall | resume | pin | repin =>
    exact effect_of_eq rfl rfl rfl

end PacedStream.Buffer
