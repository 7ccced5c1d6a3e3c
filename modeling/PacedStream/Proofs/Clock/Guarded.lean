import PacedStream.Proofs.Clock.Walk
import PacedStream.Proofs.Queue.Guarded

/-!
The guarded scan. It passes only what is queued, and drops only to a slot between head and mark.
-/

namespace PacedStream.Guarded
set_option autoImplicit false

variable {q : Queue Packet} {s : Scan} {i n cap : Nat}

def step (s : Scan) : Option Scan := do
  let here := s.queue.mark
  let queue ← pass s.queue
  let p ← queue.slot? here
  let o := s.clock.observe p
  let queue ← if o.verdict.drops then dropTo queue here else some queue
  return { clock := o.clock, queue, found := o.verdict = .located, log := s.log ++ o.log }

def scan : Nat → Scan → Option Scan
  | 0, s => some s
  | n + 1, s => do
    let after ← step s
    if after.found then return after else scan n after

def seek (c : Clock) (q : Queue Packet) : Option Scan :=
  scan q.unscanned { clock := c, queue := q }

def countFrom (c : Clock) (q : Queue Packet) : Nat → Nat → Nat → Option Nat
  | 0, _, _ => some 0
  | _, 0, _ => some 0
  | n + 1, cap + 1, i => do
    let p ← q.slot? i
    if c.isReference p then
      let rest ← countFrom c q n cap (q.next i)
      return rest + 1
    else countFrom c q n (cap + 1) (q.next i)

def recount (c : Clock) (q : Queue Packet) (enough : Nat) : Option Clock :=
  if c.hasBlock then do
    let ahead ← countFrom c q q.unscanned enough q.mark
    return { c with blocks := min (1 + ahead) enough }
  else some { c with blocks := 0 }

theorem step_eq (hq : s.queue.Ordered) (hne : s.queue.mark ≠ s.queue.tail) :
    step s = some s.step := by
  have hpass := Queue.ordered_pass hq hne
  have hread : s.queue.pass.slot? s.queue.mark = some (s.queue.slot s.queue.mark) :=
    slot?_eq hq.mark_lt
  have hwithin : s.queue.pass.distance s.queue.pass.head s.queue.mark ≤ s.queue.pass.scanned := by
    rw [Queue.scanned_pass hq hne]
    exact Nat.le_succ _
  unfold step Scan.step
  simp only [pass_eq hq hne, Option.bind_eq_bind, Option.bind_some, hread]
  split
  · rw [dropTo_eq hpass hq.mark_lt hwithin]
    rfl
  · rfl

theorem scan_eq (hq : s.queue.Ordered) (hn : s.queue.unscanned = n) :
    scan n s = some (s.run n) := by
  induction n generalizing s with
  | zero => rfl
  | succ n ih =>
    obtain ⟨hne, hleft⟩ := Scan.unscanned_step hq hn
    obtain ⟨p, _, hat⟩ := Scan.at_step hq hne
    unfold scan Scan.run
    simp only [step_eq hq hne, Option.bind_eq_bind, Option.bind_some]
    split
    · rfl
    · exact ih hat.ordered hleft

theorem seek_eq (c : Clock) (hq : q.Ordered) : seek c q = some (c.seek q) := scan_eq hq rfl

theorem countFrom_eq (c : Clock) (hi : i < q.size) :
    countFrom c q n cap i = some (c.countFrom q n cap i) := by
  induction n generalizing cap i with
  | zero => rfl
  | succ n ih =>
    cases cap with
    | zero => rfl
    | succ cap =>
      unfold countFrom Clock.countFrom
      simp only [slot?_eq hi, Option.bind_eq_bind, Option.bind_some]
      split
      · rw [ih (Queue.next_lt hi)]
        rfl
      · exact ih (Queue.next_lt hi)

theorem recount_eq (c : Clock) (hq : q.Ordered) (enough : Nat) :
    recount c q enough = some (c.recount q enough) := by
  unfold recount Clock.recount
  split
  · rw [countFrom_eq c hq.mark_lt]
    rfl
  · rfl

end PacedStream.Guarded
