import PacedStream.Clock.Scan
import PacedStream.Proofs.Queue.Lists

/-!
The scan as a walk along a list. A walk moves packets from the list ahead to the list passed until
a block is located, and a packet that breaks the clock empties the second list in front of it. The
scan of a queue in a circle of slots is this walk, and the blocks ahead are counted on the first
list.
-/

namespace PacedStream
set_option autoImplicit false

structure Walk where
  clock : Clock
  passed : List Packet
  ahead : List Packet
  found : Bool := false

namespace Clock

variable {c c' : Clock} {p : Packet} {v : Verdict} {passed ahead : List Packet}
  {pid : UInt16} {before ticks : UInt64}

def counted (c : Clock) : Clock := { c with scanned := c.scanned + 1 }

/-- What one packet can do to a clock. -/
inductive Observes (c : Clock) (p : Packet) : Clock → Verdict → Prop where
  | pass (other : ∀ pid ticks, reading? p = some (pid, ticks) → c.reference?.getD pid ≠ pid) :
      Observes c p c.counted .pass
  | anchor {pid : UInt16} {ticks : UInt64} (read : reading? p = some (pid, ticks))
      (own : c.reference?.getD pid = pid) (first : c.latest? = none) :
      Observes c p ((c.counted.learn pid).anchor ticks) (.anchor c.locked)
  | broken {pid : UInt16} {before ticks : UInt64} (read : reading? p = some (pid, ticks))
      (own : c.reference?.getD pid = pid) (last : c.latest? = some before)
      (gap : isBreak before ticks = true) :
      Observes c p ((c.counted.learn pid).restart ticks) .broken
  | located {pid : UInt16} {before ticks : UInt64} (read : reading? p = some (pid, ticks))
      (own : c.reference?.getD pid = pid) (last : c.latest? = some before)
      (gap : isBreak before ticks = false) :
      Observes c p ((c.counted.learn pid).locate before ticks) .located

theorem observeReading_of_none (c : Clock) (pid : UInt16) (h : c.latest? = none) :
    c.observeReading pid ticks = { clock := c.anchor ticks, verdict := .anchor c.locked } := by
  unfold observeReading
  rw [h]

theorem observeReading_of_break (c : Clock) (pid : UInt16) (h : c.latest? = some before)
    (hbreak : isBreak before ticks = true) :
    (c.observeReading pid ticks).clock = c.restart ticks ∧
      (c.observeReading pid ticks).verdict = .broken := by
  unfold observeReading
  rw [h]
  dsimp only
  rw [if_pos hbreak]
  exact ⟨rfl, rfl⟩

theorem observeReading_of_close (c : Clock) (pid : UInt16) (h : c.latest? = some before)
    (hclose : isBreak before ticks = false) :
    (c.observeReading pid ticks).clock = c.locate before ticks ∧
      (c.observeReading pid ticks).verdict = .located := by
  unfold observeReading
  rw [h]
  dsimp only
  rw [if_neg (Bool.eq_false_iff.mp hclose)]
  exact ⟨rfl, rfl⟩

theorem observesReading (c : Clock) (hread : reading? p = some (pid, ticks))
    (hown : c.reference?.getD pid = pid) :
    Observes c p ((c.counted.learn pid).observeReading pid ticks).clock
      ((c.counted.learn pid).observeReading pid ticks).verdict := by
  cases hlatest : c.latest? with
  | none =>
    rw [observeReading_of_none (c.counted.learn pid) pid hlatest]
    exact .anchor hread hown hlatest
  | some before =>
    cases hgap : isBreak before ticks with
    | true =>
      obtain ⟨hclock, hverdict⟩ :=
        observeReading_of_break (c.counted.learn pid) pid hlatest hgap
      rw [hclock, hverdict]
      exact .broken hread hown hlatest hgap
    | false =>
      obtain ⟨hclock, hverdict⟩ :=
        observeReading_of_close (c.counted.learn pid) pid hlatest hgap
      rw [hclock, hverdict]
      exact .located hread hown hlatest hgap

theorem observes (c : Clock) (p : Packet) :
    Observes c p (c.observe p).clock (c.observe p).verdict := by
  unfold observe
  split
  · rename_i hread
    exact .pass (by simp [hread])
  · rename_i pid ticks hread
    split
    · rename_i hown
      exact observesReading c hread hown
    · rename_i hother
      refine .pass fun pid' ticks' hread' => ?_
      rw [hread] at hread'
      cases hread'
      exact hother

theorem pinned?_observe (c : Clock) (p : Packet) : (c.observe p).clock.pinned? = c.pinned? := by
  have hobs := observes c p
  generalize (c.observe p).clock = c' at hobs ⊢
  generalize (c.observe p).verdict = v at hobs
  cases hobs <;> rfl

/-- The packets passed after one more, of which a dropping verdict keeps only that one. -/
def Verdict.keep (v : Verdict) (passed : List Packet) (p : Packet) : List Packet :=
  if v.drops then [p] else passed ++ [p]

def walk (c : Clock) (passed : List Packet) : List Packet → Walk
  | [] => { clock := c, passed, ahead := [] }
  | p :: ahead =>
    let o := c.observe p
    let passed := o.verdict.keep passed p
    if o.verdict = .located then { clock := o.clock, passed, ahead, found := true }
    else walk o.clock passed ahead

theorem walk_cons : c.walk passed (p :: ahead) =
    if (c.observe p).verdict = .located then
      { clock := (c.observe p).clock, passed := (c.observe p).verdict.keep passed p, ahead,
        found := true }
    else (c.observe p).clock.walk ((c.observe p).verdict.keep passed p) ahead := rfl

/-- What each packet preserves holds at the end of a walk that finds nothing, and what the locating
packet then establishes holds at the end of one that finds a block. -/
theorem walk_induct (motive goal : Clock → List Packet → List Packet → Prop)
    (keeps : ∀ {c c' : Clock} {p : Packet} {v : Verdict} {passed ahead : List Packet},
      Observes c p c' v → v ≠ .located → motive c passed (p :: ahead) →
      motive c' (v.keep passed p) ahead)
    (locates : ∀ {c c' : Clock} {p : Packet} {passed ahead : List Packet},
      Observes c p c' .located → motive c passed (p :: ahead) → goal c' (passed ++ [p]) ahead)
    (start : motive c passed ahead) :
    ((c.walk passed ahead).found = false → motive (c.walk passed ahead).clock
        (c.walk passed ahead).passed (c.walk passed ahead).ahead) ∧
      ((c.walk passed ahead).found = true → goal (c.walk passed ahead).clock
        (c.walk passed ahead).passed (c.walk passed ahead).ahead) := by
  induction ahead generalizing c passed with
  | nil => exact ⟨fun _ => start, fun h => nomatch h⟩
  | cons p ahead ih =>
    have hobs := observes c p
    rw [walk_cons]
    generalize (c.observe p).clock = c' at hobs ⊢
    generalize (c.observe p).verdict = v at hobs ⊢
    by_cases hv : v = .located
    · subst hv
      rw [if_pos rfl]
      exact ⟨by simp, fun _ => locates hobs start⟩
    · rw [if_neg hv]
      exact ih (keeps hobs hv start)

theorem walk_keeps (motive : Clock → List Packet → List Packet → Prop)
    (keeps : ∀ {c c' : Clock} {p : Packet} {v : Verdict} {passed ahead : List Packet},
      Observes c p c' v → motive c passed (p :: ahead) → motive c' (v.keep passed p) ahead)
    (start : motive c passed ahead) :
    motive (c.walk passed ahead).clock (c.walk passed ahead).passed (c.walk passed ahead).ahead := by
  have hwalk := walk_induct motive motive (fun hobs _ hbefore => keeps hobs hbefore)
    (fun hobs hbefore => keeps hobs hbefore) start
  cases hfound : (c.walk passed ahead).found with
  | false => exact hwalk.1 hfound
  | true => exact hwalk.2 hfound

theorem ahead_walk_of_lost (h : (c.walk passed ahead).found = false) :
    (c.walk passed ahead).ahead = [] := by
  induction ahead generalizing c passed with
  | nil => rfl
  | cons p ahead ih =>
    rw [walk_cons] at h ⊢
    split
    · rename_i hlocated
      rw [if_pos hlocated] at h
      cases h
    · rename_i hmore
      rw [if_neg hmore] at h
      exact ih h

end Clock

namespace Scan

variable {s : Scan}

/-- A scan of a queue stands where a walk stands. -/
structure At (s : Scan) (w : Walk) : Prop where
  ordered : s.queue.Ordered
  clock_eq : s.clock = w.clock
  passed_eq : s.queue.passed = w.passed
  ahead_eq : s.queue.ahead = w.ahead
  found_eq : s.found = w.found

theorem at_step (hq : s.queue.Ordered) (hne : s.queue.mark ≠ s.queue.tail) :
    ∃ p, s.queue.ahead = p :: s.step.queue.ahead ∧ At s.step
      { clock := (s.clock.observe p).clock
        passed := (s.clock.observe p).verdict.keep s.queue.passed p
        ahead := s.step.queue.ahead
        found := (s.clock.observe p).verdict = .located } := by
  have hpass := Queue.ordered_pass hq hne
  have hscanned := Queue.scanned_pass hq hne
  have hpassed := Queue.passed_pass hq hne
  have hwithin : s.queue.pass.distance s.queue.pass.head s.queue.mark ≤ s.queue.pass.scanned := by
    have hdist : s.queue.pass.distance s.queue.pass.head s.queue.mark = s.queue.scanned := rfl
    omega
  have hdrop := Queue.passed_dropTo hpass hq.mark_lt hwithin
  have hlast : (s.queue.pass.dropTo s.queue.mark).passed = [s.queue.slot s.queue.mark] := by
    have hdist : s.queue.pass.distance s.queue.pass.head s.queue.mark = s.queue.scanned := rfl
    rw [hdrop, hpassed, hdist, List.drop_left' Queue.length_passed]
  refine ⟨s.queue.slot s.queue.mark, ?_, ?_⟩
  · rw [Queue.ahead_eq_cons hq hne]
    unfold step
    dsimp only
    split <;> rfl
  · by_cases hdrops : (s.clock.observe (s.queue.slot s.queue.mark)).verdict.drops
    · have hqueue : s.step.queue = s.queue.pass.dropTo s.queue.mark := by simp [step, hdrops]
      refine ⟨?_, rfl, ?_, rfl, rfl⟩
      · rw [hqueue]
        exact Queue.ordered_dropTo hpass hq.mark_lt hwithin
      · rw [hqueue, hlast]
        simp [Clock.Verdict.keep, hdrops]
    · have hqueue : s.step.queue = s.queue.pass := by simp [step, hdrops]
      refine ⟨?_, rfl, ?_, rfl, rfl⟩
      · rw [hqueue]
        exact hpass
      · rw [hqueue, hpassed]
        simp [Clock.Verdict.keep, hdrops]

theorem unscanned_step {n : Nat} (hq : s.queue.Ordered) (hn : s.queue.unscanned = n + 1) :
    s.queue.mark ≠ s.queue.tail ∧ s.step.queue.unscanned = n := by
  have hne : s.queue.mark ≠ s.queue.tail := by
    intro h
    have hzero : s.queue.unscanned = 0 := (Queue.distance_eq_zero_iff hq.mark_lt hq.tail_lt).mpr h
    omega
  obtain ⟨p, hcons, _⟩ := at_step hq hne
  rw [← Queue.length_ahead, hcons, List.length_cons, Queue.length_ahead] at hn
  exact ⟨hne, Nat.succ.inj hn⟩

theorem keeps_step (s : Scan) : s.step.clock.pinned? = s.clock.pinned? ∧
    s.step.queue.minSize = s.queue.minSize ∧ s.step.queue.size = s.queue.size := by
  refine ⟨Clock.pinned?_observe s.clock _, ?_⟩
  unfold step
  dsimp only
  split <;> exact ⟨rfl, rfl⟩

theorem keeps_run (n : Nat) (s : Scan) : (run n s).clock.pinned? = s.clock.pinned? ∧
    (run n s).queue.minSize = s.queue.minSize ∧ (run n s).queue.size = s.queue.size := by
  induction n generalizing s with
  | zero => exact ⟨rfl, rfl, rfl⟩
  | succ n ih =>
    obtain ⟨hpinned, hminSize, hsize⟩ := keeps_step s
    unfold run
    dsimp only
    split
    · exact ⟨hpinned, hminSize, hsize⟩
    · obtain ⟨hpinned', hminSize', hsize'⟩ := ih s.step
      exact ⟨hpinned'.trans hpinned, hminSize'.trans hminSize, hsize'.trans hsize⟩

theorem at_run (n : Nat) (hq : s.queue.Ordered) (hn : s.queue.unscanned = n)
    (hfound : s.found = false) :
    At (run n s) (s.clock.walk s.queue.passed s.queue.ahead) := by
  induction n generalizing s with
  | zero =>
    have hnil : s.queue.ahead = [] := by
      rw [← List.length_eq_zero_iff, Queue.length_ahead, hn]
    rw [hnil]
    exact ⟨hq, rfl, rfl, hnil, hfound⟩
  | succ n ih =>
    obtain ⟨hne, hleft⟩ := unscanned_step hq hn
    obtain ⟨p, hcons, hat⟩ := at_step hq hne
    rw [hcons, Clock.walk_cons]
    unfold run
    dsimp only
    by_cases hlocated : (s.clock.observe p).verdict = .located
    · have hdone : s.step.found = true := by rw [hat.found_eq]; simpa using hlocated
      rw [if_pos hdone, if_pos hlocated]
      exact ⟨hat.ordered, hat.clock_eq, hat.passed_eq, rfl, hdone⟩
    · have hmore : s.step.found = false := by rw [hat.found_eq]; simpa using hlocated
      rw [hmore, if_neg hlocated, if_neg (by simp)]
      have h := ih hat.ordered hleft hmore
      rwa [hat.clock_eq, hat.passed_eq] at h

end Scan

namespace Clock

variable {c : Clock} {q : Queue Packet}

theorem seek_at (c : Clock) (hq : q.Ordered) : (c.seek q).At (c.walk q.passed q.ahead) :=
  Scan.at_run q.unscanned (s := { clock := c, queue := q }) hq rfl rfl

theorem ahead_seek_of_lost (hq : q.Ordered) (h : (c.seek q).found = false) :
    (c.seek q).queue.ahead = [] := by
  have hat := c.seek_at hq
  exact hat.ahead_eq.trans (ahead_walk_of_lost (hat.found_eq.symm.trans h))

theorem countFrom_eq (c : Clock) (q : Queue Packet) (n cap : Nat) {i : Nat} (hi : i < q.size) :
    c.countFrom q n cap i = min cap ((q.itemsFrom i n).countP c.isReference) := by
  induction n generalizing cap i with
  | zero => simp [countFrom]
  | succ n ih =>
    rw [Queue.itemsFrom_succ hi, List.countP_cons]
    cases cap with
    | zero => simp [countFrom]
    | succ cap =>
      rw [countFrom]
      split
      · rename_i href
        rw [ih cap (Queue.next_lt hi)]
        omega
      · rename_i href
        rw [ih (cap + 1) (Queue.next_lt hi)]
        omega

theorem blocksAhead_eq (c : Clock) (hq : q.Ordered) (cap : Nat) :
    c.blocksAhead q cap = min cap (q.ahead.countP c.isReference) :=
  countFrom_eq c q q.unscanned cap hq.mark_lt

end Clock
end PacedStream
