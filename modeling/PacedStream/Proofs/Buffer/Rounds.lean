import PacedStream.Proofs.Buffer.Course

/-!
The rounds of a tick as courses of moves. Every round but the last comes to a moment and sends the
packet in front, and a round that finds no block loses the clock.
-/

namespace PacedStream.Buffer
set_option autoImplicit false

variable {b : Buffer} {now : Int}

theorem course_settle (b : Buffer) (now : Int) : Course b [] (b.settle now).buffer := by
  refine .quiet (.recount b) ?_
  have hconsider : Move b.recount []
      { b.recount with sizing := b.sizing.consider now } := .adjust rfl rfl rfl rfl
  unfold settle
  dsimp only
  split
  · exact .single hconsider
  · rename_i queue hhalve
    exact .quiet hconsider (.single (.resize (Sizing.resize?_of_halve? hhalve)))

theorem lists_settle (hq : b.queue.Ordered) :
    (b.settle now).buffer.queue.Ordered ∧ (b.settle now).buffer.queue.passed = b.queue.passed ∧
      (b.settle now).buffer.queue.ahead = b.queue.ahead := by
  unfold settle
  dsimp only
  split
  · exact ⟨hq, rfl, rfl⟩
  · rename_i queue hhalve
    have hresized := Queue.resized_of_resize? hq (Sizing.resize?_of_halve? hhalve)
    exact ⟨hresized.ordered, hresized.passed_eq, hresized.ahead_eq⟩

theorem flow_settle : (b.settle now).buffer.flow = b.flow := by
  unfold settle
  dsimp only
  split <;> rfl

/-- A round comes to its moment with a lead of the scan, or with the next block found. -/
inductive ComesTo (b : Buffer) (now : Int) : Buffer → Prop where
  | ahead (lead : b.queue.head ≠ b.queue.mark) : ComesTo b now b.spend
  | found (noLead : b.queue.head = b.queue.mark) (found : b.spend.sought.found = true) :
      ComesTo b now ((b.spend.withScan b.spend.sought).settle now).buffer

theorem moment_of_lead (lead : b.queue.head ≠ b.queue.mark) : b.moment? now = some b.spend :=
  if_neg lead

theorem moment_of_noLead (noLead : b.queue.head = b.queue.mark) : b.moment? now =
    if b.spend.sought.found then some ((b.spend.withScan b.spend.sought).settle now).buffer
    else none :=
  if_pos noLead

theorem moment_of_found (noLead : b.queue.head = b.queue.mark)
    (found : b.spend.sought.found = true) :
    b.moment? now = some ((b.spend.withScan b.spend.sought).settle now).buffer :=
  (moment_of_noLead noLead).trans (if_pos found)

theorem comesTo_of_moment {m : Buffer} (h : b.moment? now = some m) : b.ComesTo now m := by
  by_cases noLead : b.queue.head = b.queue.mark
  · rw [moment_of_noLead noLead] at h
    split at h
    · rename_i found
      cases h
      exact .found noLead found
    · cases h
  · rw [moment_of_lead noLead] at h
    cases h
    exact .ahead noLead

theorem lost_of_moment (h : b.moment? now = none) :
    b.queue.head = b.queue.mark ∧ b.spend.sought.found = false := by
  by_cases noLead : b.queue.head = b.queue.mark
  · rw [moment_of_noLead noLead] at h
    split at h
    · cases h
    · rename_i lost
      exact ⟨noLead, Bool.eq_false_iff.mpr lost⟩
  · rw [moment_of_lead noLead] at h
    cases h

/-- At the moment of a round the scan has a lead, and what is queued is what the scan of this round
left, if there was one. -/
theorem lists_moment {m : Buffer} (hq : b.queue.Ordered) (h : b.moment? now = some m) :
    m.queue.Ordered ∧ m.queue.head ≠ m.queue.mark ∧ m.queue.toList =
      (if b.queue.head = b.queue.mark then b.spend.sought.queue else b.queue).toList := by
  cases comesTo_of_moment h with
  | ahead lead =>
    rw [if_neg lead]
    exact ⟨hq, lead, rfl⟩
  | found noLead found =>
    have hsought := ordered_sought (b := b.spend) hq
    obtain ⟨hsettled, hpassed, hahead⟩ :
        ((b.spend.withScan b.spend.sought).settle now).buffer.queue.Ordered ∧ _ :=
      lists_settle hsought
    refine ⟨hsettled, fun hmark => ?_, ?_⟩
    · have hnil := hsettled.head_eq_mark_iff.mp hmark
      rw [hpassed] at hnil
      exact (times_sought (b := b.spend) hq found).ne_nil hnil
    · rw [if_pos noLead, hsettled.toList_eq, hpassed, hahead, hsought.toList_eq]
      rfl

theorem course_moment {m : Buffer} (hq : b.queue.Ordered) (hrun : b.flow = .running)
    (h : b.moment? now = some m) : Course b [] m ∧ m.queue.Ordered ∧ m.flow = .running ∧
      m.queue.head ≠ m.queue.mark := by
  obtain ⟨hordered, hahead, _⟩ := lists_moment hq h
  have hspend : Move b [] b.spend := .credit b (b.clock.credit - b.clock.quantum)
  cases comesTo_of_moment h with
  | ahead => exact ⟨.single hspend, hordered, hrun, hahead⟩
  | found noLead found =>
    have hnext : Move b.spend [] (b.spend.withScan b.spend.sought) := .next hrun noLead found
    exact ⟨.quiet hspend (.quiet hnext (course_settle _ now)), hordered,
      flow_settle.trans hrun, hahead⟩

theorem course_lost (hrun : b.flow = .running) (h : b.moment? now = none) :
    Course b [] (b.spend.withScan b.spend.sought).relearn := by
  obtain ⟨noLead, lost⟩ := lost_of_moment h
  have hspend : Move b [] b.spend := .credit b (b.clock.credit - b.clock.quantum)
  exact .quiet hspend (.single (.lose hrun noLead lost))

theorem paceOnce_of_moment {s : Step} {m : Buffer} (h : s.buffer.moment? now = some m) :
    ∃ log, paceOnce now s = (sendFront { s with buffer := m, log }, true) := by
  unfold paceOnce
  dsimp only
  cases comesTo_of_moment h with
  | ahead lead => exact ⟨s.log, if_neg lead⟩
  | found noLead found => exact ⟨_, (if_pos noLead).trans (if_pos found)⟩

theorem paceOnce_of_lost {s : Step} (h : s.buffer.moment? now = none) :
    ∃ log, paceOnce now s =
      ({ s with buffer := (s.buffer.spend.withScan s.buffer.spend.sought).relearn, log }, false) := by
  obtain ⟨noLead, lost⟩ := lost_of_moment h
  unfold paceOnce
  dsimp only
  exact ⟨_, (if_pos noLead).trans (if_neg (Bool.eq_false_iff.mp lost))⟩

/-- What every round that sends keeps holds after all rounds of a tick, or else what the round that
loses the clock turns it into. -/
theorem paceLoop_induct (now : Int) (flows lost : Step → Prop) (n : Nat) {s : Step}
    (sends : ∀ {s : Step} {m : Buffer} (log : Array Message), flows s →
      s.buffer.moment? now = some m → flows (sendFront { s with buffer := m, log }))
    (loses : ∀ {s : Step} (log : Array Message), flows s → s.buffer.moment? now = none →
      lost { s with buffer := (s.buffer.spend.withScan s.buffer.spend.sought).relearn, log })
    (start : flows s) : flows (paceLoop now n s) ∨ lost (paceLoop now n s) := by
  induction n generalizing s with
  | zero => exact .inl start
  | succ n ih =>
    unfold paceLoop
    split
    · cases hmoment : s.buffer.moment? now with
      | none =>
        obtain ⟨log, honce⟩ := paceOnce_of_lost hmoment
        rw [honce]
        exact .inr (loses log start hmoment)
      | some m =>
        obtain ⟨log, honce⟩ := paceOnce_of_moment hmoment
        rw [honce]
        exact ih (sends log start hmoment)
    · exact .inl start

theorem course_paceLoop (now : Int) (n : Nat) {s : Step} (hq : s.buffer.queue.Ordered)
    (hrun : s.buffer.flow = .running) :
    Course s.buffer ((moments now n s.buffer).map .sent) (paceLoop now n s).buffer ∧
      (paceLoop now n s).sent.toList =
        s.sent.toList ++ ((moments now n s.buffer).map Event.sent).flatMap Event.delivered := by
  induction n generalizing s with
  | zero => exact ⟨.done _, by simp [paceLoop, moments]⟩
  | succ n ih =>
    unfold paceLoop moments
    by_cases hcredit : s.buffer.clock.quantum ≤ s.buffer.clock.credit
    · rw [if_pos hcredit, if_pos hcredit]
      cases hmoment : s.buffer.moment? now with
      | none =>
        obtain ⟨log, honce⟩ := paceOnce_of_lost hmoment
        rw [honce]
        exact ⟨course_lost hrun hmoment, by simp⟩
      | some m =>
        obtain ⟨log, honce⟩ := paceOnce_of_moment hmoment
        obtain ⟨hcourse, hordered, hrunning, hlead⟩ := course_moment hq hrun hmoment
        have hsend := Move.send hrunning hlead
        have hrest := ih (s := sendFront { s with buffer := m, log })
          (ordered_move hsend hordered) hrunning
        rw [honce]
        refine ⟨hcourse.trans (.step hsend hrest.1), hrest.2.trans ?_⟩
        cases hdelivers : m.delivers <;>
          simp [sendFront, Event.delivered, hdelivers, sendOff]
    · rw [if_neg hcredit, if_neg hcredit]
      exact ⟨.done _, by simp⟩

end PacedStream.Buffer
