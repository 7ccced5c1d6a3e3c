import PacedStream.Proofs.Buffer.Containment

/-!
The rounds of a tick without a bound on their number, as the credit alone ends them. Main statement:
from every buffer reached from a new one, whatever credit and quantum are, they come to an end after
at most one round more than packets are queued. Each round but the last takes exactly one packet off
the front, and no round takes away what lies behind the last break that it meets.
-/

namespace PacedStream
set_option autoImplicit false

namespace Scan

variable {s t : Scan} {n : Nat}

theorem step_unbroken (hq : s.queue.Ordered) (hne : s.queue.mark ≠ s.queue.tail)
    (hlatest : s.clock.latest? ≠ none) (hkept : s.breaks = false) :
    s.step.queue.toList = s.queue.toList ∧ s.step.clock.latest? ≠ none := by
  have hall : s.queue.toList = s.queue.toList.drop 0 := rfl
  obtain ⟨v, _, hobs, hlist, _, hbreaks, _⟩ := step_places hq hne hall
  generalize s.step.clock = c' at hobs ⊢
  cases hobs with
  | pass => exact ⟨(hlist rfl).1, hlatest⟩
  | anchor _ _ first => exact absurd first hlatest
  | broken => exact absurd (hbreaks.mpr rfl) (Bool.eq_false_iff.mp hkept)
  | located => exact ⟨(hlist rfl).1, nofun⟩

theorem step_broken (hq : s.queue.Ordered) (hne : s.queue.mark ≠ s.queue.tail)
    (hbreak : s.breaks = true) : s.step.queue.toList = s.here :: s.step.queue.ahead ∧
      s.step.clock.latest? ≠ none ∧ s.step.found = false := by
  obtain ⟨v, _, hobs, hpassed, hordered, hbreaks, hfound⟩ := step_lists hq hne
  have hv := hbreaks.mp hbreak
  subst hv
  refine ⟨?_, ?_, ?_⟩
  · rw [hordered.toList_eq, hpassed]
    rfl
  · generalize s.step.clock = c' at hobs ⊢
    cases hobs with
    | broken => exact nofun
  · rw [Bool.eq_false_iff, ne_eq, hfound]
    exact nofun

/-- What is left after a scan: from the last packet that breaks the clock on, or everything if none
does and there is a reading to measure from. -/
theorem toList_run (n : Nat) (hq : s.queue.Ordered) (hn : s.queue.unscanned = n) :
    (s.clock.latest? ≠ none → (visits n s).filter breaks = [] →
      (run n s).queue.toList = s.queue.toList) ∧
    ∀ t, ((visits n s).filter breaks).getLast? = some t →
      (run n s).queue.toList = t.here :: t.step.queue.ahead := by
  induction n generalizing s with
  | zero =>
    refine ⟨fun _ _ => rfl, fun t ht => ?_⟩
    cases ht
  | succ n ih =>
    obtain ⟨hne, hleft⟩ := unscanned_step hq hn
    obtain ⟨_, _, _, _, hordered, _, _⟩ := step_lists hq hne
    obtain ⟨hwhole, hlast⟩ := ih hordered hleft
    unfold run visits
    dsimp only
    cases hbreak : s.breaks with
    | true =>
      obtain ⟨hlist, hlatest, hmore⟩ := step_broken hq hne hbreak
      rw [hmore, if_neg Bool.false_ne_true, if_neg Bool.false_ne_true,
        List.filter_cons_of_pos hbreak]
      refine ⟨fun _ hnone => absurd hnone (List.cons_ne_nil _ _), fun t ht => ?_⟩
      cases hrest : (visits n s.step).filter breaks with
      | nil =>
        rw [hrest] at ht
        cases ht
        exact (hwhole hlatest hrest).trans hlist
      | cons first later =>
        rw [hrest, List.getLast?_cons_cons, ← hrest] at ht
        exact hlast t ht
    | false =>
      rw [List.filter_cons_of_neg (by simp [hbreak])]
      cases hfound : s.step.found with
      | true =>
        rw [if_pos rfl, if_pos rfl]
        refine ⟨fun hlatest _ => (step_unbroken hq hne hlatest hbreak).1, fun t ht => ?_⟩
        cases ht
      | false =>
        rw [if_neg Bool.false_ne_true, if_neg Bool.false_ne_true]
        refine ⟨fun hlatest hnone => ?_, hlast⟩
        obtain ⟨hlist, hlatest'⟩ := step_unbroken hq hne hlatest hbreak
        exact (hwhole hlatest' hnone).trans hlist

end Scan

namespace Buffer

variable {b m : Buffer} {s after last : Step} {begins : List Step} {now : Int}

/-- What the scan of a round leaves of the queued packets: those from the last break on, or all of
them if the clock has a lock and there is no break, or if there is no scan. -/
structure Leaves (b : Buffer) (items : List Packet) : Prop where
  suffix : items <:+ b.queue.toList
  unsearched : b.search = [] → items = b.queue.toList
  whole : b.clock.locked = true → b.search.flatMap meets = [] → items = b.queue.toList
  last : ∀ t, (b.search.flatMap meets).getLast? = some t → items = t.here :: t.step.queue.ahead

theorem leaves_search (hq : b.queue.Ordered) :
    Leaves b (if b.queue.head = b.queue.mark then b.spend.sought.queue else b.queue).toList := by
  by_cases noLead : b.queue.head = b.queue.mark
  · have hmeets : b.search.flatMap meets = b.spend.meets := by
      rw [search_of_noLead noLead, List.flatMap_singleton]
    have hfollows := follows_sought (b := b.spend) hq
    rw [if_pos noLead]
    refine ⟨hfollows.suffix, fun hsearch => ?_, fun hlocked hnone => ?_, fun t ht => ?_⟩
    · rw [search_of_noLead noLead] at hsearch
      cases hsearch
    · have hbreaks := breaks_sought b.spend
      rw [← hmeets, hnone] at hbreaks
      exact hfollows.whole hlocked hbreaks
    · rw [hmeets] at ht
      exact (Scan.toList_run (s := b.spend.scan) _ hq rfl).2 t ht
  · rw [if_neg noLead]
    refine ⟨List.suffix_refl _, fun _ => rfl, fun _ _ => rfl, fun t ht => ?_⟩
    rw [search_of_lead noLead] at ht
    cases ht

/-- A round sends the first of the packets that its scan leaves, or loses the clock and sends none;
either way every break that the clock counts is one that the scan meets. -/
inductive Round (now : Int) (s : Step) : Step × Bool → Prop where
  | sends {p : Packet} {rest : List Packet} {after : Step}
      (leaves : Leaves s.buffer (p :: rest))
      (toList_eq : after.buffer.queue.toList = rest)
      (sent_eq : after.sent = if s.buffer.delivers then s.sent.push p else s.sent)
      (flow_eq : after.buffer.flow = s.buffer.flow)
      (breaks_eq : after.buffer.clock.breaks =
        s.buffer.clock.breaks + (s.buffer.search.flatMap meets).length) :
      Round now s (after, true)
  | loses {after : Step}
      (buffer_eq : after.buffer = (s.buffer.spend.withScan s.buffer.spend.sought).relearn)
      (leaves : Leaves s.buffer after.buffer.queue.toList)
      (sent_eq : after.sent = s.sent)
      (breaks_eq : after.buffer.clock.breaks =
        s.buffer.clock.breaks + (s.buffer.search.flatMap meets).length) :
      Round now s (after, false)

theorem flow_moment (h : b.moment? now = some m) : m.flow = b.flow := by
  cases comesTo_of_moment h with
  | ahead => rfl
  | found => exact flow_settle

theorem round_paceOnce (now : Int) (hq : s.buffer.queue.Ordered) :
    Round now s (paceOnce now s) := by
  have hleaves := leaves_search hq
  cases hmoment : s.buffer.moment? now with
  | none =>
    obtain ⟨log, honce⟩ := paceOnce_of_lost hmoment
    rw [if_pos (lost_of_moment hmoment).1] at hleaves
    rw [honce]
    exact .loses rfl hleaves rfl (breaks_lost hmoment)
  | some m =>
    obtain ⟨log, honce⟩ := paceOnce_of_moment hmoment
    obtain ⟨hordered, lead, htoList⟩ := lists_moment hq hmoment
    have hfront := Queue.toList_pop hordered (hordered.head_ne_tail lead)
    rw [← htoList, hfront] at hleaves
    have hdelivers := (fixed_moment hmoment).delivers_eq
    have hflow := flow_moment hmoment
    have hbreaks := breaks_moment hmoment
    rw [honce]
    refine .sends hleaves rfl ?_ hflow hbreaks
    rw [← hdelivers]
    rfl

theorem unsent_of_empty (hq : s.buffer.queue.Ordered) (hempty : s.buffer.queue.isEmpty = true) :
    (paceOnce now s).2 = false := by
  have hround := round_paceOnce now hq
  have hnil := hq.isEmpty_iff.mp hempty
  generalize paceOnce now s = once at hround ⊢
  cases hround with
  | loses => rfl
  | sends leaves =>
    have hsuffix := leaves.suffix
    rw [hnil] at hsuffix
    exact absurd (List.suffix_nil.mp hsuffix) (List.cons_ne_nil _ _)

theorem moment_of_sends (h : paceOnce now s = (after, true)) :
    ∃ m, s.buffer.moment? now = some m ∧ after.buffer = m.sendOff := by
  cases hmoment : s.buffer.moment? now with
  | none =>
    obtain ⟨log, honce⟩ := paceOnce_of_lost hmoment
    exact absurd (congrArg Prod.snd (honce.symm.trans h)) nofun
  | some m =>
    obtain ⟨log, honce⟩ := paceOnce_of_moment hmoment
    have hafter : sendFront { s with buffer := m, log } = after :=
      congrArg Prod.fst (honce.symm.trans h)
    exact ⟨m, rfl, hafter ▸ rfl⟩

theorem ordered_of_sends (hq : s.buffer.queue.Ordered) (h : paceOnce now s = (after, true)) :
    after.buffer.queue.Ordered := by
  obtain ⟨m, hmoment, hbuffer⟩ := moment_of_sends h
  obtain ⟨hordered, lead, _⟩ := lists_moment hq hmoment
  rw [hbuffer]
  exact Queue.ordered_pop hordered (hordered.head_ne_tail lead)

theorem length_of_sends (hq : s.buffer.queue.Ordered) (h : paceOnce now s = (after, true)) :
    after.buffer.queue.length < s.buffer.queue.length := by
  have hround := round_paceOnce now hq
  rw [h] at hround
  rw [← Queue.length_toList, ← Queue.length_toList]
  cases hround with
  | sends leaves toList_eq =>
    rw [toList_eq]
    exact leaves.suffix.length_le

theorem locked_moment (hq : b.queue.Ordered) (hlocked : b.clock.locked = true)
    (h : b.moment? now = some m) : m.clock.locked = true := by
  cases comesTo_of_moment h with
  | ahead => exact hlocked
  | found =>
    rw [clock_settle]
    exact (follows_sought (b := b.spend) hq).locked hlocked

theorem locked_of_sends (hq : s.buffer.queue.Ordered) (hlocked : s.buffer.clock.locked = true)
    (h : paceOnce now s = (after, true)) : after.buffer.clock.locked = true := by
  obtain ⟨m, hmoment, hbuffer⟩ := moment_of_sends h
  have hmlocked := locked_moment hq hlocked hmoment
  rw [hbuffer]
  exact hmlocked

/-- The rounds of a tick, one after the other while the credit lasts and until one loses the clock,
with the steps at which they begin. -/
inductive Rounds (now : Int) : Step → List Step → Step → Prop where
  | spent {s : Step} (short : ¬ s.buffer.clock.quantum ≤ s.buffer.clock.credit) :
      Rounds now s [] s
  | lost {s after : Step} (lasts : s.buffer.clock.quantum ≤ s.buffer.clock.credit)
      (once : paceOnce now s = (after, false)) : Rounds now s [s] after
  | next {s after last : Step} {begins : List Step}
      (lasts : s.buffer.clock.quantum ≤ s.buffer.clock.credit)
      (once : paceOnce now s = (after, true)) (rest : Rounds now after begins last) :
      Rounds now s (s :: begins) last

namespace Rounds

theorem unique {begins' : List Step} {last' : Step} (h : Rounds now s begins last)
    (h' : Rounds now s begins' last') : begins' = begins ∧ last' = last := by
  induction h generalizing begins' last' with
  | spent short =>
    cases h' with
    | spent => exact ⟨rfl, rfl⟩
    | lost lasts | next lasts => exact absurd lasts short
  | lost lasts once =>
    cases h' with
    | spent short => exact absurd lasts short
    | lost _ once' => exact ⟨rfl, congrArg Prod.fst (once'.symm.trans once)⟩
    | next _ once' => exact absurd (congrArg Prod.snd (once'.symm.trans once)) nofun
  | @next s after _ _ lasts once _ ih =>
    cases h' with
    | spent short => exact absurd lasts short
    | lost _ once' => exact absurd (congrArg Prod.snd (once'.symm.trans once)) nofun
    | @next _ after' _ _ _ once' rest' =>
      have hsame : after' = after := congrArg Prod.fst (once'.symm.trans once)
      obtain ⟨hbegins, hlast⟩ := ih (hsame ▸ rest')
      exact ⟨congrArg (s :: ·) hbegins, hlast⟩

theorem induct {motive : Step → Prop} (h : Rounds now s begins last)
    (keeps : ∀ {s after : Step}, paceOnce now s = (after, true) → motive s → motive after)
    (start : motive s) : ∀ t ∈ begins, motive t := by
  induction h with
  | spent => exact fun t ht => absurd ht List.not_mem_nil
  | lost =>
    intro t ht
    rw [List.mem_singleton.mp ht]
    exact start
  | next _ once _ ih =>
    intro t ht
    rcases List.mem_cons.mp ht with rfl | ht
    · exact start
    · exact ih (keeps once start) t ht

/-- A bound on the number of rounds that is great enough makes no difference. -/
theorem paceLoop_eq {n : Nat} (h : Rounds now s begins last) (hn : begins.length ≤ n) :
    paceLoop now n s = last := by
  induction h generalizing n with
  | spent short =>
    cases n with
    | zero => rfl
    | succ n => rw [paceLoop, if_neg short]
  | lost lasts once =>
    cases n with
    | zero => cases hn
    | succ n =>
      rw [paceLoop, if_pos lasts, once]
      rfl
  | next lasts once _ ih =>
    cases n with
    | zero => cases hn
    | succ n =>
      rw [paceLoop, if_pos lasts, once]
      exact ih (Nat.le_of_succ_le_succ hn)

theorem length_le (h : Rounds now s begins last) (hq : s.buffer.queue.Ordered) :
    begins.length ≤ s.buffer.queue.length + 1 := by
  induction h with
  | spent => exact Nat.zero_le _
  | lost => exact Nat.le_add_left 1 _
  | next _ once _ ih =>
    have hless := length_of_sends hq once
    have hrest := ih (ordered_of_sends hq once)
    rw [List.length_cons]
    omega

end Rounds

theorem rounds_exist (now : Int) (n : Nat) (hq : s.buffer.queue.Ordered) (hn : s.buffer.queue.length < n) :
    ∃ begins last, Rounds now s begins last := by
  induction n generalizing s with
  | zero => cases hn
  | succ n ih =>
    by_cases lasts : s.buffer.clock.quantum ≤ s.buffer.clock.credit
    · cases once : paceOnce now s with
      | mk after flows =>
        cases flows with
        | false => exact ⟨[s], after, .lost lasts once⟩
        | true =>
          have hless := length_of_sends hq once
          obtain ⟨begins, last, hrest⟩ := ih (ordered_of_sends hq once) (by omega)
          exact ⟨s :: begins, last, .next lasts once hrest⟩
    · exact ⟨[], s, .spent lasts⟩

/-- The rounds from a buffer on, which `begins` lists, are all that `pace` does. -/
structure Emits (now : Int) (b : Buffer) (begins : List Step) (last : Step) : Prop where
  rounds : Rounds now { buffer := b } begins last
  only : ∀ begins' last', Rounds now { buffer := b } begins' last' →
    begins' = begins ∧ last' = last
  length_le : begins.length ≤ b.queue.length + 1
  pace_eq : b.pace now = if b.clock.quantum ≤ 0 then { buffer := b } else last
  each : ∀ s ∈ begins, Round now s (paceOnce now s)
  unsent : ∀ s ∈ begins, s.buffer.queue.isEmpty = true → (paceOnce now s).2 = false
  locked : b.flow = .running → ∀ s ∈ begins, s.buffer.clock.locked = true

theorem emits_of_rounds (hq : b.queue.Ordered)
    (hlocked : b.flow = .running → b.clock.locked = true)
    (h : Rounds now { buffer := b } begins last) : Emits now b begins last := by
  have hlength : begins.length ≤ b.queue.length + 1 := h.length_le hq
  have hordered := h.induct (motive := fun s => s.buffer.queue.Ordered)
    (fun once hq => ordered_of_sends hq once) hq
  refine ⟨h, fun _ _ h' => h.unique h', hlength, ?_, fun s hs => round_paceOnce now (hordered s hs),
    fun s hs => unsent_of_empty (hordered s hs), fun hrunning s hs => ?_⟩
  · unfold pace
    split
    · rfl
    · exact h.paceLoop_eq hlength
  · have hlocks := h.induct
      (motive := fun s => s.buffer.queue.Ordered ∧ s.buffer.clock.locked = true)
      (fun once ⟨hq, hl⟩ => ⟨ordered_of_sends hq once, locked_of_sends hq hl once⟩)
      ⟨hq, hlocked hrunning⟩
    exact (hlocks s hs).2

theorem rounds_end (settings : Settings) (history : List Operation) (lastTick? : Option Int)
    (credit quantum : Float) (now : Int) :
    let b := (create settings).buffer.run history
    ∃ begins last,
      Emits now { b with lastTick?, clock := { b.clock with credit, quantum } } begins last := by
  intro b
  have hc := (coherent_create settings).run history
  let s : Step := { buffer := { b with lastTick?, clock := { b.clock with credit, quantum } } }
  have hq : s.buffer.queue.Ordered := hc.ordered
  obtain ⟨begins, last, hrounds⟩ := rounds_exist now _ hq (Nat.lt_succ_self _)
  exact ⟨begins, last, emits_of_rounds hq (fun hrunning => (hc.running hrunning).1) hrounds⟩

end Buffer
end PacedStream
