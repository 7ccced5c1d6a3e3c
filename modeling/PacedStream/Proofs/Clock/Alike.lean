import PacedStream.Proofs.Queue.Alike
import PacedStream.Proofs.Clock.Tracking

/-!
What a clock looks at: the identifier of a packet, whether it has a reading, and the gaps between
readings. Clocks that differ in the readings they hold, but not in the gaps to those to come, scan
corresponding queues to the same place.
-/

namespace PacedStream
set_option autoImplicit false

/-- Corresponding packets have corresponding readings, and these have the same gaps. -/
structure Clock.Likeness (R : Packet → Packet → Prop) (T : UInt64 → UInt64 → Prop) : Prop where
  pid_eq : ∀ {p p' : Packet}, R p p' → p'.pid = p.pid
  clock : ∀ {p p' : Packet}, R p p' → Option.Rel T p.clock? p'.clock?
  gap_eq : ∀ {a a' b b' : UInt64}, T a a' → T b b' →
    ClockReference.gap a' b' = ClockReference.gap a b

inductive Clock.Alike (T : UInt64 → UInt64 → Prop) (c : Clock) : Clock → Prop where
  | mk {opening? latest? : Option UInt64} (opening : Option.Rel T c.opening? opening?)
      (latest : Option.Rel T c.latest? latest?) : Alike T c { c with opening?, latest? }

structure Walk.Alike (R : Packet → Packet → Prop) (T : UInt64 → UInt64 → Prop) (w w' : Walk) :
    Prop where
  clock : w.clock.Alike T w'.clock
  passed : List.Forall₂ R w.passed w'.passed
  ahead : List.Forall₂ R w.ahead w'.ahead
  found_eq : w'.found = w.found

structure Scan.Alike (R : Packet → Packet → Prop) (T : UInt64 → UInt64 → Prop) (s s' : Scan) :
    Prop where
  clock : s.clock.Alike T s'.clock
  queue : s.queue.Alike R s'.queue
  found_eq : s'.found = s.found

theorem isSome_eq_of_rel {α : Type} {T : α → α → Prop} {x y : Option α} (h : Option.Rel T x y) :
    y.isSome = x.isSome := by
  cases h <;> rfl

namespace Clock

variable {R : Packet → Packet → Prop} {T : UInt64 → UInt64 → Prop} {c c' : Clock} {p p' : Packet}
  {passed passed' ahead ahead' : List Packet} {q q' : Queue Packet}

theorem Alike.fresh (pid? : Option UInt16) : Alike T { pinned? := pid? } { pinned? := pid? } :=
  .mk .none .none

theorem Alike.hasBlock_eq (h : c.Alike T c') : c'.hasBlock = c.hasBlock := by
  cases h with
  | mk opening latest => exact isSome_eq_of_rel opening

theorem Alike.quantum_eq (h : c.Alike T c') : c'.quantum = c.quantum := by
  cases h
  rfl

theorem Alike.credit_eq (h : c.Alike T c') : c'.credit = c.credit := by
  cases h
  rfl

theorem Alike.blocks_eq (h : c.Alike T c') : c'.blocks = c.blocks := by
  cases h
  rfl

theorem Alike.breaks_eq (h : c.Alike T c') : c'.breaks = c.breaks := by
  cases h
  rfl

theorem isBreak_eq (hlike : Likeness R T) {a a' b b' : UInt64} (ha : T a a') (hb : T b b') :
    isBreak a' b' = isBreak a b := by
  unfold isBreak
  rw [hlike.gap_eq ha hb]

theorem reading?_alike (hlike : Likeness R T) (hp : R p p') :
    (reading? p = none ∧ reading? p' = none) ∨ ∃ pid ticks ticks', reading? p = some (pid, ticks) ∧
      reading? p' = some (pid, ticks') ∧ T ticks ticks' := by
  have hclock := hlike.clock hp
  unfold reading?
  rw [hlike.pid_eq hp]
  by_cases hnull : p.pid = Packet.nullPid
  · simp [hnull]
  · simp only [hnull, if_false]
    generalize p.clock? = ticks? at hclock ⊢
    generalize p'.clock? = ticks?' at hclock ⊢
    cases hclock with
    | none => exact .inl ⟨rfl, rfl⟩
    | some hticks => exact .inr ⟨_, _, _, rfl, rfl, hticks⟩

theorem alike_observeReading (hlike : Likeness R T) (h : c.Alike T c') (pid : UInt16)
    {ticks ticks' : UInt64} (hticks : T ticks ticks') :
    (c.observeReading pid ticks).clock.Alike T (c'.observeReading pid ticks').clock ∧
      (c'.observeReading pid ticks').verdict = (c.observeReading pid ticks).verdict := by
  cases h with
  | @mk opening? latest? opening latest =>
    unfold observeReading
    dsimp only
    cases hlast : c.latest? with
    | none =>
      rw [hlast] at latest
      cases latest
      exact ⟨.mk opening (.some hticks), rfl⟩
    | some before =>
      rw [hlast] at latest
      cases latest with
      | @some _ before' hbefore =>
        dsimp only
        rw [isBreak_eq hlike hbefore hticks]
        split
        · exact ⟨.mk .none (.some hticks), rfl⟩
        · refine ⟨?_, rfl⟩
          unfold locate
          rw [hlike.gap_eq hbefore hticks]
          exact .mk (.some hbefore) (.some hticks)

theorem alike_observe (hlike : Likeness R T) (h : c.Alike T c') (hp : R p p') :
    (c.observe p).clock.Alike T (c'.observe p').clock ∧
      (c'.observe p').verdict = (c.observe p).verdict := by
  cases h with
  | @mk opening? latest? opening latest =>
    unfold observe
    rcases reading?_alike hlike hp with ⟨hnone, hnone'⟩ | ⟨pid, ticks, ticks', hread, hread', hticks⟩
    · rw [hnone, hnone']
      exact ⟨.mk opening latest, rfl⟩
    · rw [hread, hread']
      dsimp only
      split
      · exact alike_observeReading (c := c.counted.learn pid) hlike (.mk opening latest) pid hticks
      · exact ⟨.mk opening latest, rfl⟩

theorem alike_walk (hlike : Likeness R T) (h : c.Alike T c') (hpassed : List.Forall₂ R passed passed')
    (hahead : List.Forall₂ R ahead ahead') : (c.walk passed ahead).Alike R T (c'.walk passed' ahead') := by
  induction hahead generalizing c c' passed passed' with
  | nil => exact ⟨h, hpassed, .nil, rfl⟩
  | @cons p p' ahead ahead' hp hrest ih =>
    obtain ⟨hclock, hverdict⟩ := alike_observe hlike h hp
    have hkept : List.Forall₂ R ((c.observe p).verdict.keep passed p)
        ((c.observe p).verdict.keep passed' p') := by
      unfold Verdict.keep
      split
      · exact .cons hp .nil
      · exact List.rel_append hpassed (.cons hp .nil)
    rw [walk_cons, walk_cons, hverdict]
    split
    · exact ⟨hclock, hkept, hrest, rfl⟩
    · exact ih hclock hkept

theorem alike_seek (hlike : Likeness R T) (h : c.Alike T c') (hq : q.Alike R q') :
    (c.seek q).Alike R T (c'.seek q') := by
  have hat := c.seek_at hq.ordered
  have hat' := c'.seek_at hq.ordered'
  have hwalk := alike_walk hlike h hq.passed hq.ahead
  obtain ⟨_, hminSize, hsize⟩ := Scan.keeps_run q.unscanned { clock := c, queue := q }
  obtain ⟨_, hminSize', hsize'⟩ := Scan.keeps_run q'.unscanned { clock := c', queue := q' }
  refine ⟨?_, ⟨hat.ordered, hat'.ordered, ?_, ?_, ?_, ?_⟩, ?_⟩
  · rw [hat.clock_eq, hat'.clock_eq]
    exact hwalk.clock
  · exact hsize'.trans (hq.size_eq.trans hsize.symm)
  · exact hminSize'.trans (hq.minSize_eq.trans hminSize.symm)
  · rw [hat.passed_eq, hat'.passed_eq]
    exact hwalk.passed
  · rw [hat.ahead_eq, hat'.ahead_eq]
    exact hwalk.ahead
  · rw [hat.found_eq, hat'.found_eq]
    exact hwalk.found_eq

theorem countP_isReference_eq (hlike : Likeness R T) (h : c.Alike T c')
    (hahead : List.Forall₂ R ahead ahead') :
    ahead'.countP c'.isReference = ahead.countP c.isReference := by
  induction hahead with
  | nil => rfl
  | @cons p p' _ _ hp _ ih =>
    have hone : c'.isReference p' = c.isReference p := by
      cases h
      unfold isReference
      rw [hlike.pid_eq hp, isSome_eq_of_rel (hlike.clock hp)]
    rw [List.countP_cons, List.countP_cons, ih, hone]

theorem alike_recount (hlike : Likeness R T) (h : c.Alike T c') (hq : q.Alike R q') (enough : Nat) :
    (c.recount q enough).Alike T (c'.recount q' enough) := by
  have hcount : c'.blocksAhead q' enough = c.blocksAhead q enough := by
    rw [blocksAhead_eq c hq.ordered, blocksAhead_eq c' hq.ordered',
      countP_isReference_eq hlike h hq.ahead]
  have hblock := h.hasBlock_eq
  unfold recount
  rw [hcount, hblock]
  cases h with
  | mk opening latest => exact .mk opening latest

theorem Alike.rewind (h : c.Alike T c') : c.rewind.Alike T c'.rewind := by
  cases h
  exact .mk .none .none

theorem Alike.relearn (h : c.Alike T c') : c.relearn.Alike T c'.relearn := by
  cases h
  exact .mk .none .none

end Clock

namespace Scan

variable {R : Packet → Packet → Prop} {T : UInt64 → UInt64 → Prop} {s s' : Scan}

theorem Alike.rewind (h : s.Alike R T s') : s.rewind.Alike R T s'.rewind :=
  ⟨h.clock.rewind, h.queue.rewind, h.found_eq⟩

theorem Alike.relearn (h : s.Alike R T s') : s.relearn.Alike R T s'.relearn :=
  ⟨h.clock.relearn, h.queue.rewind, h.found_eq⟩

end Scan
end PacedStream
