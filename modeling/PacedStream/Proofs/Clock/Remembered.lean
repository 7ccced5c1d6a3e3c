import PacedStream.Proofs.Clock.Tracking

/-!
Readings behind the scan. A clock remembers no more than two readings, and a scan that was taken up
without a block passes no more of its own readings than those it then remembers.
-/

namespace PacedStream
namespace Clock
set_option autoImplicit false

variable {c c' : Clock} {p : Packet} {pid : UInt16} {ticks : UInt64} {passed ahead : List Packet}
  {v : Verdict}

/-- A packet whose reading the clock takes. -/
def owns (c : Clock) (p : Packet) : Bool := (reading? p).any fun r => c.reference?.getD r.1 = r.1

theorem owns_of_reading? (hread : reading? p = some (pid, ticks)) :
    c.owns p = decide (c.reference?.getD pid = pid) := by
  simp [owns, hread]

theorem owns_eq_false (other : ∀ pid ticks, reading? p = some (pid, ticks) →
    c.reference?.getD pid ≠ pid) : c.owns p = false := by
  cases hread : reading? p with
  | none => simp [owns, hread]
  | some r =>
    rw [owns_of_reading? hread]
    exact decide_eq_false (other _ _ hread)

theorem owns_congr (h : c'.reference? = c.reference?) : c'.owns = c.owns := by
  funext p
  rw [owns, owns, h]

/-- A clock that learns an identifier gives up the readings on others. -/
theorem owns_of_learn (h : (c.counted.learn pid).owns p = true) : c.owns p = true := by
  cases hread : reading? p with
  | none => simp [owns, hread] at h
  | some r =>
    rw [owns_of_reading? hread] at h ⊢
    cases href : c.reference? with
    | none => simp
    | some pid' =>
      have hsame : (c.counted.learn pid).reference? = some pid' := by
        simp [learn, counted, href]
      rwa [hsame] at h

theorem isReference_eq_owns (href : c.reference? = some pid) (hnull : pid ≠ Packet.nullPid) :
    c.isReference = c.owns := by
  funext p
  rw [isReference, owns, reading?, href]
  by_cases hpid : p.pid = Packet.nullPid
  · have hne : pid ≠ p.pid := fun h => hnull (h.trans hpid)
    simp [hpid, hnull]
  · cases p.clock? <;> simp [hpid]

def anchors (c : Clock) : Nat := if c.latest?.isSome then 1 else 0

/-- The readings that a clock remembers. -/
def remembered (c : Clock) : Nat := if c.hasBlock then 2 else c.anchors

theorem anchors_le_remembered (c : Clock) : c.anchors ≤ c.remembered := by
  unfold remembered anchors
  split <;> split <;> omega

theorem countP_learn_le (passed : List Packet) (pid : UInt16) :
    passed.countP (c.counted.learn pid).owns ≤ passed.countP c.owns :=
  List.countP_mono_left fun _ _ h => owns_of_learn h

theorem anchors_observes (hobs : Observes c p c' v) (hv : v ≠ .located)
    (h : passed.countP c.owns ≤ c.anchors) : (v.keep passed p).countP c'.owns ≤ c'.anchors := by
  cases hobs with
  | pass other =>
    have hsame : c.counted.owns = c.owns := owns_congr rfl
    have hanchors : c.counted.anchors = c.anchors := rfl
    have hp := owns_eq_false other
    simpa [Verdict.keep, Verdict.drops, hsame, hanchors, hp] using h
  | @anchor pid ticks read own first =>
    have hnone : passed.countP (c.counted.learn pid).owns = 0 := by
      have hle := countP_learn_le (c := c) passed pid
      have hzero : c.anchors = 0 := by simp [anchors, first]
      omega
    have hsame : ((c.counted.learn pid).anchor ticks).owns = (c.counted.learn pid).owns :=
      owns_congr rfl
    have hone : ((c.counted.learn pid).anchor ticks).anchors = 1 := rfl
    have hlast : List.countP (c.counted.learn pid).owns [p] ≤ 1 := List.countP_le_length
    rw [hsame, hone]
    unfold Verdict.keep
    split
    · exact hlast
    · rw [List.countP_append]
      omega
  | @broken pid before ticks =>
    have hone : ((c.counted.learn pid).restart ticks).anchors = 1 := rfl
    rw [hone]
    exact List.countP_le_length (l := [p])
  | located => exact absurd rfl hv

theorem anchors_located (hobs : Observes c p c' .located) (h : passed.countP c.owns ≤ c.anchors) :
    (passed ++ [p]).countP c'.owns ≤ 2 := by
  cases hobs with
  | @located pid before ticks read own last =>
    have hsame : ((c.counted.learn pid).locate before ticks).owns = (c.counted.learn pid).owns :=
      owns_congr rfl
    have hle := countP_learn_le (c := c) passed pid
    have hanchors : c.anchors = 1 := by simp [anchors, last]
    have hlast : List.countP (c.counted.learn pid).owns [p] ≤ 1 := List.countP_le_length
    rw [hsame, List.countP_append]
    omega

theorem remembered_walk (h : passed.countP c.owns ≤ c.anchors) :
    (c.walk passed ahead).passed.countP (c.walk passed ahead).clock.owns ≤
      (c.walk passed ahead).clock.remembered := by
  have hwalk : ((c.walk passed ahead).found = false → _) ∧ _ := walk_induct
    (fun c' passed' _ => passed'.countP c'.owns ≤ c'.anchors)
    (fun c' passed' _ => passed'.countP c'.owns ≤ 2)
    (fun hobs hv hbefore => anchors_observes hobs hv hbefore)
    (fun hobs hbefore => anchors_located hobs hbefore) h
  cases hfound : (c.walk passed ahead).found with
  | false => exact Nat.le_trans (hwalk.1 hfound) (anchors_le_remembered _)
  | true =>
    have hblock := (times_walk hfound).hasBlock
    have htwo : (c.walk passed ahead).clock.remembered = 2 := if_pos hblock
    rw [htwo]
    exact hwalk.2 hfound

end Clock
end PacedStream
