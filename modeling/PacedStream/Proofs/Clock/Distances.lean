import Mathlib.Algebra.Group.Nat.Defs
import Mathlib.Algebra.Ring.Int.Defs
import PacedStream.Proofs.Clock.Visits
import PacedStream.Proofs.Packet.Readings

/-!
Distances between readings. Nothing keeps the extension of a reading below the 300 ticks of its
base, so a reading can lie up to 211 ticks beyond the circle. Main statement: whatever packets a
clock is shown, two readings that it compares are told apart by their distance on the circle. The
words give this distance, unless the first reading lies so far beyond the circle, and the second so
close to its start, that the difference runs below zero; a scan reports an overflow exactly if it
comes to such a comparison.
-/

namespace PacedStream
set_option autoImplicit false

namespace ClockReference

/-- The greatest reading, with all bits of base and extension up. -/
def greatest : Nat := wrap.toNat + 211

/-- Six bytes hold 33 bits of base and nine bits of extension. -/
theorem toNat_decode_le (a b c d e f : UInt8) : (decode a b c d e f).toNat ≤ greatest := by
  have hbase : base a b c d e < 2 ^ 33 := base_lt
  have hextension : extension e f < 512 := extension_lt
  calc (decode a b c d e f).toNat
    _ = base a b c d e * 300 + extension e f := toNat_decode
    _ ≤ (2 ^ 33 - 1) * 300 + (2 ^ 9 - 1) := by omega
    _ = greatest := rfl

/-- Ticks from one reading to the next along the circle. -/
def residue (before after : UInt64) : Int := ((after.toNat : Int) - before.toNat) % wrap.toNat

end ClockReference

theorem Packet.toNat_clock?_le {p : Packet} {ticks : UInt64} (h : p.clock? = some ticks) :
    ticks.toNat ≤ ClockReference.greatest := by
  unfold Packet.clock? at h
  split at h
  · cases h
    exact ClockReference.toNat_decode_le _ _ _ _ _ _
  · cases h

namespace Clock

open ClockReference (wrap gap gap? greatest residue)

variable {c c' : Clock} {p : Packet} {v : Verdict} {before after : UInt64}

/-- What the words make of two readings. -/
structure Compared (before after : UInt64) : Prop where
  fits : after.toNat + wrap.toNat < UInt64.size
  /-- Checked words end where the difference runs below zero, and give the same number elsewhere. -/
  checked : gap? before after =
    if before.toNat ≤ after.toNat + wrap.toNat then .ok (gap before after) else .error .difference
  gap_lt : (gap before after).toNat < wrap.toNat
  exact_iff : ((gap before after).toNat : Int) = residue before after ↔
    before.toNat ≤ after.toNat + wrap.toNat
  /-- A difference below zero is short of the distance by as much as a word is of whole circles. -/
  short : after.toNat + wrap.toNat < before.toNat → before.toNat ≤ wrap.toNat + 211 ∧
    after.toNat < 211 ∧ ((gap before after).toNat : Int) + 52 * 2 ^ 33 = residue before after
  /-- Either way the readings bound a block by their distance. -/
  isBreak_iff : isBreak before after = true ↔
    residue before after = 0 ∨ (maxGap.toNat : Int) ≤ residue before after

theorem isBreak_eq_true_iff : isBreak before after = true ↔
    (gap before after).toNat = 0 ∨ maxGap.toNat ≤ (gap before after).toNat := by
  have hzero : gap before after = 0 ↔ (gap before after).toNat = 0 := UInt64.toNat_inj.symm
  simp only [isBreak, Bool.or_eq_true, decide_eq_true_iff, hzero, UInt64.le_iff_toNat_le]

theorem gap_of_underflow (h : after.toNat + wrap.toNat < before.toNat)
    (hbefore : before.toNat ≤ greatest) :
    ((gap before after).toNat : Int) + 52 * 2 ^ 33 = residue before after := by
  have hwrap : wrap.toNat = 2576980377600 := rfl
  unfold gap residue
  rw [greatest, hwrap] at hbefore
  rw [hwrap] at h
  rw [UInt64.toNat_mod, UInt64.toNat_sub, UInt64.toNat_add, hwrap]
  omega

theorem gap?_eq (hfits : after.toNat + wrap.toNat < UInt64.size) : gap? before after =
    if before.toNat ≤ after.toNat + wrap.toNat then .ok (gap before after)
    else .error .difference := by
  have hsum : (after + wrap).toNat = after.toNat + wrap.toNat := by
    rw [UInt64.toNat_add]
    exact Nat.mod_eq_of_lt hfits
  unfold gap?
  rw [Word.add?_eq, if_pos hfits]
  change Word.sub? (after + wrap) before >>= _ = _
  rw [Word.sub?_eq, hsum]
  split <;> rfl

theorem compared (hbefore : before.toNat ≤ greatest) (hafter : after.toNat ≤ greatest) :
    Compared before after := by
  have hwrap : wrap.toNat = 2576980377600 := rfl
  have hmax : maxGap.toNat = 4050000 := rfl
  have hgreatest : greatest = wrap.toNat + 211 := rfl
  have hfits : after.toNat + wrap.toNat < UInt64.size := by
    have hsize : UInt64.size = 18446744073709551616 := rfl
    omega
  have hlt : (gap before after).toNat < wrap.toNat := by
    unfold gap
    rw [UInt64.toNat_mod]
    exact Nat.mod_lt _ (by decide)
  by_cases hle : before.toNat ≤ after.toNat + wrap.toNat
  · have hexact : ((gap before after).toNat : Int) = residue before after :=
      toNat_gap_of_le hle hfits
    refine ⟨hfits, gap?_eq hfits, hlt, iff_of_true hexact hle,
      fun h => absurd hle (Nat.not_le.mpr h), ?_⟩
    rw [isBreak_eq_true_iff, ← hexact]
    omega
  · have hshort := gap_of_underflow (Nat.not_le.mp hle) hbefore
    have hresidue : residue before after =
        ((after.toNat : Int) - before.toNat) % 2576980377600 := rfl
    refine ⟨hfits, gap?_eq hfits, hlt, iff_of_false (by omega) hle,
      fun _ => ⟨by omega, by omega, hshort⟩, ?_⟩
    rw [isBreak_eq_true_iff]
    omega

/-- The reading before and the one at hand, if the packet makes the clock compare two. -/
def compared? (c : Clock) (p : Packet) : Option (UInt64 × UInt64) :=
  match c.latest?, reading? p with
  | some before, some (pid, after) =>
    if c.reference?.getD pid = pid then some (before, after) else none
  | _, _ => none

theorem compared?_eq_some_iff : c.compared? p = some (before, after) ↔
    c.latest? = some before ∧ ∃ pid, reading? p = some (pid, after) ∧
      c.reference?.getD pid = pid := by
  unfold compared?
  split
  · rename_i hlatest hread
    rw [hlatest, hread]
    split
    · rename_i hown
      constructor
      · rintro ⟨⟩
        exact ⟨rfl, _, rfl, hown⟩
      · rintro ⟨⟨⟩, pid, ⟨⟩, _⟩
        rfl
    · rename_i hother
      refine iff_of_false nofun ?_
      rintro ⟨_, pid, ⟨⟩, hown⟩
      exact hother hown
  · rename_i hnone
    refine iff_of_false nofun ?_
    rintro ⟨hlatest, pid, hread, _⟩
    exact hnone _ _ _ hlatest hread

theorem verdict_of_compared? (h : c.compared? p = some (before, after)) :
    (c.observe p).verdict = if isBreak before after then .broken else .located := by
  obtain ⟨hlatest, pid, hread, hown⟩ := compared?_eq_some_iff.mp h
  have hobs := observes c p
  generalize (c.observe p).clock = c' at hobs
  generalize (c.observe p).verdict = v at hobs ⊢
  cases hobs with
  | pass other => exact absurd hown (other _ _ hread)
  | anchor _ _ first => exact absurd (hlatest.symm.trans first) nofun
  | broken read _ last gap | located read _ last gap =>
    cases hread.symm.trans read
    cases hlatest.symm.trans last
    rw [gap]
    rfl

def overflowAt? (c : Clock) (p : Packet) : Option Overflow :=
  (c.compared? p).bind fun (before, after) => Word.overflow? (gap? before after)

theorem firstOverflow?_observeReading (c : Clock) (pid : UInt16) (ticks : UInt64) :
    Message.firstOverflow? (c.observeReading pid ticks).log =
      c.latest?.bind fun before => Word.overflow? (gap? before ticks) := by
  unfold observeReading
  cases c.latest? with
  | none => rfl
  | some before =>
    dsimp only [Option.bind_some]
    generalize gap? before ticks = computed
    split
    · rw [Message.firstOverflow?_append, Message.firstOverflow?_ofChecked]
      exact Option.or_none
    · rw [Message.firstOverflow?_append, Message.firstOverflow?_ofChecked]
      cases c.locked <;> exact Option.or_none

theorem firstOverflow?_observe (c : Clock) (p : Packet) :
    Message.firstOverflow? (c.observe p).log = c.overflowAt? p := by
  unfold observe overflowAt? compared?
  cases hread : reading? p with
  | none => cases c.latest? <;> rfl
  | some reading =>
    obtain ⟨pid, ticks⟩ := reading
    dsimp only
    by_cases hown : c.reference?.getD pid = pid
    · have hlearned : Message.firstOverflow? (c.learned pid) = none := by
        unfold learned
        split <;> rfl
      have hlatest : (c.counted.learn pid).latest? = c.latest? := rfl
      rw [if_pos hown, Message.firstOverflow?_append, hlearned, Option.none_or]
      change Message.firstOverflow? ((c.counted.learn pid).observeReading pid ticks).log = _
      rw [firstOverflow?_observeReading, hlatest]
      cases c.latest? with
      | none => rfl
      | some before => simp only [if_pos hown, Option.bind_some]
    · rw [if_neg hown]
      cases c.latest? with
      | none => rfl
      | some before =>
        simp only [if_neg hown, Option.bind_none]
        rfl

/-- What is done to a clock besides single packets. -/
inductive Use where
  | seek (q : Queue Packet)
  | recount (q : Queue Packet) (enough : Nat)
  | rewind
  | relearn
  | forget
  | pin (pid? : Option UInt16)

def use (c : Clock) : Use → Clock
  | .seek q => (c.seek q).clock
  | .recount q enough => c.recount q enough
  | .rewind => c.rewind
  | .relearn => c.relearn
  | .forget => c.forget
  | .pin pid? => c.pin pid?

/-- The latest reading came out of a packet. -/
def Reads (c : Clock) : Prop := ∀ ticks, c.latest? = some ticks → ticks.toNat ≤ greatest

theorem reads_of_none (h : c.latest? = none) : c.Reads := by
  intro ticks hlatest
  exact absurd (h.symm.trans hlatest) nofun

theorem Reads.observes (h : c.Reads) (hobs : Observes c p c' v) : c'.Reads := by
  cases hobs with
  | pass => exact h
  | anchor read | broken read | located read =>
    obtain ⟨_, _, hclock⟩ := reading?_eq_some_iff.mp read
    rintro _ ⟨⟩
    exact Packet.toNat_clock?_le hclock

theorem Reads.compared (h : c.Reads) (hc : c.compared? p = some (before, after)) :
    Compared before after := by
  obtain ⟨hlatest, pid, hread, _⟩ := compared?_eq_some_iff.mp hc
  obtain ⟨_, _, hclock⟩ := reading?_eq_some_iff.mp hread
  exact Clock.compared (h before hlatest) (Packet.toNat_clock?_le hclock)

end Clock

namespace Scan

variable {s : Scan}

theorem reads_step (h : s.clock.Reads) : s.step.clock.Reads := h.observes (Clock.observes _ s.here)

theorem reads_run (n : Nat) (h : s.clock.Reads) : (run n s).clock.Reads := by
  induction n generalizing s with
  | zero => exact h
  | succ n ih =>
    unfold run
    dsimp only
    split
    · exact reads_step h
    · exact ih (reads_step h)

theorem overflow?_run (n : Nat) (s : Scan) : (run n s).overflow? =
    s.overflow?.or ((visits n s).findSome? fun t => t.clock.overflowAt? t.here) := by
  induction n generalizing s with
  | zero => exact Option.or_none.symm
  | succ n ih =>
    have hstep : s.step.overflow? = s.overflow?.or (s.clock.overflowAt? s.here) := by
      have hlog : s.step.log.toList = s.log.toList ++ (s.clock.observe s.here).log :=
        Array.toList_appendList
      rw [← Clock.firstOverflow?_observe]
      unfold overflow?
      rw [hlog, Message.firstOverflow?_append]
    have hcons : ∀ rest : List Scan,
        (s :: rest).findSome? (fun t => t.clock.overflowAt? t.here) =
          (s.clock.overflowAt? s.here).or (rest.findSome? fun t => t.clock.overflowAt? t.here) := by
      intro rest
      rw [List.findSome?_cons]
      cases s.clock.overflowAt? s.here <;> rfl
    unfold run visits
    dsimp only
    rw [hcons, ← Option.or_assoc, ← hstep]
    split
    · exact Option.or_none.symm
    · exact ih s.step

theorem reads_visits (n : Nat) (h : s.clock.Reads) : ∀ t ∈ visits n s, t.clock.Reads := by
  induction n generalizing s with
  | zero => exact fun t ht => absurd ht List.not_mem_nil
  | succ n ih =>
    intro t ht
    unfold visits at ht
    rcases List.mem_cons.mp ht with rfl | ht
    · exact h
    · split at ht
      · cases ht
      · exact ih (reads_step h) t ht

end Scan

namespace Clock

open ClockReference (wrap gap gap? residue)

variable {c : Clock} {p : Packet}

theorem reads_use (h : c.Reads) (use : Use) : (c.use use).Reads := by
  cases use with
  | seek q => exact Scan.reads_run q.unscanned h
  | recount | pin => exact h
  | rewind | relearn | forget => exact reads_of_none rfl

theorem reads_foldl (h : c.Reads) (uses : List Use) : (uses.foldl use c).Reads := by
  induction uses generalizing c with
  | nil => exact h
  | cons use rest ih => exact ih (reads_use h use)

theorem overflowAt?_eq (h : c.Reads) {before after : UInt64}
    (hc : c.compared? p = some (before, after)) : c.overflowAt? p =
      if before.toNat ≤ after.toNat + wrap.toNat then none else some .difference := by
  unfold overflowAt?
  rw [hc]
  change Word.overflow? (gap? before after) = _
  rw [(h.compared hc).checked]
  split <;> rfl

theorem overflowAt?_eq_none_iff (h : c.Reads) : c.overflowAt? p = none ↔
    ∀ before after, c.compared? p = some (before, after) →
      before.toNat ≤ after.toNat + wrap.toNat := by
  cases hcompared : c.compared? p with
  | none => simp [overflowAt?, hcompared]
  | some readings =>
    rw [overflowAt?_eq h hcompared]
    constructor
    · rintro hnone before after ⟨⟩
      simpa using hnone
    · intro hle
      exact if_pos (hle _ _ rfl)

theorem eq_difference_of_overflowAt? {cause : Overflow} (h : c.Reads)
    (hat : c.overflowAt? p = some cause) : cause = .difference := by
  cases hcompared : c.compared? p with
  | none => simp [overflowAt?, hcompared] at hat
  | some readings =>
    rw [overflowAt?_eq h hcompared] at hat
    split at hat
    · cases hat
    · exact (Option.some.inj hat).symm

/-- Every comparison in a scan, after whatever was done to the clock before, and what the scan
reports of them. -/
theorem readings_compared (pid? : Option UInt16) (uses : List Use) (q : Queue Packet) :
    let s : Scan := { clock := uses.foldl use { pinned? := pid? }, queue := q }
    (∀ t ∈ s.visits q.unscanned, ∀ before after, t.clock.compared? t.here = some (before, after) →
      Compared before after ∧ (t.clock.observe t.here).verdict =
        if residue before after = 0 ∨ (maxGap.toNat : Int) ≤ residue before after then .broken
        else .located) ∧
    ((s.clock.seek q).overflow? = none ↔ ∀ t ∈ s.visits q.unscanned, ∀ before after,
      t.clock.compared? t.here = some (before, after) →
        before.toNat ≤ after.toNat + wrap.toNat) ∧
    ∀ cause, (s.clock.seek q).overflow? = some cause → cause = .difference := by
  intro s
  have hreads : s.clock.Reads := reads_foldl (reads_of_none rfl) uses
  have hvisits := Scan.reads_visits q.unscanned hreads
  have hreport : (s.clock.seek q).overflow? =
      (s.visits q.unscanned).findSome? fun t => t.clock.overflowAt? t.here :=
    (Scan.overflow?_run q.unscanned s).trans (Option.none_or ..)
  refine ⟨?_, ?_, ?_⟩
  · intro t ht before after hcompared
    have hwords := (hvisits t ht).compared hcompared
    refine ⟨hwords, ?_⟩
    rw [verdict_of_compared? hcompared]
    simp only [hwords.isBreak_iff]
  · rw [hreport, List.findSome?_eq_none_iff]
    exact forall₂_congr fun t ht => overflowAt?_eq_none_iff (hvisits t ht)
  · intro cause hcause
    obtain ⟨t, ht, hat⟩ := List.exists_of_findSome?_eq_some (hreport.symm.trans hcause)
    exact eq_difference_of_overflowAt? (hvisits t ht) hat

def farthest : Packet := Packet.ofBytes 0xff [0x47, 0x01, 0x00, 0x30, 0x07, 0x10]

def farthestThen (ticks : UInt64) : Scan where
  clock := {}
  queue := [farthest, Packet.Draft.packet { pid := 256, clock? := some ticks }].foldl Queue.write
    (Queue.create 4 2)

/-- From beyond the circle to a reading behind its start, a block of 789 ticks. -/
theorem readings_compared_from_beyond :
    ∃ t ∈ (farthestThen 1000).visits 2, t.clock.compared? t.here = some (wrap + 211, 1000) ∧
      residue (wrap + 211) 1000 = 789 ∧ (gap (wrap + 211) 1000).toNat = 789 ∧
      (t.clock.observe t.here).verdict = .located := by
  have hvisit : ∃ t ∈ (farthestThen 1000).visits 2,
      t.clock.compared? t.here = some (wrap + 211, 1000) := by decide +kernel
  obtain ⟨t, ht, hcompared⟩ := hvisit
  have hresidue : residue (wrap + 211) 1000 = 789 := by decide +kernel
  obtain ⟨hwords, hverdict⟩ :=
    (readings_compared none [] (farthestThen 1000).queue).1 t ht _ _ hcompared
  have hexact := hwords.exact_iff.mpr (by decide +kernel)
  rw [hresidue] at hexact hverdict
  exact ⟨t, ht, hcompared, hresidue, Int.ofNat.inj hexact, hverdict⟩

/-- From beyond the circle to its very start, where the difference runs below zero and the scan reports it. -/
theorem readings_below_zero :
    (∃ t ∈ (farthestThen 0).visits 2, t.clock.compared? t.here = some (wrap + 211, 0)) ∧
      (0 : UInt64).toNat + wrap.toNat < (wrap + 211).toNat ∧
      residue (wrap + 211) 0 = 2576980377389 ∧
      Word.overflow? (gap? (wrap + 211) 0) = some .difference ∧
      ((farthestThen 0).clock.seek (farthestThen 0).queue).overflow? = some .difference := by
  decide +kernel

end Clock
end PacedStream
