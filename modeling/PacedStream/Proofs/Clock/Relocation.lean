import PacedStream.Proofs.Clock.Visits

/-!
One block scanned twice. A scan that locates a block has counted the packets of it. Main statement:
a locked clock that comes to these packets from the front, with no reading so far, locates the same
block again, whatever is queued behind it.
-/

namespace PacedStream.Clock
set_option autoImplicit false

variable {c c' m : Clock} {p : Packet} {pid : UInt16} {before ticks : UInt64}
  {passed lead ahead : List Packet} {v : Verdict}

theorem observe_of_stray (h : c.owns p = false) :
    (c.observe p).clock = c.counted ∧ (c.observe p).verdict = .pass := by
  have hobs := observes c p
  generalize (c.observe p).clock = c' at hobs ⊢
  generalize (c.observe p).verdict = v at hobs ⊢
  cases hobs with
  | pass => exact ⟨rfl, rfl⟩
  | anchor read own | broken read own | located read own =>
    rw [owns_of_own read own] at h
    cases h

theorem observe_of_first (read : reading? p = some (pid, ticks))
    (own : c.reference?.getD pid = pid) (first : c.latest? = none) :
    (c.observe p).clock = (c.counted.learn pid).anchor ticks ∧
      (c.observe p).verdict = .anchor c.locked := by
  have hobs := observes c p
  generalize (c.observe p).clock = c' at hobs ⊢
  generalize (c.observe p).verdict = v at hobs ⊢
  cases hobs with
  | pass other => exact absurd own (other pid ticks read)
  | anchor read' =>
    cases read.symm.trans read'
    exact ⟨rfl, rfl⟩
  | broken _ _ last | located _ _ last => exact absurd (first.symm.trans last) nofun

theorem observe_of_next (read : reading? p = some (pid, ticks))
    (own : c.reference?.getD pid = pid) (last : c.latest? = some before)
    (close : isBreak before ticks = false) :
    (c.observe p).clock = (c.counted.learn pid).locate before ticks ∧
      (c.observe p).verdict = .located := by
  have hobs := observes c p
  generalize (c.observe p).clock = c' at hobs ⊢
  generalize (c.observe p).verdict = v at hobs ⊢
  cases hobs with
  | pass other => exact absurd own (other pid ticks read)
  | anchor _ _ first => exact absurd (last.symm.trans first) nofun
  | broken read' _ last' gap =>
    cases read.symm.trans read'
    cases last.symm.trans last'
    exact absurd (close.symm.trans gap) nofun
  | located read' _ last' =>
    cases read.symm.trans read'
    cases last.symm.trans last'
    exact ⟨rfl, rfl⟩

theorem walk_of_strays (passed ahead : List Packet) (h : ∀ p ∈ lead, c.owns p = false) :
    c.walk passed (lead ++ ahead) =
      ({ c with scanned := c.scanned + lead.length } : Clock).walk (passed ++ lead) ahead := by
  induction lead generalizing c passed with
  | nil => simp
  | cons p lead ih =>
    obtain ⟨hclock, hverdict⟩ := observe_of_stray (h p List.mem_cons_self)
    have hsame : c.counted.owns = c.owns := owns_congr rfl
    have hrest : ∀ q ∈ lead, c.counted.owns q = false := by
      rw [hsame]
      exact fun q hq => h q (List.mem_cons_of_mem _ hq)
    rw [List.cons_append, walk_cons, hclock, hverdict, if_neg nofun, ih _ hrest]
    simp [Verdict.keep, Verdict.drops, counted, Nat.add_assoc, Nat.add_comm 1]

/-- The latest reading was passed, and the packets since then are counted. -/
inductive Anchored (c : Clock) (passed : List Packet) : Prop where
  | intro {pid : UInt16} {ticks : UInt64} {first : Packet} {lead after : List Packet}
      (split : passed = lead ++ first :: after) (reference_eq : c.reference? = some pid)
      (latest_eq : c.latest? = some ticks) (opens : reading? first = some (pid, ticks))
      (inner : ∀ p ∈ after, c.owns p = false) (scanned_eq : c.scanned = after.length)

/-- The located block was passed last, and length and quantum are those of its packets. -/
inductive Sized (c : Clock) (passed : List Packet) : Prop where
  | intro {pid : UInt16} {opening latest : UInt64} {first last : Packet}
      {lead between : List Packet} (split : passed = lead ++ first :: (between ++ [last]))
      (bounds : c.Bounds pid opening latest) (opens : reading? first = some (pid, opening))
      (inner : ∀ p ∈ between, c.owns p = false) (ends : reading? last = some (pid, latest))
      (length_eq : c.blockLength = between.length + 1)
      (quantum_eq : c.quantum = (ClockReference.gap opening latest).toFloat /
        Float.ofNat (between.length + 1)) (locked : c.locked = true)

theorem Anchored.congr (h : c.Anchored passed) (reference_eq : c'.reference? = c.reference?)
    (latest_eq : c'.latest? = c.latest?) (scanned_eq : c'.scanned = c.scanned) :
    c'.Anchored passed := by
  cases h with
  | intro split href hlatest opens inner hscanned =>
    exact .intro split (reference_eq.trans href) (latest_eq.trans hlatest) opens
      (owns_congr reference_eq ▸ inner) (scanned_eq.trans hscanned)

theorem Sized.congr (h : c.Sized passed) (reference_eq : c'.reference? = c.reference?)
    (opening_eq : c'.opening? = c.opening?) (latest_eq : c'.latest? = c.latest?)
    (length_eq : c'.blockLength = c.blockLength) (quantum_eq : c'.quantum = c.quantum)
    (locked_eq : c'.locked = c.locked) : c'.Sized passed := by
  cases h with
  | intro split bounds opens inner ends hlength hquantum hlocked =>
    exact .intro split (bounds.congr reference_eq opening_eq latest_eq) opens
      (owns_congr reference_eq ▸ inner) ends (length_eq.trans hlength)
      (quantum_eq.trans hquantum) (locked_eq.trans hlocked)

theorem Sized.locked (h : c.Sized passed) : c.locked = true := by
  cases h with
  | intro _ _ _ _ _ _ _ locked => exact locked

theorem anchored_of_read (read : reading? p = some (pid, ticks)) (hlead : passed = lead ++ [p])
    (reference_eq : c.reference? = some pid) (latest_eq : c.latest? = some ticks)
    (scanned_eq : c.scanned = 0) : c.Anchored passed :=
  .intro hlead reference_eq latest_eq read (fun _ h => absurd h List.not_mem_nil) scanned_eq

theorem keep_eq_append (v : Verdict) (passed : List Packet) (p : Packet) :
    ∃ lead, v.keep passed p = lead ++ [p] := by
  unfold Verdict.keep
  split
  · exact ⟨[], rfl⟩
  · exact ⟨passed, rfl⟩

theorem anchored_observes (hobs : Observes c p c' v) (hv : v ≠ .located)
    (h : c.latest? = none ∨ c.Anchored passed) :
    c'.latest? = none ∨ c'.Anchored (v.keep passed p) := by
  obtain ⟨lead', hkeep⟩ := keep_eq_append v passed p
  cases hobs with
  | pass other =>
    refine h.imp id fun hanchored => ?_
    have hown := owns_eq_false other
    have hsame : c.counted.owns = c.owns := owns_congr rfl
    cases hanchored with
    | @intro _ _ first lead after split href hlatest opens inner hscanned =>
      have hkept : Verdict.keep .pass passed p = lead ++ first :: (after ++ [p]) := by
        simp [Verdict.keep, Verdict.drops, split]
      refine .intro hkept href hlatest opens ?_ ?_
      · rw [hsame]
        intro q hq
        rcases List.mem_append.mp hq with hq | hq
        · exact inner q hq
        · rw [List.mem_singleton.mp hq]
          exact hown
      · rw [List.length_append, ← hscanned]
        rfl
  | anchor read own => exact .inr (anchored_of_read read hkeep (learn_reference? own) rfl rfl)
  | broken read own => exact .inr (anchored_of_read read hkeep (learn_reference? own) rfl rfl)
  | located => exact absurd rfl hv

theorem sized_observes (hobs : Observes c p c' .located) (h : c.latest? = none ∨ c.Anchored passed) :
    c'.Sized (passed ++ [p]) := by
  cases hobs with
  | @located pid before ticks read own last gap =>
    rcases h with hnone | hanchored
    · exact absurd (hnone.symm.trans last) nofun
    · cases hanchored with
      | @intro pid' _ first lead after split href hlatest opens inner hscanned =>
        cases hlatest.symm.trans last
        obtain rfl := eq_of_own href own
        have hlearned : ((c.counted.learn pid).locate before ticks).reference? = some pid :=
          learn_reference? own
        have hlength : c.scanned + 1 = after.length + 1 := congrArg Nat.succ hscanned
        have hblock : passed ++ [p] = lead ++ first :: (after ++ [p]) := by
          rw [split, List.append_assoc, List.cons_append]
        refine .intro hblock ⟨hlearned, rfl, rfl, gap⟩ opens ?_ read hlength ?_ rfl
        · rw [owns_congr (hlearned.trans href.symm)]
          exact inner
        · rw [← hlength]
          rfl

theorem sized_walk (h : c.latest? = none ∨ c.Anchored passed) (ahead : List Packet) :
    ((c.walk passed ahead).found = false → (c.walk passed ahead).clock.latest? = none ∨
        (c.walk passed ahead).clock.Anchored (c.walk passed ahead).passed) ∧
      ((c.walk passed ahead).found = true →
        (c.walk passed ahead).clock.Sized (c.walk passed ahead).passed) :=
  walk_induct (fun c' passed' _ => c'.latest? = none ∨ c'.Anchored passed')
    (fun c' passed' _ => c'.Sized passed') anchored_observes sized_observes h

def relocate (c m : Clock) : Clock :=
  { c with opening? := m.opening?, latest? := m.latest?, scanned := 0 }

/-- A locked clock that comes from the front to the block of another one, with no other reading on
the way, locates the same block. -/
theorem walk_of_sized (h : m.Sized passed) (hpair : passed.countP m.owns ≤ 2)
    (reference_eq : c.reference? = m.reference?) (noLatest : c.latest? = none)
    (locked : c.locked = true) (length_eq : c.blockLength = m.blockLength)
    (quantum_eq : c.quantum = m.quantum) (ahead : List Packet) :
    c.walk [] (passed ++ ahead) = { clock := c.relocate m, passed, ahead, found := true } := by
  cases h with
  | @intro pid opening latest first last lead between split bounds opens inner ends hlength
      hquantum =>
    have href : c.reference? = some pid := reference_eq.trans bounds.reference_eq
    have howns : c.owns = m.owns := owns_congr reference_eq
    have hfirst : m.owns first = true := owns_of_own opens (by rw [bounds.reference_eq]; rfl)
    have hlast : m.owns last = true := owns_of_own ends (by rw [bounds.reference_eq]; rfl)
    -- The two readings of the block are all that were passed.
    have hbare : ∀ p ∈ lead, c.owns p = false := by
      have hzero : lead.countP m.owns = 0 := by
        rw [split] at hpair
        simp only [List.countP_append, List.countP_cons, List.countP_nil, hfirst, hlast,
          if_true] at hpair
        omega
      rw [howns]
      exact fun p hp => Bool.eq_false_iff.mpr (List.countP_eq_zero.mp hzero p hp)
    have hsplit : passed ++ ahead = lead ++ (first :: (between ++ (last :: ahead))) := by
      rw [split]
      simp only [List.append_assoc, List.cons_append, List.nil_append]
    rw [hsplit, walk_of_strays _ _ hbare, List.nil_append]
    generalize hskipped : ({ c with scanned := c.scanned + lead.length } : Clock) = c₁
    have href₁ : c₁.reference? = some pid := by rw [← hskipped]; exact href
    obtain ⟨hclock₁, hverdict₁⟩ := observe_of_first (c := c₁) opens (by rw [href₁]; rfl)
      (by rw [← hskipped]; exact noLatest)
    have hkept : c₁.locked = true := by rw [← hskipped]; exact locked
    rw [walk_cons, hclock₁, hverdict₁, if_neg nofun, hkept]
    have hinner : ∀ p ∈ between, ((c₁.counted.learn pid).anchor opening).owns p = false := by
      have hlearned : ((c₁.counted.learn pid).anchor opening).reference? = m.reference? :=
        (learn_reference? (by rw [href₁]; rfl)).trans bounds.reference_eq.symm
      rw [owns_congr hlearned]
      exact inner
    rw [walk_of_strays _ _ hinner]
    generalize hbetween : ({ (c₁.counted.learn pid).anchor opening with
      scanned := ((c₁.counted.learn pid).anchor opening).scanned + between.length } : Clock) = c₂
    have href₂ : c₂.reference? = some pid := by
      rw [← hbetween]
      exact learn_reference? (by rw [href₁]; rfl)
    have hlast₂ : c₂.latest? = some opening := by rw [← hbetween]; rfl
    obtain ⟨hclock₂, hverdict₂⟩ := observe_of_next ends (by rw [href₂]; rfl) hlast₂
      bounds.isBreak_eq
    rw [walk_cons, hclock₂, hverdict₂, if_pos rfl]
    have hpassed : Verdict.keep .located (Verdict.keep (.anchor true) lead first ++ between) last =
        passed := by
      rw [split]
      simp [Verdict.keep, Verdict.drops]
    have hclock : (c₂.counted.learn pid).locate opening latest = c.relocate m := by
      have hcount : c₂.counted.scanned = between.length + 1 := by
        rw [← hbetween]
        simp [counted, anchor]
      have hquant : (ClockReference.gap opening latest).toFloat /
          Float.ofNat (c₂.counted.learn pid).scanned = c.quantum := by
        change _ / Float.ofNat c₂.counted.scanned = _
        rw [hcount, quantum_eq, hquantum]
      have hlong : (c₂.counted.learn pid).scanned = c.blockLength :=
        (hcount.trans hlength.symm).trans length_eq.symm
      unfold locate relocate
      rw [hquant, hlong, bounds.opening_eq, bounds.latest_eq, ← hbetween, ← hskipped, ← locked]
      simp only [learn, counted, anchor, href, Option.getD_some]
    rw [hpassed, hclock]

end PacedStream.Clock
