import PacedStream.Proofs.Clock.Walk

/-!
What a clock knows of the packets it has passed. A located block runs from the packet with the
opening reading to the one with the latest, and the packet passed last ends every block that a walk
has just located. Without a block yet, the clock is idle or anchored at a reading that it passed.
-/

namespace PacedStream
namespace Clock
set_option autoImplicit false

variable {c c' : Clock} {p : Packet} {pid : UInt16} {ticks opening latest : UInt64}
  {passed ahead block : List Packet} {v : Verdict}

theorem reading?_eq_some_iff :
    reading? p = some (pid, ticks) ↔ p.pid ≠ Packet.nullPid ∧ p.pid = pid ∧ p.clock? = some ticks := by
  unfold reading?
  split
  · rename_i hnull
    simp [hnull]
  · rename_i hnull
    cases hclock : p.clock? <;> simp [hnull]

theorem ne_nullPid_of_reading? (hread : reading? p = some (pid, ticks)) : pid ≠ Packet.nullPid := by
  obtain ⟨hne, hpid, _⟩ := reading?_eq_some_iff.mp hread
  exact hpid ▸ hne

theorem isReference_of_reading? (hread : reading? p = some (pid, ticks))
    (href : c.reference? = some pid) : c.isReference p = true := by
  obtain ⟨_, hpid, hclock⟩ := reading?_eq_some_iff.mp hread
  simp [isReference, href, hpid, hclock]

theorem isReference_congr (h : c'.reference? = c.reference?) : c'.isReference p = c.isReference p := by
  simp [isReference, h]

theorem isReference_eq_false_of_pass (href : c.reference? = some pid) (hnull : pid ≠ Packet.nullPid)
    (other : ∀ pid' ticks, reading? p = some (pid', ticks) → c.reference?.getD pid' ≠ pid') :
    c.isReference p = false := by
  rw [isReference, href]
  by_cases hpid : pid = p.pid
  · cases hclock : p.clock? with
    | none => simp
    | some ticks =>
      have hread : reading? p = some (pid, ticks) :=
        reading?_eq_some_iff.mpr ⟨hpid ▸ hnull, hpid.symm, hclock⟩
      have hne := other pid ticks hread
      rw [href] at hne
      exact absurd rfl hne
  · simp [hpid]

/-- The identifier and the two readings of a located block. -/
structure Bounds (c : Clock) (pid : UInt16) (opening latest : UInt64) : Prop where
  reference_eq : c.reference? = some pid
  opening_eq : c.opening? = some opening
  latest_eq : c.latest? = some latest
  isBreak_eq : isBreak opening latest = false

/-- From the packet that opens the located block to the one that ends it, with no other reading on
the reference identifier between them. -/
inductive IsBlock (c : Clock) : List Packet → Prop where
  | intro {pid : UInt16} {opening latest : UInt64} {first last : Packet} {between : List Packet}
      (bounds : c.Bounds pid opening latest)
      (opens : reading? first = some (pid, opening))
      (inner : ∀ p ∈ between, c.isReference p = false)
      (ends : reading? last = some (pid, latest)) :
      IsBlock c (first :: (between ++ [last]))

/-- The packet passed last ends the located block. -/
def Times (c : Clock) (passed : List Packet) : Prop :=
  ∃ pid opening latest last, c.Bounds pid opening latest ∧ passed.getLast? = some last ∧
    reading? last = some (pid, latest)

/-- What a clock knows of the packets passed since the scan last started at the front. -/
inductive Tracks (c : Clock) (passed : List Packet) : Prop where
  | idle (noOpening : c.opening? = none) (noLatest : c.latest? = none)
  | anchored {pid : UInt16} {ticks : UInt64} {first : Packet} {lead after : List Packet}
      (split : passed = lead ++ first :: after)
      (reference_eq : c.reference? = some pid)
      (noOpening : c.opening? = none)
      (latest_eq : c.latest? = some ticks)
      (opens : reading? first = some (pid, ticks))
      (inner : ∀ p ∈ after, c.isReference p = false)
      (front : c.locked = false → lead = [])
  | located {lead block : List Packet} (split : passed = lead ++ block)
      (isBlock : c.IsBlock block) (locked : c.locked = true)

theorem Bounds.congr (h : c.Bounds pid opening latest) (href : c'.reference? = c.reference?)
    (hopening : c'.opening? = c.opening?) (hlatest : c'.latest? = c.latest?) :
    c'.Bounds pid opening latest :=
  ⟨href.trans h.reference_eq, hopening.trans h.opening_eq, hlatest.trans h.latest_eq, h.isBreak_eq⟩

theorem IsBlock.congr (h : c.IsBlock block) (href : c'.reference? = c.reference?)
    (hopening : c'.opening? = c.opening?) (hlatest : c'.latest? = c.latest?) :
    c'.IsBlock block := by
  cases h with
  | intro bounds opens inner ends =>
    refine .intro (bounds.congr href hopening hlatest) opens ?_ ends
    intro p hp
    rw [isReference_congr href]
    exact inner p hp

theorem Times.congr (h : c.Times passed) (href : c'.reference? = c.reference?)
    (hopening : c'.opening? = c.opening?) (hlatest : c'.latest? = c.latest?) :
    c'.Times passed := by
  obtain ⟨pid, opening, latest, last, bounds, hlast, ends⟩ := h
  exact ⟨pid, opening, latest, last, bounds.congr href hopening hlatest, hlast, ends⟩

theorem Tracks.congr (h : c.Tracks passed) (href : c'.reference? = c.reference?)
    (hopening : c'.opening? = c.opening?) (hlatest : c'.latest? = c.latest?)
    (hlocked : c'.locked = c.locked) : c'.Tracks passed := by
  cases h with
  | idle noOpening noLatest => exact .idle (hopening.trans noOpening) (hlatest.trans noLatest)
  | anchored split reference_eq noOpening latest_eq opens inner front =>
    refine .anchored split (href.trans reference_eq) (hopening.trans noOpening)
      (hlatest.trans latest_eq) opens ?_ (fun h => front (hlocked ▸ h))
    intro p hp
    rw [isReference_congr href]
    exact inner p hp
  | located split isBlock locked =>
    exact .located split (isBlock.congr href hopening hlatest) (hlocked.trans locked)

theorem IsBlock.two_le_countP (h : c.IsBlock block) : 2 ≤ block.countP c.isReference := by
  cases h with
  | intro bounds opens _ ends =>
    have hfirst := isReference_of_reading? opens bounds.reference_eq
    have hlast := isReference_of_reading? ends bounds.reference_eq
    simp only [List.countP_cons, List.countP_append, List.countP_nil, hfirst, hlast, if_true]
    omega

theorem Times.ne_nil (h : c.Times passed) : passed ≠ [] := by
  obtain ⟨_, _, _, last, _, hlast, _⟩ := h
  intro hnil
  rw [hnil] at hlast
  cases hlast

theorem Times.hasBlock (h : c.Times passed) : c.hasBlock = true := by
  obtain ⟨_, opening, _, _, bounds, _⟩ := h
  rw [Clock.hasBlock, bounds.opening_eq]
  rfl

theorem Times.tail (h : c.Times passed) : passed.tail = [] ∨ c.Times passed.tail := by
  obtain ⟨pid, opening, latest, last, bounds, hlast, ends⟩ := h
  cases passed with
  | nil => exact .inl rfl
  | cons a rest =>
    cases rest with
    | nil => exact .inl rfl
    | cons b rest =>
      rw [List.getLast?_cons_cons] at hlast
      exact .inr ⟨pid, opening, latest, last, bounds, hlast, ends⟩

end Clock
end PacedStream
