import PacedStream.Proofs.Clock.Block

/-!
What a walk keeps and what it establishes. It takes packets away only in front of an anchor without
a lock and in front of a break; it goes on tracking what it has passed; and if it finds a block, the
packet passed last ends it.
-/

namespace PacedStream
namespace Clock
set_option autoImplicit false

variable {c c' : Clock} {p : Packet} {pid : UInt16} {passed ahead : List Packet} {v : Verdict}

theorem learn_reference? (own : c.reference?.getD pid = pid) :
    (c.counted.learn pid).reference? = some pid := congrArg some own

theorem eq_of_own (href : c.reference? = some pid) {pid' : UInt16}
    (own : c.reference?.getD pid' = pid') : pid' = pid := by
  rw [href] at own
  exact own.symm

/-- How a clock and the packets it scans stand to an earlier moment. -/
structure Follows (c : Clock) (items : List Packet) (c' : Clock) (items' : List Packet) : Prop where
  suffix : items' <:+ items
  breaks_le : c.breaks ≤ c'.breaks
  locked : c.locked = true → c'.locked = true
  /-- With a lock and without a break nothing is lost. -/
  whole : c.locked = true → c'.breaks = c.breaks → items' = items

theorem Follows.refl (c : Clock) (items : List Packet) : Follows c items c items :=
  ⟨List.suffix_refl _, Nat.le_refl _, id, fun _ _ => rfl⟩

theorem Follows.trans {c₁ c₂ c₃ : Clock} {items₁ items₂ items₃ : List Packet}
    (h₁ : Follows c₁ items₁ c₂ items₂) (h₂ : Follows c₂ items₂ c₃ items₃) :
    Follows c₁ items₁ c₃ items₃ := by
  refine ⟨h₂.suffix.trans h₁.suffix, Nat.le_trans h₁.breaks_le h₂.breaks_le,
    fun h => h₂.locked (h₁.locked h), ?_⟩
  intro hlocked hbreaks
  have hle₁ := h₁.breaks_le
  have hle₂ := h₂.breaks_le
  rw [h₂.whole (h₁.locked hlocked) (by omega), h₁.whole hlocked (by omega)]

theorem keep_append (h : v.drops = false) :
    v.keep passed p ++ ahead = passed ++ p :: ahead := by
  rw [Verdict.keep, h]
  simp

theorem keep_suffix : v.keep passed p ++ ahead <:+ passed ++ p :: ahead := by
  cases h : v.drops with
  | true =>
    rw [Verdict.keep, if_pos h]
    exact List.suffix_append passed (p :: ahead)
  | false => exact keep_append h ▸ List.suffix_refl _

theorem follows_observes (h : Observes c p c' v) :
    Follows c (passed ++ p :: ahead) c' (v.keep passed p ++ ahead) := by
  cases h with
  | pass => exact ⟨keep_suffix, Nat.le_refl _, id, fun _ _ => keep_append rfl⟩
  | anchor =>
    refine ⟨keep_suffix, Nat.le_refl _, id, fun hlocked _ => keep_append ?_⟩
    simp [Verdict.drops, hlocked]
  | broken =>
    refine ⟨keep_suffix, Nat.le_succ _, id, fun _ hbreaks => ?_⟩
    have hsucc : c.breaks + 1 = c.breaks := hbreaks
    omega
  | located => exact ⟨keep_suffix, Nat.le_refl _, fun _ => rfl, fun _ _ => keep_append rfl⟩

theorem follows_walk (c : Clock) (passed ahead : List Packet) :
    Follows c (passed ++ ahead) (c.walk passed ahead).clock
      ((c.walk passed ahead).passed ++ (c.walk passed ahead).ahead) :=
  walk_keeps (fun c' passed' ahead' => Follows c (passed ++ ahead) c' (passed' ++ ahead'))
    (fun hobs hbefore => hbefore.trans (follows_observes hobs)) (Follows.refl c (passed ++ ahead))

theorem times_walk (h : (c.walk passed ahead).found = true) :
    (c.walk passed ahead).clock.Times (c.walk passed ahead).passed := by
  refine (walk_induct (fun _ _ _ => True) (fun c' passed' _ => c'.Times passed')
    (fun _ _ _ => trivial) ?_ trivial).2 h
  intro c c' p passed _ hobs _
  cases hobs with
  | @located pid before ticks read own last gap =>
    exact ⟨pid, before, ticks, p, ⟨learn_reference? own, rfl, rfl, gap⟩, by simp, read⟩

theorem tracks_pass (h : c.Tracks passed) (hopening : c.opening? = none)
    (other : ∀ pid ticks, reading? p = some (pid, ticks) → c.reference?.getD pid ≠ pid) :
    c.counted.Tracks (passed ++ [p]) := by
  cases h with
  | idle noOpening noLatest => exact .idle noOpening noLatest
  | @anchored pid ticks first lead after split reference_eq noOpening latest_eq opens inner front =>
    have hnull := ne_nullPid_of_reading? opens
    -- The reference is not the identifier of stuffing, whose readings would not be seen.
    have hp := isReference_eq_false_of_pass reference_eq hnull other
    have hsplit : passed ++ [p] = lead ++ first :: (after ++ [p]) := by simp [split]
    refine .anchored hsplit reference_eq noOpening latest_eq opens ?_ front
    intro x hx
    rcases List.mem_append.mp hx with hx | hx
    · exact inner x hx
    · rw [List.mem_singleton.mp hx]
      exact hp
  | located _ isBlock _ =>
    cases isBlock with
    | intro bounds => exact absurd (hopening.symm.trans bounds.opening_eq) (by simp)

theorem tracks_observes (hobs : Observes c p c' v) (hv : v ≠ .located) (h : c.Tracks passed)
    (hopening : c.opening? = none) :
    c'.Tracks (v.keep passed p) ∧ c'.opening? = none ∧ c'.locked = c.locked := by
  cases hobs with
  | pass other => exact ⟨tracks_pass h hopening other, hopening, rfl⟩
  | anchor read own first =>
    have hsplit : (Verdict.anchor c.locked).keep passed p =
        (if c.locked then passed else []) ++ p :: [] := by
      cases c.locked <;> simp [Verdict.keep, Verdict.drops]
    refine ⟨.anchored hsplit (learn_reference? own) hopening rfl read (by simp) ?_, hopening, rfl⟩
    intro hlocked
    have hlocked' : c.locked = false := hlocked
    simp [hlocked']
  | broken read own last gap =>
    have hsplit : Verdict.broken.keep passed p = [] ++ p :: [] := rfl
    exact ⟨.anchored hsplit (learn_reference? own) rfl rfl read (by simp) fun _ => rfl, rfl, rfl⟩
  | located => exact absurd rfl hv

/-- What a walk that started without a block has found. -/
def Finds (c : Clock) (locked : Bool) (passed : List Packet) : Prop :=
  ∃ lead block, passed = lead ++ block ∧ c.IsBlock block ∧ c.locked = true ∧
    (locked = false → lead = [])

theorem finds_observes (hobs : Observes c p c' .located) (h : c.Tracks passed)
    (hopening : c.opening? = none) : c'.Finds c.locked (passed ++ [p]) := by
  cases hobs with
  | @located pid before ticks read own last gap =>
    cases h with
    | idle _ noLatest => exact absurd (noLatest.symm.trans last) (by simp)
    | @anchored pid' ticks' first lead after split reference_eq _ latest_eq opens inner front =>
      have hpid : pid = pid' := eq_of_own reference_eq own
      have hticks : ticks' = before := Option.some.inj (latest_eq.symm.trans last)
      have href := learn_reference? own
      refine ⟨lead, first :: (after ++ [p]), by simp [split], ?_, rfl, front⟩
      have hbounds : ((c.counted.learn pid).locate before ticks).Bounds pid before ticks :=
        ⟨href, rfl, rfl, gap⟩
      refine .intro hbounds ?_ ?_ read
      · rw [hpid, ← hticks]
        exact opens
      · intro x hx
        have hsame : ((c.counted.learn pid).locate before ticks).reference? = c.reference? := by
          rw [reference_eq, ← hpid]
          exact href
        rw [isReference_congr hsame]
        exact inner x hx
    | located _ isBlock _ =>
      cases isBlock with
      | intro bounds => exact absurd (hopening.symm.trans bounds.opening_eq) (by simp)

theorem Finds.tracks {locked : Bool} (h : c.Finds locked passed) : c.Tracks passed := by
  obtain ⟨lead, block, split, isBlock, hlocked, _⟩ := h
  exact .located split isBlock hlocked

theorem tracks_walk (h : c.Tracks passed) (hopening : c.opening? = none) (ahead : List Packet) :
    ((c.walk passed ahead).found = false →
      (c.walk passed ahead).clock.Tracks (c.walk passed ahead).passed ∧
        (c.walk passed ahead).clock.opening? = none ∧
        (c.walk passed ahead).clock.locked = c.locked) ∧
      ((c.walk passed ahead).found = true →
        (c.walk passed ahead).clock.Finds c.locked (c.walk passed ahead).passed) := by
  refine walk_induct
    (fun c' passed' _ => c'.Tracks passed' ∧ c'.opening? = none ∧ c'.locked = c.locked)
    (fun c' passed' _ => c'.Finds c.locked passed') ?_ ?_ ⟨h, hopening, rfl⟩
  · intro c₁ c₂ p v passed₁ _ hobs hv hbefore
    obtain ⟨htracks, hnone, hlocked⟩ := hbefore
    obtain ⟨htracks', hnone', hlocked'⟩ := tracks_observes hobs hv htracks hnone
    exact ⟨htracks', hnone', hlocked'.trans hlocked⟩
  · intro c₁ c₂ p passed₁ _ hobs hbefore
    obtain ⟨htracks, hnone, hlocked⟩ := hbefore
    rw [← hlocked]
    exact finds_observes hobs htracks hnone

/-- A packet whose reading, if there is one, lies on the circle. -/
def OnCircle (p : Packet) : Prop := ∀ ticks, p.clock? = some ticks → ticks < ClockReference.wrap

theorem onCircle_iff : OnCircle p ↔ p.clock?.all (· < ClockReference.wrap) = true := by
  unfold OnCircle
  cases p.clock? <;> simp

theorem toNat_gap_of_le {before after : UInt64}
    (hle : before.toNat ≤ after.toNat + ClockReference.wrap.toNat)
    (hfits : after.toNat + ClockReference.wrap.toNat < UInt64.size) :
    ((ClockReference.gap before after).toNat : Int) =
      ((after.toNat : Int) - before.toNat) % ClockReference.wrap.toNat := by
  have hwrap : ClockReference.wrap.toNat = 2576980377600 := rfl
  have hsum : (after + ClockReference.wrap).toNat = after.toNat + ClockReference.wrap.toNat := by
    rw [UInt64.toNat_add]
    exact Nat.mod_eq_of_lt hfits
  have hle' : before ≤ after + ClockReference.wrap := by
    rw [UInt64.le_iff_toNat_le, hsum]
    exact hle
  unfold ClockReference.gap
  rw [UInt64.toNat_mod, UInt64.toNat_sub_of_le _ _ hle', hsum, hwrap]
  omega

theorem toNat_gap {before after : UInt64} (hbefore : before < ClockReference.wrap)
    (hafter : after < ClockReference.wrap) :
    ((ClockReference.gap before after).toNat : Int) =
      ((after.toNat : Int) - before.toNat) % ClockReference.wrap.toNat := by
  have hwrap : ClockReference.wrap.toNat = 2576980377600 := rfl
  have hsize : UInt64.size = 18446744073709551616 := rfl
  rw [UInt64.lt_iff_toNat_lt] at hbefore hafter
  exact toNat_gap_of_le (by omega) (by omega)

theorem gap_of_not_break {before after : UInt64} (h : isBreak before after = false) :
    0 < (ClockReference.gap before after).toNat ∧
      (ClockReference.gap before after).toNat < maxGap.toNat := by
  unfold isBreak at h
  simp only [Bool.or_eq_false_iff, decide_eq_false_iff_not, UInt64.not_le] at h
  obtain ⟨hdiffer, hclose⟩ := h
  refine ⟨Nat.pos_of_ne_zero fun hzero => hdiffer ?_, hclose⟩
  exact UInt64.toNat_inj.mp hzero

structure Below (c : Clock) : Prop where
  opening_lt : ∀ ticks, c.opening? = some ticks → ticks < ClockReference.wrap
  latest_lt : ∀ ticks, c.latest? = some ticks → ticks < ClockReference.wrap

theorem latest_lt_observes (hobs : Observes c p c' v)
    (hc : ∀ ticks, c.latest? = some ticks → ticks < ClockReference.wrap) (hp : OnCircle p) :
    ∀ ticks, c'.latest? = some ticks → ticks < ClockReference.wrap := by
  cases hobs with
  | pass => exact hc
  | anchor read | broken read | located read =>
    obtain ⟨_, _, hclock⟩ := reading?_eq_some_iff.mp read
    rintro _ ⟨⟩
    exact hp _ hclock

theorem below_observes (hobs : Observes c p c' v) (hc : c.Below) (hp : OnCircle p) : c'.Below := by
  refine ⟨?_, latest_lt_observes hobs hc.latest_lt hp⟩
  cases hobs with
  | pass | anchor => exact hc.opening_lt
  | broken => exact nofun
  | located _ _ last =>
    rintro _ ⟨⟩
    exact hc.latest_lt _ last

theorem below_walk (hc : c.Below) (hahead : ∀ p ∈ ahead, OnCircle p) :
    (c.walk passed ahead).clock.Below := by
  have hstep : ∀ {c c' : Clock} {p : Packet} {v : Verdict} {rest : List Packet}, Observes c p c' v →
      (c.Below ∧ ∀ r ∈ p :: rest, OnCircle r) → c'.Below ∧ ∀ r ∈ rest, OnCircle r := by
    rintro c c' p v rest hobs ⟨hbelow, hall⟩
    exact ⟨below_observes hobs hbelow (hall _ List.mem_cons_self),
      fun r hr => hall r (List.mem_cons_of_mem _ hr)⟩
  exact (walk_keeps (fun c' _ ahead' => c'.Below ∧ ∀ p ∈ ahead', OnCircle p) hstep
    ⟨hc, hahead⟩).1

end Clock
end PacedStream
