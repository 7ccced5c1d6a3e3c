import PacedStream.Packet.Draft
import PacedStream.Proofs.Clock.Remembered

/-!
Scans taken up one after the other until none finds a block. Every reference ahead is met once: the
first may only anchor the clock, and of the others each ends a block or breaks the clock. Main
statement: the scans find as many blocks as were counted ahead, but for those lost to breaks.
-/

namespace PacedStream
namespace Clock
set_option autoImplicit false

variable {c c' c'' : Clock} {q q' : Queue Packet} {p : Packet} {v : Verdict} {pid : UInt16}
  {passed ahead ahead' ahead'' : List Packet} {m n : Nat}

/-- References ahead, and the reading from which the first of them would end a block. -/
def due (c : Clock) (ahead : List Packet) : Nat := ahead.countP c.isReference + c.anchors

/-- What is due goes to blocks found, `n` of them, and to breaks. -/
structure Spends (c : Clock) (ahead : List Packet) (n : Nat) (c' : Clock)
    (ahead' : List Packet) : Prop where
  reference_eq : c'.reference? = c.reference?
  balance : n + c'.due ahead' + c'.breaks = c.due ahead + c.breaks
  breaks_le : c.breaks ≤ c'.breaks
  anchors_le : c.anchors ≤ c'.anchors
  due_pos : 0 < c.due ahead → 0 < c'.due ahead'

theorem Spends.refl (c : Clock) (ahead : List Packet) : c.Spends ahead 0 c ahead :=
  ⟨rfl, by omega, Nat.le_refl _, Nat.le_refl _, id⟩

theorem Spends.trans (h : c.Spends ahead m c' ahead') (h' : c'.Spends ahead' n c'' ahead'') :
    c.Spends ahead (m + n) c'' ahead'' := by
  have hbalance := h.balance
  have hbalance' := h'.balance
  exact ⟨h'.reference_eq.trans h.reference_eq, by omega, Nat.le_trans h.breaks_le h'.breaks_le,
    Nat.le_trans h.anchors_le h'.anchors_le, fun hpos => h'.due_pos (h.due_pos hpos)⟩

theorem anchors_le_one (c : Clock) : c.anchors ≤ 1 := by
  unfold anchors
  split <;> omega

theorem one_sub_anchors (c : Clock) : 1 - c.anchors = if c.latest?.isSome then 0 else 1 := by
  unfold anchors
  split <;> rfl

theorem anchors_of_latest (h : c.latest? ≠ none) : c.anchors = 1 :=
  if_pos (Option.isSome_iff_ne_none.mpr h)

theorem due_cons (c : Clock) (p : Packet) (ahead : List Packet) :
    c.due (p :: ahead) = c.due ahead + if c.isReference p then 1 else 0 := by
  rw [due, due, List.countP_cons]
  omega

theorem due_congr (href : c'.reference? = c.reference?) :
    c'.due ahead + c.anchors = c.due ahead + c'.anchors := by
  have hsame : c'.isReference = c.isReference := funext fun _ => isReference_congr href
  rw [due, due, hsame]
  omega

/-- A reading of the clock's own goes to an anchor, a break or a block. -/
theorem spends_of_own {ticks : UInt64} (href : c.reference? = some pid)
    (read : reading? p = some (pid, ticks)) (hc' : c'.reference? = some pid)
    (hlatest : c'.latest? ≠ none) (hcost : n + c'.breaks = c.anchors + c.breaks)
    (hbreaks : c.breaks ≤ c'.breaks) : c.Spends (p :: ahead) n c' ahead := by
  have hp := isReference_of_reading? read href
  have hone := anchors_of_latest hlatest
  have hle := anchors_le_one c
  have hdue : c'.due ahead + c.anchors = c.due (p :: ahead) := by
    rw [due_cons, hp, if_pos rfl, due_congr (hc'.trans href.symm), hone]
  refine ⟨hc'.trans href.symm, by omega, hbreaks, by omega, fun _ => ?_⟩
  rw [due, hone]
  exact Nat.succ_pos _

theorem spends_observes (href : c.reference? = some pid) (hnull : pid ≠ Packet.nullPid)
    (hobs : Observes c p c' v) (ahead : List Packet) :
    c.Spends (p :: ahead) (if v = .located then 1 else 0) c' ahead := by
  cases hobs with
  | pass other =>
    have hp := isReference_eq_false_of_pass href hnull other
    have hdue : c.counted.due ahead = c.due (p :: ahead) := by
      rw [due_cons, hp]
      rfl
    refine ⟨rfl, ?_, Nat.le_refl _, Nat.le_refl _, fun hpos => hdue ▸ hpos⟩
    rw [hdue]
    exact congrArg (· + c.breaks) (Nat.zero_add _)
  | anchor read own first =>
    obtain rfl := eq_of_own href own
    have hzero : c.anchors = 0 := by simp [anchors, first]
    refine spends_of_own href read (learn_reference? own) (Option.some_ne_none _) ?_ (Nat.le_refl _)
    rw [hzero]
    rfl
  | broken read own last =>
    obtain rfl := eq_of_own href own
    have hone : c.anchors = 1 := anchors_of_latest (by simp [last])
    refine spends_of_own href read (learn_reference? own) (Option.some_ne_none _) ?_ (Nat.le_succ _)
    rw [hone, Nat.add_comm 1]
    exact Nat.zero_add _
  | located read own last =>
    obtain rfl := eq_of_own href own
    have hone : c.anchors = 1 := anchors_of_latest (by simp [last])
    refine spends_of_own href read (learn_reference? own) (Option.some_ne_none _) ?_ (Nat.le_refl _)
    rw [hone]
    rfl

theorem spends_walk (href : c.reference? = some pid) (hnull : pid ≠ Packet.nullPid) :
    c.Spends ahead (if (c.walk passed ahead).found then 1 else 0) (c.walk passed ahead).clock
      (c.walk passed ahead).ahead := by
  have hwalk : ((c.walk passed ahead).found = false → _) ∧ _ := walk_induct
    (fun c' _ ahead' => c.Spends ahead 0 c' ahead') (fun c' _ ahead' => c.Spends ahead 1 c' ahead')
    ?_ ?_ (Spends.refl c ahead)
  · cases hfound : (c.walk passed ahead).found with
    | false => exact hwalk.1 hfound
    | true => exact hwalk.2 hfound
  · intro c₁ c₂ p v _ rest hobs hv hbefore
    have hstep := spends_observes (hbefore.reference_eq.trans href) hnull hobs rest
    rw [if_neg hv] at hstep
    exact hbefore.trans hstep
  · intro c₁ c₂ p _ rest hobs hbefore
    exact hbefore.trans (spends_observes (hbefore.reference_eq.trans href) hnull hobs rest)

theorem spends_seek (hq : q.Ordered) (href : c.reference? = some pid) (hnull : pid ≠ Packet.nullPid) :
    c.Spends q.ahead (if (c.seek q).found then 1 else 0) (c.seek q).clock (c.seek q).queue.ahead := by
  have hat := c.seek_at hq
  rw [hat.clock_eq, hat.ahead_eq, hat.found_eq]
  exact spends_walk href hnull

/-- After `n` scans in a row, each of which found a block. -/
inductive Seeks (c : Clock) (q : Queue Packet) : Nat → Clock → Queue Packet → Prop where
  | start : Seeks c q 0 c q
  | next {n : Nat} {c' : Clock} {q' : Queue Packet} (before : Seeks c q n c' q')
      (found : (c'.seek q').found = true) :
      Seeks c q (n + 1) (c'.seek q').clock (c'.seek q').queue

theorem Seeks.spends (h : c.Seeks q n c' q') (hq : q.Ordered) (href : c.reference? = some pid)
    (hnull : pid ≠ Packet.nullPid) : q'.Ordered ∧ c.Spends q.ahead n c' q'.ahead := by
  induction h with
  | start => exact ⟨hq, Spends.refl c q.ahead⟩
  | @next n c' q' _ found ih =>
    obtain ⟨hq', hspends⟩ := ih
    have hstep := spends_seek hq' (hspends.reference_eq.trans href) hnull
    rw [if_pos found] at hstep
    exact ⟨(c'.seek_at hq').ordered, hspends.trans hstep⟩

/-- Each scan that finds a block leaves less due, so one of the next finds none. -/
theorem seeks_end (hq : q.Ordered) (href : c.reference? = some pid) (hnull : pid ≠ Packet.nullPid) :
    ∃ n c' q', c.Seeks q n c' q' ∧ (c'.seek q').found = false := by
  have hmore : ∀ n, (∃ n c' q', c.Seeks q n c' q' ∧ (c'.seek q').found = false) ∨
      ∃ c' q', c.Seeks q n c' q' := by
    intro n
    induction n with
    | zero => exact .inr ⟨c, q, .start⟩
    | succ n ih =>
      obtain hlost | ⟨c', q', hseeks⟩ := ih
      · exact .inl hlost
      · cases hfound : (c'.seek q').found with
        | false => exact .inl ⟨n, c', q', hseeks, hfound⟩
        | true => exact .inr ⟨_, _, hseeks.next hfound⟩
  obtain hlost | ⟨c', q', hseeks⟩ := hmore (c.due q.ahead + 1)
  · exact hlost
  · obtain ⟨_, hspends⟩ := hseeks.spends hq href hnull
    have hbalance := hspends.balance
    have hbreaks := hspends.breaks_le
    omega

def allAhead (c : Clock) (q : Queue Packet) : Nat := c.blocksAhead q q.unscanned

theorem allAhead_eq (hq : q.Ordered) : c.allAhead q = q.ahead.countP c.isReference := by
  have hle := List.countP_le_length (p := c.isReference) (l := q.ahead)
  rw [Queue.length_ahead] at hle
  rw [allAhead, blocksAhead_eq c hq, Nat.min_eq_right hle]

/-- Where `n` scans in a row have found a block, the count of those ahead agrees with the scans. -/
structure Agrees (c : Clock) (q : Queue Packet) (n : Nat) (c' : Clock) (q' : Queue Packet) : Prop where
  capped : ∀ cap, c'.blocksAhead q' cap = min cap (c'.allAhead q')
  found : (c'.seek q').found = true → c'.latest? ≠ none → (c'.seek q').clock.breaks = c'.breaks →
    (c'.seek q').clock.allAhead (c'.seek q').queue + 1 = c'.allAhead q'
  /-- The blocks found come to those counted, less one for each break and for an anchor. -/
  lost : (c'.seek q').found = false → c.breaks ≤ (c'.seek q').clock.breaks ∧
    n + ((c'.seek q').clock.breaks - c.breaks) =
      c.allAhead q - if c.latest?.isSome then 0 else 1

theorem agrees_seeks (h : c.Seeks q n c' q') (hq : q.Ordered) (href : c.reference? = some pid)
    (hnull : pid ≠ Packet.nullPid) : c.Agrees q n c' q' := by
  obtain ⟨hq', hspends⟩ := h.spends hq href hnull
  have hat := c'.seek_at hq'
  have hstep := spends_seek hq' (hspends.reference_eq.trans href) hnull
  constructor
  · intro cap
    rw [blocksAhead_eq c' hq', allAhead_eq hq']
  · intro hfound hlatest hbreaks
    rw [if_pos hfound] at hstep
    have hbalance := hstep.balance
    have hone := anchors_of_latest hlatest
    have hone' := Nat.le_antisymm (anchors_le_one _) (hone ▸ hstep.anchors_le)
    rw [due, due, hone, hone', hbreaks] at hbalance
    rw [allAhead_eq hat.ordered, allAhead_eq hq']
    omega
  · intro hlost
    rw [hlost, if_neg Bool.false_ne_true] at hstep
    have hall := hspends.trans hstep
    have hend : (c'.seek q').clock.due (c'.seek q').queue.ahead = (c'.seek q').clock.anchors := by
      rw [ahead_seek_of_lost hq' hlost]
      exact Nat.zero_add _
    have hbalance := hall.balance
    have hbreaks := hall.breaks_le
    have hpos := hall.due_pos
    have hle := anchors_le_one c
    have hle' := anchors_le_one (c'.seek q').clock
    rw [hend] at hbalance hpos
    rw [due, ← allAhead_eq hq] at hbalance hpos
    refine ⟨hbreaks, ?_⟩
    rw [← one_sub_anchors]
    omega

/-- Scans in a row come to an end, and find the blocks that were counted. -/
theorem seeks_agree (c : Clock) (q : Queue Packet) (pid : UInt16) (hq : q.Ordered)
    (href : c.reference? = some pid) (hnull : pid ≠ Packet.nullPid) :
    (∃ n c' q', c.Seeks q n c' q' ∧ (c'.seek q').found = false) ∧
      ∀ n c' q', c.Seeks q n c' q' → c.Agrees q n c' q' :=
  ⟨seeks_end hq href hnull, fun _ _ _ h => agrees_seeks h hq href hnull⟩

def looping : Queue Packet where
  slots :=
    let plain := Packet.Draft.packet { pid := 257 }
    #[Packet.Draft.packet { pid := 256, clock? := some 54000 }, plain,
      Packet.Draft.packet { pid := 256, clock? := some 90000000 },
      Packet.Draft.packet { pid := 256, clock? := some 90027000 }, plain,
      Packet.Draft.packet { pid := 257, clock? := some 7 },
      Packet.Draft.packet { pid := 256, clock? := some 27000 }, plain]
  head := 5
  mark := 5
  tail := 4
  minSize := 2

/-- Of the four references the first anchors the clock, one ends a block, one breaks the clock and
the last ends a block again. -/
theorem seeks_agree_looping :
    let c : Clock := { reference? := some 256 }
    c.allAhead looping = 4 ∧ c.blocksAhead looping 3 = 3 ∧
      ∃ n c' q', c.Seeks looping n c' q' ∧ (c'.seek q').found = false ∧
        (c'.seek q').clock.breaks = 1 ∧ n = 2 := by
  intro c
  have hq : looping.Ordered := by
    constructor
    all_goals decide +kernel
  obtain ⟨_, hagrees⟩ := seeks_agree c looping 256 hq rfl (by decide)
  have hall : c.allAhead looping = 4 := by decide +kernel
  have hfirst : c.Seeks looping 1 _ _ := .next .start (by decide +kernel)
  have hsecond : c.Seeks looping 2 _ _ := .next hfirst (by decide +kernel)
  have hlost := (hagrees _ _ _ hsecond).lost (by decide +kernel)
  refine ⟨hall, ?_, 2, _, _, hsecond, by decide +kernel, ?_, rfl⟩
  · rw [(hagrees _ _ _ .start).capped, hall]
    rfl
  · have hbalance := hlost.2
    rw [hall] at hbalance
    change 2 + (_ - 0) = 4 - 1 at hbalance
    omega

end Clock
end PacedStream
