import PacedStream.Proofs.Clock.Remembered
import Mathlib.Data.List.Chain
import Mathlib.Data.List.DropRight

/-!
Even streams, whose readings are all on one identifier and each close to the one before. A walk along
an even stream meets no break: it stops behind the next reading, or behind the second one if it has
to find the clock first, and finds nothing only if there is no such reading.
-/

namespace PacedStream
namespace Clock
set_option autoImplicit false

variable {c : Clock} {p : Packet} {pid : UInt16} {before ticks : UInt64} {latest? : Option UInt64}
  {l lead rest passed ahead : List Packet}

def reads (p : Packet) : Bool := (reading? p).isSome

def readings (l : List Packet) : List (UInt16 × UInt64) := l.filterMap reading?

/-- A list through its last reading. -/
def timed (l : List Packet) : List Packet := l.rdropWhile fun p => !reads p

/-- What a list holds behind its last reading. -/
def untimed (l : List Packet) : List Packet := l.rtakeWhile fun p => !reads p

def opened (l : List Packet) : List Packet := l.dropWhile fun p => !reads p

theorem readings_append : readings (l ++ rest) = readings l ++ readings rest := List.filterMap_append

theorem readings_cons_of_unread (h : reading? p = none) : readings (p :: l) = readings l :=
  List.filterMap_cons_none h

theorem readings_cons_of_read (h : reading? p = some (pid, ticks)) :
    readings (p :: l) = (pid, ticks) :: readings l := List.filterMap_cons_some h

theorem readings_eq_nil_iff : readings l = [] ↔ ∀ p ∈ l, reading? p = none :=
  List.filterMap_eq_nil_iff

theorem countP_owns (href : c.reference? = none ∨ c.reference? = some pid)
    (hsingle : ∀ r ∈ readings l, r.1 = pid) : l.countP c.owns = (readings l).length := by
  induction l with
  | nil => rfl
  | cons p l ih =>
    cases hread : reading? p with
    | none =>
      rw [readings_cons_of_unread hread] at hsingle ⊢
      rw [List.countP_cons_of_neg (by simp [owns, hread]), ih hsingle]
    | some r =>
      rw [readings_cons_of_read hread] at hsingle ⊢
      have hown : c.owns p = true := by
        have hpid : r.1 = pid := hsingle _ List.mem_cons_self
        rw [owns_of_reading? hread, hpid]
        rcases href with href | href <;> simp [href]
      rw [List.countP_cons_of_pos hown, ih fun r hr => hsingle r (List.mem_cons_of_mem _ hr)]
      rfl

theorem exists_reading (h : readings l ≠ []) : ∃ lead p rest pid ticks,
    l = lead ++ p :: rest ∧ readings lead = [] ∧ reading? p = some (pid, ticks) := by
  induction l with
  | nil => exact absurd rfl h
  | cons p l ih =>
    cases hread : reading? p with
    | some r => exact ⟨[], p, l, r.1, r.2, rfl, rfl, hread⟩
    | none =>
      rw [readings_cons_of_unread hread] at h
      obtain ⟨lead, p', rest, pid, ticks, hl, hlead, hread'⟩ := ih h
      exact ⟨p :: lead, p', rest, pid, ticks, by rw [hl]; rfl,
        (readings_cons_of_unread hread).trans hlead, hread'⟩

theorem opened_append (hlead : readings lead = []) : opened (lead ++ rest) = opened rest :=
  List.dropWhile_append_of_pos fun x hx => by simp [reads, readings_eq_nil_iff.mp hlead x hx]

theorem opened_cons (h : reading? p = some (pid, ticks)) : opened (p :: rest) = p :: rest :=
  List.dropWhile_cons_of_neg (by simp [reads, h])

theorem readings_opened : readings (opened l) = readings l := by
  induction l with
  | nil => rfl
  | cons p l ih =>
    cases hread : reading? p with
    | none =>
      rw [← List.singleton_append, opened_append (readings_cons_of_unread hread), ih,
        List.singleton_append, readings_cons_of_unread hread]
    | some r => rw [opened_cons hread]

theorem timed_append_untimed : timed l ++ untimed l = l := List.rdropWhile_append_rtakeWhile

theorem timed_of_unread (h : readings l = []) : timed l = [] ∧ untimed l = l := by
  have hnil : timed l = [] := List.rdropWhile_eq_nil_iff.mpr fun x hx => by
    simp [reads, readings_eq_nil_iff.mp h x hx]
  have hsplit : timed l ++ untimed l = l := timed_append_untimed
  rw [hnil, List.nil_append] at hsplit
  exact ⟨hnil, hsplit⟩

theorem timed_cons (h : readings (p :: l) ≠ []) :
    timed (p :: l) = p :: timed l ∧ untimed (p :: l) = untimed l := by
  have htimed : timed (p :: l) = p :: timed l := by
    unfold timed List.rdropWhile
    rw [List.reverse_cons, List.dropWhile_append]
    split
    · rename_i hnone
      have hunread : readings l = [] := readings_eq_nil_iff.mpr fun x hx => by
        have hx' := List.dropWhile_eq_nil_iff.mp (List.isEmpty_iff.mp hnone) x
          (List.mem_reverse.mpr hx)
        simpa [reads] using hx'
      have hread : reading? p ≠ none := fun hp => h ((readings_cons_of_unread hp).trans hunread)
      have hreads : reads p = true := Option.isSome_iff_ne_none.mpr hread
      rw [List.isEmpty_iff.mp hnone]
      simp [hreads]
    · simp
  have hsplit : timed (p :: l) ++ untimed (p :: l) = p :: (timed l ++ untimed l) := by
    rw [timed_append_untimed, timed_append_untimed]
  rw [htimed, List.cons_append] at hsplit
  exact ⟨htimed, List.append_cancel_left (List.cons.inj hsplit).2⟩

def Close (before after : UInt64) : Prop :=
  0 < ClockReference.gap before after ∧ ClockReference.gap before after < maxGap

instance : DecidableRel Close := fun _ _ => inferInstanceAs (Decidable (_ ∧ _))

theorem Close.isBreak_eq (h : Close before ticks) : isBreak before ticks = false := by
  have hne : ClockReference.gap before ticks ≠ 0 := fun hzero => by
    have hpos := h.1
    rw [hzero] at hpos
    exact absurd hpos (by decide)
  simp [isBreak, hne, h.2]

/-- Readings on one identifier, each close to the one before, and the first to the latest so far. -/
structure Even (pid : UInt16) (latest? : Option UInt64) (l : List Packet) : Prop where
  own : ∀ r ∈ readings l, r.1 = pid
  close : (latest?.toList ++ (readings l).map Prod.snd).IsChain Close

theorem Even.next {pid' : UInt16} (h : Even pid latest? (lead ++ p :: rest))
    (hlead : readings lead = []) (hread : reading? p = some (pid', ticks)) :
    pid' = pid ∧ (∀ before, latest? = some before → Close before ticks) ∧
      Even pid (some ticks) rest := by
  have hreadings : readings (lead ++ p :: rest) = (pid', ticks) :: readings rest := by
    rw [readings_append, hlead, readings_cons_of_read hread, List.nil_append]
  obtain ⟨hown, hclose⟩ := h
  rw [hreadings] at hown hclose
  refine ⟨hown _ List.mem_cons_self, ?_, ?_, ?_⟩
  · rintro before rfl
    exact (List.isChain_cons_cons.mp hclose).1
  · exact fun r hr => hown r (List.mem_cons_of_mem _ hr)
  · exact hclose.right_of_append

/-- A walk that found the next block, from where the stream is even again. -/
structure Locates (pid : UInt16) (w : Walk) : Prop where
  found : w.found = true
  reference_eq : w.clock.reference? = some pid
  locked : w.clock.locked = true
  latest : w.clock.latest?.isSome = true
  even : Even pid w.clock.latest? w.ahead

theorem walk_unread (passed ahead : List Packet) (h : readings lead = []) :
    c.walk passed (lead ++ ahead) =
      ({ c with scanned := c.scanned + lead.length } : Clock).walk (passed ++ lead) ahead := by
  induction lead generalizing c passed with
  | nil => simp
  | cons p lead ih =>
    have hunread : reading? p = none := readings_eq_nil_iff.mp h p List.mem_cons_self
    have hobserve : c.observe p = { clock := c.counted, verdict := .pass } := by
      simp only [observe, hunread]
      rfl
    have hrest : readings lead = [] := (readings_cons_of_unread hunread).symm.trans h
    rw [List.cons_append, walk_cons, hobserve, if_neg nofun, ih _ hrest]
    simp [Verdict.keep, Verdict.drops, counted, Nat.add_assoc, Nat.add_comm 1]

theorem walk_of_unread (h : readings ahead = []) : c.walk passed ahead =
    { clock := { c with scanned := c.scanned + ahead.length }
      passed := passed ++ ahead
      ahead := [] } := by
  have hwalk := walk_unread (c := c) passed [] h
  rw [List.append_nil] at hwalk
  exact hwalk

theorem walk_even_from (passed : List Packet) (hlatest : c.latest? = some before)
    (href : c.reference? = none ∨ c.reference? = some pid) (h : Even pid (some before) ahead)
    (hmore : readings ahead ≠ []) :
    Locates pid (c.walk passed ahead) ∧
      (c.walk passed ahead).passed ++ (c.walk passed ahead).ahead = passed ++ ahead := by
  obtain ⟨lead, p, rest, pid', ticks, rfl, hlead, hread⟩ := exists_reading hmore
  obtain ⟨rfl, hclose, heven⟩ := h.next hlead hread
  have hbreak := (hclose before rfl).isBreak_eq
  have hown : c.reference?.getD pid' = pid' := by
    rcases href with href | href <;> simp [href]
  rw [walk_unread _ _ hlead, walk_cons]
  generalize hskipped : ({ c with scanned := c.scanned + lead.length } : Clock) = c'
  have hobserve : (c'.observe p).clock = (c'.counted.learn pid').locate before ticks ∧
      (c'.observe p).verdict = .located := by
    subst hskipped
    simp [observe, hread, hown, observeReading, learn, hlatest, hbreak, counted]
  rw [hobserve.1, hobserve.2, if_pos rfl]
  refine ⟨⟨rfl, ?_, rfl, rfl, heven⟩, ?_⟩
  · subst hskipped
    exact congrArg some hown
  · simp [Verdict.keep, Verdict.drops]

/-- Without a reading to go on from, the second one ends a block. Without a lock the packets in front
of the first one are dropped. -/
theorem walk_even_anew (passed : List Packet) (hlatest : c.latest? = none)
    (href : c.reference? = none ∨ c.reference? = some pid) (h : Even pid none ahead)
    (hmore : 2 ≤ (readings ahead).length) :
    Locates pid (c.walk passed ahead) ∧
      (c.walk passed ahead).passed ++ (c.walk passed ahead).ahead =
        if c.locked then passed ++ ahead else opened ahead := by
  have hsome : readings ahead ≠ [] := fun hnil => by simp [hnil] at hmore
  obtain ⟨lead, p, rest, pid', ticks, rfl, hlead, hread⟩ := exists_reading hsome
  obtain ⟨rfl, _, heven⟩ := h.next hlead hread
  have hown : c.reference?.getD pid' = pid' := by
    rcases href with href | href <;> simp [href]
  rw [walk_unread _ _ hlead, walk_cons]
  generalize hskipped : ({ c with scanned := c.scanned + lead.length } : Clock) = c'
  have hobserve : (c'.observe p).clock = (c'.counted.learn pid').anchor ticks ∧
      (c'.observe p).verdict = .anchor c.locked := by
    subst hskipped
    simp [observe, hread, hown, observeReading, learn, hlatest, counted]
  have hrest : readings rest ≠ [] := fun hnil => by
    rw [readings_append, hlead, readings_cons_of_read hread, hnil] at hmore
    simp at hmore
  have href' : ((c'.counted.learn pid').anchor ticks).reference? = some pid' := by
    subst hskipped
    exact congrArg some hown
  rw [hobserve.1, hobserve.2, if_neg (by simp)]
  obtain ⟨hlocates, hwhole⟩ := walk_even_from ((Verdict.anchor c.locked).keep (passed ++ lead) p) rfl
    (.inr href') heven hrest
  refine ⟨hlocates, hwhole.trans ?_⟩
  rw [opened_append hlead, opened_cons hread]
  cases c.locked <;> simp [Verdict.keep, Verdict.drops]

end Clock
end PacedStream
