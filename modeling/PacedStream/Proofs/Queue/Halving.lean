import PacedStream.Proofs.Buffer.Course
import PacedStream.Proofs.Queue.View

/-!
Calls that change the number of slots, in any order and between any other use of the queue. Main
statement: halvings lie an interval apart, the first consideration of all does not halve, and each
halving leaves every queued item, the place of the scan and a slot to spare.
-/

namespace PacedStream
set_option autoImplicit false

structure Tended (α : Type) where
  sizing : Sizing
  queue : Queue α

namespace Tended

variable {α : Type} [Inhabited α]

inductive Call (α : Type) where
  | halve (now : Int)
  | makeRoom (count : Nat)
  | allow (maxSize : Nat)
  | operate (op : Queue.Operation α)

def call (t : Tended α) : Call α → Tended α × Bool
  | .halve now =>
    let halved? := t.sizing.halve? t.queue now
    ({ sizing := t.sizing.consider now, queue := halved?.getD t.queue }, halved?.isSome)
  | .makeRoom count =>
    let growth := t.sizing.makeRoom t.queue count
    ({ t with queue := growth.queue }, growth.enough)
  | .allow maxSize => ({ t with sizing := { t.sizing with maxSize } }, true)
  | .operate op => ({ t with queue := (t.queue.perform op).1 }, (t.queue.perform op).2)

def Permits (t : Tended α) : Call α → Prop
  | .operate op => t.queue.Permits op ∧ (t.queue.perform op).1.InCircle
  | .halve _ | .makeRoom _ | .allow _ => True

instance (t : Tended α) : (c : Call α) → Decidable (t.Permits c)
  | .operate op =>
    inferInstanceAs (Decidable (t.queue.Permits op ∧ (t.queue.perform op).1.InCircle))
  | .halve _ | .makeRoom _ | .allow _ => isTrue trivial

def run (t : Tended α) (calls : List (Call α)) : Tended α := calls.foldl (fun t c => (t.call c).1) t

def Allows (t : Tended α) : List (Call α) → Prop
  | [] => True
  | c :: rest => t.Permits c ∧ (t.call c).1.Allows rest

instance decidableAllows : (t : Tended α) → (calls : List (Call α)) → Decidable (t.Allows calls)
  | _, [] => isTrue trivial
  | t, c :: rest =>
    have := decidableAllows (t.call c).1 rest
    inferInstanceAs (Decidable (t.Permits c ∧ (t.call c).1.Allows rest))

def halvedAt? (t : Tended α) : Call α → Option Int
  | .halve now => if (t.call (.halve now)).2 then some now else none
  | .makeRoom _ | .allow _ | .operate _ => none

def halvings (t : Tended α) : List (Call α) → List Int
  | [] => []
  | c :: rest => (t.halvedAt? c).toList ++ (t.call c).1.halvings rest

variable {t : Tended α} {c : Call α} {calls before rest : List (Call α)} {q r : Queue α} {now : Int}

theorem isDue_iff {s : Sizing} : s.isDue now = true ↔
    ∃ last, s.lastHalving? = some last ∧ last + Sizing.halvingInterval ≤ now := by
  have hinterval : Sizing.halvingInterval = 10000000000 := rfl
  unfold Sizing.isDue
  cases s.lastHalving? with
  | none => simp
  | some last =>
    dsimp only
    rw [decide_eq_true_eq, Instant.since]
    simp only [Option.some.injEq, exists_eq_left']
    omega

inductive Turns (t : Tended α) (c : Call α) : Prop where
  | rest (after : (t.call c).1.sizing.lastHalving? = t.sizing.lastHalving?)
      (whole : t.halvedAt? c = none)
  | start (before : t.sizing.lastHalving? = none) (whole : t.halvedAt? c = none)
  | elapsed {last now : Int} (before : t.sizing.lastHalving? = some last)
      (after : (t.call c).1.sizing.lastHalving? = some now)
      (apart : last + Sizing.halvingInterval ≤ now)
      (halved : t.halvedAt? c = none ∨ t.halvedAt? c = some now)

theorem turns_halve (t : Tended α) (now : Int) : t.Turns (.halve now) := by
  have hhalvedAt : t.halvedAt? (.halve now) =
      if (t.sizing.halve? t.queue now).isSome then some now else none := rfl
  have hafter : (t.call (.halve now)).1.sizing = t.sizing.consider now := rfl
  cases hdue : t.sizing.isDue now with
  | false =>
    have hwhole : t.halvedAt? (.halve now) = none := by
      rw [hhalvedAt, Sizing.halve?, hdue]
      rfl
    cases hlast : t.sizing.lastHalving? with
    | none => exact .start hlast hwhole
    | some last =>
      refine .rest ?_ hwhole
      rw [hafter, Sizing.consider, hlast, hdue]
      exact hlast
  | true =>
    obtain ⟨last, hlast, hapart⟩ := isDue_iff.mp hdue
    refine .elapsed hlast ?_ hapart ?_
    · rw [hafter, Sizing.consider, if_pos (.inr hdue)]
    · rw [hhalvedAt]
      split
      · exact .inr rfl
      · exact .inl rfl

theorem turns (t : Tended α) (c : Call α) : t.Turns c := by
  cases c with
  | halve now => exact turns_halve t now
  | makeRoom | allow | operate => exact .rest rfl rfl

/-- Every halving comes an interval after the last consideration before the run, and after every
halving before it. -/
theorem halvings_apart (t : Tended α) (calls : List (Call α)) :
    (∀ last, t.sizing.lastHalving? = some last → ∀ x ∈ t.halvings calls,
      last + Sizing.halvingInterval ≤ x) ∧
      (t.halvings calls).Pairwise fun (a b : Int) => a + Sizing.halvingInterval ≤ b := by
  induction calls generalizing t with
  | nil => exact ⟨by simp [halvings], .nil⟩
  | cons c rest ih =>
    obtain ⟨hlater, hpairs⟩ := ih (t.call c).1
    rw [halvings]
    cases turns t c with
    | rest after whole =>
      rw [whole]
      exact ⟨fun last hlast => hlater last (after.trans hlast), hpairs⟩
    | start before whole =>
      rw [whole]
      refine ⟨fun last hlast => ?_, hpairs⟩
      rw [before] at hlast
      cases hlast
    | @elapsed last now before after apart halved =>
      have hfirst : ∀ x ∈ (t.call c).1.halvings rest, now + Sizing.halvingInterval ≤ x :=
        hlater now after
      have hnow : ∀ x ∈ (t.halvedAt? c).toList, x = now := by
        rcases halved with hnone | hsome
        · simp [hnone]
        · simp [hsome]
      constructor
      · intro last' hlast' x hx
        obtain rfl : last = last' := Option.some.inj (before.symm.trans hlast')
        rcases List.mem_append.mp hx with hx | hx
        · exact hnow x hx ▸ apart
        · have hlate := hfirst x hx
          omega
      · refine List.pairwise_append.mpr ⟨?_, hpairs, fun x hx y hy => hnow x hx ▸ hfirst y hy⟩
        rcases halved with hnone | hsome
        · rw [hnone]
          exact .nil
        · rw [hsome]
          exact List.pairwise_singleton _ _

theorem lastHalving?_run (h : ∀ now, Call.halve now ∉ before) :
    (t.run before).sizing.lastHalving? = t.sizing.lastHalving? := by
  induction before generalizing t with
  | nil => rfl
  | cons c before ih =>
    have hrest : ((t.call c).1.run before).sizing.lastHalving? =
        (t.call c).1.sizing.lastHalving? :=
      ih fun now hmem => h now (List.mem_cons_of_mem _ hmem)
    refine hrest.trans ?_
    cases c with
    | halve now => exact absurd List.mem_cons_self (h now)
    | makeRoom | allow | operate => rfl

theorem ordered_call (hq : t.queue.Ordered) (hc : t.Permits c) : (t.call c).1.queue.Ordered := by
  cases c with
  | halve now =>
    change ((t.sizing.halve? t.queue now).getD t.queue).Ordered
    cases hhalve : t.sizing.halve? t.queue now with
    | none => exact hq
    | some r => exact (Queue.resized_of_resize? hq (Sizing.resize?_of_halve? hhalve)).ordered
  | makeRoom count => exact (Sizing.lists_makeRoom hq t.sizing count).1
  | allow => exact hq
  | operate op =>
    exact Queue.ordered_perform hq hc.1 ((Queue.inCircle_perform_iff hq hc.1).mp hc.2)

theorem ordered_run (hq : t.queue.Ordered) (hcalls : t.Allows (before ++ rest)) :
    (t.run before).queue.Ordered := by
  induction before generalizing t with
  | nil => exact hq
  | cons c before ih => exact ih (ordered_call hq hcalls.1) hcalls.2

structure Halved (q r : Queue α) : Prop where
  size_eq : r.size = max (q.size / 2) q.minSize
  size_lt : r.size < q.size
  toList_eq : r.toList = q.toList
  scanned_eq : r.scanned = q.scanned
  room_pos : 0 < r.room

theorem halved_of_resize? (hq : q.Ordered) (hfew : q.length < q.size / 4)
    (hmin : q.minSize < q.size) (h : q.resize? (q.size / 2) = some r) : Halved q r := by
  have hresized := Queue.resized_of_resize? hq h
  have hlist := hresized.toList_eq hq
  have hlength : r.length = q.length := by
    rw [← Queue.length_toList, hlist, Queue.length_toList]
  have hscanned : r.scanned = q.scanned := by
    rw [← Queue.length_passed, hresized.passed_eq, Queue.length_passed]
  have hsize := hresized.size_eq
  refine ⟨hsize, by omega, hlist, hscanned, ?_⟩
  rw [Queue.room, hsize, hlength]
  omega

theorem resize?_of_few (hfew : q.length < q.size / 4) : (q.resize? (q.size / 2)).isSome := by
  rw [Option.isSome_iff_ne_none, Ne, Queue.resize?_eq_none_iff]
  omega

structure Halves (t : Tended α) (now : Int) : Prop where
  answer_iff : (t.call (.halve now)).2 = true ↔ t.sizing.isDue now = true ∧
    t.queue.length < t.queue.size / 4 ∧ t.queue.minSize < t.queue.size
  halved : (t.call (.halve now)).2 = true → Halved t.queue (t.call (.halve now)).1.queue
  kept : (t.call (.halve now)).2 = false → (t.call (.halve now)).1.queue = t.queue

theorem halves_of_ordered (hq : t.queue.Ordered) (now : Int) : t.Halves now := by
  have hanswer : (t.call (.halve now)).2 = (t.sizing.halve? t.queue now).isSome := rfl
  have hqueue : (t.call (.halve now)).1.queue = (t.sizing.halve? t.queue now).getD t.queue := rfl
  have hiff : (t.call (.halve now)).2 = true ↔ t.sizing.isDue now = true ∧
      t.queue.length < t.queue.size / 4 ∧ t.queue.minSize < t.queue.size := by
    rw [hanswer, Sizing.halve?, Sizing.halved?]
    split
    · rename_i hdue
      split
      · rename_i hfew
        simp [hdue, hfew, resize?_of_few hfew.1]
      · rename_i hmany
        simp only [Option.isSome_none, Bool.false_eq_true, false_iff]
        exact fun h => hmany h.2
    · rename_i hearly
      simp [hearly]
  refine ⟨hiff, fun hyes => ?_, fun hno => ?_⟩
  · obtain ⟨_, hfew, hmin⟩ := hiff.mp hyes
    rw [hanswer] at hyes
    obtain ⟨r, hr⟩ := Option.isSome_iff_exists.mp hyes
    rw [hqueue, hr]
    exact halved_of_resize? hq hfew hmin (Sizing.resize?_of_halve? hr)
  · rw [hanswer, Option.isSome_eq_false_iff, Option.isNone_iff_eq_none] at hno
    rw [hqueue, hno]
    rfl

structure Spaced (t : Tended α) (calls : List (Call α)) : Prop where
  apart : (t.halvings calls).Pairwise fun (a b : Int) => a + Sizing.halvingInterval ≤ b
  /-- Where no interval runs yet, the first consideration only starts one. -/
  first : t.sizing.lastHalving? = none → ∀ before now rest, calls = before ++ .halve now :: rest →
    (∀ earlier, Call.halve earlier ∉ before) → ((t.run before).call (.halve now)).2 = false
  each : ∀ before now rest, calls = before ++ .halve now :: rest → (t.run before).Halves now

/-- In every run that finds what it needs, halvings are rare and lose nothing. -/
theorem halvings_spaced (t : Tended α) (calls : List (Call α)) (hq : t.queue.Ordered)
    (hcalls : t.Allows calls) : t.Spaced calls := by
  refine ⟨(halvings_apart t calls).2, ?_, ?_⟩
  · rintro hnone before now rest rfl hfirst
    have hhalves := halves_of_ordered (ordered_run hq hcalls) now
    refine Bool.eq_false_iff.mpr fun hyes => ?_
    obtain ⟨last, hlast, _⟩ := isDue_iff.mp (hhalves.answer_iff.mp hyes).1
    rw [lastHalving?_run hfirst, hnone] at hlast
    cases hlast
  · rintro before now rest rfl
    exact halves_of_ordered (ordered_run hq hcalls) now

/-- Halved to its half and then to the least size, with items pushed in front of both calls. -/
theorem halvings_spaced_to_least :
    let t : Tended Nat := { sizing := { maxSize := 100 }, queue := Queue.create 40 16 }
    let calls : List (Call Nat) := [.halve 0, .operate (.push [1, 2, 3]), .operate .pass,
      .halve 5000000000, .halve 10000000000, .allow 50, .operate .pop, .halve 20000000000,
      .makeRoom 9, .halve 30000000000]
    t.halvings calls = [10000000000, 20000000000] ∧ (t.run calls).queue.size = 16 ∧
      (t.run calls).queue.toList = [2, 3] ∧ t.Spaced calls := by
  intro t calls
  have hq : t.queue.Ordered := Queue.ordered_create 40 16
  exact ⟨by decide +kernel, by decide +kernel, by decide +kernel,
    halvings_spaced t calls hq (by decide +kernel)⟩

end Tended

namespace Buffer

theorem settle_eq_halve (b : Buffer) (now : Int) :
    ({ sizing := (b.settle now).buffer.sizing, queue := (b.settle now).buffer.queue } :
      Tended Packet) = (Tended.call { sizing := b.sizing, queue := b.queue } (.halve now)).1 := by
  unfold settle Tended.call
  dsimp only
  split
  · rename_i hnone
    rw [hnone]
    rfl
  · rename_i queue hsome
    rw [hsome]
    rfl

end Buffer
end PacedStream
