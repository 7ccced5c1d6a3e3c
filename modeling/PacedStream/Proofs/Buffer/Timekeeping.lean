import Mathlib.Algebra.Ring.Nat
import PacedStream.Proofs.Buffer.Fifo
import PacedStream.Proofs.Buffer.Upkeep

/-!
The time that ticks take into account. A tick that counts takes the whole microseconds since the last
one that counted, and a tick that comes too early leaves all of its time to the next. Main statement:
over ticks in order the microseconds taken fall short of those that passed by the whole microseconds
in the fractions that the ticks pass by.
-/

namespace PacedStream.Buffer
set_option autoImplicit false

variable {b : Buffer} {op : Operation} {history : List Operation} {now last start stop : Int}
  {spaced : Int → Int → Prop}

def Operation.instant? : Operation → Option Int
  | .tick now => some now
  | _ => none

def sinceLast (b : Buffer) (now : Int) : Nat := (b.lastTick?.map (Instant.since now)).getD 0

def taken? (b : Buffer) (op : Operation) : Option Nat := op.instant?.bind b.counted?

/-- The nanoseconds that an operation passes by: the fraction of a tick that counts, and the whole
span of a tick that finds that time jumped. -/
def forgone (b : Buffer) : Operation → Nat
  | .tick now =>
    if b.jumps now then b.sinceLast now
    else if (b.counted? now).isSome then b.sinceLast now % 1000
    else 0
  | _ => 0

def takings (b : Buffer) (history : List Operation) : List Nat :=
  gather after (fun b op => (b.taken? op).toList) b history

theorem takings_cons (b : Buffer) (op : Operation) (rest : List Operation) :
    b.takings (op :: rest) = (b.taken? op).toList ++ (b.apply op).buffer.takings rest := rfl

def arrears (b : Buffer) : List Operation → Nat
  | [] => 0
  | op :: rest => b.forgone op + arrears (b.apply op).buffer rest

/-- The ticks of a history, from one instant to another, with a condition on neighbours. -/
inductive Ticking (spaced : Int → Int → Prop) : Int → List Operation → Int → Prop where
  | done (now : Int) : Ticking spaced now [] now
  | tick {last now stop : Int} {rest : List Operation} (gap : spaced last now)
      (more : Ticking spaced now rest stop) : Ticking spaced last (.tick now :: rest) stop
  | other {last stop : Int} {op : Operation} {rest : List Operation} (noTick : op.instant? = none)
      (more : Ticking spaced last rest stop) : Ticking spaced last (op :: rest) stop

theorem Ticking.mono {spaced' : Int → Int → Prop} (h : Ticking spaced start history stop)
    (weaker : ∀ last now, spaced last now → spaced' last now) :
    Ticking spaced' start history stop := by
  induction h with
  | done now => exact .done now
  | tick gap _ ih => exact .tick (weaker _ _ gap) ih
  | other noTick _ ih => exact .other noTick ih

theorem lastTick_apply (noTick : op.instant? = none) :
    (b.apply op).buffer.lastTick? = b.lastTick? := by
  by_cases hreceiver : ∃ on, op = .setDelivers on
  · obtain ⟨on, rfl⟩ := hreceiver
    rfl
  · refine (aside_apply (fun now hop => ?_) fun on hop => hreceiver ⟨on, hop⟩).lastTick_eq
    rw [hop] at noTick
    cases noTick

theorem lastTick_run (noTicks : ∀ op ∈ history, op.instant? = none) :
    (b.run history).lastTick? = b.lastTick? := by
  induction history generalizing b with
  | nil => rfl
  | cons op rest ih =>
    have hrest := ih (b := (b.apply op).buffer) fun op hop => noTicks op (List.mem_cons_of_mem _ hop)
    exact hrest.trans (lastTick_apply (noTicks op List.mem_cons_self))

theorem forgone_of_no_tick (noTick : op.instant? = none) : b.forgone op = 0 := by
  cases op with
  | tick now => cases noTick
  | _ => rfl

theorem sinceLast_eq (hlast : b.lastTick? = some last) : b.sinceLast now = (now - last).toNat := by
  rw [sinceLast, hlast]
  rfl

/-- What a tick makes of the span since the last one that counted, which is `last`. -/
inductive Accounts (b : Buffer) (last now : Int) : Prop where
  | early (taken : b.counted? now = none) (forgone_eq : b.forgone (.tick now) = 0)
      (stays : (b.tick now).buffer = b) (short : now - last < 1000)
  | jump (taken : b.counted? now = none) (forgone_eq : b.forgone (.tick now) = (now - last).toNat)
      (drops : (b.tick now).buffer = { b.dropAll with lastTick? := some now })
      (long : last + jumpLimit < now)
  | count (taken : b.counted? now = some ((now - last).toNat / 1000))
      (forgone_eq : b.forgone (.tick now) = (now - last).toNat % 1000)
      (lastTick_eq : (b.tick now).buffer.lastTick? = some now)

theorem accounts_tick (hlast : b.lastTick? = some last) (hle : last ≤ now) :
    b.Accounts last now := by
  have hsince : b.sinceLast now = (now - last).toNat := sinceLast_eq hlast
  have helapsed : Instant.since? now last = some (now - last).toNat := if_pos hle
  have htick : b.tick now = if jumpLimit < (now - last).toNat then b.jump now (some (now - last).toNat)
      else if Span.wholeMicroseconds (now - last).toNat = 0 then { buffer := b }
      else b.advance now (Span.wholeMicroseconds (now - last).toNat) := by
    simp only [tick, hlast, helapsed]
  have hjumps : b.jumps now = decide (jumpLimit < (now - last).toNat) := by
    simp only [jumps, hlast, helapsed]
  have hcounted : b.counted? now = if jumpLimit < (now - last).toNat ∨
      Span.wholeMicroseconds (now - last).toNat = 0 then none
      else some (Span.wholeMicroseconds (now - last).toNat) := by
    simp only [counted?, hlast, helapsed]
  by_cases hlong : jumpLimit < (now - last).toNat
  · refine .jump ?_ ?_ ?_ (by omega)
    · rw [hcounted, if_pos (.inl hlong)]
    · simp only [forgone, hjumps, hlong, decide_true, if_true, hsince]
    · rw [htick, if_pos hlong]
      rfl
  · by_cases hzero : Span.wholeMicroseconds (now - last).toNat = 0
    · have hnone : b.counted? now = none := by rw [hcounted, if_pos (.inr hzero)]
      refine .early hnone ?_ ?_ ?_
      · simp [forgone, hjumps, hlong, hnone]
      · rw [htick, if_neg hlong, if_pos hzero]
      · unfold Span.wholeMicroseconds at hzero
        omega
    · have hsome : b.counted? now = some (Span.wholeMicroseconds (now - last).toNat) := by
        rw [hcounted, if_neg (by simp [hlong, hzero])]
      refine .count hsome ?_ ?_
      · simp [forgone, hjumps, hlong, hsome, hsince]
      · rw [htick, if_neg hlong, if_neg hzero]
        exact (fixed_advance b now _).lastTick_eq

structure Spends (b : Buffer) (now : Int) : Prop where
  counts : ∀ microseconds, b.counted? now = some microseconds →
    b.tick now = b.advance now microseconds
  credits : ∀ microseconds, b.counted? now = some microseconds → b.flow = .running →
    b.settings.low.toNat ≤ b.clock.blocks →
      (b.tick now).buffer = ((b.credited now microseconds).pace now).buffer

theorem spends (b : Buffer) (now : Int) : b.Spends now := by
  have hcounts : ∀ microseconds, b.counted? now = some microseconds →
      b.tick now = b.advance now microseconds := by
    intro microseconds hcounted
    have hticks := ticks b now
    generalize b.tick now = s at hticks
    cases hticks with
    | jump elapsed? jumps =>
      rw [counted?_of_jumps jumps] at hcounted
      cases hcounted
    | skip _ _ uncounted =>
      rw [uncounted] at hcounted
      cases hcounted
    | count _ counted =>
      rw [hcounted] at counted
      cases counted
      rfl
  refine ⟨hcounts, fun microseconds hcounted hrunning henough => ?_⟩
  obtain ⟨asked, hadvance⟩ := advance_eq b now microseconds
  rw [hcounts microseconds hcounted, hadvance, hrunning]
  change ((b.timed now).play now microseconds).buffer = _
  rw [play_of_enough hrunning henough]

/-- The time from `last` to the last tick that counts is taken in whole microseconds or passed by. -/
theorem last_of_ticking (h : Ticking (· ≤ ·) start history stop) (hlast : b.lastTick? = some last)
    (hle : last ≤ start) (hnear : start - last < 1000) :
    ∃ last', (b.run history).lastTick? = some last' ∧ last' ≤ stop ∧ stop - last' < 1000 ∧
      last' = last + (1000 * (b.takings history).sum + b.arrears history : Nat) := by
  induction h generalizing b last with
  | done now => exact ⟨last, hlast, hle, hnear, by simp [takings, gather, arrears]⟩
  | @tick before now stop rest gap _ ih =>
    have htaken : b.taken? (.tick now) = b.counted? now := rfl
    cases accounts_tick hlast (Int.le_trans hle gap) with
    | early taken forgone_eq stays short =>
      obtain ⟨last', hrun, hle', hnear', heq⟩ :=
        ih (b := (b.tick now).buffer) ((congrArg lastTick? stays).trans hlast)
          (Int.le_trans hle gap) short
      refine ⟨last', hrun, hle', hnear', ?_⟩
      rw [takings_cons, arrears, htaken, taken, forgone_eq, Nat.zero_add]
      exact heq
    | jump taken forgone_eq drops =>
      obtain ⟨last', hrun, hle', hnear', heq⟩ :=
        ih (b := (b.tick now).buffer) (congrArg lastTick? drops) (Int.le_refl now) (by omega)
      refine ⟨last', hrun, hle', hnear', ?_⟩
      rw [takings_cons, arrears, htaken, taken, forgone_eq, Option.toList_none, List.nil_append]
      change last' = last + ((1000 * (takings (b.tick now).buffer rest).sum +
        ((now - last).toNat + arrears (b.tick now).buffer rest) : Nat) : Int)
      omega
    | count taken forgone_eq lastTick_eq =>
      obtain ⟨last', hrun, hle', hnear', heq⟩ :=
        ih (b := (b.tick now).buffer) lastTick_eq (Int.le_refl now) (by omega)
      refine ⟨last', hrun, hle', hnear', ?_⟩
      rw [takings_cons, arrears, htaken, taken, forgone_eq, Option.toList_some, List.singleton_append,
        List.sum_cons]
      change last' = last + ((1000 * ((now - last).toNat / 1000 +
        (takings (b.tick now).buffer rest).sum) +
        ((now - last).toNat % 1000 + arrears (b.tick now).buffer rest) : Nat) : Int)
      have hdivide := Nat.div_add_mod (now - last).toNat 1000
      omega
  | @other before stop op rest noTick _ ih =>
    obtain ⟨last', hrun, hle', hnear', heq⟩ :=
      ih (b := (b.apply op).buffer) ((lastTick_apply noTick).trans hlast) hle hnear
    refine ⟨last', hrun, hle', hnear', ?_⟩
    have htaken : b.taken? op = none := by rw [taken?, noTick]; rfl
    rw [takings_cons, arrears, htaken, forgone_of_no_tick noTick, Nat.zero_add]
    exact heq

theorem arrears_of_whole
    (h : Ticking (fun last now => last ≤ now ∧ now ≤ last + jumpLimit ∧ 1000 ∣ now - last) start
      history stop) (hlast : b.lastTick? = some start) :
    b.arrears history = 0 ∧ (b.run history).lastTick? = some stop := by
  induction h generalizing b with
  | done now => exact ⟨rfl, hlast⟩
  | @tick last now stop rest gap _ ih =>
    obtain ⟨hle, hshort, hwhole⟩ := gap
    have hstep : b.forgone (.tick now) = 0 ∧ (b.tick now).buffer.lastTick? = some now := by
      cases accounts_tick hlast hle with
      | early _ forgone_eq stays short =>
        -- Less than a microsecond in whole microseconds is no time at all.
        have hsame : now = last := by omega
        exact ⟨forgone_eq, (congrArg lastTick? stays).trans (hsame ▸ hlast)⟩
      | jump _ _ _ long => omega
      | count _ forgone_eq lastTick_eq =>
        refine ⟨?_, lastTick_eq⟩
        rw [forgone_eq]
        omega
    obtain ⟨harrears, hrun⟩ := ih (b := (b.tick now).buffer) hstep.2
    exact ⟨by rw [arrears, hstep.1, Nat.zero_add]; exact harrears, hrun⟩
  | @other last stop op rest noTick _ ih =>
    obtain ⟨harrears, hrun⟩ := ih (b := (b.apply op).buffer) ((lastTick_apply noTick).trans hlast)
    exact ⟨by rw [arrears, forgone_of_no_tick noTick, Nat.zero_add]; exact harrears, hrun⟩

theorem takings_of_whole
    (h : Ticking (fun last now => last ≤ now ∧ now ≤ last + jumpLimit ∧ 1000 ∣ now - last) start
      history stop) (hlast : b.lastTick? = some start) :
    (b.takings history).sum = Span.wholeMicroseconds (Instant.since stop start) := by
  obtain ⟨harrears, hstop⟩ := arrears_of_whole h hlast
  obtain ⟨last, hrun, _, _, heq⟩ := last_of_ticking (h.mono fun _ _ gap => gap.1) hlast
    (Int.le_refl start) (by omega)
  have hsame : last = stop := Option.some.inj (hrun.symm.trans hstop)
  rw [hsame, harrears] at heq
  unfold Span.wholeMicroseconds Instant.since
  omega

theorem run_tick (b : Buffer) (before : List Operation) (now : Int) :
    b.run (before ++ [.tick now]) = ((b.run before).tick now).buffer := run_append b before _

theorem lastTick_first (settings : Settings) (untimed : ∀ op ∈ history, op.instant? = none) :
    ((create settings).buffer.run (history ++ [.tick start])).lastTick? = some start := by
  have hnone : ((create settings).buffer.run history).lastTick? = none := lastTick_run untimed
  rw [run_tick, tick_first hnone]
  rfl

/-- The time that the ticks of a history take from the first tick of a buffer on, against the time
that passed until an instant. -/
structure Timekeeping (b : Buffer) (history : List Operation) (start stop : Int) : Prop where
  balance : 1000 * (b.takings history).sum + b.arrears history + (b.run history).sinceLast stop =
    Instant.since stop start
  /-- The whole microseconds in what was passed by and what is left are missing. -/
  missing : (b.takings history).sum +
      (b.arrears history + (b.run history).sinceLast stop) / 1000 =
    Span.wholeMicroseconds (Instant.since stop start)
  complete_iff : (b.takings history).sum = Span.wholeMicroseconds (Instant.since stop start) ↔
    b.arrears history + (b.run history).sinceLast stop < 1000
  left : (b.run history).sinceLast stop < 1000
  spent : ∀ earlier now later, history = earlier ++ .tick now :: later → (b.run earlier).Spends now

theorem keeps_time (settings : Settings) {before : List Operation}
    (untimed : ∀ op ∈ before, op.instant? = none) (ticking : Ticking (· ≤ ·) start history stop) :
    ((create settings).buffer.run (before ++ [.tick start])).Timekeeping history start stop := by
  have hfirst : ((create settings).buffer.run (before ++ [.tick start])).lastTick? = some start :=
    lastTick_first settings untimed
  generalize (create settings).buffer.run (before ++ [.tick start]) = b at hfirst
  obtain ⟨last, hlast, hle, hnear, heq⟩ :=
    last_of_ticking ticking hfirst (Int.le_refl start) (by omega)
  have hleft : (b.run history).sinceLast stop = (stop - last).toNat := sinceLast_eq hlast
  have hbalance : 1000 * (b.takings history).sum + b.arrears history +
      (b.run history).sinceLast stop = Instant.since stop start := by
    rw [hleft]
    unfold Instant.since
    omega
  have hmissing : (b.takings history).sum +
      (b.arrears history + (b.run history).sinceLast stop) / 1000 =
      Span.wholeMicroseconds (Instant.since stop start) := by
    unfold Span.wholeMicroseconds
    omega
  refine ⟨hbalance, hmissing, by omega, by omega, ?_⟩
  exact fun earlier now later _ => spends _ now

def quickReadings (count : Nat) : List Packet :=
  (List.range count).map fun k =>
    Packet.Draft.packet { pid := 256, clock? := some (UInt64.ofNat (k * 27)) }

/-- The second tick comes too early and leaves its time to the third, which passes 600 ns by. -/
theorem keeps_time_of_early_tick :
    let b := (create sampleSettings).buffer.run ([.push (quickReadings 10)] ++ [.tick 0])
    let history := [.tick 1000, .tick 1900, .setName "early", .tick 2600, .tick 3500]
    b.takings history = [1, 1] ∧ b.arrears history = 600 ∧ (b.run history).sinceLast 3500 = 900 ∧
      b.Timekeeping history 0 3500 := by
  intro b history
  have hticking : Ticking (· ≤ ·) 0 history 3500 :=
    .tick (by decide) <| .tick (by decide) <| .other rfl <| .tick (by decide) <|
      .tick (by decide) <| .done 3500
  exact ⟨by decide +kernel, by decide +kernel, by decide +kernel,
    keeps_time sampleSettings (by simp [Operation.instant?]) hticking⟩

/-- Two ticks pass half a microsecond by each, so that only three of four microseconds are taken, and
two packets have left where three were due. -/
theorem falls_behind :
    let b := (create sampleSettings).buffer.run
      [.setDelivers true, .push (quickReadings 10), .tick 0]
    let history := [.tick 1000, .tick 2500, .tick 4000]
    Ticking (fun last now => last ≤ now ∧ now ≤ last + jumpLimit) 0 history 4000 ∧
      (b.run [.tick 1000]).flow = .running ∧ b.takings history = [1, 1, 1] ∧
      Span.wholeMicroseconds (Instant.since 4000 0) = 4 ∧ (b.sent history).length = 2 := by
  intro b history
  refine ⟨?_, by decide +kernel, by decide +kernel, by decide, by decide +kernel⟩
  exact .tick (by decide) <| .tick (by decide) <| .tick (by decide) <| .done 4000

end PacedStream.Buffer
