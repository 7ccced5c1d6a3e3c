import PacedStream.Proofs.Buffer.Rounds

/-!
Ticks as courses of moves. A tick does not count, finds that time jumped, or advances the flow.
Main statement: a tick is a course with exactly its events, and sends what those events deliver.
-/

namespace PacedStream.Buffer
set_option autoImplicit false

variable {b : Buffer} {now : Int}

inductive Ticks (b : Buffer) (now : Int) : Step → Prop where
  | jump (elapsed? : Option Nat) (jumps : b.jumps now = true) : Ticks b now (b.jump now elapsed?)
  /-- No more than the count of time starts. -/
  | skip (lastTick? : Option Int) (steady : b.jumps now = false)
      (uncounted : b.counted? now = none) : Ticks b now { buffer := { b with lastTick? } }
  | count {microseconds : Nat} (steady : b.jumps now = false)
      (counted : b.counted? now = some microseconds) : Ticks b now (b.advance now microseconds)

theorem ticks (b : Buffer) (now : Int) : Ticks b now (b.tick now) := by
  cases hlast : b.lastTick? with
  | none =>
    have htick : b.tick now = { buffer := { b with lastTick? := some now } } := by
      simp only [tick, hlast]
    rw [htick]
    exact .skip _ (by simp only [jumps, hlast]) (by simp only [counted?, hlast])
  | some last =>
    cases helapsed : Instant.since? now last with
    | none =>
      have htick : b.tick now = b.jump now none := by simp only [tick, hlast, helapsed]
      rw [htick]
      exact .jump none (by simp only [jumps, hlast, helapsed])
    | some elapsed =>
      by_cases hlong : jumpLimit < elapsed
      · have htick : b.tick now = b.jump now (some elapsed) := by
          simp only [tick, hlast, helapsed, hlong, if_true]
        rw [htick]
        exact .jump _ (by simp [jumps, hlast, helapsed, hlong])
      · have hsteady : b.jumps now = false := by simp [jumps, hlast, helapsed, hlong]
        by_cases hzero : Span.wholeMicroseconds elapsed = 0
        · have htick : b.tick now = { buffer := b } := by
            simp only [tick, hlast, helapsed, hlong, hzero, if_true, if_false]
          rw [htick]
          exact .skip b.lastTick? hsteady (by simp [counted?, hlast, helapsed, hzero])
        · have htick : b.tick now = b.advance now (Span.wholeMicroseconds elapsed) := by
            simp only [tick, hlast, helapsed, hlong, hzero, if_false]
          rw [htick]
          exact .count hsteady (by simp [counted?, hlast, helapsed, hlong, hzero])

theorem counted?_of_jumps (jumps : b.jumps now = true) : b.counted? now = none := by
  unfold Buffer.jumps at jumps
  unfold counted?
  split at jumps
  · cases jumps
  · split at jumps
    · rfl
    · exact if_pos (.inl (of_decide_eq_true jumps))

theorem tick_of_span {last : Int} (hlast : b.lastTick? = some last) (hfrom : last + 1000 ≤ now)
    (hto : now ≤ last + 1000000000) : ∃ microseconds, b.counted? now = some microseconds ∧
      b.jumps now = false ∧ b.tick now = b.advance now microseconds := by
  have helapsed : Instant.since? now last = some (now - last).toNat :=
    Instant.since?_eq_some_iff.mpr (by omega)
  have hshort : ¬ jumpLimit < (now - last).toNat := by
    have hlimit : jumpLimit = 1000000000 := rfl
    omega
  have hcounts : ¬ Span.wholeMicroseconds (now - last).toNat = 0 := by
    unfold Span.wholeMicroseconds
    omega
  refine ⟨Span.wholeMicroseconds (now - last).toNat, ?_, ?_, ?_⟩
  · simp [counted?, hlast, helapsed, hshort, hcounts]
  · simp [jumps, hlast, helapsed, hshort]
  · simp only [tick, hlast, helapsed, hshort, hcounts, if_false]

def timed (b : Buffer) (now : Int) : Buffer := { b with lastTick? := some now }

theorem tick_first (huntimed : b.lastTick? = none) : (b.tick now).buffer = b.timed now := by
  simp only [tick, huntimed, timed]

theorem move_timed (b : Buffer) (now : Int) : Move b [] (b.timed now) := .adjust rfl rfl rfl rfl

theorem advance_eq (b : Buffer) (now : Int) (microseconds : Nat) :
    ∃ asked, b.advance now microseconds =
      { (match b.flow with
        | .empty => { buffer := b.timed now }
        | .buffering => (b.timed now).prepare now
        | .running => (b.timed now).play now microseconds
        | .underflow _ => (b.timed now).recover now : Step) with asked } := ⟨_, rfl⟩

/-- What a tick can do while no packet flows: it does not count, time jumped, a block located
earlier or just now is tried, or no block is found. -/
inductive Prepares (b : Buffer) (now : Int) : Buffer → Prop where
  | idle (lastTick? : Option Int) : Prepares b now { b with lastTick? }
  | jump : Prepares b now { b.dropAll with lastTick? := some now }
  | ready (buffering : b.flow = .buffering) (block : b.clock.hasBlock = true) :
      Prepares b now ((b.timed now).tryStart now).buffer
  | found (buffering : b.flow = .buffering) (noBlock : b.clock.hasBlock = false)
      (found : b.sought.found = true) :
      Prepares b now (((b.timed now).withScan b.sought).tryStart now).buffer
  | lost (buffering : b.flow = .buffering) (noBlock : b.clock.hasBlock = false)
      (lost : b.sought.found = false) : Prepares b now ((b.timed now).withScan b.sought)

theorem sent_tryStart (b : Buffer) (now : Int) : (b.tryStart now).sent = #[] := by
  unfold tryStart
  dsimp only
  split <;> rfl

theorem prepares_prepare (hbuffering : b.flow = .buffering) (now : Int) :
    Prepares b now ((b.timed now).prepare now).buffer ∧ ((b.timed now).prepare now).sent = #[] := by
  unfold prepare
  split
  · rename_i hblock
    exact ⟨.ready hbuffering hblock, sent_tryStart _ now⟩
  · rename_i hblock
    dsimp only
    split
    · rename_i hfound
      exact ⟨.found hbuffering (Bool.eq_false_iff.mpr hblock) hfound, sent_tryStart _ now⟩
    · rename_i hlost
      exact ⟨.lost hbuffering (Bool.eq_false_iff.mpr hblock) (Bool.eq_false_iff.mpr hlost), rfl⟩

theorem prepares_tick (hstill : b.flow = .empty ∨ b.flow = .buffering) (now : Int) :
    Prepares b now (b.tick now).buffer ∧ (b.tick now).sent = #[] := by
  have hticks := ticks b now
  generalize b.tick now = s at hticks
  cases hticks with
  | jump => exact ⟨.jump, rfl⟩
  | skip lastTick? => exact ⟨.idle lastTick?, rfl⟩
  | @count microseconds =>
    obtain ⟨asked, hadvance⟩ := advance_eq b now microseconds
    rw [hadvance]
    rcases hstill with hflow | hflow
    · rw [hflow]
      exact ⟨.idle (some now), rfl⟩
    · rw [hflow]
      exact prepares_prepare hflow now

theorem keeps_tryStart (b : Buffer) (now : Int) :
    (b.tryStart now).buffer.clock.reference? = b.clock.reference? ∧
      (b.tryStart now).buffer.queue.toList = b.queue.toList := by
  unfold tryStart
  dsimp only
  split <;> exact ⟨rfl, rfl⟩

theorem updateFlow_recount (hbuffering : b.flow = .buffering) : b.recount.updateFlow now =
    if b.settings.enough.toNat ≤ b.recount.clock.blocks then (.running, .start)
    else (.buffering, .hold) := by
  simp only [recount, updateFlow, hbuffering, Flow.update]

theorem enough_of_tryStart (hbuffering : b.flow = .buffering)
    (h : (b.tryStart now).buffer.flow = .running) :
    b.settings.enough.toNat ≤ b.recount.clock.blocks := by
  unfold tryStart at h
  dsimp only at h
  rw [updateFlow_recount hbuffering] at h
  by_cases henough : b.settings.enough.toNat ≤ b.recount.clock.blocks
  · exact henough
  · rw [if_neg henough] at h
    cases h

theorem course_tryStart (hbuffering : b.flow = .buffering) (hblock : b.clock.hasBlock = true)
    (now : Int) : Course b [] (b.tryStart now).buffer := by
  unfold tryStart
  dsimp only
  rw [updateFlow_recount hbuffering]
  by_cases henough : b.settings.enough.toNat ≤ b.recount.clock.blocks
  · rw [if_pos henough]
    exact .single (.start hbuffering hblock henough)
  · rw [if_neg henough]
    exact .quiet (.recount b) (.single (.adjust rfl rfl hbuffering.symm rfl))

theorem course_prepare (hq : b.queue.Ordered) (hbuffering : b.flow = .buffering) (now : Int) :
    Course b [] (b.prepare now).buffer := by
  unfold prepare
  split
  · rename_i hblock
    exact course_tryStart hbuffering hblock now
  · rename_i hblock
    have hseek : Move b [] (b.withScan b.sought) :=
      .seek hbuffering (Bool.eq_false_iff.mpr hblock)
    dsimp only
    split
    · rename_i hfound
      have hblock' : (b.withScan b.sought).clock.hasBlock = true :=
        (times_sought hq hfound).hasBlock
      exact .quiet hseek (course_tryStart (b := b.withScan b.sought) hbuffering hblock' now)
    · exact .single hseek

theorem course_recover {since : Int} (hstalled : b.flow = .underflow since) (now : Int) :
    Course b (if b.recount.clock.blocks < b.settings.low.toNat &&
        Flow.maxStall < Instant.since now since then [.emptied] else []) (b.recover now).buffer ∧
      (b.recover now).sent = #[] := by
  have hflow : b.recount.flow = .underflow since := hstalled
  unfold recover updateFlow
  dsimp only
  rw [hflow]
  unfold Flow.update
  dsimp only
  by_cases hback : b.recount.settings.low.toNat ≤ b.recount.clock.blocks
  · have hfew : ¬ b.recount.clock.blocks < b.settings.low.toNat := Nat.not_lt.mpr hback
    rw [if_pos hback, if_neg (by simp [hfew])]
    exact ⟨.quiet (.recount b) (.single (.resume hflow hback)), rfl⟩
  · have hfew : b.recount.clock.blocks < b.settings.low.toNat := Nat.not_le.mp hback
    rw [if_neg hback]
    by_cases hlong : Flow.maxStall < Instant.since now since
    · rw [if_pos hlong, if_pos (by simp [hfew, hlong])]
      have hdrop : { b.recount with flow := Flow.buffering }.dropAll = b.recount.dropAll := by
        simp [dropAll, hflow]
      refine ⟨?_, rfl⟩
      change Course b _ { b.recount with flow := Flow.buffering }.dropAll
      rw [hdrop]
      exact .quiet (.recount b) (.single (.empty b.recount))
    · rw [if_neg hlong, if_neg (by simp [hlong])]
      exact ⟨.quiet (.recount b) (.single (.adjust rfl rfl hflow.symm rfl)), rfl⟩

theorem updateFlow_running (hrunning : b.flow = .running) (now : Int) : b.updateFlow now =
    if b.clock.blocks < b.settings.low.toNat then (.underflow now, .stall) else (.running, .run) := by
  simp only [updateFlow, hrunning, Flow.update]

theorem play_of_few (hrunning : b.flow = .running)
    (hfew : b.clock.blocks < b.settings.low.toNat) (now : Int) (microseconds : Nat) :
    b.play now microseconds =
      { buffer := { b with flow := .underflow now }
        log := #[.underflow b.clock.blocks b.queue.length] } := by
  unfold play
  rw [updateFlow_running hrunning, if_pos hfew]
  rfl

theorem play_of_enough (hrunning : b.flow = .running)
    (henough : b.settings.low.toNat ≤ b.clock.blocks) (now : Int) (microseconds : Nat) :
    (b.timed now).play now microseconds = (b.credited now microseconds).pace now := by
  have htimed : (b.timed now).flow = .running := hrunning
  have hnot : ¬ (b.timed now).clock.blocks < (b.timed now).settings.low.toNat :=
    Nat.not_lt.mpr henough
  unfold play
  rw [updateFlow_running htimed, if_neg hnot, ← hrunning]
  rfl

theorem course_credited (b : Buffer) (now : Int) (microseconds : Nat) :
    Course b [] (b.credited now microseconds) :=
  .quiet (move_timed b now) (.single (.credit _ _))

theorem departures_of_running (hrunning : b.flow = .running) {microseconds : Nat}
    (hcounted : b.counted? now = some microseconds) : b.departures now =
      if b.settings.low.toNat ≤ b.clock.blocks ∧ ¬ b.clock.quantum ≤ 0 then
        moments now (b.queue.length + 1) (b.credited now microseconds)
      else [] := by
  simp only [departures, hcounted, hrunning, true_and]

theorem course_play (hq : b.queue.Ordered) (hrunning : b.flow = .running) {microseconds : Nat}
    (hcounted : b.counted? now = some microseconds) :
    Course b ((b.departures now).map .sent) ((b.timed now).play now microseconds).buffer ∧
      ((b.timed now).play now microseconds).sent.toList =
        ((b.departures now).map Event.sent).flatMap Event.delivered := by
  rw [departures_of_running hrunning hcounted]
  by_cases hfew : b.clock.blocks < b.settings.low.toNat
  · rw [play_of_few (b := b.timed now) hrunning hfew, if_neg fun h => Nat.not_le.mpr hfew h.1]
    exact ⟨.quiet (move_timed b now) (.single (.stall now hrunning hfew)), rfl⟩
  · have henough : b.settings.low.toNat ≤ b.clock.blocks := Nat.le_of_not_lt hfew
    have hcredit := course_credited b now microseconds
    rw [play_of_enough hrunning henough]
    unfold pace
    by_cases hzero : b.clock.quantum ≤ 0
    · have hzero' : (b.credited now microseconds).clock.quantum ≤ 0 := hzero
      rw [if_pos hzero', if_neg fun h => h.2 hzero]
      exact ⟨hcredit, rfl⟩
    · have hzero' : ¬ (b.credited now microseconds).clock.quantum ≤ 0 := hzero
      rw [if_neg hzero', if_pos ⟨henough, hzero⟩]
      obtain ⟨hcourse, hsent⟩ := course_paceLoop (s := { buffer := b.credited now microseconds })
        now (b.queue.length + 1) hq hrunning
      exact ⟨hcredit.trans hcourse, hsent⟩

theorem departures_of_not_running (h : b.flow ≠ .running) : b.departures now = [] := by
  unfold departures
  split
  · rfl
  · exact if_neg fun hall => h hall.1

theorem course_advance (hq : b.queue.Ordered) {microseconds : Nat}
    (hcounted : b.counted? now = some microseconds) :
    Course b (if b.givesUp now then [.emptied] else (b.departures now).map .sent)
        (b.advance now microseconds).buffer ∧
      (b.advance now microseconds).sent.toList =
        (if b.givesUp now then [.emptied] else (b.departures now).map .sent).flatMap
          Event.delivered := by
  have htime := move_timed b now
  obtain ⟨asked, hadvance⟩ := advance_eq b now microseconds
  rw [hadvance]
  cases hflow : b.flow with
  | empty =>
    have hstays : b.givesUp now = false := by simp only [givesUp, hflow]
    rw [hstays, departures_of_not_running (by simp [hflow])]
    exact ⟨.single htime, rfl⟩
  | buffering =>
    have hstays : b.givesUp now = false := by simp only [givesUp, hflow]
    have hcourse := course_prepare (b := b.timed now) hq hflow now
    obtain ⟨_, hsent⟩ := prepares_prepare hflow now
    rw [hstays, departures_of_not_running (by simp [hflow])]
    exact ⟨.quiet htime hcourse, congrArg Array.toList hsent⟩
  | running =>
    have hstays : b.givesUp now = false := by simp only [givesUp, hflow]
    rw [hstays]
    exact course_play hq hflow hcounted
  | underflow since =>
    have hgives : b.givesUp now = (b.recount.clock.blocks < b.settings.low.toNat &&
        Flow.maxStall < Instant.since now since) := by
      simp [givesUp, hflow, hcounted]
    obtain ⟨hcourse, hsent⟩ := course_recover (b := b.timed now) hflow now
    rw [hgives, departures_of_not_running (by simp [hflow])]
    refine ⟨.quiet htime hcourse, (congrArg Array.toList hsent).trans ?_⟩
    split <;> rfl

theorem course_tick (hq : b.queue.Ordered) (now : Int) :
    Course b (b.events (.tick now)) (b.tick now).buffer ∧
      (b.tick now).sent.toList = (b.events (.tick now)).flatMap Event.delivered := by
  have hevents : b.events (.tick now) =
      if b.jumps now || b.givesUp now then [.emptied] else (b.departures now).map .sent := rfl
  have hticks := ticks b now
  rw [hevents]
  generalize b.tick now = s at hticks
  cases hticks with
  | jump elapsed? jumps =>
    rw [jumps]
    exact ⟨.step (.empty b) (.single (.adjust rfl rfl rfl rfl)), rfl⟩
  | skip lastTick? steady uncounted =>
    have hstays : b.givesUp now = false := by
      unfold givesUp
      split <;> simp [uncounted]
    have hnone : b.departures now = [] := by simp [departures, uncounted]
    rw [steady, hstays, hnone]
    exact ⟨.single (.adjust rfl rfl rfl rfl), rfl⟩
  | count steady counted =>
    rw [steady, Bool.false_or]
    exact course_advance hq counted

end PacedStream.Buffer
