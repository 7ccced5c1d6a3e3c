import PacedStream.Proofs.Clock.Remembered

/-!
The packets that a scan comes to. The queue is the end of a longer stream, in which the clock
measures from the packet with its latest reading; a packet that breaks the clock drops all that is
queued in front of it. Main statement: this is no more than what lies between the two, unless the
scan began with something queued in front of the reading.
-/

namespace PacedStream
set_option autoImplicit false

namespace Clock

variable {c c' : Clock} {items : List Packet} {p : Packet} {pid : UInt16} {ticks : UInt64}
  {ahead : List Packet} {v : Verdict} {stop j : Nat}

/-- The latest reading was carried by item `j`, and none of the clock's own lies between this item
and item `stop`. -/
structure MeasuresFrom (c : Clock) (items : List Packet) (stop j : Nat) : Prop where
  lt : j < stop
  carried : ∃ a pid ticks, items[j]? = some a ∧ reading? a = some (pid, ticks) ∧
    c.reference? = some pid ∧ c.latest? = some ticks
  last : ∀ k a, j < k → k < stop → items[k]? = some a → c.owns a = false

theorem MeasuresFrom.isSome (h : c.MeasuresFrom items stop j) : c.latest? ≠ none := by
  obtain ⟨_, _, _, _, _, _, hlatest⟩ := h.carried
  simp [hlatest]

theorem MeasuresFrom.pass (h : c.MeasuresFrom items stop j) (hp : items[stop]? = some p)
    (other : c.owns p = false) : c.counted.MeasuresFrom items (stop + 1) j := by
  refine ⟨Nat.lt_succ_of_lt h.lt, h.carried, ?_⟩
  intro k a hj hk ha
  have hsame : c.counted.owns = c.owns := owns_congr rfl
  rw [hsame]
  rcases Nat.lt_succ_iff_lt_or_eq.mp hk with hlt | heq
  · exact h.last k a hj hlt ha
  · rw [heq, hp] at ha
    cases ha
    exact other

theorem measuresFrom_of_read (hp : items[stop]? = some p) (hread : reading? p = some (pid, ticks))
    (href : c.reference? = some pid) (hlatest : c.latest? = some ticks) :
    c.MeasuresFrom items (stop + 1) stop :=
  ⟨Nat.lt_succ_self stop, ⟨p, pid, ticks, hp, hread, href, hlatest⟩, by omega⟩

theorem measuresFrom_of_anchored {first : Nat} {lead after rest : List Packet}
    (hitems : items.drop first = (lead ++ p :: after) ++ rest)
    (hread : reading? p = some (pid, ticks)) (href : c.reference? = some pid)
    (hlatest : c.latest? = some ticks) (inner : ∀ q ∈ after, c.isReference q = false) :
    c.MeasuresFrom items (first + (lead ++ p :: after).length) (first + lead.length) := by
  have hlength : (lead ++ p :: after).length = lead.length + (after.length + 1) :=
    List.length_append
  have hplace : ∀ i, items[first + (lead.length + i)]? = ((p :: after) ++ rest)[i]? := by
    intro i
    rw [← List.getElem?_drop, hitems, List.append_assoc,
      List.getElem?_append_right (Nat.le_add_right _ _), Nat.add_sub_cancel_left]
  refine ⟨by omega, ⟨p, pid, ticks, hplace 0, hread, href, hlatest⟩, ?_⟩
  intro k a hj hk ha
  obtain ⟨i, rfl⟩ := Nat.exists_eq_add_of_lt hj
  have hafter : after[i]? = some a := by
    have hhere := hplace (i + 1)
    rw [List.cons_append, List.getElem?_cons_succ, List.getElem?_append_left (by omega)] at hhere
    rw [← hhere, ← ha]
    congr 1
    omega
  rw [← isReference_eq_owns href (ne_nullPid_of_reading? hread)]
  exact inner a (List.mem_of_getElem? hafter)

/-- The next readings ahead are those of a block, so the scan finds it before it meets a break. -/
inductive Sure (c : Clock) (ahead : List Packet) : Prop where
  | front {pid : UInt16} {opening latest : UInt64} {first last : Packet}
      {lead between rest : List Packet}
      (split : ahead = lead ++ first :: (between ++ last :: rest))
      (reference_eq : c.reference? = some pid) (noLatest : c.latest? = none)
      (bare : ∀ p ∈ lead, c.owns p = false) (opens : reading? first = some (pid, opening))
      (inner : ∀ p ∈ between, c.owns p = false) (ends : reading? last = some (pid, latest))
      (isBreak_eq : isBreak opening latest = false)
  | middle {pid : UInt16} {opening latest : UInt64} {last : Packet} {between rest : List Packet}
      (split : ahead = between ++ last :: rest) (reference_eq : c.reference? = some pid)
      (latest_eq : c.latest? = some opening) (inner : ∀ p ∈ between, c.owns p = false)
      (ends : reading? last = some (pid, latest)) (isBreak_eq : isBreak opening latest = false)

theorem Sure.append (h : c.Sure ahead) (burst : List Packet) : c.Sure (ahead ++ burst) := by
  cases h with
  | @front _ _ _ first last lead between rest split reference_eq noLatest bare opens inner ends
      isBreak_eq =>
    have hsplit : ahead ++ burst = lead ++ first :: (between ++ last :: (rest ++ burst)) := by
      rw [split]
      simp only [List.append_assoc, List.cons_append]
    exact .front hsplit reference_eq noLatest bare opens inner ends isBreak_eq
  | @middle _ _ _ last between rest split reference_eq latest_eq inner ends isBreak_eq =>
    have hsplit : ahead ++ burst = between ++ last :: (rest ++ burst) := by
      rw [split]
      simp only [List.append_assoc, List.cons_append]
    exact .middle hsplit reference_eq latest_eq inner ends isBreak_eq

theorem Sure.congr (h : c.Sure ahead) (reference_eq : c'.reference? = c.reference?)
    (latest_eq : c'.latest? = c.latest?) : c'.Sure ahead := by
  have howns := owns_congr reference_eq
  cases h with
  | front split href hlatest bare opens inner ends isBreak_eq =>
    exact .front split (reference_eq.trans href) (latest_eq.trans hlatest) (howns ▸ bare) opens
      (howns ▸ inner) ends isBreak_eq
  | middle split href hlatest inner ends isBreak_eq =>
    exact .middle split (reference_eq.trans href) (latest_eq.trans hlatest) (howns ▸ inner) ends
      isBreak_eq

theorem owns_of_own (hread : reading? p = some (pid, ticks)) (own : c.reference?.getD pid = pid) :
    c.owns p = true := by
  rw [owns_of_reading? hread]
  exact decide_eq_true own

theorem Sure.observes (h : c.Sure (p :: ahead)) (hobs : Observes c p c' v) :
    v = .located ∨ v ≠ .broken ∧ c'.Sure ahead := by
  cases h with
  | @front pid opening latest first last lead between rest split href hlatest bare opens inner ends
      isBreak_eq =>
    cases lead with
    | nil =>
      obtain ⟨rfl, rfl⟩ := List.cons.inj split
      cases hobs with
      | pass other =>
        have hown : c.owns p = true := owns_of_own opens (by rw [href]; rfl)
        rw [owns_eq_false other] at hown
        cases hown
      | @anchor pid' ticks read own =>
        rw [opens] at read
        cases read
        have hlearned : ((c.counted.learn pid).anchor opening).reference? = c.reference? := by
          rw [href]
          exact learn_reference? own
        refine .inr ⟨nofun, .middle rfl (hlearned.trans href) rfl ?_ ends isBreak_eq⟩
        rw [owns_congr hlearned]
        exact inner
      | broken _ _ last => exact absurd (hlatest.symm.trans last) nofun
      | located => exact .inl rfl
    | cons x lead =>
      obtain ⟨rfl, rfl⟩ := List.cons.inj split
      have hbare := bare p List.mem_cons_self
      cases hobs with
      | pass => exact .inr ⟨nofun, .front rfl href hlatest
          (fun y hy => bare y (List.mem_cons_of_mem _ hy)) opens inner ends isBreak_eq⟩
      | anchor read own | broken read own | located read own =>
        rw [owns_of_own read own] at hbare
        cases hbare
  | @middle pid opening latest last between rest split href hlatest inner ends isBreak_eq =>
    cases between with
    | nil =>
      obtain ⟨rfl, rfl⟩ := List.cons.inj split
      cases hobs with
      | pass other =>
        have hown : c.owns p = true := owns_of_own ends (by rw [href]; rfl)
        rw [owns_eq_false other] at hown
        cases hown
      | anchor _ _ first => exact absurd (hlatest.symm.trans first) nofun
      | broken read own before gap =>
        rw [ends] at read
        cases read
        rw [hlatest] at before
        cases before
        rw [isBreak_eq] at gap
        cases gap
      | located => exact .inl rfl
    | cons x between =>
      obtain ⟨rfl, rfl⟩ := List.cons.inj split
      have hinner := inner p List.mem_cons_self
      cases hobs with
      | pass => exact .inr ⟨nofun, .middle rfl href hlatest
          (fun y hy => inner y (List.mem_cons_of_mem _ hy)) ends isBreak_eq⟩
      | anchor read own | broken read own | located read own =>
        rw [owns_of_own read own] at hinner
        cases hinner

end Clock

namespace Scan

variable {s t : Scan} {items : List Packet} {loose : Prop} {n : Nat}

/-- A scan of at most `n` packets, at each that it comes to. -/
def visits : Nat → Scan → List Scan
  | 0, _ => []
  | n + 1, s => s :: if s.step.found then [] else visits n s.step

def here (s : Scan) : Packet := s.queue.slot s.queue.mark

def breaks (s : Scan) : Bool := (s.clock.observe s.here).verdict = .broken

theorem breaks_step (s : Scan) :
    s.step.clock.breaks = s.clock.breaks + if s.breaks then 1 else 0 := by
  have hobs := Clock.observes s.clock s.here
  have hclock : s.step.clock = (s.clock.observe s.here).clock := rfl
  rw [hclock, breaks]
  generalize (s.clock.observe s.here).clock = c' at hobs ⊢
  generalize (s.clock.observe s.here).verdict = v at hobs ⊢
  cases hobs <;> rfl

theorem breaks_run (n : Nat) (s : Scan) :
    (run n s).clock.breaks = s.clock.breaks + (visits n s).countP breaks := by
  induction n generalizing s with
  | zero => rfl
  | succ n ih =>
    have hstep := breaks_step s
    unfold run visits
    dsimp only
    rw [List.countP_cons]
    split
    · rw [hstep, List.countP_nil, Nat.zero_add]
    · rw [ih, hstep, Nat.add_assoc, Nat.add_comm (List.countP _ _)]

theorem visits_induct {motive : Scan → Prop} (n : Nat)
    (keeps : ∀ {s : Scan}, s.queue.Ordered → s.queue.mark ≠ s.queue.tail → motive s →
      s.step.found = false → motive s.step)
    (hq : s.queue.Ordered) (hn : s.queue.unscanned = n) (start : motive s) :
    ∀ t ∈ visits n s, t.queue.Ordered ∧ t.queue.mark ≠ t.queue.tail ∧ motive t := by
  induction n generalizing s with
  | zero => exact fun t ht => absurd ht List.not_mem_nil
  | succ n ih =>
    obtain ⟨hne, hleft⟩ := unscanned_step hq hn
    obtain ⟨p, _, hat⟩ := at_step hq hne
    intro t ht
    unfold visits at ht
    rcases List.mem_cons.mp ht with rfl | ht
    · exact ⟨hq, hne, start⟩
    · cases hfound : s.step.found with
      | true => simp [hfound] at ht
      | false =>
        rw [hfound, if_neg nofun] at ht
        exact ih hat.ordered hleft (keeps hq hne start hfound) t ht

theorem step_lists (hq : s.queue.Ordered) (hne : s.queue.mark ≠ s.queue.tail) :
    ∃ v, s.queue.ahead = s.here :: s.step.queue.ahead ∧
      Clock.Observes s.clock s.here s.step.clock v ∧
      s.step.queue.passed = v.keep s.queue.passed s.here ∧ s.step.queue.Ordered ∧
      (s.breaks = true ↔ v = .broken) ∧ (s.step.found = true ↔ v = .located) := by
  obtain ⟨p, hcons, hat⟩ := at_step hq hne
  have hp : p = s.here := by
    rw [Queue.ahead_eq_cons hq hne] at hcons
    exact (List.cons.inj hcons).1.symm
  rw [hp] at hcons hat
  refine ⟨(s.clock.observe s.here).verdict, hcons, ?_, hat.passed_eq, hat.ordered, ?_, ?_⟩
  · rw [hat.clock_eq]
    exact Clock.observes s.clock s.here
  · rw [breaks, decide_eq_true_iff]
  · rw [hat.found_eq, decide_eq_true_iff]

theorem no_break_of_sure (hq : s.queue.Ordered) (h : s.clock.Sure s.queue.ahead) :
    ∀ t ∈ s.visits s.queue.unscanned, t.breaks = false := by
  have hsure := visits_induct (motive := fun t => t.clock.Sure t.queue.ahead) s.queue.unscanned
    (s := s) ?_ hq rfl h
  · intro t ht
    obtain ⟨hordered, hne, hnext⟩ := hsure t ht
    obtain ⟨v, hcons, hobs, _, _, hbreaks, _⟩ := step_lists hordered hne
    rw [Bool.eq_false_iff, ne_eq, hbreaks]
    rw [hcons] at hnext
    rcases hnext.observes hobs with hlocated | ⟨hnot, _⟩
    · rw [hlocated]
      exact nofun
    · exact hnot
  · intro t hordered hne hnext hmore
    obtain ⟨v, hcons, hobs, _, _, _, hfound⟩ := step_lists hordered hne
    rw [hcons] at hnext
    rcases hnext.observes hobs with hlocated | ⟨_, hafter⟩
    · rw [hfound.mpr hlocated] at hmore
      cases hmore
    · exact hafter

/-- One step, in a stream whose end from item `first` on is queued: either all that is queued stays,
or what is in front of the packet at hand goes. -/
theorem step_places {first : Nat} (hq : s.queue.Ordered) (hne : s.queue.mark ≠ s.queue.tail)
    (hlist : s.queue.toList = items.drop first) :
    ∃ v, items[first + s.queue.scanned]? = some s.here ∧
      Clock.Observes s.clock s.here s.step.clock v ∧
      (v.drops = false → s.step.queue.toList = items.drop first ∧
        s.step.queue.scanned = s.queue.scanned + 1) ∧
      (v.drops = true → s.step.queue.toList = items.drop (first + s.queue.scanned) ∧
        s.step.queue.scanned = 1) ∧
      (s.breaks = true ↔ v = .broken) ∧ (s.step.found = true ↔ v = .located) := by
  obtain ⟨v, hcons, hobs, hpassed, hordered, hbreaks, hfound⟩ := step_lists hq hne
  have hsplit : items.drop first = s.queue.passed ++ s.here :: s.step.queue.ahead := by
    rw [← hlist, hq.toList_eq, hcons]
  have hlength : s.queue.passed.length = s.queue.scanned := Queue.length_passed
  have hplace : items[first + s.queue.scanned]? = some s.here := by
    rw [← List.getElem?_drop, hsplit, ← hlength, List.getElem?_append_right (Nat.le_refl _),
      Nat.sub_self]
    rfl
  have hrest : items.drop (first + s.queue.scanned) = s.here :: s.step.queue.ahead := by
    rw [← List.drop_drop, hsplit, List.drop_left' hlength]
  refine ⟨v, hplace, hobs, ?_, ?_, hbreaks, hfound⟩
  · intro hkept
    have hkeep : v.keep s.queue.passed s.here = s.queue.passed ++ [s.here] :=
      if_neg (by simp [hkept])
    rw [hkeep] at hpassed
    constructor
    · rw [hordered.toList_eq, hpassed, hsplit, List.append_assoc]
      rfl
    · rw [← Queue.length_passed, hpassed, List.length_append, hlength]
      rfl
  · intro hdropped
    have hkeep : v.keep s.queue.passed s.here = [s.here] := if_pos hdropped
    rw [hkeep] at hpassed
    constructor
    · rw [hordered.toList_eq, hpassed, hrest]
      rfl
    · rw [← Queue.length_passed, hpassed]
      rfl

/-- A scan of a queue that is the end of a stream from item `first` on. With a reading to measure
from there is nothing queued in front of it, or else `loose` holds. -/
inductive Contained (loose : Prop) (items : List Packet) (s : Scan) : Prop where
  | fresh {first : Nat} (toList_eq : s.queue.toList = items.drop first)
      (noLatest : s.clock.latest? = none) (keeps : s.clock.locked = true → loose) :
      Contained loose items s
  | anchored {first j : Nat} (toList_eq : s.queue.toList = items.drop first)
      (measures : s.clock.MeasuresFrom items (first + s.queue.scanned) j)
      (front : j ≤ first ∨ loose) : Contained loose items s

theorem contained_of_dropped {first : Nat}
    (hplace : items[first + s.queue.scanned]? = some s.here)
    (hlist : s.step.queue.toList = items.drop (first + s.queue.scanned) ∧
      s.step.queue.scanned = 1) {pid : UInt16} {ticks : UInt64}
    (hread : Clock.reading? s.here = some (pid, ticks)) (href : s.step.clock.reference? = some pid)
    (hlatest : s.step.clock.latest? = some ticks) : Contained loose items s.step := by
  refine .anchored (j := first + s.queue.scanned) hlist.1 ?_ (.inl (Nat.le_refl _))
  rw [hlist.2]
  exact Clock.measuresFrom_of_read hplace hread href hlatest

theorem Contained.step (h : Contained loose items s) (hq : s.queue.Ordered)
    (hne : s.queue.mark ≠ s.queue.tail) (hmore : s.step.found = false) :
    Contained loose items s.step := by
  cases h with
  | @fresh first toList_eq noLatest keeps =>
    obtain ⟨v, hplace, hobs, hkept, hdropped, _, hfound⟩ := step_places hq hne toList_eq
    generalize hclock : s.step.clock = c' at hobs
    cases hobs with
    | pass => exact .fresh (hkept rfl).1 (by rw [hclock]; exact noLatest) (by rw [hclock]; exact keeps)
    | @anchor pid ticks read own =>
      have href : s.step.clock.reference? = some pid := by
        rw [hclock]
        exact Clock.learn_reference? own
      have hlatest : s.step.clock.latest? = some ticks := by rw [hclock]; rfl
      cases hlocked : s.clock.locked with
      | false => exact contained_of_dropped hplace (hdropped (by rw [hlocked]; rfl)) read href hlatest
      | true =>
        -- With a lock what is queued in front stays.
        obtain ⟨hlist, hscanned⟩ := hkept (by rw [hlocked]; rfl)
        refine .anchored (j := first + s.queue.scanned) hlist ?_ (.inr (keeps hlocked))
        rw [hscanned]
        exact Clock.measuresFrom_of_read hplace read href hlatest
    | broken _ _ last => exact absurd (noLatest.symm.trans last) nofun
    | located => simp [hfound.mpr rfl] at hmore
  | @anchored first j toList_eq measures front =>
    obtain ⟨v, hplace, hobs, hkept, hdropped, _, hfound⟩ := step_places hq hne toList_eq
    generalize hclock : s.step.clock = c' at hobs
    cases hobs with
    | pass other =>
      obtain ⟨hlist, hscanned⟩ := hkept rfl
      refine .anchored hlist ?_ front
      rw [hscanned, hclock]
      exact measures.pass hplace (Clock.owns_eq_false other)
    | anchor _ _ latest => exact absurd latest measures.isSome
    | @broken pid before ticks read own =>
      refine contained_of_dropped hplace (hdropped rfl) read ?_ ?_
      · rw [hclock]
        exact Clock.learn_reference? own
      · rw [hclock]
        rfl
    | located => simp [hfound.mpr rfl] at hmore

/-- What a break does to the end of a stream: items `first` and on were queued, of which those in
front of the packet at hand go, and the clock measured from item `j`. -/
structure Removes (s : Scan) (items : List Packet) (first j : Nat) : Prop where
  here_eq : items[first + s.queue.scanned]? = some s.here
  queued_eq : s.queue.toList = items.drop first
  left_eq : s.step.queue.toList = items.drop (first + s.queue.scanned)
  measures : s.clock.MeasuresFrom items (first + s.queue.scanned) j

theorem Contained.removes (h : Contained loose items s) (hq : s.queue.Ordered)
    (hne : s.queue.mark ≠ s.queue.tail) (hbreak : s.breaks = true) :
    ∃ first j, s.Removes items first j ∧ (j ≤ first ∨ loose) := by
  cases h with
  | @fresh first toList_eq noLatest keeps =>
    obtain ⟨v, _, hobs, _, _, hbreaks, _⟩ := step_places hq hne toList_eq
    rw [hbreaks.mp hbreak] at hobs
    generalize s.step.clock = c' at hobs
    cases hobs with
    | broken _ _ last => exact absurd (noLatest.symm.trans last) nofun
  | @anchored first j toList_eq measures front =>
    obtain ⟨v, hplace, _, _, hdropped, hbreaks, _⟩ := step_places hq hne toList_eq
    rw [hbreaks.mp hbreak] at hdropped
    exact ⟨first, j, ⟨hplace, toList_eq, (hdropped rfl).1, measures⟩, front⟩

theorem Contained.visits (h : Contained loose items s) (hq : s.queue.Ordered) :
    ∀ t ∈ s.visits s.queue.unscanned, t.breaks = true →
      ∃ first j, t.Removes items first j ∧ (j ≤ first ∨ loose) := by
  have hcontained := visits_induct (motive := Contained loose items) s.queue.unscanned
    (fun hordered hne hbefore hmore => hbefore.step hordered hne hmore) hq rfl h
  intro t ht
  obtain ⟨hordered, hne, hbefore⟩ := hcontained t ht
  exact hbefore.removes hordered hne

end Scan
end PacedStream
