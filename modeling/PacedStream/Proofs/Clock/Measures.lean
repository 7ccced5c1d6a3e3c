import PacedStream.Proofs.Clock.Visits

/-!
What the numbers of a clock measure. Packets are known by their place in a stream, of which the scan
has come to a place `stop`. Main statement: wherever a walk ends, the clock has counted the packets
since its latest reading, and length and quantum are those of a block of the stream.
-/

namespace PacedStream
namespace Clock
set_option autoImplicit false

variable {c c' : Clock} {items ahead passed : List Packet} {p : Packet} {pid : UInt16}
  {opening latest ticks : UInt64} {v : Verdict} {stop i j : Nat}

/-- Length and quantum are those of the block from item `i` of a stream to item `j`. -/
structure Measures (c : Clock) (items : List Packet) (pid : UInt16) (opening latest : UInt64)
    (i j : Nat) : Prop where
  reference_eq : c.reference? = some pid
  lt : i < j
  opens : ∃ p, items[i]? = some p ∧ p.pid = pid ∧ p.clock? = some opening
  ends : ∃ p, items[j]? = some p ∧ p.pid = pid ∧ p.clock? = some latest
  inner : ∀ k p, i < k → k < j → items[k]? = some p → p.pid = pid → p.clock? = none
  gap_pos : 0 < (ClockReference.gap opening latest).toNat
  gap_lt : (ClockReference.gap opening latest).toNat < maxGap.toNat
  length_eq : c.blockLength = j - i
  quantum_eq : c.quantum = (ClockReference.gap opening latest).toFloat / Float.ofNat c.blockLength

theorem Measures.congr (h : c.Measures items pid opening latest i j)
    (reference_eq : c'.reference? = c.reference?) (length_eq : c'.blockLength = c.blockLength)
    (quantum_eq : c'.quantum = c.quantum) : c'.Measures items pid opening latest i j := by
  refine ⟨reference_eq.trans h.reference_eq, h.lt, h.opens, h.ends, h.inner, h.gap_pos, h.gap_lt,
    length_eq.trans h.length_eq, ?_⟩
  rw [quantum_eq, length_eq, h.quantum_eq]

theorem Measures.append (h : c.Measures items pid opening latest i j) (burst : List Packet) :
    c.Measures (items ++ burst) pid opening latest i j := by
  have hbefore : ∀ {k}, k ≤ j → (items ++ burst)[k]? = items[k]? := by
    intro k hk
    obtain ⟨_, hj, _⟩ := h.ends
    obtain ⟨hlength, _⟩ := List.getElem?_eq_some_iff.mp hj
    exact List.getElem?_append_left (Nat.lt_of_le_of_lt hk hlength)
  refine ⟨h.reference_eq, h.lt, ?_, ?_, ?_, h.gap_pos, h.gap_lt, h.length_eq, h.quantum_eq⟩
  · rw [hbefore (Nat.le_of_lt h.lt)]
    exact h.opens
  · rw [hbefore (Nat.le_refl j)]
    exact h.ends
  · intro k p hi hj hp
    rw [hbefore (Nat.le_of_lt hj)] at hp
    exact h.inner k p hi hj hp

theorem Measures.length_pos (h : c.Measures items pid opening latest i j) : 0 < c.blockLength := by
  rw [h.length_eq]
  exact Nat.sub_pos_of_lt h.lt

/-- Among readings on the circle the ticks of a block are a distance along it. -/
theorem Measures.gap_eq (h : c.Measures items pid opening latest i j)
    (hitems : ∀ p ∈ items, OnCircle p) : ((ClockReference.gap opening latest).toNat : Int) =
      ((latest.toNat : Int) - opening.toNat) % ClockReference.wrap.toNat := by
  obtain ⟨first, hfirst, _, hopening⟩ := h.opens
  obtain ⟨last, hlast, _, hlatest⟩ := h.ends
  exact toNat_gap (hitems first (List.mem_of_getElem? hfirst) _ hopening)
    (hitems last (List.mem_of_getElem? hlast) _ hlatest)

def Measured (c : Clock) (items : List Packet) : Prop :=
  ∃ pid opening latest i j, c.Measures items pid opening latest i j

def Spans (c : Clock) (items : List Packet) : Prop :=
  ∃ pid opening latest i j, c.opening? = some opening ∧ c.latest? = some latest ∧
    c.Measures items pid opening latest i j

theorem Measured.congr (h : c.Measured items) (reference_eq : c'.reference? = c.reference?)
    (length_eq : c'.blockLength = c.blockLength) (quantum_eq : c'.quantum = c.quantum) :
    c'.Measured items := by
  obtain ⟨pid, opening, latest, i, j, hmeasures⟩ := h
  exact ⟨pid, opening, latest, i, j, hmeasures.congr reference_eq length_eq quantum_eq⟩

theorem Spans.congr (h : c.Spans items) (reference_eq : c'.reference? = c.reference?)
    (opening_eq : c'.opening? = c.opening?) (latest_eq : c'.latest? = c.latest?)
    (length_eq : c'.blockLength = c.blockLength) (quantum_eq : c'.quantum = c.quantum) :
    c'.Spans items := by
  obtain ⟨pid, opening, latest, i, j, hopening, hlatest, hmeasures⟩ := h
  exact ⟨pid, opening, latest, i, j, opening_eq.trans hopening, latest_eq.trans hlatest,
    hmeasures.congr reference_eq length_eq quantum_eq⟩

/-- A clock whose scan has come to item `stop` of a stream. -/
structure Counts (c : Clock) (items : List Packet) (stop : Nat) : Prop where
  since : c.latest? ≠ none → ∃ j, c.MeasuresFrom items stop j ∧ j + 1 + c.scanned = stop
  measured : c.blockLength ≠ 0 → c.Measured items
  spans : c.hasBlock = true → c.Spans items

theorem counts_of_idle (noLatest : c.latest? = none) (noOpening : c.opening? = none)
    (measured : c.blockLength ≠ 0 → c.Measured items) : c.Counts items stop := by
  refine ⟨fun h => absurd noLatest h, measured, fun h => ?_⟩
  simp [hasBlock, noOpening] at h

theorem Counts.congr (h : c.Counts items stop) (reference_eq : c'.reference? = c.reference?)
    (opening_eq : c'.opening? = c.opening?) (latest_eq : c'.latest? = c.latest?)
    (scanned_eq : c'.scanned = c.scanned) (length_eq : c'.blockLength = c.blockLength)
    (quantum_eq : c'.quantum = c.quantum) : c'.Counts items stop := by
  constructor
  · rw [latest_eq, scanned_eq]
    intro hlatest
    obtain ⟨j, hfrom, hcount⟩ := h.since hlatest
    refine ⟨j, ⟨hfrom.lt, ?_, ?_⟩, hcount⟩
    · rw [reference_eq, latest_eq]
      exact hfrom.carried
    · rw [owns_congr reference_eq]
      exact hfrom.last
  · rw [length_eq]
    exact fun hne => (h.measured hne).congr reference_eq length_eq quantum_eq
  · rw [hasBlock, opening_eq]
    exact fun hblock =>
      (h.spans hblock).congr reference_eq opening_eq latest_eq length_eq quantum_eq

theorem Counts.append (h : c.Counts items stop) (hstop : stop ≤ items.length)
    (burst : List Packet) : c.Counts (items ++ burst) stop := by
  have hbefore : ∀ {k}, k < stop → (items ++ burst)[k]? = items[k]? := fun hk =>
    List.getElem?_append_left (Nat.lt_of_lt_of_le hk hstop)
  constructor
  · intro hlatest
    obtain ⟨j, hfrom, hcount⟩ := h.since hlatest
    refine ⟨j, ⟨hfrom.lt, ?_, ?_⟩, hcount⟩
    · rw [hbefore hfrom.lt]
      exact hfrom.carried
    · intro k a hj hk ha
      rw [hbefore hk] at ha
      exact hfrom.last k a hj hk ha
  · intro hne
    obtain ⟨pid, opening, latest, i, j, hmeasures⟩ := h.measured hne
    exact ⟨pid, opening, latest, i, j, hmeasures.append burst⟩
  · intro hblock
    obtain ⟨pid, opening, latest, i, j, hopening, hlatest, hmeasures⟩ := h.spans hblock
    exact ⟨pid, opening, latest, i, j, hopening, hlatest, hmeasures.append burst⟩

theorem Counts.length_pos (h : c.Counts items stop) (hblock : c.hasBlock = true) :
    0 < c.blockLength := by
  obtain ⟨_, _, _, _, _, _, _, hmeasures⟩ := h.spans hblock
  exact hmeasures.length_pos

theorem clock?_of_not_owns (href : c.reference? = some pid) (hnull : pid ≠ Packet.nullPid)
    (h : c.owns p = false) (hpid : p.pid = pid) : p.clock? = none := by
  rw [← isReference_eq_owns href hnull] at h
  simpa [isReference, href, hpid] using h

theorem Counts.locate {before : UInt64} (h : c.Counts items stop) (hp : items[stop]? = some p)
    (read : reading? p = some (pid, ticks)) (own : c.reference?.getD pid = pid)
    (last : c.latest? = some before) (gap : isBreak before ticks = false) :
    ∃ j, ((c.counted.learn pid).locate before ticks).Measures items pid before ticks j stop := by
  obtain ⟨j, hfrom, hcount⟩ := h.since (by rw [last]; nofun)
  obtain ⟨first, pid', ticks', hfirst, hread, href, hlatest⟩ := hfrom.carried
  obtain rfl := eq_of_own href own
  obtain rfl : ticks' = before := Option.some.inj (hlatest.symm.trans last)
  obtain ⟨hnull, hpid, hclock⟩ := reading?_eq_some_iff.mp hread
  obtain ⟨_, hpid', hclock'⟩ := reading?_eq_some_iff.mp read
  obtain ⟨hpos, hlt⟩ := gap_of_not_break gap
  have hlength : c.scanned + 1 = stop - j := by omega
  refine ⟨j, learn_reference? own, hfrom.lt, ⟨first, hfirst, hpid, hclock⟩, ⟨p, hp, hpid', hclock'⟩,
    ?_, hpos, hlt, hlength, rfl⟩
  intro k a hj hk ha hown
  exact clock?_of_not_owns href (hpid ▸ hnull) (hfrom.last k a hj hk ha) hown

theorem Counts.measured_learn (h : c.Counts items stop) (own : c.reference?.getD pid = pid)
    (href : c'.reference? = (c.counted.learn pid).reference?)
    (hlength : c'.blockLength = c.blockLength) (hquantum : c'.quantum = c.quantum) :
    c'.blockLength ≠ 0 → c'.Measured items := by
  rw [hlength]
  intro hne
  obtain ⟨pid', opening, latest, i, j, hmeasures⟩ := h.measured hne
  have hsame : pid = pid' := eq_of_own hmeasures.reference_eq own
  refine ⟨pid', opening, latest, i, j, hmeasures.congr ?_ hlength hquantum⟩
  rw [href, learn_reference? own, hmeasures.reference_eq, hsame]

theorem counts_observes (h : c.Counts items stop) (hp : items[stop]? = some p)
    (hobs : Observes c p c' v) : c'.Counts items (stop + 1) := by
  cases hobs with
  | pass other =>
    refine ⟨?_, fun hne => (h.measured hne).congr rfl rfl rfl,
      fun hblock => (h.spans hblock).congr rfl rfl rfl rfl rfl⟩
    intro hlatest
    obtain ⟨j, hfrom, hcount⟩ := h.since hlatest
    refine ⟨j, hfrom.pass hp (owns_eq_false other), ?_⟩
    change j + 1 + (c.scanned + 1) = stop + 1
    omega
  | anchor read own first =>
    refine ⟨fun _ => ⟨stop, measuresFrom_of_read hp read (learn_reference? own) rfl, rfl⟩,
      h.measured_learn own rfl rfl rfl, fun hblock => ?_⟩
    obtain ⟨_, _, _, _, _, _, hlatest, _⟩ := h.spans hblock
    exact absurd (first.symm.trans hlatest) nofun
  | broken read own =>
    exact ⟨fun _ => ⟨stop, measuresFrom_of_read hp read (learn_reference? own) rfl, rfl⟩,
      h.measured_learn own rfl rfl rfl, nofun⟩
  | @located pid before ticks read own last gap =>
    obtain ⟨j, hmeasures⟩ := h.locate hp read own last gap
    exact ⟨fun _ => ⟨stop, measuresFrom_of_read hp read (learn_reference? own) rfl, rfl⟩,
      fun _ => ⟨pid, before, ticks, j, stop, hmeasures⟩,
      fun _ => ⟨pid, before, ticks, j, stop, rfl, rfl, hmeasures⟩⟩

theorem counts_walk (hahead : ahead <:+ items) (h : c.Counts items (items.length - ahead.length)) :
    (c.walk passed ahead).clock.Counts items
      (items.length - (c.walk passed ahead).ahead.length) := by
  have hstep : ∀ {c c' : Clock} {p : Packet} {v : Verdict} {rest : List Packet},
      Observes c p c' v → p :: rest <:+ items ∧ c.Counts items (items.length - (p :: rest).length) →
        rest <:+ items ∧ c'.Counts items (items.length - rest.length) := by
    rintro c c' p v rest hobs ⟨⟨before, hbefore⟩, hcounts⟩
    have hplace : items.length - (p :: rest).length = before.length := by simp [← hbefore]
    have hnext : items.length - rest.length = before.length + 1 := by
      rw [← hbefore, List.length_append, List.length_cons]
      omega
    rw [hplace] at hcounts
    rw [hnext]
    refine ⟨⟨before ++ [p], by simp [← hbefore]⟩, counts_observes hcounts ?_ hobs⟩
    simp [← hbefore]
  exact (walk_keeps
    (fun c' _ ahead' => ahead' <:+ items ∧ c'.Counts items (items.length - ahead'.length))
    hstep ⟨hahead, h⟩).2

theorem measure_walk (h : (c.walk passed ahead).found = false) :
    (c.walk passed ahead).clock.blockLength = c.blockLength ∧
      (c.walk passed ahead).clock.quantum = c.quantum := by
  refine (walk_induct (fun c' _ _ => c'.blockLength = c.blockLength ∧ c'.quantum = c.quantum)
    (fun _ _ _ => True) ?_ (fun _ _ => trivial) ⟨rfl, rfl⟩).1 h
  intro c₁ c₂ p v _ _ hobs hv hsame
  cases hobs with
  | pass | anchor | broken => exact hsame
  | located => exact absurd rfl hv

end Clock
end PacedStream
