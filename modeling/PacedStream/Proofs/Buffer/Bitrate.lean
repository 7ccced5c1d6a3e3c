import Mathlib.Data.List.Induction
import PacedStream.Proofs.Clock.Measures
import PacedStream.Proofs.Buffer.Gating
import PacedStream.Proofs.Buffer.Trailing

/-!
The bitrate law. Main statement: in every buffer reached from a new one the located block runs from
one accepted packet to another with no reading between them, and the quantum is the ticks between
the two readings over the packets between them; and whenever packets flow or stall, the quantum was
set by a scan that found a block, and there was no reset since.
-/

namespace PacedStream.Buffer
set_option autoImplicit false

variable {m b b' b'' : Buffer} {es es' : List Event} {earlier burst : List Packet}
  {history : List Operation}

def place (b : Buffer) (earlier : List Packet) : Nat := earlier.length - b.queue.unscanned

/-- The clock counts at the place of the scan, and knows a length as soon as packets may flow. -/
structure Gauged (b : Buffer) (earlier : List Packet) : Prop where
  counts : b.clock.Counts earlier (b.place earlier)
  unfed : b.flow = .empty → b.clock.blockLength = 0
  flows : b.flow ≠ .empty → b.flow ≠ .buffering → 0 < b.clock.blockLength

theorem gauged_create (settings : Settings) : (create settings).buffer.Gauged [] :=
  ⟨Clock.counts_of_idle rfl rfl fun h => absurd rfl h, fun _ => rfl, fun h => absurd rfl h⟩

theorem ahead_suffix (hq : b.queue.Ordered) (hsuffix : b.queue.toList <:+ earlier) :
    b.queue.ahead <:+ earlier := by
  rw [hq.toList_eq] at hsuffix
  exact (List.suffix_append _ _).trans hsuffix

theorem place_append (hq : b.queue.Ordered) (hsuffix : b.queue.toList <:+ earlier)
    (ahead_eq : b'.queue.ahead = b.queue.ahead ++ burst) :
    b'.place (earlier ++ burst) = b.place earlier := by
  have hle := (ahead_suffix hq hsuffix).length_le
  unfold place
  rw [← Queue.length_ahead, ← Queue.length_ahead, ahead_eq, List.length_append, List.length_append]
  omega

theorem place_eq (ahead_eq : b'.queue.ahead = b.queue.ahead) :
    b'.place earlier = b.place earlier := by
  unfold place
  rw [← Queue.length_ahead, ← Queue.length_ahead, ahead_eq]

theorem counts_sought (h : b.Trailing earlier) (hg : b.Gauged earlier) :
    b.sought.clock.Counts earlier ((b.withScan b.sought).place earlier) := by
  have hq := h.coherent.ordered
  have hat := b.clock.seek_at hq
  have hcounts := hg.counts
  have hplace : (b.withScan b.sought).place earlier =
      earlier.length - (b.clock.walk b.queue.passed b.queue.ahead).ahead.length := by
    rw [← hat.ahead_eq, Queue.length_ahead]
    rfl
  unfold place at hcounts
  rw [← Queue.length_ahead] at hcounts
  rw [hplace, sought, hat.clock_eq]
  exact Clock.counts_walk (ahead_suffix hq h.suffix) hcounts

theorem Gauged.congr (h : b.Gauged earlier) (ahead_eq : b'.queue.ahead = b.queue.ahead)
    (clock_eq : b'.clock = b.clock) (flow_eq : b'.flow = b.flow) : b'.Gauged earlier := by
  constructor
  · rw [clock_eq, place_eq ahead_eq]
    exact h.counts
  · rw [flow_eq, clock_eq]
    exact h.unfed
  · rw [flow_eq, clock_eq]
    exact h.flows

theorem gauged_of_still (hstill : b.flow = .empty ∨ b.flow = .buffering)
    (noLatest : b.clock.latest? = none) (noOpening : b.clock.opening? = none)
    (noLength : b.clock.blockLength = 0) : b.Gauged earlier := by
  refine ⟨Clock.counts_of_idle noLatest noOpening fun h => absurd noLength h, fun _ => noLength, ?_⟩
  intro hfed hflows
  exact absurd hstill (not_or.mpr ⟨hfed, hflows⟩)

theorem gauged_move (hmove : Move b es b') (ht : b.Trailing earlier) (h : b.Gauged earlier) :
    b'.Gauged (gathered earlier es) := by
  have hq := ht.coherent.ordered
  cases hmove with
  | adjust queue_eq clock_eq flow_eq =>
    rw [gathered_nil]
    exact h.congr (congrArg Queue.ahead queue_eq) clock_eq flow_eq
  | connect =>
    rw [gathered_connected]
    exact h.congr rfl rfl rfl
  | credit | recount =>
    rw [gathered_nil]
    exact ⟨h.counts.congr rfl rfl rfl rfl rfl rfl, h.unfed, h.flows⟩
  | resize resized =>
    rw [gathered_nil]
    exact h.congr (Queue.resized_of_resize? hq resized).ahead_eq rfl rfl
  | feed =>
    rw [gathered_nil]
    refine ⟨h.counts, fun hempty => absurd hempty (feed_ne_empty b.flow), fun _ hflows => ?_⟩
    cases hflow : b.flow with
    | empty => exact absurd (congrArg Flow.feed hflow) hflows
    | buffering => exact absurd (congrArg Flow.feed hflow) hflows
    | running | underflow => exact h.flows (by simp [hflow]) (by simp [hflow])
  | @take queue burst fed pushed =>
    have hahead := (Queue.pushed_of_push? hq pushed).ahead_eq
    have hplace : ({ b with queue } : Buffer).place (earlier ++ burst) = b.place earlier :=
      place_append hq ht.suffix hahead
    rw [gathered_took]
    refine ⟨?_, h.unfed, h.flows⟩
    rw [hplace]
    exact h.counts.append (Nat.sub_le _ _) burst
  | seek hbuffering =>
    rw [gathered_nil]
    refine ⟨counts_sought ht h, fun hempty => ?_, fun _ hflows => absurd hbuffering hflows⟩
    exact absurd (hbuffering.symm.trans hempty) nofun
  | start hbuffering block =>
    rw [gathered_nil]
    have hpos := h.counts.length_pos block
    refine ⟨Clock.counts_of_idle rfl rfl fun hne => ?_, nofun, fun _ _ => hpos⟩
    exact (h.counts.measured hne).congr rfl rfl rfl
  | next hrunning _ found =>
    rw [gathered_nil]
    have hcounts := counts_sought ht h
    have hblock := (times_sought hq found).hasBlock
    refine ⟨hcounts, fun hempty => ?_, fun _ _ => hcounts.length_pos hblock⟩
    exact absurd (hrunning.symm.trans hempty) nofun
  | send _ lead =>
    rw [gathered_sent]
    exact h.congr (Queue.ahead_pop lead) rfl rfl
  | stall now hrunning =>
    rw [gathered_nil]
    exact ⟨h.counts, nofun, fun _ _ => h.flows (by simp [hrunning]) (by simp [hrunning])⟩
  | resume stalled =>
    rw [gathered_nil]
    have hpos := h.flows (by simp [stalled]) (by simp [stalled])
    exact ⟨h.counts.congr rfl rfl rfl rfl rfl rfl, nofun, fun _ _ => hpos⟩
  | empty => exact gauged_of_still (still_dropAll b) rfl rfl rfl
  | pin _ unfed =>
    obtain ⟨hopening, hlatest⟩ := ht.coherent.unfed unfed
    exact gauged_of_still (.inl unfed) hlatest hopening (h.unfed unfed)
  | lose | repin => exact gauged_of_still (.inr rfl) rfl rfl rfl

theorem gauged_course (h : Course b es b') (ht : b.Trailing earlier) (hg : b.Gauged earlier) :
    b'.Gauged (gathered earlier es) := by
  induction h generalizing earlier with
  | done => rwa [gathered_nil]
  | step hmove _ ih =>
    rw [gathered_append]
    exact ih (trailing_move hmove ht) (gauged_move hmove ht hg)

theorem gauged_run (settings : Settings) (history : List Operation) :
    ((create settings).buffer.run history).Gauged ((create settings).buffer.accepted history) := by
  have hstart := trailing_create settings
  have h := gauged_course (course_run hstart.coherent.ordered history) hstart
    (gauged_create settings)
  rw [accepted_eq]
  exact h

inductive Forgotten : Buffer → Prop where
  | light (b : Buffer) : Forgotten b.relearn
  | full (b : Buffer) : Forgotten b.dropAll

theorem Forgotten.length_eq (h : b.Forgotten) : b.clock.blockLength = 0 := by
  cases h <;> rfl

/-- Moves one after the other, none of them a reset, that leave length and quantum alone. -/
inductive Steady : Buffer → List Event → Buffer → Prop where
  | done (b : Buffer) : Steady b [] b
  | step {b b' b'' : Buffer} {es es' : List Event} (move : Move b es b') (kept : ¬ Forgotten b')
      (length_eq : b'.clock.blockLength = b.clock.blockLength)
      (quantum_eq : b'.clock.quantum = b.clock.quantum) (more : Steady b' es' b'') :
      Steady b (es ++ es') b''

namespace Steady

theorem length_eq (h : Steady b es b') : b'.clock.blockLength = b.clock.blockLength := by
  induction h with
  | done => rfl
  | step _ _ length_eq _ _ ih => exact ih.trans length_eq

theorem quantum_eq (h : Steady b es b') : b'.clock.quantum = b.clock.quantum := by
  induction h with
  | done => rfl
  | step _ _ _ quantum_eq _ ih => exact ih.trans quantum_eq

theorem trans (h : Steady b es b') (h' : Steady b' es' b'') : Steady b (es ++ es') b'' := by
  induction h with
  | done => exact h'
  | step move kept length_eq quantum_eq _ ih =>
    rw [List.append_assoc]
    exact .step move kept length_eq quantum_eq (ih h')

end Steady

/-- In a course of moves the scan of moment `m` found a block, and all was steady since. -/
structure Sets (b : Buffer) (es : List Event) (m b' : Buffer) : Prop where
  scans : Move m [] (m.withScan m.sought)
  found : m.sought.found = true
  split : ∃ before after, es = before ++ after ∧ Course b before m ∧
    Steady (m.withScan m.sought) after b'

theorem Sets.quantum_eq (h : Sets b es m b') : b'.clock.quantum = m.sought.clock.quantum := by
  obtain ⟨_, _, _, _, hsteady⟩ := h.split
  exact hsteady.quantum_eq

theorem Sets.after (h : Sets b' es' m b'') (hmove : Move b es b') : Sets b (es ++ es') m b'' := by
  obtain ⟨before, after, hsplit, hcourse, hsteady⟩ := h.split
  refine ⟨h.scans, h.found, es ++ before, after, ?_, .step hmove hcourse, hsteady⟩
  rw [hsplit, List.append_assoc]

theorem steady_or_finds (hmove : Move b es b') (hq : b.queue.Ordered)
    (hlength : b'.clock.blockLength ≠ 0) :
    (b'.clock.blockLength = b.clock.blockLength ∧ b'.clock.quantum = b.clock.quantum) ∨
      es = [] ∧ b' = b.withScan b.sought ∧ b.sought.found = true := by
  cases hmove with
  | adjust _ clock_eq =>
    exact .inl ⟨congrArg Clock.blockLength clock_eq, congrArg Clock.quantum clock_eq⟩
  | seek =>
    cases hfound : b.sought.found with
    | true => exact .inr ⟨rfl, rfl, rfl⟩
    | false =>
      have hat := b.clock.seek_at hq
      have hsame := Clock.measure_walk (hat.found_eq.symm.trans hfound)
      rw [← hat.clock_eq] at hsame
      exact .inl hsame
  | next _ _ found => exact .inr ⟨rfl, rfl, found⟩
  | lose | empty | repin => exact absurd rfl hlength
  | connect | credit | recount | resize | feed | take | start | send | stall | resume | pin =>
    exact .inl ⟨rfl, rfl⟩

theorem steady_or_sets (h : Course b es b') (hq : b.queue.Ordered)
    (hlength : b'.clock.blockLength ≠ 0) : Steady b es b' ∨ ∃ m, Sets b es m b' := by
  induction h with
  | done b => exact .inl (.done b)
  | @step b b₁ b₂ es es' hmove _ ih =>
    rcases ih (ordered_move hmove hq) hlength with hsteady | ⟨m, hsets⟩
    · have hfirst : b₁.clock.blockLength ≠ 0 := hsteady.length_eq ▸ hlength
      have hkept : ¬ Forgotten b₁ := fun h => hfirst h.length_eq
      rcases steady_or_finds hmove hq hfirst with ⟨hsame, hquantum⟩ | ⟨rfl, rfl, found⟩
      · exact .inl (.step hmove hkept hsame hquantum hsteady)
      · exact .inr ⟨b, hmove, found, [], es', rfl, .done b, hsteady⟩
    · exact .inr ⟨m, hsets.after hmove⟩

/-- The scan of moment `m` set the quantum in operation `op`, and all was steady since. -/
structure SetIn (b : Buffer) (before : List Operation) (op : Operation) (after : List Operation)
    (m : Buffer) : Prop where
  sets : Sets (b.run before) ((b.run before).events op) m (b.run (before ++ [op]))
  steady : ∀ mid, mid <+: after → Steady (b.run (before ++ [op]))
    ((b.run (before ++ [op])).happened mid) (b.run (before ++ [op] ++ mid))

theorem SetIn.quantum_eq {before after : List Operation} {op : Operation}
    (h : SetIn b before op after m) :
    (b.run (before ++ [op] ++ after)).clock.quantum = m.sought.clock.quantum :=
  (h.steady after (List.prefix_refl _)).quantum_eq.trans h.sets.quantum_eq

theorem setIn_run (hq : b.queue.Ordered) (hzero : b.clock.blockLength = 0)
    (history : List Operation) (hlength : (b.run history).clock.blockLength ≠ 0) :
    ∃ before op after m, history = before ++ [op] ++ after ∧ SetIn b before op after m := by
  induction history using List.reverseRecOn with
  | nil => exact absurd hzero hlength
  | append_singleton history op ih =>
    have hlast : b.run (history ++ [op]) = ((b.run history).apply op).buffer := run_append _ _ _
    have hordered := (course_run hq history).ordered hq
    have hcourse := (course_apply hordered op).1
    rw [← hlast] at hcourse
    rcases steady_or_sets hcourse hordered hlength with hsteady | ⟨m, hsets⟩
    · obtain ⟨before, first, after, m, hsplit, hset⟩ := ih (hsteady.length_eq ▸ hlength)
      refine ⟨before, first, after ++ [op], m, by rw [hsplit]; simp, hset.sets, fun mid hmid => ?_⟩
      rcases List.prefix_concat_iff.mp hmid with rfl | hmid
      · have hrun : (b.run (before ++ [first])).run after = b.run history := by
          rw [hsplit, run_append _ (before ++ [first])]
        have hone : (b.run history).happened [op] = (b.run history).events op := List.append_nil _
        have hsince := hset.steady after (List.prefix_refl _)
        rw [← hsplit] at hsince
        rw [happened_append, hrun, hone, ← List.append_assoc, ← hsplit]
        exact hsince.trans hsteady
      · exact hset.steady mid hmid
    · refine ⟨history, op, [], m, (List.append_nil _).symm, hsets, fun mid hmid => ?_⟩
      rw [List.prefix_nil.mp hmid, List.append_nil]
      exact .done _

theorem onCircle_accepted (hcircle : ∀ op ∈ history, ∀ p ∈ op.burst, Clock.OnCircle p) :
    ∀ p ∈ b.accepted history, Clock.OnCircle p := by
  intro p hp
  rw [accepted_eq] at hp
  obtain ⟨e, he, hpe⟩ := List.mem_flatMap.mp hp
  exact onCircle_happened hcircle e he p hpe

/-- The clock's quantum is that of a block among the packets accepted. -/
structure Metered (b : Buffer) (earlier : List Packet) (pid : UInt16) (opening latest : UInt64)
    (i j : Nat) : Prop where
  measures : b.clock.Measures earlier pid opening latest i j
  gap_eq : ((ClockReference.gap opening latest).toNat : Int) =
    ((latest.toNat : Int) - opening.toNat) % ClockReference.wrap.toNat

/-- The law for the buffer after a history: for the located block, and for the quantum by which
packets leave, whether its block is still known or not. -/
structure Lawful (start : Buffer) (history : List Operation) : Prop where
  located : (start.run history).clock.hasBlock = true → ∃ pid opening latest i j,
    (start.run history).clock.opening? = some opening ∧
      (start.run history).clock.latest? = some latest ∧
      (start.run history).Metered (start.accepted history) pid opening latest i j
  flows : (start.run history).flow.state = .running ∨ (start.run history).flow.state = .underflow →
    0 < (start.run history).clock.blockLength ∧ (start.run history).clock.locked = true ∧
      (∃ before op after m, history = before ++ [op] ++ after ∧ SetIn start before op after m ∧
        (start.run history).clock.quantum = m.sought.clock.quantum) ∧
      ∃ pid opening latest i j,
        (start.run history).Metered (start.accepted history) pid opening latest i j

theorem bitrate_law (settings : Settings)
    (hcircle : ∀ op ∈ history, ∀ p ∈ op.burst, Clock.OnCircle p) :
    Lawful (create settings).buffer history := by
  have hq := ordered_create settings
  have hc := (coherent_create settings).run history
  have hgauged := gauged_run settings history
  have hon := onCircle_accepted (b := (create settings).buffer) hcircle
  constructor
  · intro hblock
    obtain ⟨pid, opening, latest, i, j, hopening, hlatest, hmeasures⟩ := hgauged.counts.spans hblock
    exact ⟨pid, opening, latest, i, j, hopening, hlatest, hmeasures, hmeasures.gap_eq hon⟩
  · intro hstate
    have hflows : ((create settings).buffer.run history).flow ≠ .empty ∧
        ((create settings).buffer.run history).flow ≠ .buffering := by
      constructor <;> intro h <;> simp [h, Flow.state] at hstate
    have hpos := hgauged.flows hflows.1 hflows.2
    have hne := Nat.ne_of_gt hpos
    obtain ⟨before, op, after, m, hsplit, hset⟩ := setIn_run hq rfl history hne
    obtain ⟨pid, opening, latest, i, j, hmeasures⟩ := hgauged.counts.measured hne
    exact ⟨hpos, (hc.times hflows.1 hflows.2).1,
      ⟨before, op, after, m, hsplit, hset, hsplit ▸ hset.quantum_eq⟩,
      pid, opening, latest, i, j, hmeasures, hmeasures.gap_eq hon⟩

/-- The block of a millisecond and two packets, of which the first has left. -/
theorem bitrate_law_sample :
    let history := [.setDelivers true, .push sample, .tick 0, .tick 1000000, .tick 2000000]
    let b := (create sampleSettings).buffer.run history
    b.clock.hasBlock = true ∧ b.flow.state = .running ∧ b.queue.length = 1 ∧
      b.clock.blockLength = 2 ∧ Lawful (create sampleSettings).buffer history := by
  intro history b
  have hreadings : (history.flatMap Operation.burst).all
      (fun p => p.clock?.all (· < ClockReference.wrap)) = true := by decide +kernel
  have hcircle : ∀ op ∈ history, ∀ p ∈ op.burst, Clock.OnCircle p := by
    intro op hop p hp
    have hall := List.all_eq_true.mp hreadings p (List.mem_flatMap.mpr ⟨op, hop, hp⟩)
    exact Clock.onCircle_iff.mpr hall
  exact ⟨by decide +kernel, by decide +kernel, by decide +kernel, by decide +kernel,
    bitrate_law sampleSettings hcircle⟩

end PacedStream.Buffer
