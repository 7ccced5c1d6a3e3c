import PacedStream.Proofs.Buffer.Jam
import PacedStream.Proofs.Buffer.Starting

/-!
The first scan of the flow. The scan begins at the front, in front of the block that was located
while buffering. Main statement: it locates the same block again, whatever was queued since the
start, and the flow goes on until the whole block is sent.
-/

namespace PacedStream.Buffer
set_option autoImplicit false

variable {b b' m c : Buffer} {taken gone : List Packet} {now : Int} {op : Operation}
  {more : List Operation}

/-- The first scan of a flow that started in `m`. -/
structure Relocates (m b : Buffer) : Prop where
  noLead : b.queue.head = b.queue.mark
  sends : ∀ now, (b.moment? now).isSome
  found : b.sought.found = true
  clock_eq : b.sought.clock = b.clock.relocate m.clock
  quantum_eq : b.clock.quantum = m.clock.quantum
  length_eq : b.clock.blockLength = m.clock.blockLength
  passed_eq : b.sought.queue.passed = m.queue.passed
  toList_eq : b.sought.queue.toList = b.queue.toList

theorem passed_of_rests (hm : m.Relocatable) (h : Rests m.started taken b) (hq : b.queue.Ordered) :
    b.queue.passed = [] :=
  (h.passed_eq (Queue.ordered_rewind hm.ordered) hq).trans (Queue.passed_rewind hm.ordered)

theorem toList_of_rests (hm : m.Relocatable) (h : Rests m.started taken b) :
    b.queue.toList = m.queue.passed ++ (m.queue.ahead ++ taken) := by
  rw [h.toList_eq, ← List.append_assoc, ← hm.ordered.toList_eq]
  rfl

theorem sought_of_rests (hm : m.Relocatable) (h : Rests m.started taken b) (hq : b.queue.Ordered) :
    b.sought.At
      { clock := b.clock.relocate m.clock
        passed := m.queue.passed
        ahead := m.queue.ahead ++ taken
        found := true } := by
  have hpassed := passed_of_rests hm h hq
  have hahead : b.queue.ahead = m.queue.passed ++ (m.queue.ahead ++ taken) := by
    rw [← toList_of_rests hm h, hq.toList_eq, hpassed]
    rfl
  have hclock := h.clock_eq
  have locked : b.clock.locked = true := by
    rw [hclock]
    exact hm.sized.locked
  have hat := b.clock.seek_at hq
  rw [hpassed, hahead, Clock.walk_of_sized hm.sized hm.readings_le (by rw [hclock]; rfl)
    (by rw [hclock]; rfl) locked (by rw [hclock]; rfl) (by rw [hclock]; rfl)] at hat
  exact hat

theorem Rests.spend (h : Rests b taken b') : Rests b taken b'.spend := by
  have hnext : Rests b' [] b'.spend := .of_eq rfl rfl
  have htrans := h.trans hnext
  rwa [List.append_nil] at htrans

theorem relocates_of_rests (hm : m.Relocatable) (h : Rests m.started taken b) (hq : b.queue.Ordered) :
    Relocates m b := by
  have hat := sought_of_rests hm h hq
  have noLead := hq.head_eq_mark_iff.mpr (passed_of_rests hm h hq)
  refine ⟨noLead, fun now => ?_, hat.found_eq, hat.clock_eq, ?_, ?_, hat.passed_eq, ?_⟩
  · rw [moment_of_found noLead (sought_of_rests hm h.spend hq).found_eq]
    rfl
  · rw [h.clock_eq]
    rfl
  · rw [h.clock_eq]
    rfl
  · rw [hat.ordered.toList_eq, hat.passed_eq, hat.ahead_eq, toList_of_rests hm h]

/-- The packet that an event sends, delivered or not. -/
def Event.departed : Event → List Packet
  | .sent moment => [moment.queue.front]
  | _ => []

theorem departed_sent (moments : List Buffer) :
    (moments.map Event.sent).flatMap Event.departed = moments.map fun m => m.queue.front := by
  induction moments with
  | nil => rfl
  | cons m rest ih => exact congrArg (m.queue.front :: ·) ih

theorem departed_taking (b : Buffer) (burst : List Packet) :
    (b.taking burst).flatMap Event.departed = [] := by
  unfold taking
  split <;> rfl

/-- The block that `m` located still leads the queue: nothing of it is sent, the rest of it is what
the scan has passed, or all of it is sent. -/
inductive Leading (m : Buffer) : List Packet → Buffer → Prop where
  | ahead {c : Buffer} {taken : List Packet} (running : c.flow = .running)
      (enough : c.settings.low.toNat ≤ c.clock.blocks) (rests : Rests m.started taken c)
      (borne : c.clock.blocks + 1 ≤ c.queue.toList.countP c.clock.isReference) : Leading m [] c
  | within {c : Buffer} {gone : List Packet} (running : c.flow = .running)
      (enough : c.settings.low.toNat ≤ c.clock.blocks) (block : c.clock.hasBlock = true)
      (split : gone ++ c.queue.passed = m.queue.passed) : Leading m gone c
  | past {c : Buffer} {gone : List Packet} (sent : m.queue.passed <+: gone) : Leading m gone c

theorem Leading.sent_or_running (h : Leading m gone c) : m.queue.passed <+: gone ∨
    c.flow = .running ∧ c.settings.low.toNat ≤ c.clock.blocks := by
  cases h with
  | ahead running enough => exact .inr ⟨running, enough⟩
  | within running enough => exact .inr ⟨running, enough⟩
  | past sent => exact .inl sent

theorem Leading.credit {c' : Buffer} (h : Leading m gone c) (queue_eq : c'.queue = c.queue)
    (clock_eq : c'.clock = { c.clock with credit := c'.clock.credit }) (flow_eq : c'.flow = c.flow)
    (low_eq : c'.settings.low = c.settings.low) : Leading m gone c' := by
  have hblocks : c'.clock.blocks = c.clock.blocks := by rw [clock_eq]
  have hreads : c'.clock.isReference = c.clock.isReference := by
    rw [clock_eq]
    rfl
  cases h with
  | ahead running enough rests borne =>
    have hnext : Rests c [] c' := .of_eq (clock_eq.trans (by rw [hblocks])) queue_eq
    refine .ahead (flow_eq.trans running) ?_ (rests.trans hnext) ?_
    · rwa [low_eq, hblocks]
    · rwa [hblocks, queue_eq, hreads]
  | within running enough block split =>
    refine .within (flow_eq.trans running) ?_ ?_ (by rwa [queue_eq])
    · rwa [low_eq, hblocks]
    · rw [clock_eq]
      exact block
  | past sent => exact .past sent

theorem Relocatable.references_le (hm : m.Relocatable) :
    m.queue.passed.countP m.clock.isReference ≤ 2 := by
  cases hm.sized with
  | intro _ bounds _ _ ends =>
    rw [Clock.isReference_eq_owns bounds.reference_eq (Clock.ne_nullPid_of_reading? ends)]
    exact hm.readings_le

theorem blocks_le_of_sought (hm : m.Relocatable) (hq : c.queue.Ordered) (h : Rests m.started taken c)
    (borne : c.clock.blocks + 1 ≤ c.queue.toList.countP c.clock.isReference) :
    min c.settings.enough.toNat c.clock.blocks ≤ (c.withScan c.sought).recount.clock.blocks := by
  have hat := sought_of_rests hm h hq
  have hblock : (c.withScan c.sought).clock.hasBlock = true :=
    (times_sought hq hat.found_eq).hasBlock
  have hahead : (c.withScan c.sought).queue.ahead = m.queue.ahead ++ taken := hat.ahead_eq
  have hreads : (c.withScan c.sought).clock.isReference = c.clock.isReference := by
    change c.sought.clock.isReference = _
    rw [hat.clock_eq]
    rfl
  have hsame : c.clock.isReference = m.clock.isReference := by
    rw [h.clock_eq]
    rfl
  have htwo := hm.references_le
  rw [toList_of_rests hm h, List.countP_append, hsame] at borne
  have henough : (c.withScan c.sought).settings.enough.toNat = c.settings.enough.toNat := rfl
  rw [blocks_of_hasBlock hat.ordered hblock, hahead, hreads, hsame, henough]
  omega

/-- The first moment of the flow: the block is located again, and enough are counted. -/
theorem leading_first {c' : Buffer} (hm : m.Relocatable) (hq : c.queue.Ordered)
    (hlow : c.settings.low.toNat ≤ c.settings.enough.toNat) (running : c.flow = .running)
    (enough : c.settings.low.toNat ≤ c.clock.blocks) (h : Rests m.started taken c)
    (borne : c.clock.blocks + 1 ≤ c.queue.toList.countP c.clock.isReference)
    (hmoment : c.moment? now = some c') : Leading m [c'.queue.front] c'.sendOff := by
  obtain ⟨_, hq', running', lead⟩ := course_moment hq running hmoment
  have hcons : c'.queue.passed = c'.queue.front :: c'.sendOff.queue.passed :=
    Queue.passed_eq_cons hq' lead
  have hat := sought_of_rests hm h.spend hq
  have hc' : c' = ((c.spend.withScan c.spend.sought).settle now).buffer := by
    rw [moment_of_found (relocates_of_rests hm h hq).noLead hat.found_eq] at hmoment
    exact (Option.some.inj hmoment).symm
  have hclock : c'.clock = (c.spend.withScan c.spend.sought).recount.clock := by
    rw [hc', clock_settle]
  have hblocks : min c.settings.enough.toNat c.clock.blocks ≤ c'.clock.blocks := by
    rw [hclock]
    exact blocks_le_of_sought hm (c := c.spend) hq h.spend borne
  refine .within running' ?_ ?_ ?_
  · change c'.settings.low.toNat ≤ c'.clock.blocks
    rw [(fixed_moment hmoment).settings_eq]
    omega
  · change c'.clock.hasBlock = true
    rw [hclock]
    exact (times_sought (b := c.spend) hq hat.found_eq).hasBlock
  · have hpassed : ((c.spend.withScan c.spend.sought).settle now).buffer.queue.passed =
        c.spend.sought.queue.passed := (lists_settle hat.ordered).2.1
    rw [List.singleton_append, ← hcons, hc', hpassed]
    exact hat.passed_eq

theorem leading_moment {c' : Buffer} (hm : m.Relocatable) (hq : c.queue.Ordered)
    (hlow : c.settings.low.toNat ≤ c.settings.enough.toNat) (h : Leading m gone c)
    (hmoment : c.moment? now = some c') : Leading m (gone ++ [c'.queue.front]) c'.sendOff := by
  cases h with
  | ahead running enough rests borne =>
    exact leading_first hm hq hlow running enough rests borne hmoment
  | within running enough block split =>
    by_cases noLead : c.queue.head = c.queue.mark
    · rw [hq.head_eq_mark_iff.mp noLead, List.append_nil] at split
      exact .past (split ▸ List.prefix_append _ _)
    · rw [moment_of_lead noLead] at hmoment
      cases hmoment
      refine .within running enough block ?_
      rw [List.append_assoc, List.singleton_append, ← split]
      exact congrArg (gone ++ ·) (Queue.passed_eq_cons hq noLead).symm
  | past sent => exact .past (sent.trans (List.prefix_append _ _))

theorem past_of_lost (hm : m.Relocatable) (hq : c.queue.Ordered) (h : Leading m gone c)
    (hmoment : c.moment? now = none) : m.queue.passed <+: gone := by
  cases h with
  | ahead running enough rests =>
    have hsends := (relocates_of_rests hm rests hq).sends now
    rw [hmoment] at hsends
    cases hsends
  | within running enough block split =>
    rw [hq.head_eq_mark_iff.mp (lost_of_moment hmoment).1, List.append_nil] at split
    exact split ▸ List.prefix_refl _
  | past sent => exact sent

theorem leading_paceLoop (hm : m.Relocatable) (now : Int) (n : Nat) {s : Step}
    (hq : s.buffer.queue.Ordered)
    (hlow : s.buffer.settings.low.toNat ≤ s.buffer.settings.enough.toNat)
    (h : Leading m gone s.buffer) :
    Leading m (gone ++ (moments now n s.buffer).map fun m => m.queue.front)
      (paceLoop now n s).buffer := by
  induction n generalizing s gone with
  | zero => simpa [paceLoop, moments] using h
  | succ n ih =>
    rcases h.sent_or_running with sent | ⟨running, _⟩
    · exact .past (sent.trans (List.prefix_append _ _))
    unfold paceLoop moments
    by_cases hcredit : s.buffer.clock.quantum ≤ s.buffer.clock.credit
    · rw [if_pos hcredit, if_pos hcredit]
      cases hmoment : s.buffer.moment? now with
      | none => exact .past ((past_of_lost hm hq h hmoment).trans (List.prefix_append _ _))
      | some c' =>
        obtain ⟨log, honce⟩ := paceOnce_of_moment hmoment
        obtain ⟨_, hq', _, lead⟩ := course_moment hq running hmoment
        have hsettings := (fixed_moment hmoment).settings_eq
        have hnext := ih (s := sendFront { s with buffer := c', log })
          (Queue.ordered_pop hq' (hq'.head_ne_tail lead))
          (by change c'.settings.low.toNat ≤ c'.settings.enough.toNat; rwa [hsettings])
          (leading_moment hm hq hlow h hmoment)
        rw [honce]
        rw [List.append_assoc] at hnext
        exact hnext
    · rw [if_neg hcredit, if_neg hcredit]
      simpa using h

theorem leading_tick (hm : m.Relocatable) (hq : c.queue.Ordered) (hc : c.Consistent)
    (h : Leading m gone c) (steady : c.jumps now = false) :
    Leading m (gone ++ (c.events (.tick now)).flatMap Event.departed) (c.tick now).buffer := by
  rcases h.sent_or_running with sent | ⟨running, enough⟩
  · exact .past (sent.trans (List.prefix_append _ _))
  have hstays : c.givesUp now = false := by simp only [givesUp, running]
  have hevents : c.events (.tick now) = (c.departures now).map .sent := by
    simp only [events, steady, hstays, Bool.or_false, Bool.false_eq_true, if_false]
  rw [hevents, departed_sent]
  cases hcounted : c.counted? now with
  | none =>
    have hnone : c.departures now = [] := by simp only [departures, hcounted]
    have hticks := ticks c now
    rw [hnone, List.map_nil, List.append_nil]
    generalize c.tick now = s at hticks
    cases hticks with
    | jump _ jumps => cases steady.symm.trans jumps
    | skip => exact h.credit rfl rfl rfl rfl
    | count _ counted => cases hcounted.symm.trans counted
  | some microseconds =>
    have hcredited : Leading m gone (c.credited now microseconds) := h.credit rfl rfl rfl rfl
    rw [(spends c now).credits microseconds hcounted running enough,
      departures_of_running running hcounted]
    unfold pace
    by_cases hzero : c.clock.quantum ≤ 0
    · have hzero' : (c.credited now microseconds).clock.quantum ≤ 0 := hzero
      rw [if_pos hzero', if_neg fun h => h.2 hzero, List.map_nil, List.append_nil]
      exact hcredited
    · have hzero' : ¬ (c.credited now microseconds).clock.quantum ≤ 0 := hzero
      rw [if_neg hzero', if_pos ⟨enough, hzero⟩]
      exact leading_paceLoop hm now (c.queue.length + 1)
        (s := { buffer := c.credited now microseconds }) hq hc.low_le hcredited

theorem leading_offer (hq : c.queue.Ordered) (h : Leading m gone c) (burst : List Packet) :
    Leading m (gone ++ (c.taking burst).flatMap Event.departed) (c.offer burst).buffer := by
  rw [departed_taking, List.append_nil]
  rcases h.sent_or_running with sent | ⟨running, _⟩
  · exact .past sent
  have hwaits := waits_offer hq (by simp [running]) burst
  have hrests := hwaits.toPaused.rests
  have hclock := (keeps_offer c burst).1
  have hpassed := hrests.passed_eq hq (ordered_apply hq (.offer burst))
  cases h with
  | ahead running enough rests borne =>
    refine .ahead (hwaits.flow_eq.trans running) ?_ (rests.trans hrests) ?_
    · rwa [hwaits.settings_eq, hclock]
    · rw [hclock, hwaits.toList_eq, List.countP_append]
      exact Nat.le_add_right_of_le borne
  | within running enough block split =>
    refine .within (hwaits.flow_eq.trans running) ?_ (hclock ▸ block) (hpassed ▸ split)
    rwa [hwaits.settings_eq, hclock]
  | past sent => exact .past sent

theorem leading_apply (hm : m.Relocatable) (hq : c.queue.Ordered) (hc : c.Consistent)
    (h : Leading m gone c) (hop : op.frees c = false) :
    Leading m (gone ++ (c.events op).flatMap Event.departed) (c.apply op).buffer := by
  cases op with
  | push burst =>
    change Leading m _ (c.push burst).buffer
    rw [buffer_push]
    exact leading_offer hq h burst
  | offer burst => exact leading_offer hq h burst
  | pushBytes bytes =>
    change Leading m _ (c.pushBytes bytes).buffer
    rw [buffer_pushBytes]
    exact leading_offer hq h _
  | tick now => exact leading_tick hm hq hc h hop
  | setName | setDelivers | setAsks =>
    change Leading m (gone ++ []) _
    rw [List.append_nil]
    exact h.credit rfl rfl rfl rfl
  | reset | setThresholds | setMaxSize | setOptions | setPid => cases hop

theorem leading_run (hm : m.Relocatable) (hq : c.queue.Ordered) (hc : c.Consistent)
    (h : Leading m gone c) (hmore : c.undisturbed more = true) :
    Leading m (gone ++ (c.happened more).flatMap Event.departed) (c.run more) := by
  induction more generalizing c gone with
  | nil => simpa [happened, gather, run] using h
  | cons op rest ih =>
    obtain ⟨hop, hrest⟩ := (Bool.and_eq_true _ _).mp hmore
    have hfirst := leading_apply hm hq hc h ((Bool.not_eq_true' _).mp hop)
    have hnext := ih (ordered_apply hq op) (consistent_apply hc op) hfirst hrest
    rw [happened_cons, List.flatMap_append, ← List.append_assoc]
    exact hnext

theorem start_relocates (settings : Settings) (history : List Operation) :
    let start := (create settings).buffer
    let b := start.run history
    b.flow = .running → b.clock.hasBlock = false → ∃ before now after,
      history = before ++ .tick now :: after ∧ (start.run before).Starts now ∧
      let m := ((start.run before).timed now).searched
      Rests m.started (m.started.accepted after) b ∧ Relocates m b ∧
      ((∀ op ∈ history, op.rethresholds = false) → b.settings.low.toNat ≤ b.clock.blocks) ∧
      (b.settings.low.toNat ≤ b.clock.blocks → ∀ more, b.undisturbed more = true →
        (b.run more).flow = .running ∨
          m.queue.passed <+: (b.happened more).flatMap Event.departed) := by
  intro start b running noBlock
  have hnew := coherent_create settings
  have hcons := consistent_create settings
  have hq := (hnew.run history).ordered
  obtain ⟨before, now, after, hsplit, hstarts, hrests⟩ := rests_run hnew hcons
    (primed_create settings) rfl history (by simp [running, b, start]) (by simp [running, b, start])
    noBlock
  have hm := hstarts.relocatable (hnew.run before) ((sparse_create settings).run hnew.ordered before)
    ((numbered_create settings).run hnew before)
  refine ⟨before, now, after, hsplit, hstarts, hrests, relocates_of_rests hm hrests hq, ?_, ?_⟩
  · intro hops
    exact ((backed_of_still (.inl rfl)).run hnew.ordered hcons hops).enough running noBlock
  · intro enough more hmore
    have hborne := (covered_run settings history).flowing (by simp [running, b, start])
      (by simp [running, b, start]) noBlock
    have hleading := leading_run hm hq (hcons.run history) (.ahead running enough hrests hborne) hmore
    rw [List.nil_append] at hleading
    exact hleading.sent_or_running.elim .inr fun h => .inl h.1

/-- A packet without a reading in front of two blocks, and more packets after the start. -/
theorem start_relocates_sample :
    let history := [.push (Packet.Draft.packet { pid := 17 } :: readings 3), .tick 0, .tick 1000000,
      .push ((readings 6).drop 3)]
    let b := (create { enough := 2, low := 2 }).buffer.run history
    let more := [.tick 2000000, .push (readings 2), .tick 3000000]
    b.flow = .running ∧ b.clock.hasBlock = false ∧ b.undisturbed more = true ∧
      ∃ m taken, Rests m.started taken b ∧ Relocates m b ∧ ((b.run more).flow = .running ∨
        m.queue.passed <+: (b.happened more).flatMap Event.departed) := by
  intro history b more
  obtain ⟨hrunning, noBlock, hmore⟩ :
      b.flow = .running ∧ b.clock.hasBlock = false ∧ b.undisturbed more = true := by
    decide +kernel
  obtain ⟨_, _, _, _, _, hrests, hrelocates, henough, hruns⟩ :=
    start_relocates { enough := 2, low := 2 } history hrunning noBlock
  have hlow := henough (by simp [history, Operation.rethresholds])
  exact ⟨hrunning, noBlock, hmore, _, _, hrests, hrelocates, hruns hlow more hmore⟩

/-- A tick that comes more than a second after the last one drops the queue, located block and all. -/
theorem dropped_before_first_block :
    let b := (create { enough := 2, low := 2 }).buffer.run
      [.push (readings 3), .tick 0, .tick 1000000]
    b.flow = .running ∧ b.clock.hasBlock = false ∧ b.settings.low.toNat ≤ b.clock.blocks ∧
      (b.tick 1001000001).buffer.flow = .buffering ∧
      (b.happened [.tick 1001000001]).flatMap Event.departed = [] := by
  decide +kernel

end PacedStream.Buffer
