import PacedStream.Proofs.Buffer.Coherence
import PacedStream.Proofs.Buffer.Fifo

/-!
Packets leave on time and only when enough is queued. Main statement: on every buffer reached from a
new one, a packet is sent only in a tick that begins with flowing packets and enough blocks, and at
that moment the clock has located a block that ends with a packet still queued; and packets begin to
flow only in a tick at which enough readings are queued.
-/

namespace PacedStream.Buffer
set_option autoImplicit false

/-- The clock of a moment has located the block from one reading to another close behind it, and the
packet `last` with the second reading is queued at place `place`, just in front of the mark. -/
structure Located (m : Buffer) (pid : UInt16) (opening latest : UInt64) (last : Packet)
    (place : Nat) : Prop where
  reference_eq : m.clock.reference? = some pid
  opening_eq : m.clock.opening? = some opening
  latest_eq : m.clock.latest? = some latest
  gap_pos : 0 < ((latest.toNat : Int) - opening.toNat) % ClockReference.wrap.toNat
  gap_lt : ((latest.toNat : Int) - opening.toNat) % ClockReference.wrap.toNat < Clock.maxGap.toNat
  pid_eq : last.pid = pid
  clock_eq : last.clock? = some latest
  queued : m.queue.toList[place]? = some last
  place_eq : (m.queue.head + place) % m.queue.size =
    (m.queue.mark + m.queue.size - 1) % m.queue.size
  slot_eq : m.queue.slot? ((m.queue.mark + m.queue.size - 1) % m.queue.size) = some last

variable {b b' : Buffer} {es : List Event} {history : List Operation}

/-- All readings that are queued or that the clock remembers lie on the circle. -/
structure OnCircle (b : Buffer) : Prop where
  clock : b.clock.Below
  items : ∀ p ∈ b.queue.toList, Clock.OnCircle p

def Event.OnCircle (e : Event) : Prop := ∀ p ∈ e.accepted, Clock.OnCircle p

theorem onCircle_create (settings : Settings) : (create settings).buffer.OnCircle := by
  refine ⟨⟨nofun, nofun⟩, fun p hp => ?_⟩
  have hnil : (create settings).buffer.queue.toList = [] := Queue.toList_create _ _
  rw [hnil] at hp
  cases hp

theorem items_onCircle_move (h : Effect b es b') (hes : ∀ e ∈ es, e.OnCircle)
    (hitems : ∀ p ∈ b.queue.toList, Clock.OnCircle p) :
    ∀ p ∈ b'.queue.toList, Clock.OnCircle p := by
  cases h with
  | scan follows => exact fun p hp => hitems p (follows.suffix.subset hp)
  | @take b' burst _ toList_eq =>
    intro p hp
    rw [toList_eq] at hp
    rcases List.mem_append.mp hp with hp | hp
    · exact hitems p hp
    · exact hes (.took burst) (List.mem_singleton.mpr rfl) p hp
  | send _ toList_eq =>
    intro p hp
    refine hitems p ?_
    rw [toList_eq]
    exact List.mem_cons_of_mem _ hp
  | empty toList_eq =>
    intro p hp
    rw [toList_eq] at hp
    cases hp
  | connect _ toList_eq =>
    rw [toList_eq]
    exact hitems

theorem below_sought (hq : b.queue.Ordered) (h : b.OnCircle) : b.sought.clock.Below := by
  have hat := b.clock.seek_at hq
  rw [sought, hat.clock_eq]
  refine Clock.below_walk h.clock fun p hp => h.items p ?_
  rw [hq.toList_eq]
  exact List.mem_append_right _ hp

theorem onCircle_move (hmove : Move b es b') (hq : b.queue.Ordered) (hes : ∀ e ∈ es, e.OnCircle)
    (h : b.OnCircle) : b'.OnCircle := by
  refine ⟨?_, items_onCircle_move (effect_move hmove hq) hes h.items⟩
  have hsame := h.clock
  cases hmove with
  | adjust _ clock_eq => rwa [clock_eq]
  | connect | resize | feed | take | send | stall => exact hsame
  | credit | recount | resume | pin => exact ⟨hsame.opening_lt, hsame.latest_lt⟩
  | seek | next => exact below_sought hq h
  | start | lose | repin | empty => exact ⟨nofun, nofun⟩

theorem located_of_times {m : Buffer} (hc : m.Coherent) (hcircle : m.OnCircle)
    (hrunning : m.flow = .running) (lead : m.queue.head ≠ m.queue.mark) :
    ∃ pid opening latest last place, Located m pid opening latest last place := by
  have hq := hc.ordered
  have hne : m.queue.passed ≠ [] := fun hnil => lead (hq.head_eq_mark_iff.mpr hnil)
  obtain ⟨pid, opening, latest, last, bounds, hlast, ends⟩ := (hc.running hrunning).2.resolve_left hne
  obtain ⟨_, hpid, hclock⟩ := Clock.reading?_eq_some_iff.mp ends
  have hgap := Clock.gap_of_not_break bounds.isBreak_eq
  have hcircular := Clock.toNat_gap (hcircle.clock.opening_lt _ bounds.opening_eq)
    (hcircle.clock.latest_lt _ bounds.latest_eq)
  have hpos : 0 < m.queue.scanned := by
    rw [← Queue.length_passed]
    exact List.length_pos_iff.mpr hne
  have hqueued : m.queue.toList[m.queue.scanned - 1]? = some last := by
    rw [hq.toList_eq, List.getElem?_append_left (by rw [Queue.length_passed]; omega),
      ← Queue.length_passed, ← List.getLast?_eq_getElem?]
    exact hlast
  have hplace := hq.before_mark hpos
  have hlt : m.queue.scanned - 1 < m.queue.length := by
    have hle := hq.scanned_le
    omega
  have hslot : m.queue.slot? ((m.queue.mark + m.queue.size - 1) % m.queue.size) = some last := by
    have hsize : (m.queue.mark + m.queue.size - 1) % m.queue.size < m.queue.size :=
      Nat.mod_lt _ (Nat.zero_lt_of_lt hq.head_lt)
    rw [hq.slot?_eq hsize, ← hplace, ← hqueued]
    exact (Queue.getElem?_itemsFrom hlt).symm
  refine ⟨pid, opening, latest, last, m.queue.scanned - 1, bounds.reference_eq, bounds.opening_eq,
    bounds.latest_eq, ?_, ?_, hpid, hclock, hqueued, hplace, hslot⟩
  · omega
  · omega

theorem onCircle_events {op : Operation} (hburst : ∀ p ∈ op.burst, Clock.OnCircle p) :
    ∀ e ∈ b.events op, e.OnCircle := by
  intro e he p hp
  have hmem : p ∈ (b.events op).flatMap Event.accepted := List.mem_flatMap.mpr ⟨e, he, hp⟩
  rw [accepted_events] at hmem
  split at hmem
  · exact hburst p hmem
  · cases hmem

theorem onCircle_happened (hcircle : ∀ op ∈ history, ∀ p ∈ op.burst, Clock.OnCircle p) :
    ∀ e ∈ b.happened history, e.OnCircle := by
  induction history generalizing b with
  | nil => exact fun e he => nomatch he
  | cons op rest ih =>
    intro e he
    rcases List.mem_append.mp he with he | he
    · exact onCircle_events (hcircle op List.mem_cons_self) e he
    · exact ih (fun op hop => hcircle op (List.mem_cons_of_mem _ hop)) e he

theorem located_course (h : Course b es b') (hc : b.Coherent) (hcircle : b.OnCircle)
    (hes : ∀ e ∈ es, e.OnCircle) : b'.OnCircle ∧ ∀ m, .sent m ∈ es →
      ∃ pid opening latest last place, Located m pid opening latest last place := by
  have hkeeps := h.induct (motive := fun b => b.Coherent ∧ b.OnCircle) hes ?_ ⟨hc, hcircle⟩
  · refine ⟨hkeeps.1.2, fun m hm => ?_⟩
    obtain ⟨⟨hcoherent, hon⟩, hrunning, lead⟩ := hkeeps.2 m hm
    exact located_of_times hcoherent hon hrunning lead
  · rintro b es b' hmove hes ⟨hcoherent, hon⟩
    exact ⟨coherent_move hmove hcoherent, onCircle_move hmove hcoherent.ordered hes hon⟩

theorem of_sent {m : Buffer} {op : Operation} (h : .sent m ∈ b.events op) :
    (∃ now, op = .tick now) ∧ b.flow = .running ∧ b.settings.low.toNat ≤ b.clock.blocks := by
  cases op with
  | tick now =>
    refine ⟨⟨now, rfl⟩, ?_⟩
    unfold events at h
    dsimp only at h
    split at h
    · simp at h
    · obtain ⟨_, hm, _⟩ := List.mem_map.mp h
      unfold departures at hm
      split at hm
      · cases hm
      · split at hm
        · rename_i hall
          exact ⟨hall.1, hall.2.1⟩
        · cases hm
  | push burst | offer burst | pushBytes bytes =>
    unfold events taking at h
    dsimp only at h
    split at h <;> simp at h
  | _ => simp [events] at h

/-- Enough blocks behind a located one mean a reading more than that in the whole queue. -/
theorem enough_readings (hc : b.Coherent) (hbuffering : b.flow = .buffering)
    (hblock : b.clock.hasBlock = true)
    (henough : b.settings.enough.toNat ≤ b.recount.clock.blocks) :
    b.settings.enough.toNat + 1 ≤ b.queue.toList.countP b.clock.isReference := by
  obtain ⟨lead, block, hpassed, isBlock, _⟩ := hc.located hbuffering hblock
  -- A recount takes the located block for one reading, but it holds two.
  have htwo := isBlock.two_le_countP
  have hblocks : b.recount.clock.blocks =
      min (1 + b.clock.blocksAhead b.queue b.settings.enough.toNat) b.settings.enough.toNat :=
    if_pos hblock
  rw [hblocks, Clock.blocksAhead_eq _ hc.ordered] at henough
  rw [hc.ordered.toList_eq, hpassed, List.countP_append, List.countP_append]
  omega

theorem starts_tick (hc : b.Coherent) (hbuffering : b.flow = .buffering) {now : Int}
    (h : (b.tick now).buffer.flow = .running) :
    b.settings.enough.toNat + 1 ≤ (b.tick now).buffer.queue.toList.countP
      (b.tick now).buffer.clock.isReference := by
  have hstart : ∀ ready : Buffer, ready.Coherent → ready.flow = .buffering →
      ready.clock.hasBlock = true → (ready.tryStart now).buffer.flow = .running →
      ready.settings.enough.toNat + 1 ≤ (ready.tryStart now).buffer.queue.toList.countP
        (ready.tryStart now).buffer.clock.isReference := by
    intro ready hready hflow hblock hruns
    obtain ⟨hreference, htoList⟩ := keeps_tryStart ready now
    have hsame : (ready.tryStart now).buffer.clock.isReference = ready.clock.isReference :=
      funext fun _ => Clock.isReference_congr hreference
    rw [htoList, hsame]
    exact enough_readings hready hflow hblock (enough_of_tryStart hflow hruns)
  have htimed : (b.timed now).Coherent := coherent_move (move_timed b now) hc
  obtain ⟨hprepares, _⟩ := prepares_tick (.inr hbuffering) now
  generalize (b.tick now).buffer = after at h hprepares
  cases hprepares with
  | idle =>
    have hflow : b.flow = .running := h
    rw [hbuffering] at hflow
    cases hflow
  | jump =>
    change (if b.flow = .empty then Flow.empty else .buffering) = .running at h
    split at h <;> cases h
  | ready _ block => exact hstart (b.timed now) htimed hbuffering block h
  | found _ noBlock found =>
    have hseek : Move (b.timed now) [] ((b.timed now).withScan b.sought) :=
      .seek hbuffering noBlock
    exact hstart _ (coherent_move hseek htimed) hbuffering
      (times_sought hc.ordered found).hasBlock h
  | lost =>
    have hflow : b.flow = .running := h
    rw [hbuffering] at hflow
    cases hflow

structure Gates (b : Buffer) (op : Operation) : Prop where
  /-- What the receiver gets are front packets of moments of this operation. -/
  sent_eq : (b.apply op).sent.toList = (b.events op).flatMap Event.delivered
  sends : ∀ m, .sent m ∈ b.events op →
    (∃ now, op = .tick now) ∧ b.flow = .running ∧ b.settings.low.toNat ≤ b.clock.blocks ∧
      ∃ pid opening latest last place, Located m pid opening latest last place
  starts : b.flow = .buffering → (b.apply op).buffer.flow = .running →
    (∃ now, op = .tick now) ∧
      b.settings.enough.toNat + 1 ≤ (b.apply op).buffer.queue.toList.countP
        (b.apply op).buffer.clock.isReference

theorem gates_run (settings : Settings)
    (hcircle : ∀ op ∈ history, ∀ p ∈ op.burst, Clock.OnCircle p) (op : Operation) :
    ((create settings).buffer.run history).Gates op := by
  have hnew := coherent_create settings
  have hc := hnew.run history
  have hon := (located_course (course_run hnew.ordered history) hnew (onCircle_create settings)
    (onCircle_happened hcircle)).1
  generalize (create settings).buffer.run history = b at hc hon
  constructor
  · exact (course_apply hc.ordered op).2
  · intro m hm
    obtain ⟨⟨now, rfl⟩, hrunning, hlow⟩ := of_sent hm
    have hcourse := (course_apply hc.ordered (.tick now)).1
    have hes : ∀ e ∈ b.events (.tick now), e.OnCircle :=
      onCircle_events fun p hp => nomatch hp
    exact ⟨⟨now, rfl⟩, hrunning, hlow, (located_course hcourse hc hon hes).2 m hm⟩
  · intro hbuffering hruns
    rcases op.tick_or_not with ⟨now, rfl⟩ | hop
    · exact ⟨⟨now, rfl⟩, starts_tick hc hbuffering hruns⟩
    · have hflow := (of_not_tick hop).2 hruns
      rw [hbuffering] at hflow
      cases hflow

/-- Half a millisecond for each packet, and a tick of one millisecond that sends two. -/
theorem gates_run_sample :
    let history := [.setDelivers true, .push sample, .tick 0, .tick 1000000]
    let b := (create sampleSettings).buffer.run history
    (b.apply (.tick 2000000)).sent.size = 2 ∧ b.Gates (.tick 2000000) := by
  intro history b
  have hreadings : sample.all (fun p => p.clock?.all (· < ClockReference.wrap)) = true := by
    decide +kernel
  have hsample : ∀ p ∈ sample, Clock.OnCircle p := fun p hp =>
    Clock.onCircle_iff.mpr (List.all_eq_true.mp hreadings p hp)
  have hcircle : ∀ op ∈ history, ∀ p ∈ op.burst, Clock.OnCircle p := by
    intro op hop
    simp only [history, List.mem_cons, List.not_mem_nil, or_false] at hop
    rcases hop with rfl | rfl | rfl | rfl
    · exact nofun
    · exact hsample
    · exact nofun
    · exact nofun
  exact ⟨by decide +kernel, gates_run sampleSettings hcircle (.tick 2000000)⟩

end PacedStream.Buffer
