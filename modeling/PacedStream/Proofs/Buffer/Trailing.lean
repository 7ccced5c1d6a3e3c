import PacedStream.Proofs.Clock.Visits
import PacedStream.Proofs.Buffer.Coherence
import PacedStream.Proofs.Buffer.Fifo
import PacedStream.Proofs.Buffer.Remembered

/-!
Where the next scan measures from. In every buffer reached from a new one the queue is the end of
all that was accepted, and once everything that the scan has passed is sent, the packet sent last
carried the latest reading, or else a block is the next thing ahead.
-/

namespace PacedStream.Buffer
set_option autoImplicit false

variable {b b' : Buffer} {es : List Event} {earlier items burst : List Packet} {c c' : Clock}

/-- A scan that starts at the front of the queue, behind all that was sent. -/
inductive Resumes (earlier : List Packet) (c : Clock) (items : List Packet) : Prop where
  | sent {pid : UInt16} {ticks : UInt64} {last : Packet} (before : List Packet)
      (split : earlier = before ++ last :: items)
      (ends : Clock.reading? last = some (pid, ticks)) (reference_eq : c.reference? = some pid)
      (latest_eq : c.latest? = some ticks) : Resumes earlier c items
  | sure (ahead : c.Sure items) : Resumes earlier c items

theorem Resumes.congr (h : Resumes earlier c items) (reference_eq : c'.reference? = c.reference?)
    (latest_eq : c'.latest? = c.latest?) : Resumes earlier c' items := by
  cases h with
  | sent before split ends href hlatest =>
    exact .sent before split ends (reference_eq.trans href) (latest_eq.trans hlatest)
  | sure ahead => exact .sure (ahead.congr reference_eq latest_eq)

theorem Resumes.append (h : Resumes earlier c items) (burst : List Packet) :
    Resumes (earlier ++ burst) c (items ++ burst) := by
  cases h with
  | sent before split ends reference_eq latest_eq =>
    refine .sent before ?_ ends reference_eq latest_eq
    rw [split, List.append_assoc, List.cons_append]
  | sure ahead => exact .sure (ahead.append burst)

structure Trailing (b : Buffer) (earlier : List Packet) : Prop where
  coherent : b.Coherent
  sparse : b.Sparse
  suffix : b.queue.toList <:+ earlier
  resumes : b.flow ≠ .empty → b.flow ≠ .buffering → b.queue.passed = [] →
    Resumes earlier b.clock b.queue.toList

theorem trailing_create (settings : Settings) : (create settings).buffer.Trailing [] := by
  have hnil : (create settings).buffer.queue.toList = [] := Queue.toList_create _ _
  exact ⟨coherent_create settings, sparse_create settings, hnil ▸ List.suffix_refl _,
    fun hfed => absurd rfl hfed⟩

/-- A block has two readings and the clock remembers no more, so the packets in front have none. -/
theorem sure_of_located (hc : b.Coherent) (hs : b.Sparse) (hbuffering : b.flow = .buffering)
    (hblock : b.clock.hasBlock = true) : b.clock.rewind.Sure b.queue.toList := by
  obtain ⟨lead, block, hpassed, isBlock, _⟩ := hc.located hbuffering hblock
  have htwo := isBlock.two_le_countP
  cases isBlock with
  | @intro pid opening latest first last between bounds opens inner ends =>
    have hnull := Clock.ne_nullPid_of_reading? ends
    have hremembered : b.clock.remembered = 2 := if_pos hblock
    have hle := hs.readings_le
    rw [Clock.isReference_eq_owns bounds.reference_eq hnull] at htwo inner
    rw [hpassed, List.countP_append, hremembered] at hle
    have hbare : lead.countP b.clock.owns = 0 := by omega
    have hsplit : b.queue.toList = lead ++ first :: (between ++ last :: b.queue.ahead) := by
      rw [hc.ordered.toList_eq, hpassed]
      simp only [List.append_assoc, List.cons_append, List.nil_append]
    refine .front hsplit bounds.reference_eq rfl ?_ opens inner ends bounds.isBreak_eq
    intro p hp
    have hnot := List.countP_eq_zero.mp hbare p hp
    exact Bool.eq_false_iff.mpr hnot

/-- The packet that ends the located block is the last of those passed to be sent. -/
theorem resumes_send (hq : b.queue.Ordered) (hsuffix : b.queue.toList <:+ earlier)
    (lead : b.queue.head ≠ b.queue.mark) (htimes : b.clock.Times b.queue.passed)
    (hpassed : b.sendOff.queue.passed = []) : Resumes earlier b.clock b.sendOff.queue.toList := by
  have htail : b.queue.passed.tail = [] := by
    rw [← Queue.passed_pop hq (hq.head_ne_tail lead)]
    exact hpassed
  obtain ⟨pid, _, latest, last, bounds, hlast, ends⟩ := htimes
  obtain ⟨before, hbefore⟩ := hsuffix
  have hone : b.queue.passed = [last] := by
    cases hcons : b.queue.passed with
    | nil =>
      rw [hcons] at hlast
      cases hlast
    | cons p rest =>
      rw [hcons] at htail hlast
      have hrest : rest = [] := htail
      rw [hrest] at hlast ⊢
      cases hlast
      rfl
  have hqueue : b.queue.toList = last :: b.sendOff.queue.toList := by
    have hpop : b.queue.toList = b.queue.front :: b.sendOff.queue.toList :=
      Queue.toList_pop hq (hq.head_ne_tail lead)
    have hfront : b.queue.toList = last :: b.queue.ahead := by rw [hq.toList_eq, hone]; rfl
    rw [hpop] at hfront ⊢
    rw [(List.cons.inj hfront).1]
  refine .sent before ?_ ends bounds.reference_eq bounds.latest_eq
  rw [← hqueue, hbefore]

theorem resumes_move (hmove : Move b es b') (h : b.Trailing earlier) (hfed : b'.flow ≠ .empty)
    (hflows : b'.flow ≠ .buffering) (hpassed : b'.queue.passed = []) :
    Resumes (gathered earlier es) b'.clock b'.queue.toList := by
  have hq := h.coherent.ordered
  cases hmove with
  | adjust queue_eq clock_eq flow_eq =>
    rw [flow_eq] at hfed hflows
    rw [queue_eq] at hpassed ⊢
    rw [clock_eq, gathered_nil]
    exact h.resumes hfed hflows hpassed
  | connect =>
    rw [gathered_connected]
    exact h.resumes hfed hflows hpassed
  | credit | recount =>
    rw [gathered_nil]
    exact (h.resumes hfed hflows hpassed).congr rfl rfl
  | resize resized =>
    have hresized := Queue.resized_of_resize? hq resized
    rw [gathered_nil, hresized.toList_eq hq]
    exact h.resumes hfed hflows (hresized.passed_eq ▸ hpassed)
  | feed =>
    rw [gathered_nil]
    cases hflow : b.flow with
    | empty => exact absurd (congrArg Flow.feed hflow) hflows
    | buffering => exact absurd (congrArg Flow.feed hflow) hflows
    | running | underflow => exact h.resumes (by simp [hflow]) (by simp [hflow]) hpassed
  | @take queue burst fed pushed =>
    have hpushed := Queue.pushed_of_push? hq pushed
    rw [gathered_took, hpushed.toList_eq hq]
    exact (h.resumes fed hflows (hpushed.passed_eq ▸ hpassed)).append burst
  | start hbuffering block =>
    rw [gathered_nil]
    have hsure : b.clock.rewind.Sure b.queue.toList :=
      sure_of_located h.coherent h.sparse hbuffering block
    exact .sure (hsure.congr rfl rfl)
  | next _ _ found => exact absurd hpassed (times_sought hq found).ne_nil
  | send hrunning lead =>
    have hne : b.queue.passed ≠ [] := fun hnil => lead (hq.head_eq_mark_iff.mpr hnil)
    rw [gathered_sent]
    exact resumes_send hq h.suffix lead ((h.coherent.running hrunning).2.resolve_left hne) hpassed
  | stall now hrunning =>
    rw [gathered_nil]
    exact h.resumes (by simp [hrunning]) (by simp [hrunning]) hpassed
  | resume stalled =>
    rw [gathered_nil]
    exact (h.resumes (by simp [stalled]) (by simp [stalled]) hpassed).congr rfl rfl
  | empty =>
    rcases still_dropAll b with hstill | hstill
    · exact absurd hstill hfed
    · exact absurd hstill hflows
  | pin _ unfed => exact absurd unfed hfed
  | seek hbuffering => exact absurd hbuffering hflows
  | lose | repin => exact absurd rfl hflows

theorem trailing_move (hmove : Move b es b') (h : b.Trailing earlier) :
    b'.Trailing (gathered earlier es) := by
  have hq := h.coherent.ordered
  exact ⟨coherent_move hmove h.coherent, sparse_move hmove hq h.sparse,
    (conveys_move (effect_move hmove hq) h.suffix).suffix, resumes_move hmove h⟩

theorem Trailing.course (h : b.Trailing earlier) (hcourse : Course b es b') :
    b'.Trailing (gathered earlier es) := by
  induction hcourse generalizing earlier with
  | done => rwa [gathered_nil]
  | step hmove _ ih =>
    rw [gathered_append]
    exact ih (trailing_move hmove h)

theorem trailing_run (settings : Settings) (history : List Operation) :
    ((create settings).buffer.run history).Trailing ((create settings).buffer.accepted history) := by
  have hstart := trailing_create settings
  have h := hstart.course (course_run hstart.coherent.ordered history)
  rw [accepted_eq]
  exact h

end PacedStream.Buffer
