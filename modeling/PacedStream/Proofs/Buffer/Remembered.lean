import PacedStream.Proofs.Clock.Remembered
import PacedStream.Proofs.Buffer.Histories

/-!
Readings in front of the mark. In every buffer reached from a new one, the packets that the scan has
passed hold no more readings of the clock than it remembers.
-/

namespace PacedStream.Buffer
set_option autoImplicit false

structure Sparse (b : Buffer) : Prop where
  unfed : b.flow = .empty → b.queue.toList = []
  readings_le : b.queue.passed.countP b.clock.owns ≤ b.clock.remembered

variable {b b' : Buffer} {es : List Event}

theorem sparse_create (settings : Settings) : (create settings).buffer.Sparse := by
  have hnil : (create settings).buffer.queue.toList = [] := Queue.toList_create _ _
  have hpassed := (ordered_create settings).passed_eq_nil hnil
  exact ⟨fun _ => hnil, by simp [hpassed]⟩

theorem Sparse.congr (h : b.Sparse) (flow : b'.flow = .empty → b.flow = .empty)
    (toList_eq : b'.queue.toList = b.queue.toList) (passed_eq : b'.queue.passed = b.queue.passed)
    (reference_eq : b'.clock.reference? = b.clock.reference?)
    (opening_eq : b'.clock.opening? = b.clock.opening?)
    (latest_eq : b'.clock.latest? = b.clock.latest?) : b'.Sparse := by
  constructor
  · intro hunfed
    rw [toList_eq]
    exact h.unfed (flow hunfed)
  · have hremembered : b'.clock.remembered = b.clock.remembered := by
      unfold Clock.remembered Clock.anchors Clock.hasBlock
      rw [opening_eq, latest_eq]
    rw [passed_eq, Clock.owns_congr reference_eq, hremembered]
    exact h.readings_le

theorem sparse_of_passed_nil (flow : b.flow ≠ .empty) (hpassed : b.queue.passed = []) :
    b.Sparse := ⟨fun h => absurd h flow, by simp [hpassed]⟩

theorem sparse_sought (hq : b.queue.Ordered) (flow : b.flow ≠ .empty)
    (h : b.queue.passed.countP b.clock.owns ≤ b.clock.anchors) : (b.withScan b.sought).Sparse := by
  have hat := b.clock.seek_at hq
  refine ⟨fun h => absurd h flow, ?_⟩
  change b.sought.queue.passed.countP b.sought.clock.owns ≤ b.sought.clock.remembered
  rw [sought, hat.clock_eq, hat.passed_eq]
  exact Clock.remembered_walk h

theorem sparse_move (hmove : Move b es b') (hq : b.queue.Ordered) (h : b.Sparse) : b'.Sparse := by
  cases hmove with
  | adjust queue_eq clock_eq flow_eq =>
    refine h.congr (fun hunfed => flow_eq.symm.trans hunfed) ?_ ?_ ?_ ?_ ?_
    · rw [queue_eq]
    · rw [queue_eq]
    all_goals rw [clock_eq]
  | connect | credit | recount => exact h.congr id rfl rfl rfl rfl rfl
  | resize resized =>
    have hresized := Queue.resized_of_resize? hq resized
    exact h.congr id (hresized.toList_eq hq) hresized.passed_eq rfl rfl rfl
  | feed => exact h.congr (fun hunfed => absurd hunfed (feed_ne_empty b.flow)) rfl rfl rfl rfl rfl
  | take fed pushed =>
    have hpushed := Queue.pushed_of_push? hq pushed
    refine ⟨fun hunfed => absurd hunfed fed, ?_⟩
    rw [hpushed.passed_eq]
    exact h.readings_le
  | seek hbuffering noBlock =>
    refine sparse_sought hq (by simp [hbuffering]) ?_
    have hreadings := h.readings_le
    unfold Clock.remembered at hreadings
    rwa [if_neg (by simp [noBlock])] at hreadings
  | start => exact sparse_of_passed_nil nofun (Queue.passed_rewind hq)
  | next hrunning noLead =>
    refine sparse_sought hq (by simp [hrunning]) ?_
    rw [hq.head_eq_mark_iff.mp noLead]
    exact Nat.zero_le _
  | lose => exact sparse_of_passed_nil nofun (Queue.passed_rewind (ordered_sought hq))
  | send hrunning lead =>
    have hflow : b.sendOff.flow = .running := hrunning
    have hpassed : b.sendOff.queue.passed = b.queue.passed.tail :=
      Queue.passed_pop hq (hq.head_ne_tail lead)
    refine ⟨fun hunfed => absurd (hflow.symm.trans hunfed) nofun, ?_⟩
    rw [hpassed]
    exact Nat.le_trans ((List.tail_sublist _).countP_le) h.readings_le
  | stall => exact ⟨nofun, h.readings_le⟩
  | resume => exact ⟨nofun, h.readings_le⟩
  | empty =>
    have hnil := toList_dropAll hq
    have hpassed := (ordered_dropAll hq).passed_eq_nil hnil
    exact ⟨fun _ => hnil, by simp [hpassed]⟩
  | pin _ unfed =>
    have hnil := h.unfed unfed
    have hpassed := hq.passed_eq_nil hnil
    exact ⟨fun _ => hnil, by simp [hpassed]⟩
  | repin => exact sparse_of_passed_nil nofun (Queue.passed_rewind hq)

theorem sparse_course (h : Course b es b') (hq : b.queue.Ordered) (hs : b.Sparse) : b'.Sparse := by
  have hkeeps := h.induct (motive := fun b => b.queue.Ordered ∧ b.Sparse)
    (P := fun _ => True) (fun _ _ => trivial)
    (fun hmove _ ⟨hq, hs⟩ => ⟨ordered_move hmove hq, sparse_move hmove hq hs⟩) ⟨hq, hs⟩
  exact hkeeps.1.2

theorem Sparse.run (hs : b.Sparse) (hq : b.queue.Ordered) (history : List Operation) :
    (b.run history).Sparse :=
  sparse_course (course_run hq history) hq hs

end PacedStream.Buffer
