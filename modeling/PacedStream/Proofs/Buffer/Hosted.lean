import PacedStream.Proofs.Buffer.Held

/-!
A buffer from its set-up to the end of its input and on. What holds while it is pushed to and ticked
is enough to play it, once its input has ended, through the last reading that is queued.
-/

namespace PacedStream.Buffer
set_option autoImplicit false

variable {b : Buffer} {pid : UInt16} {now : Int} {op : Operation} {history : List Operation}
  {due rest : List Packet}

/-- An operation that may come before the first tick. The receiver stays connected. -/
def Operation.early : Operation → Bool
  | .tick _ | .setDelivers _ => false
  | _ => true

structure Unstarted (b : Buffer) : Prop where
  still : b.flow = .empty ∨ b.flow = .buffering
  delivers : b.delivers = true
  untimed : b.lastTick? = none

theorem still_untimed {es : List Event} {s : Step} (h : Untimed b es s)
    (hstill : b.flow = .empty ∨ b.flow = .buffering) :
    s.buffer.flow = .empty ∨ s.buffer.flow = .buffering := by
  cases h with
  | offer burst buffer_eq =>
    have hfeed : b.flow.feed = .buffering := by
      rcases hstill with hflow | hflow <;> rw [hflow] <;> rfl
    rw [buffer_eq]
    unfold offer
    dsimp only
    split
    · exact hstill
    · split <;> exact .inr hfeed
  | reset => exact still_dropAll b
  | adopt settings => exact (takesOver_adopt b settings).keeps.2.symm ▸ hstill
  | adjust _ _ flow_eq => exact flow_eq.symm ▸ hstill
  | pin | connect => exact hstill
  | repin => exact .inr rfl

theorem keeps_early (op : Operation) (hop : op.early = true) :
    (b.apply op).buffer.delivers = b.delivers ∧ (b.apply op).buffer.lastTick? = b.lastTick? := by
  have haside : Aside b (b.apply op).buffer :=
    aside_apply (by rintro now rfl; cases hop) (by rintro on rfl; cases hop)
  exact ⟨haside.delivers_eq, haside.lastTick_eq⟩

theorem Unstarted.run (h : b.Unstarted) (hearly : ∀ op ∈ history, op.early = true) :
    (b.run history).Unstarted := by
  induction history generalizing b with
  | nil => exact h
  | cons op rest ih =>
    have hop := hearly op List.mem_cons_self
    have hnotTick : ∀ now, op ≠ .tick now := by
      rintro now rfl
      cases hop
    obtain ⟨hdelivers, hlast⟩ := keeps_early (b := b) op hop
    refine ih ⟨?_, hdelivers.trans h.delivers, hlast.trans h.untimed⟩
      fun op' hop' => hearly op' (List.mem_cons_of_mem _ hop')
    exact still_untimed (untimed_apply hnotTick) h.still

structure Hosted (b : Buffer) : Prop where
  coherent : b.Coherent
  sparse : b.Sparse
  primed : b.Primed
  consistent : b.Consistent
  backed : b.Backed
  delivers : b.delivers = true

theorem hosted_run (settings : Settings) (hearly : ∀ op ∈ history, op.early = true) :
    let b := { (create settings).buffer with delivers := true, asks := true }
    (b.run history).Hosted ∧ (b.run history).lastTick? = none := by
  intro b
  have hq := ordered_create settings
  have hc := coherent_create settings
  have hrun : b.run history =
      (create settings).buffer.run (.setDelivers true :: .setAsks true :: history) := rfl
  have hunstarted : (b.run history).Unstarted :=
    Unstarted.run ⟨.inl rfl, rfl, rfl⟩ hearly
  refine ⟨⟨?_, ?_, ?_, ?_, backed_of_still hunstarted.still, hunstarted.delivers⟩,
    hunstarted.untimed⟩
  all_goals rw [hrun]
  · exact hc.run _
  · exact (sparse_create settings).run hq _
  · exact primed_course (course_run hq _) hc (primed_create settings)
  · exact (consistent_create settings).run _

theorem Hosted.apply (h : b.Hosted) (op : Operation) (hop : op.rethresholds = false)
    (hdelivers : (b.apply op).buffer.delivers = b.delivers) : (b.apply op).buffer.Hosted := by
  have hq := h.coherent.ordered
  obtain ⟨hcourse, _⟩ := course_apply hq op
  exact ⟨h.coherent.course hcourse, sparse_course hcourse hq h.sparse,
    primed_course hcourse h.coherent h.primed, consistent_apply h.consistent op,
    backed_apply hq h.consistent h.backed hop, hdelivers.trans h.delivers⟩

theorem Hosted.push (h : b.Hosted) (burst : List Packet) : (b.push burst).buffer.Hosted :=
  h.apply (.push burst) rfl (keeps_early _ rfl).1

theorem Hosted.tick (h : b.Hosted) (now : Int) : (b.tick now).buffer.Hosted :=
  h.apply (.tick now) rfl (fixed_tick b now).delivers_eq

/-- What is still to be sent in a drain, and what will be left. -/
inductive Drains (b : Buffer) : List Packet → List Packet → Prop where
  | held (held : b.Held) : Drains b (Clock.timed b.kept) (Clock.untimed b.kept)
  | clearing {pid : UInt16} (clearing : b.Clearing pid) :
      Drains b (Clock.timed b.queue.toList) (Clock.untimed b.queue.toList)
  | spent (spent : b.Spent) : Drains b [] b.queue.toList

theorem buffer_setThresholds_one (b : Buffer) : (b.setThresholds 1 1).buffer =
    { b with settings := { b.settings with enough := 1, low := 1 } } := by
  have hok : Settings.checkThresholds 1 1 = .ok () := rfl
  unfold setThresholds
  rw [hok]

theorem Playable.of_setThresholds_one (h : (b.setThresholds 1 1).buffer.Playable) :
    b.Playable := by
  rw [buffer_setThresholds_one] at h
  exact h.congr rfl rfl rfl

theorem kept_setThresholds_one (b : Buffer) : (b.setThresholds 1 1).buffer.kept = b.kept := by
  rw [buffer_setThresholds_one]
  rfl

theorem Hosted.drains (h : b.Hosted) (hplayable : b.Playable) (hmore : b.queue.toList ≠ []) :
    (b.setThresholds 1 1).buffer.Drains (Clock.timed b.kept) (Clock.untimed b.kept) := by
  have hset := buffer_setThresholds_one b
  have hmove : Move b [] (b.setThresholds 1 1).buffer := by
    rw [hset]
    exact .adjust rfl rfl rfl rfl
  have hheld (waits : b.flow = .buffering ∨
      (∃ since, b.flow = .underflow since) ∧ b.clock.hasBlock = true) :
      (b.setThresholds 1 1).buffer.Drains (Clock.timed b.kept) (Clock.untimed b.kept) := by
    have hcoherent := coherent_move hmove h.coherent
    have hsparse := sparse_move hmove h.coherent.ordered h.sparse
    have hprimed := primed_move hmove h.coherent h.primed
    rw [hset] at hcoherent hsparse hprimed ⊢
    exact .held ⟨hcoherent, hsparse, hprimed, h.delivers, ⟨rfl, rfl⟩,
      hplayable.congr rfl rfl rfl, waits⟩
  cases hflow : b.flow with
  | empty => exact absurd (h.sparse.unfed hflow) hmore
  | buffering => exact hheld (.inl hflow)
  | underflow since => exact hheld (.inr ⟨⟨since, hflow⟩, h.backed.stalled since hflow⟩)
  | running =>
    obtain ⟨pid, href, _, hrest⟩ := hplayable.even h.coherent.ordered
    obtain ⟨hlocked, htimes⟩ := h.coherent.running hflow
    -- With no reading to go on from, the flow has only just started, from the front.
    have hpair : b.clock.latest? = none →
        b.queue.passed = [] ∧ 2 ≤ (Clock.readings b.queue.ahead).length := by
      intro hlatest
      have hblock : b.clock.hasBlock = false := by
        cases hblock : b.clock.hasBlock with
        | false => rfl
        | true => simpa [hlatest] using h.primed.latest hblock
      obtain ⟨_, hpassed, htwo⟩ := h.primed.pair (by simp [hflow]) (by simp [hflow]) hblock
      rw [h.coherent.ordered.toList_eq, hpassed, List.nil_append] at htwo
      exact ⟨hpassed, htwo⟩
    have hclearing : (b.setThresholds 1 1).buffer.Clearing pid := by
      rw [hset]
      exact ⟨hflow, h.delivers, ⟨rfl, rfl⟩, h.backed.counted hflow, h.coherent.ordered, hlocked,
        href, hrest, htimes, hpair⟩
    have hkept : b.kept = (b.setThresholds 1 1).buffer.queue.toList := by
      rw [hset]
      exact if_pos hlocked
    rw [hkept]
    exact .clearing hclearing

theorem Drains.ordered (h : b.Drains due rest) : b.queue.Ordered := by
  cases h with
  | held held => exact held.coherent.ordered
  | clearing clearing => exact clearing.ordered
  | spent spent => exact spent.ordered

theorem Drains.timed (h : b.Drains due rest) (lastTick? : Option Int) :
    ({ b with lastTick? } : Buffer).Drains due rest := by
  cases h with
  | held held => exact .held (held.timed lastTick?)
  | clearing clearing => exact .clearing (clearing.credit lastTick? b.clock.credit)
  | spent spent => exact .spent ⟨spent.buffering, spent.noBlock, spent.ordered, spent.unread⟩

theorem Drains.advance (h : b.Drains due rest) (now : Int) (microseconds : Nat) :
    ∃ due', due = (b.advance now microseconds).sent.toList ++ due' ∧
      (b.advance now microseconds).buffer.Drains due' rest ∧
      ((b.advance now microseconds).buffer.flow = .running ∨
        due' = [] ∧ rest = (b.advance now microseconds).buffer.queue.toList) := by
  cases h with
  | held held =>
    obtain ⟨hsent, pid, hclearing, hlist⟩ := held.advance now microseconds
    refine ⟨Clock.timed b.kept, by rw [hsent]; rfl, ?_, .inl hclearing.running⟩
    rw [← hlist]
    exact .clearing hclearing
  | clearing clearing =>
    obtain ⟨hafter, hsends⟩ := clearing.advance now microseconds
    refine ⟨_, hsends.timed_eq, ?_⟩
    rw [← hsends.untimed_eq]
    rcases hafter with hclearing | hspent
    · exact ⟨.clearing hclearing, .inl hclearing.running⟩
    · obtain ⟨htimed, huntimed⟩ := Clock.timed_of_unread hspent.unread
      rw [htimed, huntimed]
      exact ⟨.spent hspent, .inr ⟨rfl, rfl⟩⟩
  | spent spent =>
    obtain ⟨hspent, hsent, hlist⟩ := spent.advance now microseconds
    refine ⟨[], by rw [hsent]; rfl, ?_, .inr ⟨rfl, hlist.symm⟩⟩
    rw [← hlist]
    exact .spent hspent

theorem Drains.of_nil (h : b.Drains due rest) (hnil : b.queue.toList = []) :
    due = [] ∧ rest = b.queue.toList := by
  cases h with
  | held held =>
    rw [kept_of_nil hnil, hnil]
    exact ⟨rfl, rfl⟩
  | clearing clearing =>
    rw [hnil]
    exact ⟨rfl, rfl⟩
  | spent spent => exact ⟨rfl, rfl⟩

end PacedStream.Buffer
