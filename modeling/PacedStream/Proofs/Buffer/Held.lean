import PacedStream.Proofs.Buffer.Clearing
import PacedStream.Proofs.Buffer.Remembered

/-!
The first tick that counts once one block is enough. A buffer over an even queue that does not flow
yet, or stalls, flows behind it and has sent nothing.
-/

namespace PacedStream.Buffer
set_option autoImplicit false

variable {b b' : Buffer} {pid : UInt16} {now : Int}

/-- A queue that can be timed through its last reading. -/
structure Playable (b : Buffer) : Prop where
  /-- All readings are on the reference identifier, or on a single one as long as there is none. -/
  single : ∃ pid, (b.clock.reference? = none ∨ b.clock.reference? = some pid) ∧
    ∀ r ∈ Clock.readings b.queue.toList, r.1 = pid
  close : ((Clock.readings b.queue.toList).map Prod.snd).IsChain Clock.Close
  /-- The first reading that the scan has not passed is close to the latest one that it took. -/
  next : ∀ before ∈ b.clock.latest?,
    ∀ after ∈ ((Clock.readings b.queue.ahead).map Prod.snd).head?, Clock.Close before after
  starts : b.flow.state = .running ∨ b.flow.state = .underflow ∨
    2 ≤ (Clock.readings b.queue.toList).length

theorem Playable.congr (h : b.Playable) (queue_eq : b'.queue = b.queue)
    (clock_eq : b'.clock = b.clock) (flow_eq : b'.flow = b.flow) : b'.Playable := by
  constructor
  · rw [queue_eq, clock_eq]
    exact h.single
  · rw [queue_eq]
    exact h.close
  · rw [queue_eq, clock_eq]
    exact h.next
  · rw [queue_eq, flow_eq]
    exact h.starts

/-- What a scan leaves queued: all, or without a lock so far all from the first reading on. -/
def kept (b : Buffer) : List Packet :=
  if b.clock.locked then b.queue.toList else Clock.opened b.queue.toList

theorem kept_of_nil (h : b.queue.toList = []) : b.kept = [] := by
  simp [kept, h, Clock.opened]

theorem Playable.even (h : b.Playable) (hq : b.queue.Ordered) : ∃ pid,
    (b.clock.reference? = none ∨ b.clock.reference? = some pid) ∧
      Clock.Even pid none b.queue.toList ∧ Clock.Even pid b.clock.latest? b.queue.ahead := by
  obtain ⟨pid, href, hown⟩ := h.single
  refine ⟨pid, href, ⟨hown, h.close⟩, ?_, ?_⟩
  · rw [hq.toList_eq, Clock.readings_append] at hown
    exact fun r hr => hown r (List.mem_append_right _ hr)
  · have hahead : ((Clock.readings b.queue.ahead).map Prod.snd).IsChain Clock.Close := by
      have hclose := h.close
      rw [hq.toList_eq, Clock.readings_append, List.map_append] at hclose
      exact hclose.right_of_append
    cases hlatest : b.clock.latest? with
    | none => exact hahead
    | some before => exact List.isChain_cons.mpr ⟨h.next before hlatest, hahead⟩

/-- About to be played with one block being enough. -/
structure Held (b : Buffer) : Prop where
  coherent : b.Coherent
  sparse : b.Sparse
  primed : b.Primed
  delivers : b.delivers = true
  thresholds : b.settings.enough = 1 ∧ b.settings.low = 1
  playable : b.Playable
  waits : b.flow = .buffering ∨ (∃ since, b.flow = .underflow since) ∧ b.clock.hasBlock = true

theorem blocks_of_one (hq : b.queue.Ordered) (hone : b.settings.enough = 1)
    (hblock : b.clock.hasBlock = true) : b.recount.clock.blocks = 1 := by
  rw [blocks_of_hasBlock hq hblock, hone]
  exact Nat.min_eq_right (Nat.le_add_right 1 _)

theorem tryStart_of_enough (hbuffering : b.flow = .buffering)
    (h : b.settings.enough.toNat ≤ b.recount.clock.blocks) : (b.tryStart now).buffer =
      { b.recount.withScan b.recount.scan.rewind with flow := .running } := by
  unfold tryStart
  dsimp only
  rw [updateFlow_recount hbuffering, if_pos h]
  rfl

/-- Buffering over an even queue with a block located. -/
structure Ready (b : Buffer) (pid : UInt16) : Prop where
  buffering : b.flow = .buffering
  delivers : b.delivers = true
  thresholds : b.settings.enough = 1 ∧ b.settings.low = 1
  ordered : b.queue.Ordered
  block : b.clock.hasBlock = true
  locked : b.clock.locked = true
  reference : b.clock.reference? = none ∨ b.clock.reference? = some pid
  even : Clock.Even pid none b.queue.toList
  pair : 2 ≤ (Clock.readings b.queue.toList).length

theorem Ready.tryStart (h : b.Ready pid) (now : Int) : (b.tryStart now).buffer.Clearing pid ∧
    (b.tryStart now).buffer.queue.toList = b.queue.toList := by
  have hblocks := blocks_of_one h.ordered h.thresholds.1 h.block
  have henough : b.settings.enough.toNat ≤ b.recount.clock.blocks := by
    rw [h.thresholds.1, hblocks]
    exact Nat.le_refl 1
  have hpassed := Queue.passed_rewind h.ordered
  have hordered := Queue.ordered_rewind h.ordered
  have hahead : b.queue.rewind.ahead = b.queue.toList := by
    have hlist : b.queue.rewind.toList = b.queue.toList := rfl
    rw [← hlist, hordered.toList_eq, hpassed, List.nil_append]
  rw [tryStart_of_enough h.buffering henough]
  refine ⟨⟨rfl, h.delivers, h.thresholds, Nat.le_of_eq hblocks.symm, hordered, h.locked,
    h.reference, ?_, .inl hpassed, fun _ => ⟨hpassed, ?_⟩⟩, rfl⟩
  · exact hahead.symm ▸ h.even
  · exact hahead.symm ▸ h.pair

/-- What a clock without a block has read is all there is to read in what the scan has passed. -/
theorem Sparse.length_readings_le (h : b.Sparse) (noBlock : b.clock.hasBlock = false)
    (href : b.clock.reference? = none ∨ b.clock.reference? = some pid)
    (hown : ∀ r ∈ Clock.readings b.queue.passed, r.1 = pid) :
    (Clock.readings b.queue.passed).length ≤ b.clock.anchors := by
  have hle := h.readings_le
  rw [Clock.countP_owns href hown] at hle
  unfold Clock.remembered at hle
  rwa [if_neg (by simp [noBlock])] at hle

/-- Without a lock nothing is queued in front of the reading that the clock is anchored at. -/
theorem kept_of_latest {before : UInt64} (hc : b.Coherent) (hbuffering : b.flow = .buffering)
    (hlatest : b.clock.latest? = some before) : b.kept = b.queue.toList := by
  unfold kept
  cases hlocked : b.clock.locked with
  | true => rfl
  | false =>
    cases hc.tracks hbuffering with
    | idle _ noLatest => simp [hlatest] at noLatest
    | located _ _ locked => simp [hlocked] at locked
    | anchored split _ _ _ opens _ front =>
      rw [hc.ordered.toList_eq, split, front hlocked, List.nil_append, List.cons_append]
      exact Clock.opened_cons opens

/-- The scan for the first block finds it, and no packet is lost that can be timed. -/
theorem Held.sought (h : b.Held) (hbuffering : b.flow = .buffering)
    (noBlock : b.clock.hasBlock = false)
    (href : b.clock.reference? = none ∨ b.clock.reference? = some pid)
    (hwhole : Clock.Even pid none b.queue.toList)
    (hrest : Clock.Even pid b.clock.latest? b.queue.ahead) :
    Clock.Locates pid (b.clock.walk b.queue.passed b.queue.ahead) ∧
      b.sought.queue.toList = b.kept := by
  have hq := h.coherent.ordered
  have hstarts := h.playable.starts
  have hown := hwhole.own
  rw [hq.toList_eq, Clock.readings_append] at hstarts hown
  have htwo : 2 ≤ (Clock.readings b.queue.passed).length + (Clock.readings b.queue.ahead).length := by
    simpa [hbuffering, Flow.state] using hstarts
  have hread := h.sparse.length_readings_le noBlock href fun r hr =>
    hown r (List.mem_append_left _ hr)
  rw [toList_sought hq]
  cases hlatest : b.clock.latest? with
  | none =>
    rw [hlatest] at hrest
    have hnone : (Clock.readings b.queue.passed).length = 0 := by
      simpa [Clock.anchors, hlatest] using hread
    rw [kept, hq.toList_eq, Clock.opened_append (List.length_eq_zero_iff.mp hnone)]
    exact Clock.walk_even_anew _ hlatest href hrest (by omega)
  | some before =>
    rw [hlatest] at hrest
    have hone : (Clock.readings b.queue.passed).length ≤ 1 := by
      simpa [Clock.anchors, hlatest] using hread
    have hmore : Clock.readings b.queue.ahead ≠ [] := fun hnil => by
      simp only [hnil, List.length_nil] at htwo
      omega
    rw [kept_of_latest h.coherent hbuffering hlatest, hq.toList_eq]
    exact Clock.walk_even_from b.queue.passed hlatest href hrest hmore

theorem Held.prepare (h : b.Held) (hbuffering : b.flow = .buffering) (now : Int) :
    ∃ pid, (b.prepare now).buffer.Clearing pid ∧ (b.prepare now).buffer.queue.toList = b.kept := by
  have hq := h.coherent.ordered
  have htwo : 2 ≤ (Clock.readings b.queue.toList).length := by
    simpa [hbuffering, Flow.state] using h.playable.starts
  obtain ⟨pid, href, hwhole, hrest⟩ := h.playable.even hq
  refine ⟨pid, ?_⟩
  unfold Buffer.prepare
  cases hblock : b.clock.hasBlock with
  | true =>
    obtain ⟨_, _, _, _, hlocked⟩ := h.coherent.located hbuffering hblock
    have hready : b.Ready pid :=
      ⟨hbuffering, h.delivers, h.thresholds, hq, hblock, hlocked, href, hwhole, htwo⟩
    have hkept : b.kept = b.queue.toList := if_pos hlocked
    rw [if_pos rfl, hkept]
    exact hready.tryStart now
  | false =>
    have hat := b.clock.seek_at hq
    obtain ⟨hlocates, hkept⟩ := h.sought hbuffering hblock href hwhole hrest
    have hfound : (b.clock.seek b.queue).found = true := hat.found_eq.trans hlocates.found
    have hreadings : Clock.readings b.sought.queue.toList = Clock.readings b.queue.toList := by
      rw [hkept]
      unfold kept
      split
      · rfl
      · exact Clock.readings_opened
    have hready : (b.withScan b.sought).Ready pid := by
      refine ⟨hbuffering, h.delivers, h.thresholds, hat.ordered, (times_sought hq hfound).hasBlock,
        ?_, ?_, ?_, ?_⟩
      · exact (congrArg Clock.locked hat.clock_eq).trans hlocates.locked
      · exact .inr ((congrArg Clock.reference? hat.clock_eq).trans hlocates.reference_eq)
      · exact ⟨hreadings.symm ▸ hwhole.own, hreadings.symm ▸ hwhole.close⟩
      · exact hreadings.symm ▸ htwo
    obtain ⟨hclearing, hlist⟩ := hready.tryStart now
    rw [if_neg nofun]
    dsimp only
    rw [if_pos hfound]
    exact ⟨hclearing, hlist.trans hkept⟩

theorem Held.recover (h : b.Held) {since : Int} (hstalled : b.flow = .underflow since) (now : Int) :
    ∃ pid, (b.recover now).buffer.Clearing pid ∧ (b.recover now).buffer.queue.toList = b.kept := by
  have hq := h.coherent.ordered
  obtain ⟨pid, href, _, hrest⟩ := h.playable.even hq
  have hblock : b.clock.hasBlock = true := by
    rcases h.waits with hbuffering | ⟨_, hblock⟩
    · exact absurd (hstalled.symm.trans hbuffering) nofun
    · exact hblock
  obtain ⟨hlocked, htimes⟩ := h.coherent.times (by simp [hstalled]) (by simp [hstalled])
  have hblocks := blocks_of_one hq h.thresholds.1 hblock
  have hlow : b.settings.low.toNat ≤ b.recount.clock.blocks := by
    rw [h.thresholds.2, hblocks]
    exact Nat.le_refl 1
  have hkept : b.kept = b.queue.toList := if_pos hlocked
  refine ⟨pid, ?_⟩
  rw [(recover_of_enough now hstalled hlow).1, hkept]
  refine ⟨⟨rfl, h.delivers, h.thresholds, Nat.le_of_eq hblocks.symm, hq, hlocked, href, hrest,
    htimes.imp id fun htimes => htimes.congr rfl rfl rfl, ?_⟩, rfl⟩
  intro hnone
  have hlatest := h.primed.latest hblock
  have hnone' : b.clock.latest? = none := hnone
  rw [hnone'] at hlatest
  cases hlatest

theorem Held.timed (h : b.Held) (lastTick? : Option Int) : ({ b with lastTick? } : Buffer).Held := by
  have hmove : Move b [] { b with lastTick? } := .adjust rfl rfl rfl rfl
  exact ⟨coherent_move hmove h.coherent, sparse_move hmove h.coherent.ordered h.sparse,
    primed_move hmove h.coherent h.primed, h.delivers, h.thresholds,
    h.playable.congr rfl rfl rfl, h.waits⟩

theorem Held.advance (h : b.Held) (now : Int) (microseconds : Nat) :
    (b.advance now microseconds).sent = #[] ∧
      ∃ pid, (b.advance now microseconds).buffer.Clearing pid ∧
        (b.advance now microseconds).buffer.queue.toList = b.kept := by
  have htimed : (b.timed now).Held := h.timed (some now)
  obtain ⟨asked, hadvance⟩ := advance_eq b now microseconds
  rw [hadvance]
  rcases h.waits with hbuffering | ⟨⟨since, hstalled⟩, _⟩
  · rw [hbuffering]
    exact ⟨(prepares_prepare hbuffering now).2, htimed.prepare hbuffering now⟩
  · rw [hstalled]
    exact ⟨(course_recover (b := b.timed now) hstalled now).2, htimed.recover hstalled now⟩

end PacedStream.Buffer
