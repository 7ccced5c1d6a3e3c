import PacedStream.Proofs.Buffer.Coherence
import PacedStream.Proofs.Buffer.Upkeep

/-!
Blocks counted while packets flow. As long as no thresholds change, packets flow with enough blocks
counted until the first is located, and a stall comes behind a located block.
-/

namespace PacedStream.Buffer
set_option autoImplicit false

variable {b b' : Buffer} {now since : Int} {history : List Operation}

theorem blocks_of_hasBlock (hq : b.queue.Ordered) (hblock : b.clock.hasBlock = true) :
    b.recount.clock.blocks = min (1 + min b.settings.enough.toNat
      (b.queue.ahead.countP b.clock.isReference)) b.settings.enough.toNat := by
  have hblocks : b.recount.clock.blocks =
      min (1 + b.clock.blocksAhead b.queue b.settings.enough.toNat) b.settings.enough.toNat :=
    if_pos hblock
  rw [hblocks, Clock.blocksAhead_eq _ hq]

theorem blocks_of_no_block (hblock : b.clock.hasBlock = false) : b.recount.clock.blocks = 0 :=
  if_neg (by simp [hblock])

def resumed (b : Buffer) : Buffer :=
  { b.recount with flow := .running, clock := { b.recount.clock with credit := 0 } }

theorem recover_of_enough (now : Int) (hstalled : b.flow = .underflow since)
    (h : b.settings.low.toNat ≤ b.recount.clock.blocks) :
    (b.recover now).buffer = b.resumed ∧ (b.recover now).sent = #[] := by
  have hupdate : b.recount.updateFlow now = (.running, .resume (Instant.since now since)) := by
    have hflow : b.recount.flow = .underflow since := hstalled
    have hlow : b.recount.settings.low.toNat ≤ b.recount.clock.blocks := h
    simp only [updateFlow, hflow, Flow.update, hlow, if_true]
  unfold recover
  dsimp only
  rw [hupdate]
  exact ⟨rfl, rfl⟩

theorem recover_of_few (now : Int) (hstalled : b.flow = .underflow since)
    (h : b.recount.clock.blocks < b.settings.low.toNat) : (b.recover now).buffer =
      if Flow.maxStall < Instant.since now since then b.recount.dropAll else b.recount := by
  have hflow : b.recount.flow = .underflow since := hstalled
  have hlow : ¬ b.recount.settings.low.toNat ≤ b.recount.clock.blocks := Nat.not_le.mpr h
  have hdrop : { b.recount with flow := Flow.buffering }.dropAll = b.recount.dropAll := by
    simp [dropAll, hflow]
  have hhold : { b.recount with flow := Flow.underflow since } = b.recount := by
    rw [← hflow]
  unfold recover
  dsimp only
  by_cases hlong : Flow.maxStall < Instant.since now since
  · have hupdate : b.recount.updateFlow now = (.buffering, .reset) := by
      simp only [updateFlow, hflow, Flow.update, hlow, if_false, hlong, if_true]
    rw [hupdate, if_pos hlong]
    exact hdrop
  · have hupdate : b.recount.updateFlow now = (.underflow since, .hold) := by
      simp only [updateFlow, hflow, Flow.update, hlow, if_false, hlong]
    rw [hupdate, if_neg hlong]
    exact hhold

theorem tick_of_stalled (hstalled : b.flow = .underflow since) {microseconds : Nat}
    (htick : b.tick now = b.advance now microseconds) :
    (b.tick now).buffer = ((b.timed now).recover now).buffer ∧
      (b.tick now).sent = ((b.timed now).recover now).sent := by
  obtain ⟨asked, hadvance⟩ := advance_eq b now microseconds
  rw [htick, hadvance, hstalled]
  exact ⟨rfl, rfl⟩

/-- A block was located and counted, or the count is as it was. -/
def Counts (b b' : Buffer) : Prop :=
  (b'.clock.hasBlock = true ∧ 1 ≤ b'.clock.blocks) ∨
    (b'.clock.hasBlock = b.clock.hasBlock ∧ b'.clock.blocks = b.clock.blocks)

theorem Counts.trans {b'' : Buffer} (h : Counts b b') (h' : Counts b' b'') : Counts b b'' := by
  rcases h' with hnow | ⟨hblock', hblocks'⟩
  · exact .inl hnow
  · unfold Counts
    rw [hblock', hblocks']
    exact h

theorem Counts.pos (h : Counts b b') (hblocks : 1 ≤ b.clock.blocks) : 1 ≤ b'.clock.blocks := by
  rcases h with ⟨_, hnow⟩ | ⟨_, hsame⟩
  · exact hnow
  · rwa [hsame]

theorem clock_settle (b : Buffer) (now : Int) : (b.settle now).buffer.clock = b.recount.clock := by
  unfold settle
  dsimp only
  split <;> rfl

theorem counts_moment {m : Buffer} (hq : b.queue.Ordered) (henough : 1 ≤ b.settings.enough.toNat)
    (h : b.moment? now = some m) : Counts b m := by
  cases comesTo_of_moment h with
  | ahead => exact .inr ⟨rfl, rfl⟩
  | found _ found =>
    refine .inl ?_
    have hblock : (b.spend.withScan b.spend.sought).clock.hasBlock = true :=
      (times_sought (b := b.spend) hq found).hasBlock
    have hblocks := blocks_of_hasBlock (ordered_sought (b := b.spend) hq) hblock
    have hsame : (b.spend.withScan b.spend.sought).settings.enough.toNat =
        b.settings.enough.toNat := rfl
    have hone : 1 ≤ (b.spend.withScan b.spend.sought).recount.clock.blocks := by
      rw [hblocks, hsame]
      omega
    rw [clock_settle]
    exact ⟨hblock, hone⟩

theorem counts_pace (hq : b.queue.Ordered) (hrunning : b.flow = .running)
    (henough : 1 ≤ b.settings.enough.toNat) (now : Int) :
    (b.pace now).buffer.flow = .buffering ∨
      (b.pace now).buffer.flow = .running ∧ Counts b (b.pace now).buffer := by
  unfold pace
  split
  · exact .inr ⟨hrunning, .inr ⟨rfl, rfl⟩⟩
  · have hrounds := paceLoop_induct now
      (fun s => s.buffer.flow = .running ∧ s.buffer.queue.Ordered ∧
        s.buffer.settings = b.settings ∧ Counts b s.buffer)
      (fun s => s.buffer.flow = .buffering)
      (b.queue.length + 1) (s := { buffer := b }) ?_ (fun _ _ _ => rfl)
      ⟨hrunning, hq, rfl, .inr ⟨rfl, rfl⟩⟩
    · rcases hrounds with ⟨hrun, _, _, hcounts⟩ | hbuffering
      · exact .inr ⟨hrun, hcounts⟩
      · exact .inl hbuffering
    · intro s m log ⟨hrun, hordered, hsettings, hcounts⟩ hmoment
      obtain ⟨_, hordered', hrun', lead⟩ := course_moment hordered hrun hmoment
      have hnow := counts_moment hordered (hsettings ▸ henough) hmoment
      exact ⟨hrun', Queue.ordered_pop hordered' (hordered'.head_ne_tail lead),
        (fixed_moment hmoment).settings_eq.trans hsettings, hcounts.trans hnow⟩

theorem counts_tryStart (hbuffering : b.flow = .buffering) (now : Int) :
    (b.tryStart now).buffer.flow = .buffering ∨ (b.tryStart now).buffer.flow = .running ∧
      b.settings.enough.toNat ≤ (b.tryStart now).buffer.clock.blocks := by
  unfold tryStart
  dsimp only
  rw [updateFlow_recount hbuffering]
  by_cases henough : b.settings.enough.toNat ≤ b.recount.clock.blocks
  · rw [if_pos henough]
    exact .inr ⟨rfl, henough⟩
  · rw [if_neg henough]
    exact .inl rfl

theorem counts_prepare (hbuffering : b.flow = .buffering) (now : Int) :
    (b.prepare now).buffer.flow = .buffering ∨ (b.prepare now).buffer.flow = .running ∧
      b.settings.enough.toNat ≤ (b.prepare now).buffer.clock.blocks := by
  unfold prepare
  split
  · exact counts_tryStart hbuffering now
  · dsimp only
    split
    · exact counts_tryStart (b := b.withScan b.sought) hbuffering now
    · exact .inl hbuffering

/-- What a tick makes of the flow, and the blocks known where packets flow then. -/
inductive Turns (b : Buffer) (now : Int) (after : Buffer) : Prop where
  /-- No packets are there, they are not enough, or time jumped. -/
  | still (flow_eq : after.flow = .empty ∨ after.flow = .buffering)
  | skip (flow_eq : after.flow = b.flow) (clock_eq : after.clock = b.clock)
  | start (running : after.flow = .running)
      (enough : b.settings.enough.toNat ≤ after.clock.blocks)
  | keep (running : b.flow = .running) (flow_eq : after.flow = .running) (counts : Counts b after)
  | stall (running : b.flow = .running) (few : b.clock.blocks < b.settings.low.toNat)
      (flow_eq : after.flow = .underflow now) (clock_eq : after.clock = b.clock)
  | wait {since : Int} (stalled : b.flow = .underflow since) (flow_eq : after.flow = .underflow since)
      (hasBlock_eq : after.clock.hasBlock = b.clock.hasBlock)
  | resume {since : Int} (stalled : b.flow = .underflow since) (flow_eq : after.flow = .running)
      (back : b.settings.low.toNat ≤ after.clock.blocks)
      (hasBlock_eq : after.clock.hasBlock = b.clock.hasBlock)

theorem turns_play (hq : b.queue.Ordered) (hrunning : b.flow = .running)
    (henough : 1 ≤ b.settings.enough.toNat) (now : Int) (microseconds : Nat) :
    Turns b now ((b.timed now).play now microseconds).buffer := by
  by_cases hfew : b.clock.blocks < b.settings.low.toNat
  · rw [play_of_few (b := b.timed now) hrunning hfew]
    exact .stall hrunning hfew rfl rfl
  · rw [play_of_enough hrunning (Nat.le_of_not_lt hfew)]
    rcases counts_pace (b := b.credited now microseconds) hq hrunning henough now with
      hbuffering | ⟨hrun, hcounts⟩
    · exact .still (.inr hbuffering)
    · exact .keep hrunning hrun hcounts

theorem turns_recover (hstalled : b.flow = .underflow since) (now : Int) :
    Turns b now ((b.timed now).recover now).buffer := by
  have htimed : (b.timed now).flow = .underflow since := hstalled
  by_cases hback : b.settings.low.toNat ≤ (b.timed now).recount.clock.blocks
  · rw [(recover_of_enough now htimed hback).1]
    exact .resume hstalled rfl hback rfl
  · rw [recover_of_few now htimed (Nat.not_le.mp hback)]
    split
    · exact .still (still_dropAll _)
    · exact .wait hstalled hstalled rfl

theorem turns_tick (hq : b.queue.Ordered) (henough : 1 ≤ b.settings.enough.toNat) (now : Int) :
    Turns b now (b.tick now).buffer := by
  have hticks := ticks b now
  generalize b.tick now = s at hticks
  cases hticks with
  | jump => exact .still (still_dropAll b)
  | skip => exact .skip rfl rfl
  | @count microseconds =>
    obtain ⟨asked, hadvance⟩ := advance_eq b now microseconds
    rw [hadvance]
    cases hflow : b.flow with
    | empty => exact .still (.inl hflow)
    | buffering =>
      rcases counts_prepare (b := b.timed now) hflow now with hstill | ⟨hrun, hcounted⟩
      · exact .still (.inr hstill)
      · exact .start hrun hcounted
    | running => exact turns_play hq hflow henough now microseconds
    | underflow since => exact turns_recover hflow now

/-- While packets flow a block is counted, enough of them as long as none is located; and a stall
comes behind a located block. -/
structure Backed (b : Buffer) : Prop where
  counted : b.flow = .running → 1 ≤ b.clock.blocks
  enough : b.flow = .running → b.clock.hasBlock = false → b.settings.low.toNat ≤ b.clock.blocks
  stalled : ∀ since, b.flow = .underflow since → b.clock.hasBlock = true

theorem backed_of_still (h : b.flow = .empty ∨ b.flow = .buffering) : b.Backed := by
  constructor
  all_goals
    intros
    rcases h with h | h <;> simp_all

theorem backed_of_running (hrunning : b.flow = .running) (hcounted : 1 ≤ b.clock.blocks)
    (henough : b.clock.hasBlock = false → b.settings.low.toNat ≤ b.clock.blocks) : b.Backed :=
  ⟨fun _ => hcounted, fun _ => henough, by simp [hrunning]⟩

theorem backed_of_stalled (hstalled : b.flow = .underflow since)
    (hblock : b.clock.hasBlock = true) : b.Backed :=
  ⟨by simp [hstalled], by simp [hstalled], fun _ _ => hblock⟩

theorem Backed.congr (h : b.Backed) (settings_eq : b'.settings.low = b.settings.low)
    (clock_eq : b'.clock = b.clock) (flow_eq : b'.flow = b.flow) : b'.Backed := by
  constructor
  · rw [flow_eq, clock_eq]
    exact h.counted
  · rw [flow_eq, clock_eq, settings_eq]
    exact h.enough
  · rw [flow_eq, clock_eq]
    exact h.stalled

theorem backed_tick (hq : b.queue.Ordered) (hc : b.Consistent) (h : b.Backed) (now : Int) :
    (b.tick now).buffer.Backed := by
  have hlow := hc.low_pos
  have hle := hc.low_le
  have hsettings := (fixed_tick b now).settings_eq
  have hturns := turns_tick hq (Nat.le_trans hlow hle) now
  generalize (b.tick now).buffer = after at hsettings hturns
  cases hturns with
  | still hstill => exact backed_of_still hstill
  | skip flow_eq clock_eq => exact h.congr (by rw [hsettings]) clock_eq flow_eq
  | start hrun henough =>
    refine backed_of_running hrun (Nat.le_trans (Nat.le_trans hlow hle) henough) fun _ => ?_
    rw [hsettings]
    exact Nat.le_trans hle henough
  | keep hrunning hrun hcounts =>
    refine backed_of_running hrun (hcounts.pos (h.counted hrunning)) fun hnone => ?_
    rcases hcounts with ⟨hblock, _⟩ | ⟨hblock, hblocks⟩
    · rw [hnone] at hblock
      cases hblock
    · rw [hblocks, hsettings]
      exact h.enough hrunning (hblock ▸ hnone)
  | stall hrunning hfew hstall clock_eq =>
    refine backed_of_stalled hstall ?_
    rw [clock_eq]
    -- Without a block enough are counted, so this stall comes behind one.
    cases hblock : b.clock.hasBlock with
    | true => rfl
    | false => exact absurd hfew (Nat.not_lt.mpr (h.enough hrunning hblock))
  | wait hstalled hwait hblock =>
    exact backed_of_stalled hwait (hblock.trans (h.stalled _ hstalled))
  | resume hstalled hrun hback hblock =>
    refine backed_of_running hrun (Nat.le_trans hlow hback) fun hnone => ?_
    rw [hblock, h.stalled _ hstalled] at hnone
    cases hnone

def Operation.rethresholds : Operation → Bool
  | .setThresholds _ _ | .setOptions _ => true
  | _ => false

theorem stalled_of_offer {burst : List Packet} (h : (b.offer burst).buffer.flow = .underflow since) :
    b.flow = .underflow since := by
  have hfeed : b.flow.feed = .underflow since → b.flow = .underflow since := by
    cases b.flow <;> simp [Flow.feed]
  unfold offer at h
  dsimp only at h
  split at h
  · exact h
  · split at h <;> exact hfeed h

theorem backed_apply (hq : b.queue.Ordered) (hc : b.Consistent) (h : b.Backed) {op : Operation}
    (hop : op.rethresholds = false) : (b.apply op).buffer.Backed := by
  have hoffer : ∀ burst : List Packet, (b.offer burst).buffer.Backed := by
    intro burst
    obtain ⟨hclock, hrunning⟩ := keeps_offer b burst
    have hsettings := (fixed_offer b burst).settings_eq
    constructor
    · intro hrun
      rw [hclock]
      exact h.counted (hrunning hrun)
    · intro hrun hnone
      rw [hclock] at hnone ⊢
      rw [hsettings]
      exact h.enough (hrunning hrun) hnone
    · intro since hstalled
      rw [hclock]
      exact h.stalled since (stalled_of_offer hstalled)
  have hadopt : ∀ settings : Settings, settings.low = b.settings.low →
      (b.adopt settings).buffer.Backed := by
    intro settings hsame
    obtain ⟨hclock, hflow⟩ := (takesOver_adopt b settings).keeps
    refine h.congr ?_ hclock hflow
    rw [(takesOver_adopt b settings).settings_eq]
    exact hsame
  cases op with
  | push burst =>
    have hbuffer : (b.apply (.push burst)).buffer = (b.offer burst).buffer := buffer_push
    rw [hbuffer]
    exact hoffer burst
  | offer burst => exact hoffer burst
  | pushBytes bytes =>
    have hbuffer : (b.apply (.pushBytes bytes)).buffer =
        (b.offer (Packet.frame .empty bytes).packets.toList).buffer := buffer_pushBytes bytes
    rw [hbuffer]
    exact hoffer _
  | tick now => exact backed_tick hq hc h now
  | reset => exact backed_of_still (still_dropAll b)
  | setThresholds | setOptions => cases hop
  | setMaxSize megabytes =>
    unfold apply setMaxSize
    dsimp only
    split
    · exact h
    · exact hadopt _ rfl
  | setName name => exact h.congr rfl rfl rfl
  | setPid pid? =>
    unfold apply setPid
    dsimp only
    split
    · exact h
    · split
      · rename_i hunfed
        exact backed_of_still (.inl hunfed)
      · exact backed_of_still (.inr rfl)
  | setDelivers on | setAsks on => exact h.congr rfl rfl rfl

theorem Backed.run (h : b.Backed) (hq : b.queue.Ordered) (hc : b.Consistent)
    (hops : ∀ op ∈ history, op.rethresholds = false) : (b.run history).Backed := by
  induction history generalizing b with
  | nil => exact h
  | cons op rest ih =>
    exact ih (backed_apply hq hc h (hops op List.mem_cons_self)) (ordered_apply hq op)
      (consistent_apply hc op) fun op' hop' => hops op' (List.mem_cons_of_mem _ hop')

end PacedStream.Buffer
