import Mathlib.Data.List.Induction
import PacedStream.Proofs.Buffer.Recovery

/-!
When input is asked for. Blocks are counted when one is located and while nothing flows, and the
count then stands until the next block is located, whatever is pushed meanwhile. Main statement: a
tick asks exactly if fewer than enough blocks were counted last, and what could be counted now are
the readings queued at that time and those accepted since.
-/

namespace PacedStream.Buffer
set_option autoImplicit false

variable {b b' b'' : Buffer} {now : Int} {taken taken' burst : List Packet}
  {history : List Operation}

/-- If a block is located, the blocks counted are those queued. -/
def Fresh (b : Buffer) : Prop :=
  b.clock.hasBlock = true → b.clock.blocks = b.recount.clock.blocks

/-- The count stands, and the packets taken since are queued behind those it was made of. -/
structure Stands (b : Buffer) (taken : List Packet) (b' : Buffer) : Prop where
  opening_eq : b'.clock.opening? = b.clock.opening?
  reference_eq : b'.clock.reference? = b.clock.reference?
  blocks_eq : b'.clock.blocks = b.clock.blocks
  ahead_eq : b'.queue.ahead = b.queue.ahead ++ taken

theorem Stands.of_eq (clock_eq : b'.clock = b.clock) (ahead_eq : b'.queue.ahead = b.queue.ahead) :
    Stands b [] b' :=
  ⟨by rw [clock_eq], by rw [clock_eq], by rw [clock_eq], by rw [ahead_eq, List.append_nil]⟩

theorem Stands.refl (b : Buffer) : Stands b [] b := .of_eq rfl rfl

theorem Stands.trans (h : Stands b taken b') (h' : Stands b' taken' b'') :
    Stands b (taken ++ taken') b'' :=
  ⟨h'.opening_eq.trans h.opening_eq, h'.reference_eq.trans h.reference_eq,
    h'.blocks_eq.trans h.blocks_eq, by rw [h'.ahead_eq, h.ahead_eq, List.append_assoc]⟩

theorem Stands.hasBlock_eq (h : Stands b taken b') : b'.clock.hasBlock = b.clock.hasBlock :=
  congrArg Option.isSome h.opening_eq

theorem Stands.isReference_eq (h : Stands b taken b') :
    b'.clock.isReference = b.clock.isReference :=
  funext fun _ => Clock.isReference_congr h.reference_eq

theorem blocks_recount (hq : b.queue.Ordered) (hblock : b.clock.hasBlock = true) :
    b.recount.clock.blocks =
      min (1 + b.queue.ahead.countP b.clock.isReference) b.settings.enough.toNat := by
  rw [blocks_of_hasBlock hq hblock]
  omega

theorem fresh_of_no_block (hopening : b.clock.opening? = none) : b.Fresh := by
  intro hblock
  simp [Clock.hasBlock, hopening] at hblock

theorem fresh_recount (hq : b.queue.Ordered) : b.recount.Fresh := by
  intro hblock
  have hblock' : b.clock.hasBlock = true := hblock
  have hagain : b.recount.recount.clock.blocks =
      min (1 + b.queue.ahead.countP b.clock.isReference) b.settings.enough.toNat :=
    blocks_recount (b := b.recount) hq hblock
  rw [hagain]
  exact blocks_recount hq hblock'

theorem Fresh.stands (h : b.Fresh) (hq : b.queue.Ordered) (hq' : b'.queue.Ordered)
    (hstands : Stands b [] b') (settings_eq : b'.settings = b.settings) : b'.Fresh := by
  intro hblock'
  have hblock : b.clock.hasBlock = true := hstands.hasBlock_eq ▸ hblock'
  rw [hstands.blocks_eq, h hblock, blocks_recount hq hblock, blocks_recount hq' hblock',
    hstands.ahead_eq, hstands.isReference_eq, settings_eq, List.append_nil]

theorem stands_spend (b : Buffer) : Stands b [] b.spend :=
  ⟨rfl, rfl, rfl, (List.append_nil _).symm⟩

theorem fresh_settle (hq : b.queue.Ordered) (now : Int) : (b.settle now).buffer.Fresh := by
  obtain ⟨hq', _, hahead⟩ : (b.settle now).buffer.queue.Ordered ∧ _ := lists_settle hq
  have hsettings := (fixed_settle b now).settings_eq
  refine (fresh_recount hq).stands hq hq' (.of_eq ?_ ?_) hsettings
  · exact clock_settle b now
  · exact hahead

theorem fresh_or_stands_moment {m : Buffer} (hq : b.queue.Ordered) (h : b.moment? now = some m) :
    m.Fresh ∨ Stands b [] m := by
  cases comesTo_of_moment h with
  | ahead => exact .inr (stands_spend b)
  | found => exact .inl (fresh_settle (ordered_sought (b := b.spend) hq) now)

theorem stands_sendOff (lead : b.queue.head ≠ b.queue.mark) : Stands b [] b.sendOff :=
  .of_eq rfl (Queue.ahead_pop lead)

theorem fresh_or_stands_pace (hq : b.queue.Ordered) (hrunning : b.flow = .running) (now : Int) :
    (b.pace now).buffer.Fresh ∨ Stands b [] (b.pace now).buffer := by
  unfold pace
  split
  · exact .inr (.refl b)
  · have hrounds := paceLoop_induct now
      (fun s => (s.buffer.queue.Ordered ∧ s.buffer.flow = .running) ∧
        (s.buffer.Fresh ∨ Stands b [] s.buffer))
      (fun s => s.buffer.Fresh) (b.queue.length + 1) (s := { buffer := b }) ?_ ?_
      ⟨⟨hq, hrunning⟩, .inr (.refl b)⟩
    · rcases hrounds with ⟨_, hcount⟩ | hlost
      · exact hcount
      · exact .inl hlost
    · intro s m log ⟨⟨hordered, hrun⟩, hcount⟩ hmoment
      obtain ⟨_, hordered', hrun', lead⟩ := course_moment hordered hrun hmoment
      have hsettings := (fixed_moment hmoment).settings_eq
      have hq' := Queue.ordered_pop hordered' (hordered'.head_ne_tail lead)
      have hoff := stands_sendOff lead
      refine ⟨⟨hq', hrun'⟩, ?_⟩
      change m.sendOff.Fresh ∨ Stands b [] m.sendOff
      rcases fresh_or_stands_moment hordered hmoment with hfresh | hstands
      · exact .inl (hfresh.stands hordered' hq' hoff rfl)
      · rcases hcount with hfresh | hbefore
        · exact .inl ((hfresh.stands hordered hordered' hstands hsettings).stands hordered' hq'
            hoff rfl)
        · exact .inr ((hbefore.trans hstands).trans hoff)
    · exact fun _ _ _ => fresh_of_no_block rfl

theorem fresh_tryStart (hq : b.queue.Ordered) (hbuffering : b.flow = .buffering) (now : Int) :
    (b.tryStart now).buffer.Fresh := by
  unfold tryStart
  dsimp only
  rw [updateFlow_recount hbuffering]
  by_cases henough : b.settings.enough.toNat ≤ b.recount.clock.blocks
  · rw [if_pos henough]
    exact fresh_of_no_block rfl
  · rw [if_neg henough]
    exact fresh_recount hq

theorem fresh_prepare (hc : b.Coherent) (hbuffering : b.flow = .buffering) (now : Int) :
    (b.prepare now).buffer.Fresh := by
  unfold prepare
  split
  · exact fresh_tryStart hc.ordered hbuffering now
  · rename_i hblock
    have hnone := opening?_of_hasBlock (Bool.eq_false_iff.mpr hblock)
    dsimp only
    split
    · exact fresh_tryStart (b := b.withScan b.sought) (ordered_sought hc.ordered) hbuffering now
    · rename_i hlost
      -- A scan that locates nothing leaves the clock without a block.
      have hat := b.clock.seek_at hc.ordered
      have hwalk := Clock.tracks_walk (hc.tracks hbuffering) hnone b.queue.ahead
      obtain ⟨_, hopening, _⟩ := hwalk.1 (hat.found_eq ▸ Bool.eq_false_iff.mpr hlost)
      rw [← hat.clock_eq] at hopening
      exact fresh_of_no_block hopening

theorem fresh_recover {since : Int} (hq : b.queue.Ordered) (hstalled : b.flow = .underflow since)
    (now : Int) : (b.recover now).buffer.Fresh := by
  by_cases hback : b.settings.low.toNat ≤ b.recount.clock.blocks
  · rw [(recover_of_enough now hstalled hback).1]
    exact (fresh_recount hq).stands hq hq ⟨rfl, rfl, rfl, (List.append_nil _).symm⟩ rfl
  · rw [recover_of_few now hstalled (Nat.not_le.mp hback)]
    split
    · exact fresh_of_no_block rfl
    · exact fresh_recount hq

theorem fresh_or_stands_play (hq : b.queue.Ordered) (hrunning : b.flow = .running) (now : Int)
    (microseconds : Nat) : ((b.timed now).play now microseconds).buffer.Fresh ∨
      Stands b [] ((b.timed now).play now microseconds).buffer := by
  by_cases henough : b.settings.low.toNat ≤ b.clock.blocks
  · have hcredit : Stands b [] (b.credited now microseconds) :=
      ⟨rfl, rfl, rfl, (List.append_nil _).symm⟩
    rw [play_of_enough hrunning henough]
    exact (fresh_or_stands_pace (b := b.credited now microseconds) hq hrunning now).imp id
      hcredit.trans
  · rw [play_of_few (b := b.timed now) hrunning (Nat.not_le.mp henough)]
    exact .inr (.of_eq rfl rfl)

theorem fresh_or_stands_tick (hc : b.Coherent) (now : Int) :
    (b.tick now).buffer.Fresh ∨ Stands b [] (b.tick now).buffer := by
  have hticks := ticks b now
  generalize b.tick now = s at hticks
  cases hticks with
  | jump => exact .inl (fresh_of_no_block rfl)
  | skip => exact .inr (.of_eq rfl rfl)
  | @count microseconds =>
    have htimed : (b.timed now).Coherent := coherent_move (move_timed b now) hc
    obtain ⟨asked, hadvance⟩ := advance_eq b now microseconds
    rw [hadvance]
    cases hflow : b.flow with
    | empty => exact .inr (.of_eq rfl rfl)
    | buffering => exact .inl (fresh_prepare htimed hflow now)
    | running => exact fresh_or_stands_play hc.ordered hflow now microseconds
    | underflow since => exact .inl (fresh_recover (b := b.timed now) hc.ordered hflow now)

theorem stands_offer (hq : b.queue.Ordered) (burst : List Packet) :
    Stands b ((b.taking burst).flatMap Event.accepted) (b.offer burst).buffer := by
  obtain ⟨hgrown, _, hahead⟩ := Sizing.lists_makeRoom hq b.sizing burst.length
  rw [accepted_taking]
  by_cases hne : burst = []
  · subst hne
    rw [ite_self]
    exact .refl b
  · have hempty : ¬ burst.isEmpty = true := by simpa using hne
    rw [accepted_offer hne]
    unfold offer
    rw [if_neg hempty]
    dsimp only
    by_cases henough : (b.sizing.makeRoom b.queue burst.length).enough = true
    · have hpush : (b.sizing.makeRoom b.queue burst.length).queue.push? burst =
          some (burst.foldl Queue.write (b.sizing.makeRoom b.queue burst.length).queue) :=
        if_pos (Sizing.le_room_of_enough _ _ _ henough)
      have hpushed := Queue.pushed_of_push? hgrown hpush
      rw [if_pos henough, if_pos henough, hpush]
      exact ⟨rfl, rfl, rfl, hpushed.ahead_eq.trans (by rw [hahead])⟩
    · rw [if_neg henough, if_neg henough]
      exact .of_eq rfl hahead

theorem TakesOver.stands {settings : Settings} {s : Step} (hq : b.queue.Ordered)
    (h : TakesOver b settings s) : Stands b [] s.buffer := by
  cases h with
  | stays => exact .of_eq rfl rfl
  | moves _ hresize => exact .of_eq rfl (Queue.resized_of_resize? hq hresize).ahead_eq

theorem fresh_or_stands_untimed {es : List Event} {s : Step} (hc : b.Coherent)
    (h : Untimed b es s) : s.buffer.Fresh ∨ Stands b (es.flatMap Event.accepted) s.buffer := by
  cases h with
  | offer burst buffer_eq =>
    rw [buffer_eq]
    exact .inr (stands_offer hc.ordered burst)
  | reset => exact .inl (fresh_of_no_block rfl)
  | adopt settings => exact .inr ((takesOver_adopt b settings).stands hc.ordered)
  | adjust queue_eq clock_eq => exact .inr (.of_eq clock_eq (congrArg Queue.ahead queue_eq))
  | pin _ unfed => exact .inl (fresh_of_no_block (hc.unfed unfed).1)
  | repin => exact .inl (fresh_of_no_block rfl)
  | connect => exact .inr (.of_eq rfl rfl)

theorem fresh_or_stands_apply (hc : b.Coherent) (op : Operation) : (b.apply op).buffer.Fresh ∨
    Stands b (if (b.apply op).accepted then op.burst else []) (b.apply op).buffer := by
  rcases op.tick_or_not with ⟨now, rfl⟩ | hop
  · have hnone : (if (b.apply (.tick now)).accepted then (Operation.tick now).burst else []) = [] :=
      ite_self _
    rw [hnone]
    exact fresh_or_stands_tick hc now
  · rw [← accepted_events]
    exact fresh_or_stands_untimed hc (untimed_apply hop)

/-- Since some moment at which the count was fresh it stands, and all that was accepted since is
queued. -/
theorem fresh_before (hc : b.Coherent) (hfresh : b.Fresh) (history : List Operation) :
    ∃ before after, history = before ++ after ∧ (b.run before).Fresh ∧
      Stands (b.run before) ((b.run before).accepted after) (b.run history) := by
  induction history using List.reverseRecOn with
  | nil => exact ⟨[], [], rfl, hfresh, .refl b⟩
  | append_singleton history op ih =>
    obtain ⟨before, after, hsplit, hbefore, hstands⟩ := ih
    have hlast : b.run (history ++ [op]) = ((b.run history).apply op).buffer := run_append _ _ _
    rcases fresh_or_stands_apply (hc.run history) op with hnow | hstands'
    · exact ⟨history ++ [op], [], (List.append_nil _).symm, hlast ▸ hnow, .refl _⟩
    · refine ⟨before, after ++ [op], by rw [hsplit, List.append_assoc], hbefore, ?_⟩
      have hrun : (b.run before).run after = b.run history := by rw [hsplit, run_append]
      rw [accepted_concat, hrun, hlast]
      exact hstands.trans hstands'

theorem asked_iff (b : Buffer) (now : Int) : (b.tick now).asked = true ↔ b.asks = true ∧
    (b.counted? now).isSome = true ∧ b.clock.blocks < b.settings.enough.toNat := by
  have hticks := ticks b now
  generalize b.tick now = s at hticks
  cases hticks with
  | jump elapsed? jumps => simp [jump, counted?_of_jumps jumps]
  | skip _ _ uncounted => simp [uncounted]
  | count _ counted => simp [advance, counted]

/-- The blocks known in a buffer, against those that a count would find now. -/
structure Tallied (earlier : Buffer) (since : List Packet) (b : Buffer) : Prop where
  known : b.clock.blocks = min (1 + earlier.queue.ahead.countP b.clock.isReference)
    earlier.settings.enough.toNat
  queued : b.recount.clock.blocks = min (1 + earlier.queue.ahead.countP b.clock.isReference +
    since.countP b.clock.isReference) b.settings.enough.toNat
  /-- Enough blocks go unnoticed only if readings came or the threshold was raised since. -/
  unnoticed : b.clock.blocks < b.settings.enough.toNat →
    b.settings.enough.toNat ≤ b.recount.clock.blocks →
      (∃ p ∈ since, b.clock.isReference p = true) ∨
        earlier.settings.enough.toNat < b.settings.enough.toNat

theorem Fresh.tallied (h : b.Fresh) (hq : b.queue.Ordered) (hq' : b'.queue.Ordered)
    (hstands : Stands b taken b') (hblock' : b'.clock.hasBlock = true) : Tallied b taken b' := by
  have hblock : b.clock.hasBlock = true := hstands.hasBlock_eq ▸ hblock'
  have hknown : b'.clock.blocks =
      min (1 + b.queue.ahead.countP b'.clock.isReference) b.settings.enough.toNat := by
    rw [hstands.blocks_eq, h hblock, blocks_recount hq hblock, hstands.isReference_eq]
  have hqueued : b'.recount.clock.blocks = min (1 + b.queue.ahead.countP b'.clock.isReference +
      taken.countP b'.clock.isReference) b'.settings.enough.toNat := by
    rw [blocks_recount hq' hblock', hstands.ahead_eq, List.countP_append, Nat.add_assoc]
  refine ⟨hknown, hqueued, fun hfew henough => ?_⟩
  rw [hknown] at hfew
  rw [hqueued] at henough
  by_cases hraised : b.settings.enough.toNat < b'.settings.enough.toNat
  · exact .inr hraised
  · have hcame : 0 < taken.countP b'.clock.isReference := by omega
    exact .inl (List.countP_pos_iff.mp hcame)

theorem asks_by_last_count (settings : Settings) (history : List Operation) (now : Int) :
    let start := (create settings).buffer
    let b := start.run history
    ((b.tick now).asked = true ↔ b.asks = true ∧ (b.counted? now).isSome = true ∧
      b.clock.blocks < b.settings.enough.toNat) ∧
    (b.clock.hasBlock = false ∧ b.recount.clock.blocks = 0 ∨
      ∃ before after, history = before ++ after ∧
        Tallied (start.run before) ((start.run before).accepted after) b) := by
  intro start b
  have hc : start.Coherent := coherent_create settings
  refine ⟨asked_iff b now, ?_⟩
  cases hblock : b.clock.hasBlock with
  | false => exact .inl ⟨rfl, blocks_of_no_block hblock⟩
  | true =>
    have hnone : start.Fresh := fresh_of_no_block rfl
    obtain ⟨before, after, hsplit, hfresh, hstands⟩ := fresh_before hc hnone history
    exact .inr ⟨before, after, hsplit,
      hfresh.tallied (hc.run before).ordered (hc.run history).ordered hstands hblock⟩

/-- A reading on every fourth packet, with a millisecond of the clock for each packet. -/
def fourths (count : Nat) : List Packet :=
  (List.range count).map fun k => Packet.Draft.packet
    { pid := 256, clock? := if k % 4 = 0 then some (UInt64.ofNat (k * 27000)) else none }

/-- One block was counted as the scan came to the end of nine packets. Two more are pushed in the
middle of it, so that three are queued where two are enough, and input is asked for all the same. -/
theorem asks_beyond_enough :
    let history := [.setAsks true, .push (fourths 9), .tick 0, .tick 1000000, .tick 2000000,
      .tick 3000000, .tick 4000000, .tick 5000000, .tick 6000000, .tick 7000000,
      .push ((fourths 17).drop 9)]
    let b := (create { enough := 2, low := 1 }).buffer.run history
    (b.tick 8000000).asked = true ∧ b.settings.enough.toNat ≤ b.recount.clock.blocks := by
  decide +kernel

end PacedStream.Buffer
