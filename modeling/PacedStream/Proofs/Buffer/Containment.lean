import PacedStream.Proofs.Buffer.Backed
import PacedStream.Proofs.Buffer.Lossless
import PacedStream.Proofs.Buffer.Trailing

/-!
What a discontinuity takes away. Packets that break the clock are met in the scans of a tick, and
each takes what is queued in front of it. Main statement: that is no more than what lies behind the
reading in front of the break, unless the scan went back to the front with a lock while buffering.
-/

namespace PacedStream.Buffer
set_option autoImplicit false

variable {b : Buffer} {now : Int} {items : List Packet}

def meets (b : Buffer) : List Scan := (b.scan.visits b.queue.unscanned).filter Scan.breaks

/-- The buffer that a round scans, if it has no lead. -/
def search (b : Buffer) : List Buffer :=
  if b.spend.queue.head = b.spend.queue.mark then [b.spend] else []

theorem search_of_lead (lead : b.queue.head ≠ b.queue.mark) : b.search = [] := if_neg lead

theorem search_of_noLead (noLead : b.queue.head = b.queue.mark) : b.search = [b.spend] :=
  if_pos noLead

def searches (now : Int) : Nat → Buffer → List Buffer
  | 0, _ => []
  | n + 1, b =>
    if b.clock.quantum ≤ b.clock.credit then
      b.search ++ match b.moment? now with
        | none => []
        | some m => searches now n m.sendOff
    else []

/-- The buffers that an operation scans: only a tick that counts does, to find a block while
buffering, and at the end of each block while packets flow. -/
def seeks (b : Buffer) : Operation → List Buffer
  | .tick now =>
    match b.counted? now with
    | none => []
    | some microseconds =>
      match b.flow with
      | .buffering => if b.clock.hasBlock then [] else [b.timed now]
      | .running =>
        if b.settings.low.toNat ≤ b.clock.blocks ∧ ¬ b.clock.quantum ≤ 0 then
          searches now (b.queue.length + 1) (b.credited now microseconds)
        else []
      | .empty | .underflow _ => []
  | _ => []

theorem breaks_sought (b : Buffer) : b.sought.clock.breaks = b.clock.breaks + b.meets.length := by
  rw [meets, ← List.countP_eq_length_filter]
  exact Scan.breaks_run b.queue.unscanned b.scan

theorem breaks_moment {m : Buffer} (h : b.moment? now = some m) :
    m.clock.breaks = b.clock.breaks + (b.search.flatMap meets).length := by
  cases comesTo_of_moment h with
  | ahead lead =>
    rw [search_of_lead lead]
    rfl
  | found noLead =>
    rw [search_of_noLead noLead, List.flatMap_singleton, clock_settle]
    exact breaks_sought b.spend

theorem breaks_lost (h : b.moment? now = none) :
    b.spend.sought.clock.breaks = b.clock.breaks + (b.search.flatMap meets).length := by
  rw [search_of_noLead (lost_of_moment h).1, List.flatMap_singleton]
  exact breaks_sought b.spend

theorem breaks_paceLoop (now : Int) (n : Nat) (s : Step) :
    (paceLoop now n s).buffer.clock.breaks =
      s.buffer.clock.breaks + ((searches now n s.buffer).flatMap meets).length := by
  induction n generalizing s with
  | zero => rfl
  | succ n ih =>
    unfold paceLoop searches
    split
    · rw [List.flatMap_append, List.length_append, ← Nat.add_assoc]
      cases hmoment : s.buffer.moment? now with
      | none =>
        obtain ⟨log, honce⟩ := paceOnce_of_lost hmoment
        rw [honce, ← breaks_lost hmoment]
        rfl
      | some m =>
        obtain ⟨log, honce⟩ := paceOnce_of_moment hmoment
        rw [honce, ← breaks_moment hmoment]
        exact ih _
    · rfl

theorem breaks_tryStart (b : Buffer) (now : Int) :
    (b.tryStart now).buffer.clock.breaks = b.clock.breaks := by
  unfold tryStart
  dsimp only
  split <;> rfl

theorem breaks_prepare (hbuffering : b.flow = .buffering) {microseconds : Nat}
    (hcounted : b.counted? now = some microseconds) :
    ((b.timed now).prepare now).buffer.clock.breaks =
      b.clock.breaks + ((b.seeks (.tick now)).flatMap meets).length := by
  have hseeks : b.seeks (.tick now) = if b.clock.hasBlock then [] else [b.timed now] := by
    simp only [seeks, hcounted, hbuffering]
  have hblock : (b.timed now).clock.hasBlock = b.clock.hasBlock := rfl
  rw [hseeks]
  unfold prepare
  rw [hblock]
  split
  · exact breaks_tryStart (b.timed now) now
  · have hsought := breaks_sought (b.timed now)
    rw [List.flatMap_singleton]
    dsimp only
    split
    · exact (breaks_tryStart _ now).trans hsought
    · exact hsought

theorem breaks_play (hrunning : b.flow = .running) {microseconds : Nat}
    (hcounted : b.counted? now = some microseconds) :
    ((b.timed now).play now microseconds).buffer.clock.breaks =
      b.clock.breaks + ((b.seeks (.tick now)).flatMap meets).length := by
  have hseeks : b.seeks (.tick now) =
      if b.settings.low.toNat ≤ b.clock.blocks ∧ ¬ b.clock.quantum ≤ 0 then
        searches now (b.queue.length + 1) (b.credited now microseconds)
      else [] := by
    simp only [seeks, hcounted, hrunning]
  rw [hseeks]
  by_cases henough : b.settings.low.toNat ≤ b.clock.blocks
  · rw [play_of_enough hrunning henough]
    have hquantum : (b.credited now microseconds).clock.quantum = b.clock.quantum := rfl
    unfold pace
    rw [hquantum]
    by_cases hzero : b.clock.quantum ≤ 0
    · rw [if_pos hzero, if_neg fun h => h.2 hzero]
      rfl
    · rw [if_neg hzero, if_pos ⟨henough, hzero⟩]
      exact breaks_paceLoop now _ { buffer := b.credited now microseconds }
  · rw [play_of_few (b := b.timed now) hrunning (Nat.not_le.mp henough),
      if_neg fun h => henough h.1]
    rfl

theorem breaks_recover {since : Int} (hstalled : b.flow = .underflow since) {microseconds : Nat}
    (hcounted : b.counted? now = some microseconds) :
    ((b.timed now).recover now).buffer.clock.breaks =
      if b.givesUp now then 0 else b.clock.breaks := by
  have hgives : b.givesUp now = (b.recount.clock.blocks < b.settings.low.toNat &&
      Flow.maxStall < Instant.since now since) := by
    simp [givesUp, hstalled, hcounted]
  rw [hgives]
  by_cases hback : b.settings.low.toNat ≤ b.recount.clock.blocks
  · rw [(recover_of_enough (b := b.timed now) now hstalled hback).1]
    simp only [Nat.not_lt.mpr hback, decide_false, Bool.false_and]
    rfl
  · have hfew : b.recount.clock.blocks < b.settings.low.toNat := Nat.not_le.mp hback
    rw [recover_of_few (b := b.timed now) now hstalled hfew]
    simp only [hfew, decide_true, Bool.true_and, decide_eq_true_iff]
    split <;> rfl

theorem breaks_advance {microseconds : Nat} (hcounted : b.counted? now = some microseconds) :
    (b.advance now microseconds).buffer.clock.breaks =
      if b.givesUp now then 0
      else b.clock.breaks + ((b.seeks (.tick now)).flatMap meets).length := by
  obtain ⟨asked, hadvance⟩ := advance_eq b now microseconds
  rw [hadvance]
  cases hflow : b.flow with
  | empty =>
    have hnone : b.seeks (.tick now) = [] := by simp only [seeks, hcounted, hflow]
    have hstays : b.givesUp now = false := by simp only [givesUp, hflow]
    rw [hnone, hstays]
    rfl
  | buffering =>
    have hstays : b.givesUp now = false := by simp only [givesUp, hflow]
    rw [hstays]
    exact breaks_prepare hflow hcounted
  | running =>
    have hstays : b.givesUp now = false := by simp only [givesUp, hflow]
    rw [hstays]
    exact breaks_play hflow hcounted
  | underflow since =>
    have hnone : b.seeks (.tick now) = [] := by simp only [seeks, hcounted, hflow]
    rw [hnone]
    exact breaks_recover hflow hcounted

theorem breaks_tick (b : Buffer) (now : Int) : (b.tick now).buffer.clock.breaks =
    if b.jumps now || b.givesUp now then 0
    else b.clock.breaks + ((b.seeks (.tick now)).flatMap meets).length := by
  have hticks := ticks b now
  generalize b.tick now = s at hticks
  cases hticks with
  | jump _ jumps =>
    rw [jumps]
    rfl
  | skip _ steady uncounted =>
    have hstays : b.givesUp now = false := by
      unfold givesUp
      split <;> simp [uncounted]
    have hnone : b.seeks (.tick now) = [] := by simp only [seeks, uncounted]
    rw [steady, hstays, hnone]
    rfl
  | count steady counted =>
    rw [steady, Bool.false_or]
    exact breaks_advance counted

theorem isEmptied_sent (moments : List Buffer) :
    (moments.map Event.sent).any Event.isEmptied = false := by
  rw [List.any_map]
  exact List.any_eq_false.mpr fun _ _ => nofun

theorem breaks_apply (b : Buffer) (op : Operation) : (b.apply op).buffer.clock.breaks =
    if (b.events op).any Event.isEmptied then 0
    else b.clock.breaks + ((b.seeks op).flatMap meets).length := by
  rcases op.tick_or_not with ⟨now, rfl⟩ | hop
  · have hemptied : (b.events (.tick now)).any Event.isEmptied = (b.jumps now || b.givesUp now) := by
      have hevents : b.events (.tick now) =
        if b.jumps now || b.givesUp now then [.emptied] else (b.departures now).map .sent := rfl
      rw [hevents]
      cases b.jumps now || b.givesUp now with
      | true => rfl
      | false => exact isEmptied_sent _
    rw [hemptied]
    exact breaks_tick b now
  · have hnone : b.seeks op = [] := by
      cases op with
      | tick now => exact absurd rfl (hop now)
      | _ => rfl
    have huntimed := untimed_apply (b := b) hop
    rw [hnone]
    generalize b.events op = es at huntimed ⊢
    generalize b.apply op = s at huntimed ⊢
    cases huntimed with
    | offer burst buffer_eq =>
      have htaken : (b.taking burst).any Event.isEmptied = false := by
        unfold taking
        split <;> rfl
      rw [buffer_eq, (keeps_offer b burst).1, htaken]
      rfl
    | adopt settings =>
      rw [(takesOver_adopt b settings).keeps.1]
      rfl
    | adjust _ clock_eq =>
      rw [clock_eq]
      rfl
    | reset | pin | repin | connect => rfl

/-- Every break that the next scan meets takes away no more than what lies behind the reading that
the clock measures from, except with a lock while buffering. -/
def Contains (b : Buffer) (items : List Packet) : Prop :=
  ∀ s ∈ b.meets, ∃ first j, s.Removes items first j ∧
    (j ≤ first ∨ b.flow = .buffering ∧ b.clock.locked = true)

theorem contains_of_scan (hq : b.queue.Ordered)
    (h : b.scan.Contained (b.flow = .buffering ∧ b.clock.locked = true) items) :
    b.Contains items := by
  intro s hs
  obtain ⟨hvisit, hbreaks⟩ := List.mem_filter.mp hs
  exact h.visits hq s hvisit hbreaks

theorem contains_of_buffering (h : b.Trailing items) (hbuffering : b.flow = .buffering)
    (hblock : b.clock.hasBlock = false) : b.Contains items := by
  have hq := h.coherent.ordered
  have htoList : b.queue.toList = items.drop (items.length - b.queue.toList.length) :=
    List.suffix_iff_eq_drop.mp h.suffix
  generalize items.length - b.queue.toList.length = first at htoList
  refine contains_of_scan hq ?_
  cases h.coherent.tracks hbuffering with
  | idle _ noLatest => exact .fresh htoList noLatest fun locked => ⟨hbuffering, locked⟩
  | @anchored _ _ a lead after split reference_eq _ latest_eq opens inner front =>
    have hitems : items.drop first = (lead ++ a :: after) ++ b.queue.ahead := by
      rw [← htoList, hq.toList_eq, split]
    have hscanned : b.scan.queue.scanned = (lead ++ a :: after).length := by
      rw [← split, Queue.length_passed]
      rfl
    refine .anchored (j := first + lead.length) htoList ?_ ?_
    · rw [hscanned]
      exact Clock.measuresFrom_of_anchored hitems opens reference_eq latest_eq inner
    · cases hlocked : b.clock.locked with
      | true => exact .inr ⟨hbuffering, rfl⟩
      | false =>
        rw [front hlocked]
        exact .inl (Nat.le_refl _)
  | located _ isBlock =>
    cases isBlock with
    | intro bounds => simp [Clock.hasBlock, bounds.opening_eq] at hblock

theorem contains_of_running (h : b.Trailing items) (hrunning : b.flow = .running)
    (noLead : b.queue.head = b.queue.mark) : b.Contains items := by
  have hq := h.coherent.ordered
  have hpassed := hq.head_eq_mark_iff.mp noLead
  have hscanned : b.queue.scanned = 0 := by rw [← Queue.length_passed, hpassed]; rfl
  have hahead : b.queue.ahead = b.queue.toList := by rw [hq.toList_eq, hpassed]; rfl
  cases h.resumes (by simp [hrunning]) (by simp [hrunning]) hpassed with
  | @sent pid ticks last before split ends reference_eq latest_eq =>
    have htoList : b.queue.toList = items.drop (before.length + 1) := by
      rw [split, ← List.drop_drop, List.drop_left]
      rfl
    have hplace : items[before.length]? = some last := by
      rw [split, List.getElem?_append_right (Nat.le_refl _), Nat.sub_self]
      rfl
    refine contains_of_scan hq (.anchored htoList ?_ (.inl (Nat.le_succ before.length)))
    have hstop : before.length + 1 + b.scan.queue.scanned = before.length + 1 :=
      congrArg (before.length + 1 + ·) hscanned
    rw [hstop]
    exact Clock.measuresFrom_of_read hplace ends reference_eq latest_eq
  | sure ahead =>
    intro s hs
    obtain ⟨hvisit, hbreaks⟩ := List.mem_filter.mp hs
    have hnone := Scan.no_break_of_sure (s := b.scan) hq (hahead ▸ ahead) s hvisit
    rw [hbreaks] at hnone
    cases hnone

theorem contains_of_searches (n : Nat) (h : b.Trailing items) (hrunning : b.flow = .running) :
    ∀ x ∈ searches now n b, x.Contains items := by
  induction n generalizing b with
  | zero => exact fun x hx => nomatch hx
  | succ n ih =>
    intro x hx
    unfold searches at hx
    split at hx
    · rcases List.mem_append.mp hx with hfirst | hrest
      · unfold search at hfirst
        split at hfirst
        · rename_i hlead
          have hspend : Move b [] b.spend := .credit b (b.clock.credit - b.clock.quantum)
          have htrailing := trailing_move hspend h
          rw [gathered_nil] at htrailing
          rw [List.mem_singleton.mp hfirst]
          exact contains_of_running htrailing hrunning hlead
        · cases hfirst
      · cases hmoment : b.moment? now with
        | none => simp [hmoment] at hrest
        | some m =>
          obtain ⟨hcourse, _, hrunning', lead⟩ :=
            course_moment h.coherent.ordered hrunning hmoment
          have htrailing := trailing_move (.send hrunning' lead) (h.course hcourse)
          rw [gathered_sent, gathered_nil] at htrailing
          rw [hmoment] at hrest
          exact ih htrailing hrunning' x hrest
    · cases hx

theorem mem_seeks {x : Buffer} {op : Operation} (hx : x ∈ b.seeks op) :
    (∃ now, x = b.timed now ∧ b.flow = .buffering ∧ b.clock.hasBlock = false) ∨
      ∃ now microseconds, b.flow = .running ∧
        x ∈ searches now (b.queue.length + 1) (b.credited now microseconds) := by
  cases op with
  | tick now =>
    unfold seeks at hx
    dsimp only at hx
    split at hx
    · cases hx
    · rename_i microseconds _
      split at hx
      · rename_i hbuffering
        split at hx
        · cases hx
        · rename_i hblock
          exact .inl ⟨now, List.mem_singleton.mp hx, hbuffering, Bool.eq_false_iff.mpr hblock⟩
      · rename_i hrunning
        split at hx
        · exact .inr ⟨now, microseconds, hrunning, hx⟩
        · cases hx
      · cases hx
      · cases hx
  | _ => cases hx

theorem contains_of_seeks (h : b.Trailing items) (op : Operation) :
    ∀ x ∈ b.seeks op, x.Contains items := by
  intro x hx
  rcases mem_seeks hx with ⟨now, rfl, hbuffering, hblock⟩ | ⟨now, microseconds, hrunning, hx⟩
  · have htimed := trailing_move (move_timed b now) h
    rw [gathered_nil] at htimed
    exact contains_of_buffering htimed hbuffering hblock
  · have hcredited := h.course (course_credited b now microseconds)
    rw [gathered_nil] at hcredited
    exact contains_of_searches _ hcredited hrunning x hx

theorem breaks_contained (settings : Settings) (history : List Operation) (op : Operation) :
    let start := (create settings).buffer
    let b := start.run history
    ((b.apply op).buffer.clock.breaks = if (b.events op).any Event.isEmptied then 0
      else b.clock.breaks + ((b.seeks op).flatMap meets).length) ∧
    ∀ x ∈ b.seeks op, x.Contains (start.accepted history) := by
  intro start b
  exact ⟨breaks_apply b op, contains_of_seeks (trailing_run settings history) op⟩

/-- Two blocks of the clock at a millisecond for each packet, and then a jump. -/
def interrupted : List Packet :=
  [Packet.Draft.packet { pid := 256, clock? := some 0 },
    Packet.Draft.packet { pid := 256, counter := 1 },
    Packet.Draft.packet { pid := 256, clock? := some 54000 },
    Packet.Draft.packet { pid := 256, counter := 2 },
    Packet.Draft.packet { pid := 256, clock? := some 2700000000 }]

/-- With everything up to the second reading sent, the jump takes no more than the packet behind. -/
theorem breaks_contained_while_running :
    let start := (create sampleSettings).buffer
    let history := [.push interrupted, .tick 0, .tick 1000000, .tick 2000000, .tick 3000000,
      .tick 4000000]
    ∃ x ∈ (start.run history).seeks (.tick 5000000), ∃ s ∈ x.meets, s.queue.length = 2 ∧
      ∃ first j, s.Removes (start.accepted history) first j ∧ j ≤ first := by
  intro start history
  have hbreak : ∃ x ∈ (start.run history).seeks (.tick 5000000), ∃ s ∈ x.meets,
      s.queue.length = 2 ∧ x.flow = .running := by
    decide +kernel
  obtain ⟨x, hx, s, hs, hlength, hrunning⟩ := hbreak
  have hcontains := (breaks_contained sampleSettings history (.tick 5000000)).2 x hx
  obtain ⟨first, j, hremoves, hfront | ⟨hbuffering, _⟩⟩ := hcontains s hs
  · exact ⟨x, hx, s, hs, hlength, first, j, hremoves, hfront⟩
  · rw [hrunning] at hbuffering
    cases hbuffering

def interruption : List Operation :=
  [.push (interrupted.take 4), .tick 0, .tick 1000000, .tick 2000000, .setPid none,
    .push (interrupted.drop 4)]

theorem accepted_interruption :
    (create sampleSettings).buffer.accepted interruption = interrupted := by
  have hfirst : ((create sampleSettings).buffer.apply (.push (interrupted.take 4))).accepted =
      true := by decide +kernel
  have hsecond : (((create sampleSettings).buffer.run (interruption.take 5)).apply
      (.push (interrupted.drop 4))).accepted = true := by decide +kernel
  have hbursts : (create sampleSettings).buffer.accepted interruption =
      (if ((create sampleSettings).buffer.apply (.push (interrupted.take 4))).accepted then
        interrupted.take 4 else []) ++
      (if (((create sampleSettings).buffer.run (interruption.take 5)).apply
        (.push (interrupted.drop 4))).accepted then interrupted.drop 4 else []) := by
    simp only [interruption, accepted, gather, Operation.burst, ite_self, List.nil_append,
      List.append_nil]
    rfl
  rw [hbursts, if_pos hfirst, if_pos hsecond, List.take_append_drop]

theorem takes_from_before_reading :
    let start := (create sampleSettings).buffer
    start.accepted interruption = interrupted ∧
      ∃ x ∈ (start.run interruption).seeks (.tick 3000000), ∃ s ∈ x.meets,
        s.Removes interrupted 1 2 := by
  have hbreak : ∃ x ∈ ((create sampleSettings).buffer.run interruption).seeks (.tick 3000000),
      ∃ s ∈ x.meets, s.queue.length = 4 ∧ s.clock.latest? = some 54000 := by
    decide +kernel
  have hreadings : interrupted.map Clock.reading? =
      [some (256, 0), none, some (256, 54000), none, some (256, 2700000000)] := by decide +kernel
  obtain ⟨x, hx, s, hs, hlength, hlatest⟩ := hbreak
  have htrailing := trailing_run sampleSettings interruption
  rw [accepted_interruption] at htrailing
  obtain ⟨first, j, hremoves, _⟩ := contains_of_seeks htrailing (.tick 3000000) x hx s hs
  have hfirst : first = 1 := by
    have hleft : s.queue.length = 5 - first := by
      rw [← Queue.length_toList, hremoves.queued_eq, List.length_drop]
      rfl
    omega
  have hj : j = 2 := by
    obtain ⟨a, pid, ticks, ha, hread, _, hticks⟩ := hremoves.measures.carried
    have hget : (interrupted.map Clock.reading?)[j]? = some (some (pid, 54000)) := by
      rw [hlatest] at hticks
      cases hticks
      rw [List.getElem?_map, ha, Option.map_some, hread]
    rw [hreadings] at hget
    rcases j with _ | _ | _ | _ | _ | j
    all_goals simp at hget ⊢
  rw [hfirst, hj] at hremoves
  exact ⟨accepted_interruption, x, hx, s, hs, hremoves⟩

end PacedStream.Buffer
