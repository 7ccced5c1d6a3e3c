import PacedStream.Proofs.Buffer.Backed
import PacedStream.Proofs.Buffer.Bursts
import PacedStream.Proofs.Buffer.Fifo

/-!
Buffers that never get going. A full queue below the threshold, with no packet left to scan or too
few blocks behind the located one, refuses every burst, and without new packets no tick finds more.
Main statement: as long as no setting changes, nobody resets it and time does not jump, such a
buffer sends nothing and stays as it is.
-/

namespace PacedStream
set_option autoImplicit false

namespace Clock

variable {c : Clock} {q : Queue Packet} {p : Packet} {passed rest : List Packet}

theorem seek_of_end (hq : q.Ordered) (hend : q.mark = q.tail) :
    c.seek q = { clock := c, queue := q } := by
  have hzero : q.unscanned = 0 := (Queue.distance_eq_zero_iff hq.mark_lt hq.tail_lt).mpr hend
  rw [seek, hzero]
  rfl

theorem walk_of_no_reading (hnone : c.opening? = none) (hquiet : ∀ x ∈ rest, reading? x = none) :
    (c.walk passed rest).found = false ∧ (c.walk passed rest).clock.opening? = none ∧
      (c.walk passed rest).passed = passed ++ rest ∧ (c.walk passed rest).ahead = [] := by
  induction rest generalizing c passed with
  | nil => exact ⟨rfl, hnone, (List.append_nil _).symm, rfl⟩
  | cons x rest ih =>
    have hread : reading? x = none := hquiet x List.mem_cons_self
    have hobserve : c.observe x = { clock := c.counted, verdict := .pass } := by
      simp only [observe, hread, counted]
    have hkeep : Verdict.pass.keep passed x = passed ++ [x] := rfl
    rw [walk_cons, hobserve, if_neg nofun, hkeep, List.append_cons passed x rest]
    exact ih hnone fun y hy => hquiet y (List.mem_cons_of_mem _ hy)

theorem walk_of_stray (hnone : c.opening? = none) (hlatest : c.latest? = none)
    (hquiet : ∀ x ∈ rest, reading? x = none) :
    (c.walk [] (p :: rest)).found = false ∧ (c.walk [] (p :: rest)).clock.opening? = none ∧
      (c.walk [] (p :: rest)).passed = p :: rest ∧ (c.walk [] (p :: rest)).ahead = [] := by
  have hobs := observes c p
  rw [walk_cons]
  generalize (c.observe p).clock = c' at hobs ⊢
  generalize (c.observe p).verdict = v at hobs ⊢
  cases hobs with
  | pass =>
    rw [if_neg nofun]
    exact walk_of_no_reading hnone hquiet
  | anchor =>
    have hkeep : (Verdict.anchor c.locked).keep [] p = [p] := ite_self _
    rw [if_neg nofun, hkeep]
    exact walk_of_no_reading hnone hquiet
  | broken _ _ last | located _ _ last =>
    rw [hlatest] at last
    cases last

end Clock

namespace Buffer

variable {b b' b'' : Buffer} {op : Operation} {history : List Operation} {now : Int}
  {burst rest : List Packet} {p : Packet} {start last : Int}

/-- Full, below the threshold, and with nothing left to find. -/
structure Jammed (b : Buffer) : Prop where
  buffering : b.flow = .buffering
  full : max b.queue.size b.sizing.maxSize ≤ b.queue.length + 1
  short : b.clock.hasBlock = true ∧
      1 + b.queue.ahead.countP b.clock.isReference < b.settings.enough.toNat ∨
    b.clock.hasBlock = false ∧ b.queue.mark = b.queue.tail

/-- Queue, flow and clock are the same, but for the number of blocks counted. -/
structure Stays (b b' : Buffer) : Prop where
  queue_eq : b'.queue = b.queue
  clock_eq : b'.clock = { b.clock with blocks := b'.clock.blocks }
  flow_eq : b'.flow = b.flow
  sizing_eq : b'.sizing = b.sizing
  enough_eq : b'.settings.enough = b.settings.enough

theorem Stays.refl (b : Buffer) : Stays b b := ⟨rfl, rfl, rfl, rfl, rfl⟩

theorem Stays.trans (h : Stays b b') (h' : Stays b' b'') : Stays b b'' := by
  refine ⟨h'.queue_eq.trans h.queue_eq, h'.clock_eq.trans ?_, h'.flow_eq.trans h.flow_eq,
    h'.sizing_eq.trans h.sizing_eq, h'.enough_eq.trans h.enough_eq⟩
  rw [h.clock_eq]

theorem Stays.reference_eq (h : Stays b b') : b'.clock.reference? = b.clock.reference? := by
  rw [h.clock_eq]

theorem Jammed.stays (h : b.Jammed) (hstays : Stays b b') : b'.Jammed := by
  have hblock : b'.clock.hasBlock = b.clock.hasBlock := by
    rw [hstays.clock_eq]
    rfl
  have hreference : b'.clock.isReference = b.clock.isReference :=
    funext fun _ => Clock.isReference_congr hstays.reference_eq
  refine ⟨hstays.flow_eq.trans h.buffering, ?_, ?_⟩
  · rw [hstays.queue_eq, hstays.sizing_eq]
    exact h.full
  · rw [hblock, hreference, hstays.queue_eq, hstays.enough_eq]
    exact h.short

/-- A full queue with no reading behind the first packet is jammed as soon as it was scanned. -/
theorem jammed_of_stray (hq : b.queue.Ordered) (hbuffering : b.flow = .buffering)
    (hnone : b.clock.opening? = none) (hlatest : b.clock.latest? = none)
    (hpassed : b.queue.passed = []) (hahead : b.queue.ahead = p :: rest)
    (hquiet : ∀ x ∈ rest, Clock.reading? x = none)
    (hfull : max b.queue.size b.sizing.maxSize ≤ b.queue.length + 1)
    (hlast : b.lastTick? = some last) (hfrom : last + 1000 ≤ now)
    (hto : now ≤ last + 1000000000) :
    (b.tick now).buffer.Jammed ∧ (b.tick now).buffer.lastTick? = some now := by
  have hat := b.clock.seek_at hq
  rw [hpassed, hahead] at hat
  obtain ⟨hlost, hopening, hwhole, hend⟩ := Clock.walk_of_stray (p := p) hnone hlatest hquiet
  obtain ⟨microseconds, _, _, htick⟩ := tick_of_span hlast hfrom hto
  obtain ⟨asked, hadvance⟩ := advance_eq b now microseconds
  have hafter : (b.tick now).buffer = (b.timed now).withScan (b.clock.seek b.queue) := by
    have hblock : ¬ (b.timed now).clock.hasBlock = true := by simp [Clock.hasBlock, timed, hnone]
    have hfound : ¬ ((b.timed now).clock.seek (b.timed now).queue).found = true := by
      simp [timed, hat.found_eq, hlost]
    rw [htick, hadvance, hbuffering]
    change ((b.timed now).prepare now).buffer = _
    unfold Buffer.prepare
    rw [if_neg hblock]
    dsimp only
    rw [if_neg hfound]
    rfl
  have hlength : (b.clock.seek b.queue).queue.length = b.queue.length := by
    rw [← Queue.length_toList, ← Queue.length_toList, hat.ordered.toList_eq, hq.toList_eq,
      hat.passed_eq, hat.ahead_eq, hwhole, hend, hpassed, hahead, List.append_nil, List.nil_append]
  have hsize : (b.clock.seek b.queue).queue.size = b.queue.size := (Scan.keeps_run _ _).2.2
  rw [hafter]
  refine ⟨⟨hbuffering, ?_, .inr ⟨?_, ?_⟩⟩, rfl⟩
  · change max (b.clock.seek b.queue).queue.size b.sizing.maxSize ≤
      (b.clock.seek b.queue).queue.length + 1
    rw [hlength, hsize]
    exact hfull
  · change (b.clock.seek b.queue).clock.opening?.isSome = false
    rw [hat.clock_eq, hopening]
    rfl
  · have hnil : (b.clock.seek b.queue).queue.ahead = [] := hat.ahead_eq.trans hend
    rw [← List.length_eq_zero_iff, Queue.length_ahead] at hnil
    exact (Queue.distance_eq_zero_iff hat.ordered.mark_lt hat.ordered.tail_lt).mp hnil

theorem offer_of_room (hne : burst ≠ []) (hroom : burst.length ≤ b.queue.room) :
    (b.offer burst).buffer =
      { b with flow := b.flow.feed, queue := burst.foldl Queue.write b.queue } := by
  have hgrown : b.sizing.makeRoom b.queue burst.length = { queue := b.queue, enough := true } :=
    Sizing.grow_of_room hroom _
  rw [offer_of_enough hne (by rw [hgrown]), hgrown]

theorem jams_on_stray (hq : b.queue.Ordered) (hnil : b.queue.toList = []) (hunfed : b.flow = .empty)
    (hnone : b.clock.opening? = none) (hlatest : b.clock.latest? = none)
    (huntimed : b.lastTick? = none) (hmax : b.sizing.maxSize ≤ b.queue.size)
    (hlength : (p :: rest).length + 1 = b.queue.size)
    (hquiet : ∀ x ∈ rest, Clock.reading? x = none) (hfrom : start + 1000 ≤ now)
    (hto : now ≤ start + 1000000000) :
    (b.run [.push (p :: rest), .tick start, .tick now]).Jammed ∧
      (b.run [.push (p :: rest), .tick start, .tick now]).lastTick? = some now := by
  have hempty : b.queue.length = 0 := by
    rw [← Queue.length_toList, hnil]
    rfl
  have hroom : b.queue.length + (p :: rest).length < b.queue.size := by omega
  have hpushed := Queue.pushed_foldl hq hroom
  have hnoneAhead : b.queue.ahead = [] := by
    rw [hq.toList_eq] at hnil
    exact (List.append_eq_nil_iff.mp hnil).2
  have hfilled := hpushed.toList_eq hq
  have hrun : b.run [.push (p :: rest), .tick start, .tick now] =
      (({ b with flow := b.flow.feed, queue := (p :: rest).foldl Queue.write b.queue }.timed
        start).tick now).buffer := by
    have huntimed' : { b with
        flow := b.flow.feed
        queue := (p :: rest).foldl Queue.write b.queue }.lastTick? = none := huntimed
    change (((b.push (p :: rest)).buffer.tick start).buffer.tick now).buffer = _
    rw [buffer_push, offer_of_room (List.cons_ne_nil p rest) ((Queue.le_room_iff hq).mpr hroom),
      tick_first huntimed']
  rw [hrun]
  refine jammed_of_stray hpushed.ordered (by rw [hunfed]; rfl) hnone hlatest
    (hpushed.passed_eq.trans (hq.passed_eq_nil hnil))
    (hpushed.ahead_eq.trans (by rw [hnoneAhead, List.nil_append])) hquiet ?_ rfl hfrom hto
  have hcount : ((p :: rest).foldl Queue.write b.queue).length = (p :: rest).length := by
    rw [← Queue.length_toList, hfilled, hnil, List.nil_append]
  change max ((p :: rest).foldl Queue.write b.queue).size b.sizing.maxSize ≤
    ((p :: rest).foldl Queue.write b.queue).length + 1
  rw [hcount, hpushed.size_eq]
  omega

theorem Jammed.refuses (h : b.Jammed) (hq : b.queue.Ordered) (burst : List Packet) :
    (b.offer burst).buffer = b ∧ (burst ≠ [] → (b.offer burst).accepted = false) := by
  by_cases hne : burst = []
  · subst hne
    exact ⟨rfl, fun hne => absurd rfl hne⟩
  · have hfull := h.full
    have hlength := hq.length_lt
    have hpos : 0 < burst.length := List.length_pos_iff.mpr hne
    have hshort : b.queue.room < burst.length := by
      unfold Queue.room
      omega
    have hroom : b.sizing.makeRoom b.queue burst.length = { queue := b.queue, enough := false } :=
      Sizing.grow_of_full (Nat.not_le.mpr hshort) (by omega) _
    have hempty : ¬ burst.isEmpty = true := by simpa using hne
    have hfeed : b.flow.feed = b.flow := by
      rw [h.buffering]
      rfl
    refine ⟨?_, fun hne => by rw [accepted_offer hne, hroom]⟩
    unfold Buffer.offer
    rw [if_neg hempty, hroom, hfeed]
    rfl

theorem Jammed.prepare (h : b.Jammed) (hq : b.queue.Ordered) (now : Int) :
    Stays b (b.prepare now).buffer ∧ (b.prepare now).sent = #[] := by
  unfold Buffer.prepare
  rcases h.short with ⟨hblock, hfew⟩ | ⟨hblock, hend⟩
  · have hshort : ¬ b.settings.enough.toNat ≤ b.recount.clock.blocks := by
      rw [blocks_of_hasBlock hq hblock]
      omega
    rw [if_pos hblock]
    unfold tryStart
    dsimp only
    rw [updateFlow_recount h.buffering, if_neg hshort]
    exact ⟨⟨rfl, rfl, h.buffering.symm, rfl, rfl⟩, rfl⟩
  · -- The scan stands at the end and meets nothing.
    rw [if_neg (by simp [hblock]), Clock.seek_of_end hq hend]
    exact ⟨.refl b, rfl⟩

theorem Jammed.tick (h : b.Jammed) (hq : b.queue.Ordered) (hsteady : b.jumps now = false) :
    Stays b (b.tick now).buffer ∧ (b.tick now).sent = #[] := by
  have hticks := ticks b now
  generalize b.tick now = s at hticks
  cases hticks with
  | jump _ jumps => simp [hsteady] at jumps
  | skip => exact ⟨⟨rfl, rfl, rfl, rfl, rfl⟩, rfl⟩
  | @count microseconds =>
    obtain ⟨asked, hadvance⟩ := advance_eq b now microseconds
    rw [hadvance, h.buffering]
    have htimed : Stays b (b.timed now) := ⟨rfl, rfl, rfl, rfl, rfl⟩
    obtain ⟨hstays, hsent⟩ := (h.stays htimed).prepare hq now
    exact ⟨htimed.trans hstays, hsent⟩

/-- The operations that can free a jammed buffer: a change of thresholds, size or identifier, a
reset, and a tick that finds that time jumped. -/
def Operation.frees (b : Buffer) : Operation → Bool
  | .tick now => b.jumps now
  | .reset | .setThresholds _ _ | .setMaxSize _ | .setOptions _ | .setPid _ => true
  | .push _ | .offer _ | .pushBytes _ | .setName _ | .setDelivers _ | .setAsks _ => false

theorem Jammed.apply (h : b.Jammed) (hq : b.queue.Ordered) (hop : op.frees b = false) :
    Stays b (b.apply op).buffer ∧ (b.apply op).sent = #[] ∧
      (op.burst ≠ [] → (b.apply op).accepted = false) := by
  have hoffer : ∀ burst, Stays b (b.offer burst).buffer := fun burst =>
    (h.refuses hq burst).1.symm ▸ .refl b
  cases op with
  | push burst =>
    have hbuffer : (b.apply (.push burst)).buffer = (b.offer burst).buffer := buffer_push
    rw [hbuffer]
    exact ⟨hoffer burst, (sent_push b burst).2,
      fun hne => (accepted_push b burst).trans ((h.refuses hq burst).2 hne)⟩
  | offer burst => exact ⟨hoffer burst, (sent_push b burst).1, (h.refuses hq burst).2⟩
  | pushBytes bytes =>
    have hbuffer : (b.apply (.pushBytes bytes)).buffer =
        (b.offer (Packet.frame .empty bytes).packets.toList).buffer := buffer_pushBytes bytes
    rw [hbuffer]
    exact ⟨hoffer _, sent_pushBytes b bytes,
      fun hne => (accepted_pushBytes b bytes).trans ((h.refuses hq _).2 hne)⟩
  | tick now =>
    obtain ⟨hstays, hsent⟩ := h.tick hq hop
    exact ⟨hstays, hsent, fun hne => absurd rfl hne⟩
  | setName | setDelivers | setAsks =>
    exact ⟨⟨rfl, rfl, rfl, rfl, rfl⟩, rfl, fun hne => absurd rfl hne⟩
  | reset | setThresholds | setMaxSize | setOptions | setPid => cases hop

def undisturbed (b : Buffer) : List Operation → Bool
  | [] => true
  | op :: rest => !op.frees b && undisturbed (b.apply op).buffer rest

/-- A history through which the buffer stays as it is. -/
structure Halted (b : Buffer) (history : List Operation) : Prop where
  stays : Stays b (b.run history)
  sent_eq : b.sent history = []
  refused : ∀ earlier op later, history = earlier ++ op :: later → op.burst ≠ [] →
    ((b.run earlier).apply op).accepted = false

theorem Halted.cons (h : b.Jammed) (hq : b.queue.Ordered) (hop : op.frees b = false)
    (hrest : (b.apply op).buffer.Halted history) : b.Halted (op :: history) := by
  obtain ⟨hstays, hsent, hrefused⟩ := h.apply hq hop
  refine ⟨hstays.trans hrest.stays, ?_, ?_⟩
  · rw [sent_cons, hsent, hrest.sent_eq]
    rfl
  · intro earlier op' later hsplit hburst
    cases earlier with
    | nil =>
      obtain ⟨rfl, _⟩ := List.cons.inj hsplit
      exact hrefused hburst
    | cons first earlier =>
      obtain ⟨rfl, htail⟩ := List.cons.inj hsplit
      exact hrest.refused earlier op' later htail hburst

theorem Jammed.halted (h : b.Jammed) (hq : b.queue.Ordered)
    (hquiet : b.undisturbed history = true) : b.Halted history := by
  induction history generalizing b with
  | nil => exact ⟨.refl b, rfl, by simp⟩
  | cons op rest ih =>
    simp only [undisturbed, Bool.and_eq_true, Bool.not_eq_true'] at hquiet
    obtain ⟨hop, hrest⟩ := hquiet
    exact .cons h hq hop (ih (h.stays (h.apply hq hop).1) (ordered_apply hq op) hrest)

/-- The first disturbance of a jammed buffer finds it as it was. -/
theorem Jammed.freed (h : b.Jammed) (hq : b.queue.Ordered)
    (hdisturbed : b.undisturbed history = false) : ∃ earlier op later,
      history = earlier ++ op :: later ∧ b.Halted earlier ∧ op.frees (b.run earlier) = true := by
  induction history generalizing b with
  | nil => cases hdisturbed
  | cons op rest ih =>
    cases hop : op.frees b with
    | true => exact ⟨[], op, rest, rfl, ⟨.refl b, rfl, by simp⟩, hop⟩
    | false =>
      have hrest : (b.apply op).buffer.undisturbed rest = false := by
        simpa [undisturbed, hop] using hdisturbed
      obtain ⟨earlier, op', later, hsplit, hhalted, hfrees⟩ :=
        ih (h.stays (h.apply hq hop).1) (ordered_apply hq op) hrest
      exact ⟨op :: earlier, op', later, by rw [hsplit, List.cons_append], .cons h hq hop hhalted,
        hfrees⟩

theorem stays_jammed (settings : Settings) (before : List Operation) :
    let b := (create settings).buffer.run before
    b.Jammed → ∀ history,
      (b.undisturbed history = true → b.Halted history) ∧
      (b.undisturbed history = false → ∃ earlier op later, history = earlier ++ op :: later ∧
        b.Halted earlier ∧ op.frees (b.run earlier) = true) := by
  intro b h history
  have hq := ((coherent_create settings).run before).ordered
  exact ⟨h.halted hq, h.freed hq⟩

/-- The least size, filled with stuffing behind a single reading. The reading alone determines the
identifier, and packets that would help are refused. -/
theorem stays_jammed_by_stray :
    let stray := Packet.Draft.packet { pid := 256, clock? := some 0 }
    let before := [.push (stray :: List.replicate 1363 Packet.stuffing), .tick 0, .tick 1000000]
    let b := (create { maxBytes := 1 }).buffer.run before
    b.Jammed ∧ b.Halted [.push [stray], .tick 2000000, .offer (List.replicate 3 stray)] := by
  intro stray before b
  have hquiet : ∀ x ∈ List.replicate 1363 Packet.stuffing, Clock.reading? x = none := by
    intro x hx
    rw [List.eq_of_mem_replicate hx]
    decide +kernel
  have hnew := ordered_create { maxBytes := 1 }
  have hslots : (create { maxBytes := 1 }).buffer.queue.size = 1365 := Queue.size_create _ _
  obtain ⟨hjammed, hlast⟩ : b.Jammed ∧ b.lastTick? = some 1000000 :=
    jams_on_stray hnew (Queue.toList_create _ _) rfl rfl rfl rfl (by rw [hslots]; decide)
      (by rw [hslots, List.length_cons, List.length_replicate]) hquiet (by decide) (by decide)
  have hhalted := (stays_jammed { maxBytes := 1 } before hjammed
    [.push [stray], .tick 2000000, .offer (List.replicate 3 stray)]).1
  refine ⟨hjammed, hhalted ?_⟩
  have hpush : (b.push [stray]).buffer = b := buffer_push.trans
    (hjammed.refuses ((coherent_create _).run before).ordered [stray]).1
  have hsteady : (b.push [stray]).buffer.jumps 2000000 = false := by
    rw [hpush, jumps, hlast]
    decide
  change (!false && (!(b.push [stray]).buffer.jumps 2000000 && (!false && true))) = true
  rw [hsteady]
  rfl

end Buffer
end PacedStream
