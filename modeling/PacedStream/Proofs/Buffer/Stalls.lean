import PacedStream.Proofs.Buffer.Acceptance
import PacedStream.Proofs.Buffer.Agreement
import PacedStream.Proofs.Buffer.Recovery
import PacedStream.Proofs.Buffer.Timekeeping

/-!
What a stall leaves alone. Until it ends, packets are queued behind the others, blocks are counted
and the ticks are noted; scan, clock and credit stay where they were when it began. Main statement:
from the tick that began a stall up to the one that ends it nothing else changes and nothing is
sent, and only a tick more than 200 ms after the first one gives the queue up.
-/

namespace PacedStream.Buffer
set_option autoImplicit false

variable {b b' b'' : Buffer} {taken taken' burst : List Packet} {now last since : Int}
  {op : Operation} {history more : List Operation}

/-- Of clock and scan only the count of blocks changed, and packets were taken behind those queued. -/
structure Paused (b : Buffer) (taken : List Packet) (b' : Buffer) : Prop where
  clock_eq : b'.clock = { b.clock with blocks := b'.clock.blocks }
  toList_eq : b'.queue.toList = b.queue.toList ++ taken
  scanned_eq : b'.queue.scanned = b.queue.scanned
  timed : ∀ last, b.lastTick? = some last → ∃ last', last ≤ last' ∧ b'.lastTick? = some last'

structure Waits (b : Buffer) (taken : List Packet) (b' : Buffer) : Prop extends
    Paused b taken b' where
  flow_eq : b'.flow = b.flow
  settings_eq : b'.settings = b.settings
  sizing_eq : b'.sizing = b.sizing
  delivers_eq : b'.delivers = b.delivers
  asks_eq : b'.asks = b.asks

theorem Paused.of_eq (clock_eq : b'.clock = b.clock) (toList_eq : b'.queue.toList = b.queue.toList)
    (scanned_eq : b'.queue.scanned = b.queue.scanned) (lastTick_eq : b'.lastTick? = b.lastTick?) :
    Paused b [] b' := by
  refine ⟨by rw [clock_eq], by rw [toList_eq, List.append_nil], scanned_eq, ?_⟩
  intro last hlast
  exact ⟨last, Int.le_refl last, lastTick_eq.trans hlast⟩

theorem Paused.trans (h : Paused b taken b') (h' : Paused b' taken' b'') :
    Paused b (taken ++ taken') b'' := by
  refine ⟨h'.clock_eq.trans ?_, ?_, h'.scanned_eq.trans h.scanned_eq, ?_⟩
  · rw [h.clock_eq]
  · rw [h'.toList_eq, h.toList_eq, List.append_assoc]
  · intro last hlast
    obtain ⟨last', hle, hlast'⟩ := h.timed last hlast
    obtain ⟨last'', hle', hlast''⟩ := h'.timed last' hlast'
    exact ⟨last'', Int.le_trans hle hle', hlast''⟩

theorem Waits.refl (b : Buffer) : Waits b [] b :=
  ⟨.of_eq rfl rfl rfl rfl, rfl, rfl, rfl, rfl, rfl⟩

theorem Waits.trans (h : Waits b taken b') (h' : Waits b' taken' b'') :
    Waits b (taken ++ taken') b'' :=
  ⟨h.toPaused.trans h'.toPaused, h'.flow_eq.trans h.flow_eq, h'.settings_eq.trans h.settings_eq,
    h'.sizing_eq.trans h.sizing_eq, h'.delivers_eq.trans h.delivers_eq, h'.asks_eq.trans h.asks_eq⟩

theorem waits_offer (hq : b.queue.Ordered) (hfed : b.flow ≠ .empty) (burst : List Packet) :
    Waits b ((b.taking burst).flatMap Event.accepted) (b.offer burst).buffer := by
  by_cases hne : burst = []
  · subst hne
    exact .refl b
  · have hanswers := answers_offer hq hne
    have hgrown : ∀ {queue : Queue Packet}, (b.offer burst).buffer =
        { b with flow := if b.flow = .empty then .buffering else b.flow, queue } →
        queue.toList = b.queue.toList ++ (b.taking burst).flatMap Event.accepted →
        queue.scanned = b.queue.scanned →
        Waits b ((b.taking burst).flatMap Event.accepted) (b.offer burst).buffer := by
      intro queue hbuffer htoList hscanned
      rw [if_neg hfed] at hbuffer
      rw [hbuffer]
      exact ⟨⟨rfl, htoList, hscanned, fun last hlast => ⟨last, Int.le_refl last, hlast⟩⟩, rfl, rfl,
        rfl, rfl, rfl⟩
    cases haccepted : (b.offer burst).accepted with
    | true =>
      obtain ⟨queue, _, hbuffer, htoList, hscanned, _⟩ := hanswers.taken haccepted
      refine hgrown hbuffer ?_ hscanned
      rw [taking, if_pos ⟨hne, haccepted⟩, htoList]
      simp [Event.accepted]
    | false =>
      obtain ⟨queue, hbuffer, htoList, hscanned, _⟩ := hanswers.refused haccepted
      refine hgrown hbuffer ?_ hscanned
      rw [taking, if_neg (by simp [haccepted]), htoList]
      exact (List.append_nil _).symm

/-- What a tick of a stall comes to, given the last one that counted. -/
inductive Awaits (b : Buffer) (since last now : Int) : Step → Prop where
  | jump {s : Step} (far : now < last ∨ last + 1000000000 < now)
      (buffer_eq : s.buffer = { b.dropAll with lastTick? := some now }) :
      Awaits b since last now s
  | skip {s : Step} (soon : now < last + 1000) (buffer_eq : s.buffer = b) (sent_eq : s.sent = #[]) :
      Awaits b since last now s
  | hold {s : Step} (later : last ≤ now) (few : b.recount.clock.blocks < b.settings.low.toNat)
      (short : now ≤ since + 200000000) (buffer_eq : s.buffer = (b.timed now).recount)
      (sent_eq : s.sent = #[]) : Awaits b since last now s
  | resume {s : Step} (back : b.settings.low.toNat ≤ b.recount.clock.blocks)
      (buffer_eq : s.buffer = (b.timed now).resumed) (sent_eq : s.sent = #[]) :
      Awaits b since last now s
  | giveUp {s : Step} (few : b.recount.clock.blocks < b.settings.low.toNat)
      (long : since + 200000000 < now) (buffer_eq : s.buffer = (b.timed now).recount.dropAll) :
      Awaits b since last now s

theorem awaits_recover (hstalled : b.flow = .underflow since) (hle : last ≤ now) {s : Step}
    (hbuffer : s.buffer = ((b.timed now).recover now).buffer)
    (hsent : s.sent = ((b.timed now).recover now).sent) : Awaits b since last now s := by
  have hmax : Flow.maxStall = 200000000 := rfl
  have hstalled' : (b.timed now).flow = .underflow since := hstalled
  by_cases hback : b.settings.low.toNat ≤ b.recount.clock.blocks
  · obtain ⟨hresumed, hsilent⟩ := recover_of_enough now hstalled' hback
    exact .resume hback (hbuffer.trans hresumed) (hsent.trans hsilent)
  · have hfew : b.recount.clock.blocks < b.settings.low.toNat := Nat.not_le.mp hback
    rw [recover_of_few now hstalled' hfew] at hbuffer
    have hsilent : ((b.timed now).recover now).sent = #[] :=
      (course_recover hstalled' now).2
    unfold Instant.since at hbuffer
    by_cases hlong : Flow.maxStall < (now - since).toNat
    · rw [if_pos hlong] at hbuffer
      exact .giveUp hfew (by omega) hbuffer
    · rw [if_neg hlong] at hbuffer
      exact .hold hle hfew (by omega) hbuffer (hsent.trans hsilent)

theorem awaits_tick (hstalled : b.flow = .underflow since) (hlast : b.lastTick? = some last)
    (now : Int) : Awaits b since last now (b.tick now) := by
  have hlimit : jumpLimit = 1000000000 := rfl
  by_cases hle : last ≤ now
  · have helapsed : Instant.since? now last = some (now - last).toNat := if_pos hle
    by_cases hto : now ≤ last + 1000000000
    · by_cases hfrom : last + 1000 ≤ now
      · obtain ⟨microseconds, _, _, htick⟩ := tick_of_span hlast hfrom hto
        obtain ⟨hbuffer, hsent⟩ := tick_of_stalled hstalled htick
        exact awaits_recover hstalled hle hbuffer hsent
      · have hshort : ¬ jumpLimit < (now - last).toNat := by omega
        have hzero : Span.wholeMicroseconds (now - last).toNat = 0 := by
          unfold Span.wholeMicroseconds
          omega
        have htick : b.tick now = { buffer := b } := by
          simp only [tick, hlast, helapsed, hshort, hzero, if_true, if_false]
        exact .skip (by omega) (congrArg Step.buffer htick) (congrArg Step.sent htick)
    · have hlong : jumpLimit < (now - last).toNat := by omega
      have htick : b.tick now = b.jump now (some (now - last).toNat) := by
        simp only [tick, hlast, helapsed, hlong, if_true]
      exact .jump (.inr (by omega)) (congrArg Step.buffer htick)
  · have helapsed : Instant.since? now last = none := if_neg hle
    have htick : b.tick now = b.jump now none := by simp only [tick, hlast, helapsed]
    exact .jump (.inl (by omega)) (congrArg Step.buffer htick)

theorem waits_recount (hlast : b.lastTick? = some last) (hle : last ≤ now) :
    Waits b [] (b.timed now).recount := by
  refine ⟨⟨rfl, (List.append_nil _).symm, rfl, fun last' hlast' => ?_⟩, rfl, rfl, rfl, rfl, rfl⟩
  cases hlast.symm.trans hlast'
  exact ⟨now, hle, rfl⟩

theorem not_stalled_dropAll (b : Buffer) : b.dropAll.flow.state ≠ .underflow := by
  rcases still_dropAll b with hflow | hflow
  all_goals
    rw [hflow]
    exact nofun

theorem waits_tick {s : Step} (h : Awaits b since last now s) (hlast : b.lastTick? = some last)
    (hstill : s.buffer.flow.state = .underflow) : Waits b [] s.buffer ∧ s.sent = #[] := by
  cases h with
  | jump _ buffer_eq =>
    rw [buffer_eq] at hstill
    exact absurd hstill (not_stalled_dropAll b)
  | skip _ buffer_eq sent_eq =>
    rw [buffer_eq]
    exact ⟨.refl b, sent_eq⟩
  | hold later _ _ buffer_eq sent_eq =>
    rw [buffer_eq]
    exact ⟨waits_recount hlast later, sent_eq⟩
  | resume _ buffer_eq =>
    rw [buffer_eq] at hstill
    cases hstill
  | giveUp _ _ buffer_eq =>
    rw [buffer_eq] at hstill
    exact absurd hstill (not_stalled_dropAll (b.timed now).recount)

theorem state_eq_underflow_iff : b.flow.state = .underflow ↔ ∃ since, b.flow = .underflow since := by
  cases b.flow <;> simp [Flow.state]

theorem paused_untimed (hq : b.queue.Ordered) (hop : ∀ now, op ≠ .tick now) (hfed : b.flow ≠ .empty)
    (hkept : (b.apply op).buffer.flow ≠ .buffering) :
    Paused b ((b.events op).flatMap Event.accepted) (b.apply op).buffer := by
  have hlastTick : (b.apply op).buffer.lastTick? = b.lastTick? := by
    refine lastTick_apply ?_
    cases op with
    | tick now => exact absurd rfl (hop now)
    | _ => rfl
  have huntimed := untimed_apply (b := b) hop
  generalize b.events op = es at huntimed
  generalize b.apply op = s at huntimed hkept hlastTick
  cases huntimed with
  | offer burst buffer_eq =>
    rw [buffer_eq]
    exact (waits_offer hq hfed burst).toPaused
  | reset => exact absurd (if_neg hfed) hkept
  | adopt settings =>
    have htakes := takesOver_adopt b settings
    obtain ⟨htoList, hscanned⟩ := htakes.queued hq
    exact .of_eq htakes.keeps.1 htoList hscanned hlastTick
  | adjust queue_eq clock_eq =>
    exact .of_eq clock_eq (congrArg Queue.toList queue_eq) (congrArg Queue.scanned queue_eq)
      hlastTick
  | pin pid? unfed => exact absurd unfed hfed
  | repin => exact absurd rfl hkept
  | connect on => exact .of_eq rfl rfl rfl rfl

theorem nothing_taken_tick (b : Buffer) (now : Int) :
    (b.events (.tick now)).flatMap Event.accepted = [] := by
  rw [accepted_events]
  exact ite_self []

theorem paused_apply (hq : b.queue.Ordered) (hstalled : b.flow = .underflow since)
    (hlast : b.lastTick? = some last) (hstill : (b.apply op).buffer.flow.state = .underflow) :
    Paused b ((b.events op).flatMap Event.accepted) (b.apply op).buffer := by
  rcases op.tick_or_not with ⟨now, rfl⟩ | hop
  · rw [nothing_taken_tick]
    exact (waits_tick (awaits_tick hstalled hlast now) hlast hstill).1.toPaused
  · refine paused_untimed hq hop (by simp [hstalled]) fun hbuffering => ?_
    rw [hbuffering] at hstill
    cases hstill

def stalled (b : Buffer) (now : Int) : Buffer :=
  { b with flow := .underflow now, lastTick? := some now }

/-- A tick that ends the flow because too few blocks are counted, and does nothing else. -/
structure Stalls (b : Buffer) (now : Int) : Prop where
  running : b.flow = .running
  few : b.clock.blocks < b.settings.low.toNat
  buffer_eq : (b.tick now).buffer = b.stalled now
  sent_eq : (b.tick now).sent = #[]

theorem stalls_tick (hq : b.queue.Ordered) (hc : b.Consistent) (hrunning : b.flow = .running)
    (hstalled : (b.tick now).buffer.flow = .underflow since) : b.Stalls now := by
  have hticks := ticks b now
  generalize hs : b.tick now = s at hticks hstalled
  cases hticks with
  | jump =>
    refine absurd ?_ (not_stalled_dropAll b)
    exact state_eq_underflow_iff.mpr ⟨since, hstalled⟩
  | skip => exact absurd (hrunning.symm.trans hstalled) nofun
  | @count microseconds =>
    obtain ⟨asked, hadvance⟩ := advance_eq b now microseconds
    rw [hadvance, hrunning] at hstalled hs
    dsimp only at hstalled hs
    by_cases hfew : b.clock.blocks < b.settings.low.toNat
    · rw [play_of_few (b := b.timed now) hrunning hfew] at hs
      exact ⟨hrunning, hfew, congrArg Step.buffer hs, congrArg Step.sent hs⟩
    · have hpace := counts_pace (b := b.credited now microseconds) hq hrunning
        (Nat.le_trans hc.low_pos hc.low_le) now
      rw [play_of_enough hrunning (Nat.le_of_not_lt hfew)] at hstalled
      rcases hpace with hbuffering | ⟨hrun, _⟩
      · exact absurd (hbuffering.symm.trans hstalled) nofun
      · exact absurd (hrun.symm.trans hstalled) nofun

theorem paused_run (hq : b.queue.Ordered) (hc : b.Consistent) (hstart : b.flow.since? = none)
    (history : List Operation) (h : (b.run history).flow = .underflow since) :
    ∃ before middle, history = before ++ .tick since :: middle ∧ (b.run before).Stalls since ∧
      Paused ((b.run before).stalled since) (((b.run before).stalled since).accepted middle)
        (b.run history) := by
  induction history using List.reverseRecOn with
  | nil => exact absurd (hstart.symm.trans (Flow.since?_eq_some_iff.mpr h)) nofun
  | append_singleton history op ih =>
    have hlast : b.run (history ++ [op]) = ((b.run history).apply op).buffer := run_append _ _ _
    have hordered := (course_run hq history).ordered hq
    rw [hlast] at h
    rcases stalled_apply hordered (hc.run history) h with hbefore | ⟨rfl, hrunning⟩
    · obtain ⟨before, middle, hsplit, hstalls, hpaused⟩ := ih hbefore
      obtain ⟨last, _, hlastTick⟩ := hpaused.timed since rfl
      have hrest : b.run history = ((b.run before).stalled since).run middle := by
        rw [hsplit, run_append, ← hstalls.buffer_eq]
        rfl
      have hnext := paused_apply hordered hbefore hlastTick
        (state_eq_underflow_iff.mpr ⟨since, h⟩)
      refine ⟨before, middle ++ [op], by simp [hsplit], hstalls, ?_⟩
      have haccepted := accepted_concat ((b.run before).stalled since) middle op
      rw [← hrest, ← accepted_events] at haccepted
      rw [hlast, haccepted]
      exact hpaused.trans hnext
    · have hstalls := stalls_tick hordered (hc.run history) hrunning h
      refine ⟨history, [], rfl, hstalls, ?_⟩
      have hbuffer : ((b.run history).apply (.tick since)).buffer = (b.run history).stalled since :=
        hstalls.buffer_eq
      rw [hlast, hbuffer]
      exact .of_eq rfl rfl rfl rfl

/-- A burst, or a tick within a second of the last one that counted. -/
def Prompt (b : Buffer) : Operation → Prop
  | .push _ | .offer _ | .pushBytes _ => True
  | .tick now => ∃ last ∈ b.lastTick?, last ≤ now ∧ now ≤ last + 1000000000
  | _ => False

instance (b : Buffer) : DecidablePred b.Prompt
  | .tick now => inferInstanceAs
    (Decidable (∃ last ∈ b.lastTick?, last ≤ now ∧ now ≤ last + 1000000000))
  | .push _ | .offer _ | .pushBytes _ => isTrue trivial
  | .reset | .setThresholds _ _ | .setMaxSize _ | .setOptions _ | .setName _ | .setPid _
  | .setDelivers _ | .setAsks _ => isFalse id

/-- Bursts and prompt ticks from a stall up to its end at the latest, none of which gives the queue
up. -/
def Calm (b : Buffer) : List Operation → Prop
  | [] => True
  | op :: rest => b.flow.state = .underflow ∧ b.Prompt op ∧ (b.apply op).buffer.flow ≠ .buffering ∧
      (b.apply op).buffer.Calm rest

instance decidableCalm (b : Buffer) : (more : List Operation) → Decidable (b.Calm more)
  | [] => isTrue trivial
  | op :: rest =>
    have := decidableCalm (b.apply op).buffer rest
    inferInstanceAs (Decidable (b.flow.state = .underflow ∧ b.Prompt op ∧
      (b.apply op).buffer.flow ≠ .buffering ∧ (b.apply op).buffer.Calm rest))

/-- A tick that ends the stall, with no credit for the time before. -/
structure Ends (b : Buffer) (now : Int) : Prop where
  back : b.settings.low.toNat ≤ b.recount.clock.blocks
  buffer_eq : (b.tick now).buffer = (b.timed now).resumed
  sent_eq : (b.tick now).sent = #[]

/-- The operations leave the stall as it is. -/
structure Pausing (b : Buffer) (more : List Operation) : Prop where
  waits : Waits b (b.accepted more) (b.run more)
  silent : b.sent more = []

theorem Pausing.cons (hfirst : Waits b ((b.events op).flatMap Event.accepted) (b.apply op).buffer)
    (hsent : (b.apply op).sent = #[]) (h : (b.apply op).buffer.Pausing more) :
    b.Pausing (op :: more) := by
  constructor
  · rw [accepted_cons, ← accepted_events]
    exact hfirst.trans h.waits
  · rw [sent_cons, hsent, h.silent]
    rfl

theorem prompt_step (hq : b.queue.Ordered) (hstalled : b.flow = .underflow since)
    (hprompt : b.Prompt op) (hkept : (b.apply op).buffer.flow ≠ .buffering) :
    (Waits b ((b.events op).flatMap Event.accepted) (b.apply op).buffer ∧
      (b.apply op).sent = #[]) ∨ ∃ now, op = .tick now ∧ b.Ends now := by
  have hfed : b.flow ≠ .empty := by simp [hstalled]
  cases op with
  | push burst =>
    refine .inl ⟨?_, (sent_push b burst).2⟩
    change Waits b _ (b.push burst).buffer
    rw [buffer_push]
    exact waits_offer hq hfed burst
  | offer burst => exact .inl ⟨waits_offer hq hfed burst, (sent_push b burst).1⟩
  | pushBytes bytes =>
    refine .inl ⟨?_, sent_pushBytes b bytes⟩
    change Waits b _ (b.pushBytes bytes).buffer
    rw [buffer_pushBytes]
    exact waits_offer hq hfed _
  | tick now =>
    obtain ⟨last, hlast, hfrom, hto⟩ := hprompt
    have hnone := nothing_taken_tick b now
    have hawaits : b.Awaits since last now (b.apply (.tick now)) := awaits_tick hstalled hlast now
    generalize hs : b.apply (.tick now) = s at hawaits hkept
    cases hawaits with
    | jump far => omega
    | skip soon buffer_eq sent_eq =>
      rw [hnone, buffer_eq]
      exact .inl ⟨.refl b, sent_eq⟩
    | hold later few short buffer_eq sent_eq =>
      rw [hnone, buffer_eq]
      exact .inl ⟨waits_recount hlast later, sent_eq⟩
    | resume back buffer_eq sent_eq =>
      subst hs
      exact .inr ⟨now, rfl, back, buffer_eq, sent_eq⟩
    | giveUp _ _ buffer_eq =>
      rw [buffer_eq] at hkept
      refine absurd ?_ hkept
      exact if_neg hfed
  | _ => exact absurd hprompt id

theorem calm_run (hq : b.queue.Ordered) (hcalm : b.Calm more) :
    b.Pausing more ∨ ∃ init now, more = init ++ [.tick now] ∧ b.Pausing init ∧
      (b.run init).Ends now := by
  induction more generalizing b with
  | nil => exact .inl ⟨.refl b, rfl⟩
  | cons op rest ih =>
    obtain ⟨hstate, hprompt, hkept, hrest⟩ := hcalm
    obtain ⟨since, hstalled⟩ := state_eq_underflow_iff.mp hstate
    rcases prompt_step hq hstalled hprompt hkept with ⟨hwaits, hsent⟩ | ⟨now, rfl, hends⟩
    · rcases ih (ordered_apply hq op) hrest with hpausing | ⟨init, now, rfl, hpausing, hends⟩
      · exact .inl (hpausing.cons hwaits hsent)
      · exact .inr ⟨op :: init, now, rfl, hpausing.cons hwaits hsent, hends⟩
    · cases rest with
      | nil => exact .inr ⟨[], now, rfl, ⟨.refl b, rfl⟩, hends⟩
      | cons op' rest =>
        -- The flow goes on, so nothing follows that begins in a stall.
        have hrunning : (b.apply (.tick now)).buffer.flow = .running := by
          change (b.tick now).buffer.flow = .running
          rw [hends.buffer_eq]
          rfl
        rw [Calm, hrunning] at hrest
        exact absurd hrest.1 nofun

/-- Bursts and ticks that leave a stall as it is since its first tick, and what the next tick can
do. -/
structure Lasting (stall : Buffer) (since : Int) (middle : List Operation) (b : Buffer)
    (more : List Operation) : Prop extends Pausing b more where
  flow_eq : (b.run more).flow = .underflow since
  paused : Paused stall (stall.accepted (middle ++ more)) (b.run more)
  next : ∃ last, since ≤ last ∧ (b.run more).lastTick? = some last ∧
    ∀ now, (b.run more).Awaits since last now ((b.run more).tick now)

theorem stall_only_pauses (settings : Settings) (history : List Operation) (since : Int) :
    let start := (create settings).buffer
    let b := start.run history
    b.flow = .underflow since → ∃ before middle, history = before ++ .tick since :: middle ∧
      (start.run before).Stalls since ∧
      ∀ more, b.Calm more → Lasting ((start.run before).stalled since) since middle b more ∨
        ∃ init now, more = init ++ [.tick now] ∧
          Lasting ((start.run before).stalled since) since middle b init ∧
          (b.run init).Ends now := by
  intro start b hstalled
  have hnew := ordered_create settings
  have hq : b.queue.Ordered := (course_run hnew history).ordered hnew
  obtain ⟨before, middle, hsplit, hstalls, hpaused⟩ :=
    paused_run hnew (consistent_create settings) rfl history hstalled
  have hrest : b = ((start.run before).stalled since).run middle := by
    change start.run history = _
    rw [hsplit, run_append, ← hstalls.buffer_eq]
    rfl
  have hlasting : ∀ more, b.Pausing more →
      Lasting ((start.run before).stalled since) since middle b more := by
    intro more hpausing
    have hflow : (b.run more).flow = .underflow since := hpausing.waits.flow_eq.trans hstalled
    have hsince : Paused ((start.run before).stalled since)
        (((start.run before).stalled since).accepted (middle ++ more)) (b.run more) := by
      rw [accepted_append, ← hrest]
      exact hpaused.trans hpausing.waits.toPaused
    obtain ⟨last, hle, hlast⟩ := hsince.timed since rfl
    exact ⟨hpausing, hflow, hsince, last, hle, hlast, awaits_tick hflow hlast⟩
  refine ⟨before, middle, hsplit, hstalls, fun more hcalm => ?_⟩
  rcases calm_run hq hcalm with hpausing | ⟨init, now, hmore, hpausing, hends⟩
  · exact .inl (hlasting more hpausing)
  · exact .inr ⟨init, now, hmore, hlasting init hpausing, hends⟩

/-- Three readings are not enough for long: the fifth tick stalls, and three more are taken. -/
def stalledSample : List Operation :=
  [.push (readings 3), .tick 0, .tick 1000000, .tick 2000000, .tick 3000000, .tick 4000000,
    .tick 5000000, .push ((readings 6).drop 3)]

/-- More readings, a tick that does not count and the one that ends the stall. -/
theorem stall_only_pauses_sample :
    let b := (create { enough := 2, low := 2 }).buffer.run stalledSample
    let more := [.push (readings 2), .tick 5000500, .tick 6000000]
    b.flow = .underflow 5000000 ∧ b.Calm more ∧ ∃ init now, more = init ++ [.tick now] ∧
      b.Pausing init ∧ (b.run init).Ends now := by
  intro b more
  obtain ⟨hstalled, hcalm, hrunning⟩ :
      b.flow = .underflow 5000000 ∧ b.Calm more ∧ (b.run more).flow = .running := by
    decide +kernel
  obtain ⟨_, _, _, _, hpauses⟩ :=
    stall_only_pauses { enough := 2, low := 2 } stalledSample 5000000 hstalled
  refine ⟨hstalled, hcalm, ?_⟩
  rcases hpauses more hcalm with hlasting | ⟨init, now, hmore, hlasting, hends⟩
  · exact absurd (hrunning.symm.trans hlasting.flow_eq) nofun
  · exact ⟨init, now, hmore, hlasting.toPausing, hends⟩

/-- A tick half a microsecond after the last one does not count, so a tick a second after it comes
more than a second after the last that counted: the queue is dropped although enough blocks are
counted. And the tick that ends a stall counts the blocks. -/
theorem dropped_within_second :
    let b := (create { enough := 2, low := 2 }).buffer.run stalledSample
    b.flow = .underflow 5000000 ∧ b.settings.low.toNat ≤ b.recount.clock.blocks ∧
      b.queue.toList ≠ [] ∧ (b.tick 5000500).buffer.flow = .underflow 5000000 ∧
      ((b.tick 5000500).buffer.tick 1005000500).buffer.queue.toList = [] ∧
      ((b.tick 5000500).buffer.tick 1005000500).log = #[.clockJump (some 1000000500)] ∧
      (b.tick 6000000).buffer.flow = .running ∧
      (b.tick 6000000).buffer.clock.blocks ≠ b.clock.blocks := by
  decide +kernel

end PacedStream.Buffer
