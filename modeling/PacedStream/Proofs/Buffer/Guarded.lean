import PacedStream.Proofs.Buffer.Rounds
import PacedStream.Proofs.Buffer.Histories
import PacedStream.Proofs.Clock.Guarded

/-!
The guarded buffer: every operation with all that it asks of its queue checked on the way. Main
statement: whatever the settings and the history, nothing is refused, and the guarded history ends
as the other does.
-/

namespace PacedStream.Guarded
set_option autoImplicit false

variable {b : Buffer} {now : Int}

def sendFront (s : Step) : Option Step := do
  let b := s.buffer
  let front ← b.queue.slot? b.queue.head
  let queue ← pop b.queue
  return { s with
    buffer := { b with queue }
    sent := if b.delivers then s.sent.push front else s.sent }

def relearn (b : Buffer) : Option Buffer := do
  let queue ← rewind b.queue
  return { b with clock := b.clock.relearn, queue, flow := .buffering }

def dropAll (b : Buffer) : Option Buffer := do
  let queue ← clear b.queue
  let resized? ← resize queue queue.minSize
  return { b with
    queue := resized?.getD queue
    clock := b.clock.forget
    sizing := b.sizing.reset
    flow := if b.flow = .empty then .empty else .buffering }

def settle (b : Buffer) (now : Int) : Option Step := do
  let clock ← recount b.clock b.queue b.settings.enough.toNat
  let sizing := b.sizing.consider now
  match ← halve b.sizing b.queue now with
  | none => return { buffer := { b with clock, sizing } }
  | some queue =>
    return { buffer := { b with clock, sizing, queue }, log := #[.shrunk queue.size] }

def paceOnce (now : Int) (s : Step) : Option (Step × Bool) := do
  let b := s.buffer.spend
  if b.queue.head = b.queue.mark then
    let scan ← seek b.clock b.queue
    let log := s.log ++ scan.log
    if scan.found then
      let settled ← settle (b.withScan scan) now
      let after ← sendFront { s with buffer := settled.buffer, log := log ++ settled.log }
      return (after, true)
    else
      let buffer ← relearn (b.withScan scan)
      return ({ s with buffer, log := log.push .rebuffering }, false)
  else
    let after ← sendFront { s with buffer := b }
    return (after, true)

def paceLoop (now : Int) : Nat → Step → Option Step
  | 0, s => some s
  | n + 1, s =>
    if s.buffer.clock.quantum ≤ s.buffer.clock.credit then do
      let (after, flows) ← paceOnce now s
      if flows then paceLoop now n after else return after
    else some s

def pace (b : Buffer) (now : Int) : Option Step :=
  if b.clock.quantum ≤ 0 then some { buffer := b }
  else paceLoop now (b.queue.length + 1) { buffer := b }

def play (b : Buffer) (now : Int) (microseconds : Nat) : Option Step :=
  let (flow, action) := b.updateFlow now
  if action = .stall then
    some { buffer := { b with flow }, log := #[.underflow b.clock.blocks b.queue.length] }
  else
    let credit := Float.ofNat microseconds * Buffer.ticksPerMicrosecond
    pace { b with flow, clock := { b.clock with credit := b.clock.credit + credit } } now

def recounted (b : Buffer) : Option Buffer := do
  let clock ← recount b.clock b.queue b.settings.enough.toNat
  return { b with clock }

def tryStart (b : Buffer) (now : Int) : Option Step := do
  let b ← recounted b
  let (flow, action) := b.updateFlow now
  if action = .start then
    let queue ← rewind b.queue
    return {
      buffer := { b with clock := b.clock.rewind, queue, flow }
      log := #[.buffered b.clock.blocks b.queue.length b.clock.bitrate] }
  else return { buffer := { b with flow } }

def prepare (b : Buffer) (now : Int) : Option Step :=
  if b.clock.hasBlock then tryStart b now
  else do
    let scan ← seek b.clock b.queue
    let b := b.withScan scan
    if scan.found then
      let started ← tryStart b now
      return { started with log := scan.log ++ started.log }
    else return { buffer := b, log := scan.log }

def recover (b : Buffer) (now : Int) : Option Step := do
  let b ← recounted b
  let (flow, action) := b.updateFlow now
  let b := { b with flow }
  match action with
  | .reset => do
    let buffer ← dropAll b
    return { buffer, log := #[.idle Flow.maxStall] }
  | .resume stalled =>
    return {
      buffer := { b with clock := { b.clock with credit := 0 } }
      log := if Flow.notedStall ≤ stalled then #[.stalled stalled] else #[] }
  | _ => return { buffer := b }

def advance (b : Buffer) (now : Int) (microseconds : Nat) : Option Step := do
  let b := { b with lastTick? := some now }
  let asked := b.asks && b.clock.blocks < b.settings.enough.toNat
  let s : Step ← match b.flow with
    | .empty => some { buffer := b }
    | .buffering => prepare b now
    | .running => play b now microseconds
    | .underflow _ => recover b now
  return { s with asked }

def jump (b : Buffer) (now : Int) (elapsed? : Option Nat) : Option Step := do
  let dropped ← dropAll b
  return {
    buffer := { dropped with lastTick? := some now }
    log := if b.flow = .empty then #[] else #[.clockJump elapsed?] }

def tick (b : Buffer) (now : Int) : Option Step :=
  match b.lastTick? with
  | none => some { buffer := { b with lastTick? := some now } }
  | some last =>
    match Instant.since? now last with
    | none => jump b now none
    | some elapsed =>
      if Buffer.jumpLimit < elapsed then jump b now (some elapsed)
      else if Span.wholeMicroseconds elapsed = 0 then some { buffer := b }
      else advance b now (Span.wholeMicroseconds elapsed)

def reset (b : Buffer) : Option Step := do
  let buffer ← dropAll b
  return { buffer, log := #[.reset] }

def offer (b : Buffer) (burst : List Packet) : Option Step :=
  if burst.isEmpty then some { buffer := b }
  else do
    let growth ← makeRoom b.sizing b.queue burst.length
    let fed := { b with flow := b.flow.feed, queue := growth.queue }
    if growth.enough then
      let queue ← push growth.queue burst
      return { buffer := { fed with queue }, log := growth.log.toArray }
    else
      return {
        buffer := fed
        log := growth.log.toArray
        fault? := some (if b.clock.locked then .full burst.length else .noClock burst.length) }

def pushBurst (b : Buffer) (burst : List Packet) : Option Step := do
  let s ← offer b burst
  match s.fault? with
  | none => return s
  | some fault => return { s with log := s.log.push (.dropped fault) }

def pushBytes (b : Buffer) (bytes : List UInt8) : Option Step := do
  let framing := Packet.frame .empty bytes
  let s ← pushBurst b framing.packets.toList
  if framing.carry.size = 0 then return s
  else return { s with log := #[.trailingBytes framing.carry.size] ++ s.log }

def adopt (b : Buffer) (settings : Settings) : Option Step :=
  let maxSize := Buffer.maxSlots settings
  let b := { b with settings, sizing := { b.sizing with maxSize } }
  if b.queue.size ≤ maxSize then some { buffer := b }
  else do
    match ← resize b.queue maxSize with
    | some queue => return { buffer := { b with queue } }
    | none => return { buffer := b, log := #[.stillLarge b.queue.length maxSize] }

def setMaxSize (b : Buffer) (megabytes : Nat) : Option Step :=
  match Settings.checkMegabytes megabytes with
  | .error fault => some (b.refuse fault)
  | .ok () =>
    adopt b { b.settings with maxBytes := UInt64.ofNat (megabytes * Settings.bytesPerMegabyte) }

def setOptions (b : Buffer) (options : String) : Option Step :=
  match b.settings.withOptions options.toList with
  | .error fault => some (b.refuse fault)
  | .ok settings => adopt b settings

def setPid (b : Buffer) (pid? : Option UInt16) : Option Step :=
  match Buffer.checkPid? pid? with
  | .error fault => some (b.refuse fault)
  | .ok () => do
    let b := { b with settings := { b.settings with pid? }, clock := b.clock.pin pid? }
    if b.flow = .empty then return { buffer := b }
    else
      let buffer ← relearn b
      return { buffer }

def apply (b : Buffer) : Buffer.Operation → Option Step
  | .push burst => pushBurst b burst
  | .offer burst => offer b burst
  | .pushBytes bytes => pushBytes b bytes
  | .tick now => tick b now
  | .reset => reset b
  | .setThresholds enough low => some (b.setThresholds enough low)
  | .setMaxSize megabytes => setMaxSize b megabytes
  | .setOptions options => setOptions b options
  | .setName name => some (b.setName name)
  | .setPid pid? => setPid b pid?
  | .setDelivers on => some { buffer := { b with delivers := on } }
  | .setAsks on => some { buffer := { b with asks := on } }

/-- The buffer after a history of which nothing is refused. -/
def run (b : Buffer) (history : List Buffer.Operation) : Option Buffer :=
  history.foldlM (fun b op => (apply b op).map Step.buffer) b

theorem sendFront_eq {s : Step} (hq : s.buffer.queue.Ordered)
    (lead : s.buffer.queue.head ≠ s.buffer.queue.mark) :
    sendFront s = some (Buffer.sendFront s) := by
  unfold sendFront
  simp only [slot?_eq hq.head_lt, pop_eq hq (hq.head_ne_tail lead), Option.bind_eq_bind,
    Option.bind_some]
  rfl

theorem relearn_eq (hq : b.queue.Ordered) : relearn b = some b.relearn := by
  unfold relearn
  rw [rewind_eq hq]
  rfl

theorem dropAll_eq (hq : b.queue.Ordered) : dropAll b = some b.dropAll := by
  unfold dropAll
  simp only [clear_eq hq, resize_eq (Queue.ordered_clear hq), Option.bind_eq_bind,
    Option.bind_some]
  rfl

theorem settle_eq (hq : b.queue.Ordered) (now : Int) : settle b now = some (b.settle now) := by
  unfold settle Buffer.settle
  simp only [recount_eq b.clock hq, halve_eq b.sizing hq, Option.bind_eq_bind, Option.bind_some]
  cases b.sizing.halve? b.queue now <;> rfl

/-- After a scan that finds a block there is a packet in front of the mark, and a change of size
moves it to another slot but keeps it in front. -/
theorem lead_settle (hq : b.queue.Ordered) (hfound : b.sought.found = true) (now : Int) :
    ((b.withScan b.sought).settle now).buffer.queue.Ordered ∧
      ((b.withScan b.sought).settle now).buffer.queue.head ≠
        ((b.withScan b.sought).settle now).buffer.queue.mark := by
  obtain ⟨hsettled, hpassed, _⟩ : ((b.withScan b.sought).settle now).buffer.queue.Ordered ∧ _ :=
    Buffer.lists_settle (b := b.withScan b.sought) (Buffer.ordered_sought hq)
  refine ⟨hsettled, fun hmark => ?_⟩
  have hnil := hsettled.head_eq_mark_iff.mp hmark
  rw [hpassed] at hnil
  exact (Buffer.times_sought hq hfound).ne_nil hnil

theorem paceOnce_eq {s : Step} (hq : s.buffer.queue.Ordered) (now : Int) :
    paceOnce now s = some (Buffer.paceOnce now s) := by
  have hspent : s.buffer.spend.queue.Ordered := hq
  have hseek : seek s.buffer.spend.clock s.buffer.spend.queue = some s.buffer.spend.sought :=
    seek_eq _ hspent
  have hsought : s.buffer.spend.sought.queue.Ordered := Buffer.ordered_sought hspent
  unfold paceOnce Buffer.paceOnce
  dsimp only
  split
  · rw [hseek, Option.bind_eq_bind, Option.bind_some]
    change _ = some (if s.buffer.spend.sought.found = true then _ else _)
    split
    · rename_i hfound
      obtain ⟨hsettled, hlead⟩ := lead_settle hspent hfound now
      have hsettle := settle_eq (b := s.buffer.spend.withScan s.buffer.spend.sought) hsought now
      have hsend := sendFront_eq (s := { s with
        buffer := ((s.buffer.spend.withScan s.buffer.spend.sought).settle now).buffer
        log := s.log ++ s.buffer.spend.sought.log ++
          ((s.buffer.spend.withScan s.buffer.spend.sought).settle now).log }) hsettled hlead
      simp only [hsettle, Option.bind_eq_bind, Option.bind_some, hsend]
      rfl
    · have hrelearn := relearn_eq (b := s.buffer.spend.withScan s.buffer.spend.sought) hsought
      simp only [hrelearn, Option.bind_eq_bind, Option.bind_some]
      rfl
  · rename_i hlead
    have hsend := sendFront_eq (s := { s with buffer := s.buffer.spend }) hspent hlead
    simp only [hsend, Option.bind_eq_bind, Option.bind_some]
    rfl

theorem paceLoop_eq (now : Int) (n : Nat) {s : Step} (hq : s.buffer.queue.Ordered)
    (hrun : s.buffer.flow = .running) :
    paceLoop now n s = some (Buffer.paceLoop now n s) := by
  induction n generalizing s with
  | zero => rfl
  | succ n ih =>
    unfold paceLoop Buffer.paceLoop
    split
    · rw [paceOnce_eq hq]
      cases hmoment : s.buffer.moment? now with
      | none =>
        obtain ⟨log, honce⟩ := Buffer.paceOnce_of_lost hmoment
        rw [honce]
        rfl
      | some m =>
        obtain ⟨log, honce⟩ := Buffer.paceOnce_of_moment hmoment
        obtain ⟨_, hordered, hrunning, hlead⟩ := Buffer.course_moment hq hrun hmoment
        rw [honce]
        exact ih (Queue.ordered_pop hordered (hordered.head_ne_tail hlead)) hrunning
    · rfl

theorem pace_eq (hq : b.queue.Ordered) (hrun : b.flow = .running) (now : Int) :
    pace b now = some (b.pace now) := by
  unfold pace Buffer.pace
  split
  · rfl
  · exact paceLoop_eq now _ hq hrun

theorem play_eq (hq : b.queue.Ordered) (hrun : b.flow = .running) (now : Int)
    (microseconds : Nat) : play b now microseconds = some (b.play now microseconds) := by
  unfold play Buffer.play
  rw [Buffer.updateFlow_running hrun]
  by_cases hfew : b.clock.blocks < b.settings.low.toNat
  · rw [if_pos hfew]
    rfl
  · rw [if_neg hfew]
    exact pace_eq (b := { b with
        flow := .running
        clock := { b.clock with
          credit := b.clock.credit + Float.ofNat microseconds * Buffer.ticksPerMicrosecond } })
      hq rfl now

theorem recounted_eq (hq : b.queue.Ordered) : recounted b = some b.recount := by
  unfold recounted
  rw [recount_eq b.clock hq]
  rfl

theorem tryStart_eq (hq : b.queue.Ordered) (now : Int) :
    tryStart b now = some (b.tryStart now) := by
  have hrewind : rewind b.recount.queue = some b.recount.queue.rewind := rewind_eq hq
  unfold tryStart Buffer.tryStart
  simp only [recounted_eq hq, Option.bind_eq_bind, Option.bind_some]
  split
  · rw [hrewind]
    rfl
  · rfl

theorem prepare_eq (hq : b.queue.Ordered) (now : Int) : prepare b now = some (b.prepare now) := by
  unfold prepare Buffer.prepare
  split
  · exact tryStart_eq hq now
  · have hsought : (b.withScan (b.clock.seek b.queue)).queue.Ordered := Buffer.ordered_sought hq
    simp only [seek_eq _ hq, Option.bind_eq_bind, Option.bind_some]
    split
    · rw [tryStart_eq hsought]
      rfl
    · rfl

theorem recover_eq (hq : b.queue.Ordered) (now : Int) : recover b now = some (b.recover now) := by
  have hdrop : dropAll { b.recount with flow := (b.recount.updateFlow now).1 } =
      some { b.recount with flow := (b.recount.updateFlow now).1 }.dropAll := dropAll_eq hq
  unfold recover Buffer.recover
  simp only [recounted_eq hq, Option.bind_eq_bind, Option.bind_some]
  cases (b.recount.updateFlow now).2 with
  | reset =>
    simp only [hdrop, Option.bind_some]
    rfl
  | hold | start | run | stall | resume => rfl

theorem advance_eq (hq : b.queue.Ordered) (now : Int) (microseconds : Nat) :
    advance b now microseconds = some (b.advance now microseconds) := by
  have htimed : (b.timed now).queue.Ordered := hq
  unfold advance Buffer.advance
  dsimp only
  cases hflow : b.flow with
  | empty => rfl
  | buffering =>
    have hprepare := prepare_eq htimed now
    unfold Buffer.timed at hprepare
    rw [hflow] at hprepare
    simp only [hprepare, Option.bind_eq_bind, Option.bind_some]
    rfl
  | running =>
    have hplay := play_eq htimed hflow now microseconds
    unfold Buffer.timed at hplay
    rw [hflow] at hplay
    simp only [hplay, Option.bind_eq_bind, Option.bind_some]
    rfl
  | underflow since =>
    have hrecover := recover_eq htimed now
    unfold Buffer.timed at hrecover
    rw [hflow] at hrecover
    simp only [hrecover, Option.bind_eq_bind, Option.bind_some]
    rfl

theorem jump_eq (hq : b.queue.Ordered) (now : Int) (elapsed? : Option Nat) :
    jump b now elapsed? = some (b.jump now elapsed?) := by
  unfold jump
  rw [dropAll_eq hq]
  rfl

theorem tick_eq (hq : b.queue.Ordered) (now : Int) : tick b now = some (b.tick now) := by
  unfold tick Buffer.tick
  cases b.lastTick? with
  | none => rfl
  | some last =>
    dsimp only
    cases Instant.since? now last with
    | none => exact jump_eq hq now none
    | some elapsed =>
      dsimp only
      split
      · exact jump_eq hq now _
      · split
        · rfl
        · exact advance_eq hq now _

theorem offer_eq (hq : b.queue.Ordered) (burst : List Packet) :
    offer b burst = some (b.offer burst) := by
  have hgrown : (b.sizing.makeRoom b.queue burst.length).queue.Ordered :=
    Sizing.grow_induct (motive := Queue.Ordered) _ _ _
      (fun hresize hordered => (Queue.resized_of_resize? hordered hresize).ordered) hq
  unfold offer Buffer.offer
  split
  · rfl
  · simp only [makeRoom_eq b.sizing hq, Option.bind_eq_bind, Option.bind_some]
    split
    · rename_i henough
      have hroom := Sizing.le_room_of_enough _ _ _ henough
      have hpush : (b.sizing.makeRoom b.queue burst.length).queue.push? burst =
          some (burst.foldl Queue.write (b.sizing.makeRoom b.queue burst.length).queue) :=
        if_pos hroom
      rw [push_eq hgrown hroom, hpush]
      rfl
    · rfl

theorem pushBurst_eq (hq : b.queue.Ordered) (burst : List Packet) :
    pushBurst b burst = some (b.push burst) := by
  unfold pushBurst Buffer.push
  simp only [offer_eq hq, Option.bind_eq_bind, Option.bind_some]
  cases (b.offer burst).fault? <;> rfl

theorem pushBytes_eq (hq : b.queue.Ordered) (bytes : List UInt8) :
    pushBytes b bytes = some (b.pushBytes bytes) := by
  unfold pushBytes Buffer.pushBytes
  simp only [pushBurst_eq hq, Option.bind_eq_bind, Option.bind_some]
  split <;> rfl

theorem adopt_eq (hq : b.queue.Ordered) (settings : Settings) :
    adopt b settings = some (b.adopt settings) := by
  unfold adopt Buffer.adopt
  dsimp only
  split
  · rfl
  · rw [resize_eq hq]
    cases b.queue.resize? (Buffer.maxSlots settings) <;> rfl

theorem setMaxSize_eq (hq : b.queue.Ordered) (megabytes : Nat) :
    setMaxSize b megabytes = some (b.setMaxSize megabytes) := by
  unfold setMaxSize Buffer.setMaxSize
  cases Settings.checkMegabytes megabytes with
  | error fault => rfl
  | ok => exact adopt_eq hq _

theorem setOptions_eq (hq : b.queue.Ordered) (options : String) :
    setOptions b options = some (b.setOptions options) := by
  unfold setOptions Buffer.setOptions
  cases b.settings.withOptions options.toList with
  | error fault => rfl
  | ok settings => exact adopt_eq hq settings

theorem setPid_eq (hq : b.queue.Ordered) (pid? : Option UInt16) :
    setPid b pid? = some (b.setPid pid?) := by
  unfold setPid Buffer.setPid
  cases Buffer.checkPid? pid? with
  | error fault => rfl
  | ok =>
    have hrelearn := relearn_eq (b := { b with
      settings := { b.settings with pid? }
      clock := b.clock.pin pid? }) hq
    dsimp only
    split
    · rfl
    · rw [hrelearn]
      rfl

theorem apply_eq (hq : b.queue.Ordered) (op : Buffer.Operation) :
    apply b op = some (b.apply op) := by
  cases op with
  | push burst => exact pushBurst_eq hq burst
  | offer burst => exact offer_eq hq burst
  | pushBytes bytes => exact pushBytes_eq hq bytes
  | tick now => exact tick_eq hq now
  | reset =>
    unfold apply reset
    rw [dropAll_eq hq]
    rfl
  | setMaxSize megabytes => exact setMaxSize_eq hq megabytes
  | setOptions options => exact setOptions_eq hq options
  | setPid pid? => exact setPid_eq hq pid?
  | setThresholds | setName | setDelivers | setAsks => rfl

theorem run_eq (hq : b.queue.Ordered) (history : List Buffer.Operation) :
    run b history = some (b.run history) := by
  induction history generalizing b with
  | nil => rfl
  | cons op rest ih =>
    rw [run, List.foldlM_cons, apply_eq hq]
    exact ih (Buffer.ordered_apply hq op)

theorem nothing_refused (settings : Settings) (history : List Buffer.Operation) :
    let b := (Buffer.create settings).buffer
    run b history = some (b.run history) ∧
    (∀ op, apply (b.run history) op = some ((b.run history).apply op)) ∧
    Sound (b.run history).queue := by
  intro b
  have hq : b.queue.Ordered := Buffer.ordered_create settings
  have hq' : (b.run history).queue.Ordered := (Buffer.course_run hq history).ordered hq
  exact ⟨run_eq hq history, apply_eq hq', sound_of_ordered hq'⟩

end PacedStream.Guarded
