import PacedStream.Proofs.Queue.Capacity
import PacedStream.Proofs.Buffer.Backed
import PacedStream.Proofs.Buffer.Bursts
import PacedStream.Proofs.Buffer.Fifo

/-!
Which bursts are taken. Main statements: a burst is taken exactly if it leaves a slot unused at the
greatest size, or at the size there is if that is greater; what else the queue and the clock hold is
the same either way. Ticks make no queue longer, so bursts that fit all at once are all taken. A
burst may come in two parts, which leave it in the same slots even if the queue grows between them.
-/

namespace PacedStream.Buffer
set_option autoImplicit false

variable {b b' : Buffer} {es : List Event} {burst : List Packet} {now : Int} {op : Operation}

structure Answers (b : Buffer) (burst : List Packet) (s : Step) : Prop where
  accepted_iff : s.accepted = true ↔
    b.queue.length + burst.length < max b.queue.size b.sizing.maxSize
  taken : s.accepted = true → ∃ queue k,
    s.buffer = { b with flow := if b.flow = .empty then .buffering else b.flow, queue } ∧
      queue.toList = b.queue.toList ++ burst ∧ queue.scanned = b.queue.scanned ∧
      Sizing.FirstFit b.sizing.maxSize b.queue.size (b.queue.length + burst.length) k ∧
      queue.size = Sizing.sizeAfter b.sizing.maxSize b.queue.size k
  refused : s.accepted = false → ∃ queue,
    s.buffer = { b with flow := if b.flow = .empty then .buffering else b.flow, queue } ∧
      queue.toList = b.queue.toList ∧ queue.scanned = b.queue.scanned ∧
      queue.size = max b.queue.size b.sizing.maxSize ∧
      s.fault? = some (if b.clock.locked then .full burst.length else .noClock burst.length)

theorem feed_eq (f : Flow) : f.feed = if f = .empty then .buffering else f := by
  cases f <;> rfl

theorem offer_of_short (hne : burst ≠ [])
    (h : (b.sizing.makeRoom b.queue burst.length).enough = false) :
    b.offer burst =
      { buffer := { b with
          flow := b.flow.feed
          queue := (b.sizing.makeRoom b.queue burst.length).queue }
        log := (b.sizing.makeRoom b.queue burst.length).log.toArray
        fault? := some (if b.clock.locked then .full burst.length else .noClock burst.length) } := by
  have hempty : ¬ burst.isEmpty = true := by simpa using hne
  unfold offer
  rw [if_neg hempty]
  dsimp only
  rw [if_neg (by simp [h])]

theorem scanned_eq_of_passed {q r : Queue Packet} (h : r.passed = q.passed) :
    r.scanned = q.scanned := by
  rw [← Queue.length_passed, h, Queue.length_passed]

theorem TakesOver.queued {settings : Settings} {s : Step} (hq : b.queue.Ordered)
    (h : TakesOver b settings s) : s.buffer.queue.toList = b.queue.toList ∧
      s.buffer.queue.scanned = b.queue.scanned := by
  cases h with
  | stays => exact ⟨rfl, rfl⟩
  | moves _ hresize =>
    have hresized := Queue.resized_of_resize? hq hresize
    exact ⟨hresized.toList_eq hq, scanned_eq_of_passed hresized.passed_eq⟩

theorem answers_offer (hq : b.queue.Ordered) (hne : burst ≠ []) :
    Answers b burst (b.offer burst) := by
  obtain ⟨hgrown, hpassed, hahead⟩ := Sizing.lists_makeRoom hq b.sizing burst.length
  by_cases hfits : b.queue.length + burst.length < max b.queue.size b.sizing.maxSize
  · obtain ⟨henough, k, hfirst, hsize⟩ := Sizing.grow_of_fits hq (Nat.le_refl _) hfits
    have haccepted : (b.offer burst).accepted = true := (accepted_offer hne).trans henough
    refine ⟨iff_of_true haccepted hfits, fun _ => ?_, fun hrefused => ?_⟩
    · have hroom := (Queue.le_room_iff hgrown).mp (Sizing.le_room_of_enough _ _ _ henough)
      have hpushed := Queue.pushed_foldl hgrown hroom
      refine ⟨_, k, ?_, ?_, ?_, hfirst, hpushed.size_eq.trans hsize⟩
      · rw [offer_of_enough hne henough, feed_eq]
      · rw [hpushed.toList_eq hgrown, hgrown.toList_eq, hpassed, hahead, ← hq.toList_eq]
      · exact scanned_eq_of_passed (hpushed.passed_eq.trans hpassed)
    · rw [haccepted] at hrefused
      cases hrefused
  · obtain ⟨hshort, hsize⟩ := Sizing.grow_of_excess hq (Nat.le_refl _) (Nat.le_of_not_lt hfits)
    have hrefused : (b.offer burst).accepted = false := (accepted_offer hne).trans hshort
    refine ⟨iff_of_false (by simp [hrefused]) hfits, fun haccepted => ?_, fun _ => ?_⟩
    · rw [hrefused] at haccepted
      cases haccepted
    · refine ⟨_, ?_, ?_, scanned_eq_of_passed hpassed, hsize, ?_⟩
      · rw [offer_of_short hne hshort, feed_eq]
      · rw [hgrown.toList_eq, hpassed, hahead, ← hq.toList_eq]
      · rw [offer_of_short hne hshort]

theorem length_effect (h : Effect b es b') :
    b'.queue.length ≤ b.queue.length + (es.flatMap Event.accepted).length := by
  rw [← Queue.length_toList, ← Queue.length_toList]
  cases h with
  | scan follows => exact follows.suffix.length_le
  | take _ toList_eq =>
    rw [toList_eq, List.flatMap_singleton, List.length_append]
    exact Nat.le_refl _
  | send _ toList_eq =>
    rw [toList_eq]
    exact Nat.le_succ _
  | empty toList_eq =>
    rw [toList_eq]
    exact Nat.zero_le _
  | connect _ toList_eq =>
    rw [toList_eq]
    exact Nat.le_refl _

theorem length_course (h : Course b es b') (hq : b.queue.Ordered) :
    b'.queue.length ≤ b.queue.length + (es.flatMap Event.accepted).length := by
  induction h with
  | done => exact Nat.le_refl _
  | step hmove _ ih =>
    have hfirst := length_effect (effect_move hmove hq)
    have hrest := ih (ordered_move hmove hq)
    rw [List.flatMap_append, List.length_append]
    omega

theorem length_apply_le (hq : b.queue.Ordered) (op : Operation) :
    (b.apply op).buffer.queue.length ≤ b.queue.length + op.burst.length := by
  have hle := length_course (course_apply hq op).1 hq
  rw [accepted_events] at hle
  split at hle
  · exact hle
  · exact Nat.le_trans hle (Nat.add_le_add_left (Nat.zero_le _) _)

theorem accepted_pace (b : Buffer) (now : Int) : (b.pace now).accepted = true := by
  unfold pace
  split
  · rfl
  · have hrounds := paceLoop_induct now (fun s => s.accepted = true) (fun s => s.accepted = true)
      (b.queue.length + 1) (s := { buffer := b }) (fun _ h _ => h) (fun _ h _ => h) rfl
    exact hrounds.elim id id

theorem accepted_tryStart (b : Buffer) (now : Int) : (b.tryStart now).accepted = true := by
  unfold tryStart
  dsimp only
  split <;> rfl

theorem accepted_prepare (b : Buffer) (now : Int) : (b.prepare now).accepted = true := by
  unfold prepare
  split
  · exact accepted_tryStart b now
  · dsimp only
    split
    · exact accepted_tryStart _ now
    · rfl

theorem accepted_recover (b : Buffer) (now : Int) : (b.recover now).accepted = true := by
  unfold recover
  dsimp only
  split <;> rfl

theorem accepted_tick (b : Buffer) (now : Int) : (b.tick now).accepted = true := by
  have hticks := ticks b now
  generalize b.tick now = s at hticks
  cases hticks with
  | jump | skip => rfl
  | @count microseconds =>
    obtain ⟨asked, hadvance⟩ := advance_eq b now microseconds
    rw [hadvance]
    cases hflow : b.flow with
    | empty => rfl
    | buffering => exact accepted_prepare (b.timed now) now
    | running =>
      change ((b.timed now).play now microseconds).accepted = true
      by_cases hfew : b.clock.blocks < b.settings.low.toNat
      · rw [play_of_few (b := b.timed now) hflow hfew]
        rfl
      · rw [play_of_enough hflow (Nat.le_of_not_lt hfew)]
        exact accepted_pace _ _
    | underflow => exact accepted_recover (b.timed now) now

/-- A burst or a tick. -/
def Operation.flows : Operation → Bool
  | .push _ | .offer _ | .pushBytes _ | .tick _ => true
  | _ => false

theorem accepted_offer_of_fits (hq : b.queue.Ordered)
    (hfits : b.queue.length + burst.length < b.sizing.maxSize) : (b.offer burst).accepted = true := by
  by_cases hne : burst = []
  · rw [hne]
    exact accepted_of_nil b
  · exact (answers_offer hq hne).accepted_iff.mpr
      (Nat.lt_of_lt_of_le hfits (Nat.le_max_right _ _))

theorem accepted_of_flows (hq : b.queue.Ordered) (hop : op.flows = true)
    (hfits : b.queue.length + op.burst.length < b.sizing.maxSize) :
    (b.apply op).accepted = true := by
  cases op with
  | push burst => exact (accepted_push b burst).trans (accepted_offer_of_fits hq hfits)
  | offer burst => exact accepted_offer_of_fits hq hfits
  | pushBytes bytes => exact (accepted_pushBytes b bytes).trans (accepted_offer_of_fits hq hfits)
  | tick now => exact accepted_tick b now
  | _ => cases hop

theorem maxSize_of_flows (b : Buffer) (hop : op.flows = true) :
    (b.apply op).buffer.sizing.maxSize = b.sizing.maxSize := by
  cases op with
  | push burst =>
    change (b.push burst).buffer.sizing.maxSize = _
    rw [buffer_push]
    exact (fixed_offer b burst).maxSize_eq
  | offer burst => exact (fixed_offer b burst).maxSize_eq
  | pushBytes bytes =>
    change (b.pushBytes bytes).buffer.sizing.maxSize = _
    rw [buffer_pushBytes]
    exact (fixed_offer b _).maxSize_eq
  | tick now => exact (fixed_tick b now).maxSize_eq
  | _ => cases hop

theorem accepted_run {more : List Operation} (hq : b.queue.Ordered)
    (hmore : ∀ op ∈ more, op.flows = true)
    (hfits : b.queue.length + (more.flatMap Operation.burst).length < b.sizing.maxSize)
    {before after : List Operation} (hsplit : more = before ++ op :: after) :
    ((b.run before).apply op).accepted = true := by
  induction before generalizing b more with
  | nil =>
    rw [hsplit, List.nil_append, List.flatMap_cons, List.length_append] at hfits
    have hop := hmore op (hsplit ▸ List.mem_cons_self)
    have hfirst : b.queue.length + op.burst.length < b.sizing.maxSize := by omega
    exact accepted_of_flows hq hop hfirst
  | cons first before ih =>
    rw [hsplit, List.cons_append, List.flatMap_cons, List.length_append] at hfits
    rw [hsplit, List.cons_append] at hmore
    have hlength := length_apply_le hq first
    have hmaxSize := maxSize_of_flows b (hmore first List.mem_cons_self)
    have hrest : (b.apply first).buffer.queue.length +
        ((before ++ op :: after).flatMap Operation.burst).length <
          (b.apply first).buffer.sizing.maxSize := by
      rw [hmaxSize]
      omega
    exact ih (ordered_apply hq first) (fun op hop => hmore op (List.mem_cons_of_mem _ hop)) hrest rfl

theorem bursts_answered (settings : Settings) (history : List Operation) :
    let b := (create settings).buffer.run history
    (∀ burst : List Packet, burst ≠ [] → Answers b burst (b.offer burst)) ∧
    ∀ more : List Operation, (∀ op ∈ more, op.flows = true) →
      b.queue.length + (more.flatMap Operation.burst).length ≤ b.sizing.maxSize - 1 →
      ∀ before op after, more = before ++ op :: after →
        ((b.run before).apply op).accepted = true := by
  intro b
  have hq : b.queue.Ordered := (course_run (ordered_create settings) history).ordered
    (ordered_create settings)
  have hmax : 1365 ≤ b.sizing.maxSize := by
    rw [((consistent_create settings).run history).maxSize_eq]
    exact Nat.le_max_right _ _
  refine ⟨fun burst hne => answers_offer hq hne, fun more hmore hfits before op after hsplit => ?_⟩
  exact accepted_run hq hmore (by omega) hsplit

/-- The least greatest size leaves room for 1364 packets, at once or with a tick between two halves
of them, and for none more. -/
theorem bursts_answered_at_limit :
    let b := (create { maxBytes := 1 }).buffer.run []
    let half := List.replicate 682 Packet.stuffing
    (b.offer (half ++ half)).accepted = true ∧
      (b.offer (half ++ Packet.stuffing :: half)).accepted = false ∧
      ((b.run [.push half, .tick 0]).apply (.push half)).accepted = true := by
  intro b half
  have hlength : b.queue.length = 0 := by decide +kernel
  have hsize : b.queue.size = 1365 := by decide +kernel
  have hmaxSize : b.sizing.maxSize = 1365 := by decide +kernel
  have hanswers : ∀ burst : List Packet, burst ≠ [] →
      ((b.offer burst).accepted = true ↔ burst.length < 1365) := by
    intro burst hne
    rw [((bursts_answered { maxBytes := 1 } []).1 burst hne).accepted_iff, hlength, hsize, hmaxSize,
      Nat.zero_add, Nat.max_self]
  have hhalf : half.length = 682 := List.length_replicate
  clear_value half
  have hall : (half ++ half).length = 1364 := by rw [List.length_append, hhalf]
  have hmore : (half ++ Packet.stuffing :: half).length = 1365 := by
    rw [List.length_append, List.length_cons, hhalf]
  have hboth : ([.push half, .tick 0, .push half].flatMap Operation.burst).length = 1364 := by
    rw [← hall]
    simp [Operation.burst]
  have hfits : b.queue.length + ([.push half, .tick 0, .push half].flatMap Operation.burst).length ≤
      b.sizing.maxSize - 1 := by
    omega
  refine ⟨?_, Bool.eq_false_iff.mpr fun haccepted => ?_, ?_⟩
  · exact (hanswers _ (List.ne_nil_of_length_pos (by omega))).mpr (by omega)
  · have hlt := (hanswers _ (List.ne_nil_of_length_pos (by omega))).mp haccepted
    omega
  · exact (bursts_answered { maxBytes := 1 } []).2 [.push half, .tick 0, .push half]
      (by simp [Operation.flows]) hfits [.push half, .tick 0] (.push half) [] rfl

theorem burst_splits (settings : Settings) (history : List Operation) (first second : List Packet) :
    let b := (create settings).buffer.run history
    let whole := b.offer (first ++ second)
    let rest := (b.offer first).buffer.offer second
    (whole.accepted = true ↔ (b.offer first).accepted = true ∧ rest.accepted = true) ∧
      (whole.accepted = true →
        whole.buffer = rest.buffer ∧ whole.log = (b.offer first).log ++ rest.log) := by
  intro b whole rest
  have hq : b.queue.Ordered := (course_run (ordered_create settings) history).ordered
    (ordered_create settings)
  refine ⟨?_, fun haccepted => offer_append hq haccepted⟩
  rw [← Bool.and_eq_true, ← accepted_offer_append hq first second]

/-- The slots after a burst for which the first `k` doublings are the least that do. -/
theorem size_offer_of_firstFit {k : Nat} (hq : b.queue.Ordered) (hne : burst ≠ [])
    (hfirst : Sizing.FirstFit b.sizing.maxSize b.queue.size (b.queue.length + burst.length) k)
    (haccepted : (b.offer burst).accepted = true) :
    (b.offer burst).buffer.queue.size = Sizing.sizeAfter b.sizing.maxSize b.queue.size k := by
  obtain ⟨queue, j, hbuffer, _, _, hfit, hsize⟩ := (answers_offer hq hne).taken haccepted
  rw [hbuffer, ← hfit.unique hfirst]
  exact hsize

/-- Doubled and then brought to the greatest size, in one step or in two. -/
theorem burst_splits_growing :
    let b := (create { maxBytes := 752000 }).buffer.run []
    let half := List.replicate 1500 Packet.stuffing
    let rest := (b.offer half).buffer.offer half
    (b.offer (half ++ half)).accepted = true ∧ (b.offer half).buffer.queue.size = 2730 ∧
      rest.buffer.queue.size = 4000 ∧ (b.offer (half ++ half)).buffer = rest.buffer := by
  intro b half rest
  have hq : b.queue.Ordered := ordered_create { maxBytes := 752000 }
  have hlength : b.queue.length = 0 := by decide +kernel
  have hsize : b.queue.size = 1365 := by decide +kernel
  have hmaxSize : b.sizing.maxSize = 4000 := by decide +kernel
  have hhalf : half.length = 1500 := List.length_replicate
  have hsplits := burst_splits { maxBytes := 752000 } [] half half
  clear_value half
  have hne : half ≠ [] := List.ne_nil_of_length_pos (by omega)
  have hwhole : half ++ half ≠ [] := List.append_ne_nil_of_left_ne_nil hne _
  have haccepted : (b.offer (half ++ half)).accepted = true := by
    rw [(answers_offer hq hwhole).accepted_iff, List.length_append]
    omega
  have hfirst : Sizing.FirstFit b.sizing.maxSize b.queue.size (b.queue.length + half.length) 1 := by
    rw [hmaxSize, hsize, hlength, hhalf]
    exact ⟨by decide, by decide⟩
  have hboth : Sizing.FirstFit b.sizing.maxSize b.queue.size
      (b.queue.length + (half ++ half).length) 2 := by
    rw [hmaxSize, hsize, hlength, List.length_append, hhalf]
    exact ⟨by decide, by decide⟩
  have hsame := (hsplits.2 haccepted).1
  refine ⟨haccepted, ?_, ?_, hsame⟩
  · rw [size_offer_of_firstFit hq hne hfirst (hsplits.1.mp haccepted).1, hmaxSize, hsize]
    rfl
  · rw [← hsame, size_offer_of_firstFit hq hwhole hboth haccepted, hmaxSize, hsize]
    rfl

end PacedStream.Buffer
