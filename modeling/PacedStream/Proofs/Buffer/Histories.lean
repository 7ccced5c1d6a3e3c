import PacedStream.Proofs.Buffer.Ticks

/-!
Histories as courses of moves. Main statement: a history is a course with exactly what happened in
it, and sends what those events deliver.
-/

namespace PacedStream.Buffer
set_option autoImplicit false

variable {b : Buffer} {history : List Operation}

theorem Operation.tick_or_not (op : Operation) :
    (∃ now, op = .tick now) ∨ ∀ now, op ≠ .tick now := by
  cases op with
  | tick now => exact .inl ⟨now, rfl⟩
  | _ => exact .inr nofun

theorem delivered_taking (b : Buffer) (burst : List Packet) :
    (b.taking burst).flatMap Event.delivered = [] := by
  unfold taking
  split <;> rfl

theorem sent_push (b : Buffer) (burst : List Packet) :
    (b.offer burst).sent = #[] ∧ (b.push burst).sent = #[] := by
  have hoffer : (b.offer burst).sent = #[] := by
    unfold offer
    dsimp only
    split
    · rfl
    · split <;> rfl
  refine ⟨hoffer, ?_⟩
  unfold push
  dsimp only
  split <;> exact hoffer

theorem sent_pushBytes (b : Buffer) (bytes : List UInt8) : (b.pushBytes bytes).sent = #[] := by
  unfold pushBytes
  dsimp only
  split <;> exact (sent_push b _).2

theorem TakesOver.quiet {settings : Settings} {s : Step} (h : TakesOver b settings s) :
    s.sent = #[] ∧ s.accepted = true := by
  cases h <;> exact ⟨rfl, rfl⟩

theorem keeps_offer (b : Buffer) (burst : List Packet) : (b.offer burst).buffer.clock = b.clock ∧
    ((b.offer burst).buffer.flow = .running → b.flow = .running) := by
  have hfeed : b.flow.feed = .running → b.flow = .running := by
    cases b.flow <;> simp [Flow.feed]
  unfold offer
  dsimp only
  split
  · exact ⟨rfl, id⟩
  · split <;> exact ⟨rfl, hfeed⟩

theorem TakesOver.keeps {settings : Settings} {s : Step} (h : TakesOver b settings s) :
    s.buffer.clock = b.clock ∧ s.buffer.flow = b.flow := by
  cases h <;> exact ⟨rfl, rfl⟩

theorem TakesOver.settings_eq {settings : Settings} {s : Step} (h : TakesOver b settings s) :
    s.buffer.settings = settings := by
  cases h <;> rfl

/-- What an operation other than a tick does, with its events. -/
inductive Untimed (b : Buffer) : List Event → Step → Prop where
  | offer {s : Step} (burst : List Packet) (buffer_eq : s.buffer = (b.offer burst).buffer)
      (sent_eq : s.sent = #[]) : Untimed b (b.taking burst) s
  | reset : Untimed b [.emptied] b.reset
  | adopt (settings : Settings) : Untimed b [] (b.adopt settings)
  | adjust {s : Step} (queue_eq : s.buffer.queue = b.queue) (clock_eq : s.buffer.clock = b.clock)
      (flow_eq : s.buffer.flow = b.flow) (delivers_eq : s.buffer.delivers = b.delivers)
      (sent_eq : s.sent = #[]) (lastTick_eq : s.buffer.lastTick? = b.lastTick?) : Untimed b [] s
  | pin (pid? : Option UInt16) (unfed : b.flow = .empty) : Untimed b []
      { buffer := { b with settings := { b.settings with pid? }, clock := b.clock.pin pid? } }
  | repin (pid? : Option UInt16) (fed : b.flow ≠ .empty) : Untimed b [] { buffer :=
      { b with settings := { b.settings with pid? }, clock := b.clock.pin pid? }.relearn }
  | connect (on : Bool) : Untimed b [.connected on] { buffer := { b with delivers := on } }

theorem untimed_apply {op : Operation} (hop : ∀ now, op ≠ .tick now) :
    Untimed b (b.events op) (b.apply op) := by
  cases op with
  | push burst => exact .offer burst buffer_push (sent_push b burst).2
  | offer burst => exact .offer burst rfl (sent_push b burst).1
  | pushBytes bytes => exact .offer _ (buffer_pushBytes bytes) (sent_pushBytes b bytes)
  | tick now => exact absurd rfl (hop now)
  | reset => exact .reset
  | setThresholds enough low =>
    unfold apply setThresholds
    dsimp only
    split <;> exact .adjust rfl rfl rfl rfl rfl rfl
  | setMaxSize megabytes =>
    unfold apply setMaxSize
    dsimp only
    split
    · exact .adjust rfl rfl rfl rfl rfl rfl
    · exact .adopt _
  | setOptions options =>
    unfold apply setOptions
    dsimp only
    split
    · exact .adjust rfl rfl rfl rfl rfl rfl
    · exact .adopt _
  | setName name => exact .adjust rfl rfl rfl rfl rfl rfl
  | setPid pid? =>
    unfold apply setPid
    dsimp only
    split
    · exact .adjust rfl rfl rfl rfl rfl rfl
    · split
      · rename_i hunfed
        exact .pin pid? hunfed
      · rename_i hfed
        exact .repin pid? hfed
  | setDelivers on => exact .connect on
  | setAsks on => exact .adjust rfl rfl rfl rfl rfl rfl

theorem course_untimed {es : List Event} {s : Step} (h : Untimed b es s) : Course b es s.buffer := by
  cases h with
  | offer burst buffer_eq =>
    rw [buffer_eq]
    exact course_offer b burst
  | reset => exact .single (.empty b)
  | adopt settings => exact (takesOver_adopt b settings).course
  | adjust queue_eq clock_eq flow_eq delivers_eq =>
    exact .single (.adjust queue_eq clock_eq flow_eq delivers_eq)
  | pin pid? unfed => exact .single (.pin pid? unfed)
  | repin pid? fed => exact .single (.repin pid? fed)
  | connect on => exact .single (.connect b on)

theorem sent_untimed {es : List Event} {s : Step} (h : Untimed b es s) :
    s.sent.toList = es.flatMap Event.delivered := by
  cases h with
  | offer burst _ sent_eq =>
    rw [sent_eq, delivered_taking]
  | adopt settings =>
    rw [(takesOver_adopt b settings).quiet.1]
    rfl
  | adjust _ _ _ _ sent_eq _ =>
    rw [sent_eq]
    rfl
  | reset | pin | repin | connect => rfl

theorem of_not_tick {op : Operation} (hop : ∀ now, op ≠ .tick now) :
    ((b.apply op).buffer.clock.locked = true → b.clock.locked = true) ∧
      ((b.apply op).buffer.flow = .running → b.flow = .running) := by
  have huntimed : Untimed b (b.events op) (b.apply op) := untimed_apply hop
  generalize b.events op = es at huntimed
  generalize b.apply op = s at huntimed
  cases huntimed with
  | offer burst buffer_eq =>
    obtain ⟨hclock, hflow⟩ := keeps_offer b burst
    rw [buffer_eq, hclock]
    exact ⟨id, hflow⟩
  | reset =>
    refine ⟨nofun, fun h => ?_⟩
    change (if b.flow = .empty then Flow.empty else .buffering) = .running at h
    split at h <;> cases h
  | adopt settings =>
    obtain ⟨hclock, hflow⟩ := (takesOver_adopt b settings).keeps
    rw [hclock, hflow]
    exact ⟨id, id⟩
  | adjust _ clock_eq flow_eq =>
    rw [clock_eq, flow_eq]
    exact ⟨id, id⟩
  | pin | connect => exact ⟨id, id⟩
  | repin => exact ⟨id, nofun⟩

theorem course_apply (hq : b.queue.Ordered) (op : Operation) :
    Course b (b.events op) (b.apply op).buffer ∧
      (b.apply op).sent.toList = (b.events op).flatMap Event.delivered := by
  rcases op.tick_or_not with ⟨now, rfl⟩ | hop
  · exact course_tick hq now
  · have huntimed := untimed_apply (b := b) hop
    exact ⟨course_untimed huntimed, sent_untimed huntimed⟩

theorem ordered_apply (hq : b.queue.Ordered) (op : Operation) :
    (b.apply op).buffer.queue.Ordered :=
  (course_apply hq op).1.ordered hq

theorem course_run (hq : b.queue.Ordered) (history : List Operation) :
    Course b (b.happened history) (b.run history) := by
  induction history generalizing b with
  | nil => exact .done b
  | cons op rest ih => exact (course_apply hq op).1.trans (ih (ordered_apply hq op))

theorem sent_run (hq : b.queue.Ordered) (history : List Operation) :
    b.sent history = (b.happened history).flatMap Event.delivered := by
  induction history generalizing b with
  | nil => rfl
  | cons op rest ih =>
    rw [sent_cons, happened_cons, List.flatMap_append, (course_apply hq op).2,
      ih (ordered_apply hq op)]

theorem ordered_create (settings : Settings) : (create settings).buffer.queue.Ordered :=
  Queue.ordered_create _ _

end PacedStream.Buffer
