import PacedStream.Proofs.Buffer.Coherence
import PacedStream.Proofs.Buffer.Fifo

/-!
Nothing is lost without a cause. Main statement: in a history with a receiver in which the queue is
never emptied, and at whose end the clock is locked and was never broken, the packets sent and those
queued are all that were accepted from the one on that opens the first located block.
-/

namespace PacedStream.Buffer
set_option autoImplicit false

def Event.isEmptied : Event → Bool
  | .emptied => true
  | _ => false

/-- A packet that leaves gets to the receiver, and the queue is not emptied. -/
def Event.Undisturbed : Event → Prop
  | .sent moment => moment.delivers = true
  | .emptied => False
  | .took _ | .connected _ => True

variable {b b' : Buffer} {es : List Event}

/-- A move that does not empty the queue keeps the lock, and unless it breaks the clock it moves
packets from the source to the queue and from there to the receiver, but loses none. -/
structure Conserves (b : Buffer) (es : List Event) (b' : Buffer) : Prop where
  locked : b.clock.locked = true → b'.clock.locked = true
  breaks_le : b.clock.breaks ≤ b'.clock.breaks
  whole : b.clock.locked = true → b'.clock.breaks = b.clock.breaks →
    es.flatMap Event.delivered ++ b'.queue.toList = b.queue.toList ++ es.flatMap Event.accepted

theorem conserves_of_clock_eq (clock_eq : b'.clock = b.clock)
    (whole : es.flatMap Event.delivered ++ b'.queue.toList =
      b.queue.toList ++ es.flatMap Event.accepted) : Conserves b es b' :=
  ⟨fun h => clock_eq ▸ h, Nat.le_of_eq (congrArg Clock.breaks clock_eq.symm), fun _ _ => whole⟩

theorem conserves_effect (h : Effect b es b') (hes : ∀ e ∈ es, e.Undisturbed) :
    Conserves b es b' := by
  cases h with
  | scan follows =>
    refine ⟨follows.locked, follows.breaks_le, fun hlocked hbreaks => ?_⟩
    simpa using follows.whole hlocked hbreaks
  | take clock_eq toList_eq =>
    refine conserves_of_clock_eq clock_eq ?_
    simpa [Event.delivered, Event.accepted] using toList_eq
  | send clock_eq toList_eq =>
    have hon : b.delivers = true := hes (.sent b) (List.mem_singleton.mpr rfl)
    refine conserves_of_clock_eq clock_eq ?_
    simpa [Event.delivered, Event.accepted, hon] using toList_eq.symm
  | empty => exact (hes .emptied (List.mem_singleton.mpr rfl)).elim
  | connect clock_eq toList_eq =>
    refine conserves_of_clock_eq clock_eq ?_
    simpa [Event.delivered, Event.accepted] using toList_eq

theorem Conserves.trans {b'' : Buffer} {es' : List Event} (h : Conserves b es b')
    (h' : Conserves b' es' b'') : Conserves b (es ++ es') b'' := by
  refine ⟨fun hlocked => h'.locked (h.locked hlocked), Nat.le_trans h.breaks_le h'.breaks_le, ?_⟩
  intro hlocked hbreaks
  have hle := h.breaks_le
  have hle' := h'.breaks_le
  -- Breaks are never taken back, so none over both parts means none in either.
  have hfirst := h.whole hlocked (by omega)
  have hrest := h'.whole (h.locked hlocked) (by omega)
  calc (es ++ es').flatMap Event.delivered ++ b''.queue.toList
      = es.flatMap Event.delivered ++ (es'.flatMap Event.delivered ++ b''.queue.toList) := by
        rw [List.flatMap_append, List.append_assoc]
    _ = es.flatMap Event.delivered ++ (b'.queue.toList ++ es'.flatMap Event.accepted) := by
        rw [hrest]
    _ = b.queue.toList ++ es.flatMap Event.accepted ++ es'.flatMap Event.accepted := by
        rw [← List.append_assoc, hfirst]
    _ = b.queue.toList ++ (es ++ es').flatMap Event.accepted := by
        rw [List.flatMap_append, List.append_assoc]

theorem conserves_course (h : Course b es b') (hq : b.queue.Ordered)
    (hes : ∀ e ∈ es, e.Undisturbed) : Conserves b es b' := by
  induction h with
  | done b => exact conserves_of_clock_eq rfl (by simp)
  | step hmove _ ih =>
    have hfirst := conserves_effect (effect_move hmove hq)
      (fun e he => hes e (List.mem_append_left _ he))
    exact hfirst.trans (ih (ordered_move hmove hq) fun e he => hes e (List.mem_append_right _ he))

theorem undisturbed_course (h : Course b es b') (hon : b.delivers = true)
    (hstays : ∀ e ∈ es, e ≠ .connected false) (hwhole : ∀ e ∈ es, e.isEmptied = false) :
    ∀ e ∈ es, e.Undisturbed := by
  have hkeeps := h.induct (motive := fun b => b.delivers = true) hstays ?_ hon
  · intro e he
    cases e with
    | took => trivial
    | connected => trivial
    | sent m => exact (hkeeps.2 m he).1
    | emptied => exact absurd (hwhole _ he) (by simp [Event.isEmptied])
  · intro b es b' hmove hes hon
    cases hmove with
    | adjust _ _ _ delivers_eq => exact delivers_eq.trans hon
    | connect on =>
      cases on with
      | true => rfl
      | false => exact absurd rfl (hes _ (List.mem_singleton.mpr rfl))
    | _ => exact hon

theorem unsent_course (h : Course b es b') (hc : b.Coherent) (hes : ∀ e ∈ es, e.Undisturbed)
    (hunlocked : b'.clock.locked = false) : es.flatMap Event.delivered = [] := by
  induction h with
  | done b => rfl
  | @step b b₁ b' es es' hmove hrest ih =>
    have hes' : ∀ e ∈ es', e.Undisturbed := fun e he => hes e (List.mem_append_right _ he)
    have hc' := coherent_move hmove hc
    rw [List.flatMap_append, ih hc' hes' hunlocked]
    cases hmove with
    | send hrunning =>
      -- Packets flow behind a lock only, and that lock would last to the end.
      have hlocked : b'.clock.locked = true :=
        (conserves_course hrest hc'.ordered hes').locked (hc.running hrunning).1
      rw [hunlocked] at hlocked
      cases hlocked
    | _ => rfl

/-- A tick that locks the clock is one whose scan finds a block, and it does nothing else to the
queue. -/
structure FindsBlock (b : Buffer) (now : Int) : Prop where
  buffering : b.flow = .buffering
  noBlock : b.clock.hasBlock = false
  found : b.sought.found = true
  toList_eq : (b.tick now).buffer.queue.toList = b.sought.queue.toList
  sent_eq : (b.tick now).sent = #[]

theorem findsBlock_of_locks {now : Int} (hc : b.Coherent) (hunlocked : b.clock.locked = false)
    (h : (b.tick now).buffer.clock.locked = true) : b.FindsBlock now := by
  have hstill : b.flow = .empty ∨ b.flow = .buffering := by
    cases hflow : b.flow with
    | empty => exact .inl rfl
    | buffering => exact .inr rfl
    | running | underflow =>
      have hlocked := (hc.times (by simp [hflow]) (by simp [hflow])).1
      rw [hunlocked] at hlocked
      cases hlocked
  obtain ⟨hprepares, hsent⟩ := prepares_tick hstill now
  generalize hafter : (b.tick now).buffer = after at h hprepares
  cases hprepares with
  | idle =>
    have hlocked : b.clock.locked = true := h
    rw [hunlocked] at hlocked
    cases hlocked
  | jump => cases h
  | ready buffering block =>
    obtain ⟨_, _, _, _, hlocked⟩ := hc.located buffering block
    rw [hunlocked] at hlocked
    cases hlocked
  | found buffering noBlock found =>
    refine ⟨buffering, noBlock, found, ?_, hsent⟩
    rw [hafter]
    exact (keeps_tryStart _ now).2
  | lost buffering noBlock lost =>
    have hlocked : b.sought.clock.locked = true := h
    rw [(hc.lost buffering noBlock lost).2, hunlocked] at hlocked
    cases hlocked

def connected (settings : Settings) : Buffer := { (create settings).buffer with delivers := true }

theorem coherent_connected (settings : Settings) : (connected settings).Coherent :=
  coherent_move (.connect _ true) (coherent_create settings)

/-- The tick after the operations `before` is the first to lock the clock, and the packet accepted
with number `k` opens the block that its scan locates. -/
structure FirstLock (b : Buffer) (before : List Operation) (now : Int) (k : Nat) : Prop where
  unlocked : ∀ earlier, earlier <+: before → (b.run earlier).clock.locked = false
  locked : (b.run (before ++ [.tick now])).clock.locked = true
  found : (b.run before).sought.found = true
  isBlock : ∃ block rest, (b.run before).sought.clock.IsBlock block ∧
    (b.accepted before).drop k = block ++ rest

theorem exists_locking (history : List Operation) (hstart : b.clock.locked = false)
    (h : (b.run history).clock.locked = true) : ∃ before op after,
      history = before ++ op :: after ∧
      (∀ earlier, earlier <+: before → (b.run earlier).clock.locked = false) ∧
      (b.run (before ++ [op])).clock.locked = true := by
  induction history generalizing b with
  | nil =>
    have hunlocked : (b.run []).clock.locked = false := hstart
    rw [h] at hunlocked
    cases hunlocked
  | cons op rest ih =>
    cases hop : (b.apply op).buffer.clock.locked with
    | true =>
      refine ⟨[], op, rest, rfl, ?_, hop⟩
      intro earlier hearlier
      rw [List.prefix_nil.mp hearlier]
      exact hstart
    | false =>
      obtain ⟨before, op', after, rfl, hunlocked, hlock⟩ := ih hop h
      refine ⟨op :: before, op', after, rfl, ?_, hlock⟩
      intro earlier hearlier
      cases earlier with
      | nil => exact hstart
      | cons op'' earlier =>
        obtain ⟨rfl, hrest⟩ := List.cons_prefix_cons.mp hearlier
        exact hunlocked earlier hrest

theorem mem_history_of_connected {on : Bool} {history : List Operation}
    (h : .connected on ∈ b.happened history) : .setDelivers on ∈ history := by
  induction history generalizing b with
  | nil => cases h
  | cons op rest ih =>
    rcases List.mem_append.mp h with h | h
    · cases op with
      | setDelivers on' =>
        cases List.mem_singleton.mp h
        exact List.mem_cons_self
      | push burst | offer burst | pushBytes burst =>
        unfold events taking at h
        dsimp only at h
        split at h <;> simp at h
      | tick now =>
        unfold events at h
        dsimp only at h
        split at h <;> simp at h
      | _ => simp [events] at h
    · exact List.mem_cons_of_mem _ (ih h)

theorem accepted_append_tick (b : Buffer) (before : List Operation) (now : Int) :
    b.accepted (before ++ [.tick now]) = b.accepted before := by
  have hnone : (Operation.tick now).burst = [] := rfl
  rw [accepted_concat, hnone, ite_self, List.append_nil]

/-- The packets queued behind the tick that locks the clock start with the first located block. -/
theorem firstLock_of_locks {before : List Operation} {op : Operation} (hc : b.Coherent)
    (hempty : b.queue.toList = [])
    (hunlocked : ∀ earlier, earlier <+: before → (b.run earlier).clock.locked = false)
    (hlock : (b.run (before ++ [op])).clock.locked = true) :
    ∃ now k, op = .tick now ∧ b.FirstLock before now k ∧ k ≤ (b.accepted before).length ∧
      (b.run (before ++ [op])).queue.toList = (b.accepted before).drop k ∧
      (b.run before).sent [op] = [] := by
  have hc' := hc.run before
  have hnow := hunlocked before (List.prefix_refl before)
  have hlock' : ((b.run before).apply op).buffer.clock.locked = true := by
    rw [run_append] at hlock
    exact hlock
  obtain ⟨now, rfl⟩ : ∃ now, op = .tick now := by
    rcases op.tick_or_not with htick | hop
    · exact htick
    · have hbefore := (of_not_tick hop).1 hlock'
      rw [hnow] at hbefore
      cases hbefore
  have hfinds := findsBlock_of_locks hc' hnow hlock'
  have horder := inOrder_run hc.ordered hempty (before ++ [.tick now])
  have hqueued := horder.queued_eq
  have hfirst := horder.first_le
  rw [accepted_append_tick] at hqueued hfirst
  refine ⟨now, _, rfl, ⟨hunlocked, hlock, hfinds.found, ?_⟩, hfirst, hqueued, ?_⟩
  · obtain ⟨lead, block, hpassed, hblock, _, hlead⟩ :=
      hc'.finds hfinds.buffering hfinds.noBlock hfinds.found
    have htoList : (b.run (before ++ [.tick now])).queue.toList =
        (b.run before).sought.queue.toList := by
      rw [run_append]
      exact hfinds.toList_eq
    refine ⟨block, (b.run before).sought.queue.ahead, hblock, ?_⟩
    rw [← hqueued, htoList, (ordered_sought hc'.ordered).toList_eq, hpassed, hlead hnow,
      List.nil_append]
  · have hsent := congrArg Array.toList hfinds.sent_eq
    simp only [sent, gather, List.append_nil]
    exact hsent

/-- From any unlocked buffer with nothing queued, nothing is lost behind the first lock. -/
theorem undisturbed_run {history : List Operation} (hc : b.Coherent) (hempty : b.queue.toList = [])
    (hstart : b.clock.locked = false) (hes : ∀ e ∈ b.happened history, e.Undisturbed)
    (hlocked : (b.run history).clock.locked = true) (hbreaks : (b.run history).clock.breaks = 0) :
    ∃ before now after k, history = before ++ .tick now :: after ∧ b.FirstLock before now k ∧
      b.sent history ++ (b.run history).queue.toList = (b.accepted history).drop k := by
  obtain ⟨before, op, after, rfl, hunlocked, hlock⟩ := exists_locking history hstart hlocked
  obtain ⟨now, k, rfl, hfirst, hk, hqueued, hsent⟩ :=
    firstLock_of_locks hc hempty hunlocked hlock
  have hhistory : before ++ .tick now :: after = (before ++ [.tick now]) ++ after := by simp
  rw [hhistory] at hes hbreaks ⊢
  rw [happened_append] at hes
  rw [run_append] at hbreaks ⊢
  have hc' := hc.run (before ++ [.tick now])
  have hbefore : b.sent before = [] := by
    rw [sent_run hc.ordered]
    refine unsent_course (course_run hc.ordered before) hc ?_
      (hunlocked before (List.prefix_refl before))
    intro e he
    refine hes e (List.mem_append_left _ ?_)
    rw [happened_append]
    exact List.mem_append_left _ he
  have hrest := conserves_course (course_run hc'.ordered after) hc'.ordered fun e he =>
    hes e (List.mem_append_right _ he)
  have hbreaks_le := hrest.breaks_le
  have hkept := hrest.whole hlock (by omega)
  refine ⟨before, now, after, k, by simp, hfirst, ?_⟩
  calc b.sent (before ++ [.tick now] ++ after) ++
        ((b.run (before ++ [.tick now])).run after).queue.toList
      = (b.run (before ++ [.tick now])).sent after ++
          ((b.run (before ++ [.tick now])).run after).queue.toList := by
        rw [sent_append, sent_append, hbefore, hsent, List.nil_append, List.nil_append]
    _ = (b.run (before ++ [.tick now])).queue.toList ++
          (b.run (before ++ [.tick now])).accepted after := by
        rw [sent_run hc'.ordered, hkept, ← accepted_eq]
    _ = (b.accepted before).drop k ++ (b.run (before ++ [.tick now])).accepted after := by
        rw [hqueued]
    _ = (b.accepted (before ++ [.tick now] ++ after)).drop k := by
        rw [accepted_append, accepted_append_tick, List.drop_append_of_le_length hk]

theorem lossless (settings : Settings) (history : List Operation)
    (hconnected : ∀ op ∈ history, op ≠ .setDelivers false)
    (hwhole : ((connected settings).happened history).any Event.isEmptied = false)
    (hlocked : ((connected settings).run history).clock.locked = true)
    (hbreaks : ((connected settings).run history).clock.breaks = 0) :
    ∃ before now after k, history = before ++ .tick now :: after ∧
      (connected settings).FirstLock before now k ∧
      (connected settings).sent history ++ ((connected settings).run history).queue.toList =
        ((connected settings).accepted history).drop k := by
  have hc := coherent_connected settings
  have hes : ∀ e ∈ (connected settings).happened history, e.Undisturbed := by
    refine undisturbed_course (course_run hc.ordered history) rfl ?_ ?_
    · rintro e he rfl
      exact hconnected _ (mem_history_of_connected he) rfl
    · intro e he
      simpa using List.any_eq_false.mp hwhole e he
  exact undisturbed_run hc (Queue.toList_create _ _) rfl hes hlocked hbreaks

def sampleHistory : List Operation :=
  [.push sample, .tick 0, .tick 1000000, .setPid (some 256), .tick 2000000, .tick 3000000]

theorem lossless_sample :
    ((connected sampleSettings).sent sampleHistory).length = 2 ∧
      ((connected sampleSettings).run sampleHistory).queue.length = 1 ∧
      ∃ before now after k, sampleHistory = before ++ .tick now :: after ∧
        (connected sampleSettings).FirstLock before now k ∧
        (connected sampleSettings).sent sampleHistory ++
            ((connected sampleSettings).run sampleHistory).queue.toList =
          ((connected sampleSettings).accepted sampleHistory).drop k := by
  have hconnected : ∀ op ∈ sampleHistory, op ≠ .setDelivers false := by simp [sampleHistory]
  have hwhole : ((connected sampleSettings).happened sampleHistory).any Event.isEmptied = false := by
    decide +kernel
  have hlocked : ((connected sampleSettings).run sampleHistory).clock.locked = true := by
    decide +kernel
  have hbreaks : ((connected sampleSettings).run sampleHistory).clock.breaks = 0 := by
    decide +kernel
  exact ⟨by decide +kernel, by decide +kernel,
    lossless sampleSettings sampleHistory hconnected hwhole hlocked hbreaks⟩

end PacedStream.Buffer
