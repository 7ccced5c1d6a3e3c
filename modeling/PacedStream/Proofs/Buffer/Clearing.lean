import PacedStream.Proofs.Buffer.Backed
import PacedStream.Proofs.Buffer.Primed

/-!
Playing out an even queue with thresholds of one block. While packets flow a tick sends them from the
front and meets no break; the flow ends only when no reading is left, and a buffer without readings
sends nothing.
-/

namespace PacedStream.Buffer
set_option autoImplicit false

variable {b : Buffer} {pid : UInt16} {now : Int} {microseconds : Nat}

/-- Flowing over an even queue, where one block is enough. -/
structure Clearing (b : Buffer) (pid : UInt16) : Prop where
  running : b.flow = .running
  delivers : b.delivers = true
  thresholds : b.settings.enough = 1 ∧ b.settings.low = 1
  counted : 1 ≤ b.clock.blocks
  ordered : b.queue.Ordered
  locked : b.clock.locked = true
  reference : b.clock.reference? = none ∨ b.clock.reference? = some pid
  even : Clock.Even pid b.clock.latest? b.queue.ahead
  times : b.queue.passed = [] ∨ b.clock.Times b.queue.passed
  pair : b.clock.latest? = none →
    b.queue.passed = [] ∧ 2 ≤ (Clock.readings b.queue.ahead).length

/-- Buffering without a block over a queue that holds no reading. -/
structure Spent (b : Buffer) : Prop where
  buffering : b.flow = .buffering
  noBlock : b.clock.hasBlock = false
  ordered : b.queue.Ordered
  unread : Clock.readings b.queue.toList = []

/-- What is still to be sent, and what will be left, before and after a step. -/
structure Sends (b : Buffer) (sent : List Packet) (b' : Buffer) : Prop where
  timed_eq : Clock.timed b.queue.toList = sent ++ Clock.timed b'.queue.toList
  untimed_eq : Clock.untimed b'.queue.toList = Clock.untimed b.queue.toList

variable {b' b'' : Buffer} {sent sent' : List Packet}

theorem sends_of_eq (h : b'.queue.toList = b.queue.toList) : Sends b [] b' := by
  constructor <;> rw [h]
  rfl

theorem Sends.trans (h : Sends b sent b') (h' : Sends b' sent' b'') : Sends b (sent ++ sent') b'' := by
  constructor
  · rw [h.timed_eq, h'.timed_eq, List.append_assoc]
  · rw [h'.untimed_eq, h.untimed_eq]

theorem toList_sought (hq : b.queue.Ordered) : b.sought.queue.toList =
    (b.clock.walk b.queue.passed b.queue.ahead).passed ++
      (b.clock.walk b.queue.passed b.queue.ahead).ahead := by
  have hat := b.clock.seek_at hq
  rw [sought, hat.ordered.toList_eq, hat.passed_eq, hat.ahead_eq]

theorem sought_of_unread (hq : b.queue.Ordered) (h : Clock.readings b.queue.toList = []) :
    b.sought.found = false ∧ b.sought.queue.toList = b.queue.toList ∧
      b.sought.clock.hasBlock = b.clock.hasBlock := by
  have hat := b.clock.seek_at hq
  have hlist := toList_sought hq
  rw [hq.toList_eq, Clock.readings_append, List.append_eq_nil_iff] at h
  rw [Clock.walk_of_unread h.2] at hat hlist
  rw [List.append_nil, ← hq.toList_eq] at hlist
  refine ⟨hat.found_eq, hlist, ?_⟩
  rw [sought, hat.clock_eq]
  rfl

theorem Clearing.credit (h : b.Clearing pid) (lastTick? : Option Int) (credit : Float) :
    ({ b with lastTick?, clock := { b.clock with credit } } : Buffer).Clearing pid :=
  ⟨h.running, h.delivers, h.thresholds, h.counted, h.ordered, h.locked, h.reference, h.even,
    h.times.imp id fun htimes => htimes.congr rfl rfl rfl, h.pair⟩

theorem Clearing.spend (h : b.Clearing pid) : b.spend.Clearing pid := h.credit b.lastTick? _

theorem Clearing.sought (h : b.Clearing pid) (hlead : b.queue.passed = []) :
    (Clock.readings b.queue.toList = [] ∧ b.sought.found = false) ∨
      (Clock.Locates pid (b.clock.walk b.queue.passed b.queue.ahead) ∧
        b.sought.queue.toList = b.queue.toList) := by
  have heven := h.even
  rw [toList_sought h.ordered, h.ordered.toList_eq]
  cases hlatest : b.clock.latest? with
  | none =>
    rw [hlatest] at heven
    obtain ⟨hlocates, hwhole⟩ := Clock.walk_even_anew b.queue.passed hlatest h.reference heven
      (h.pair hlatest).2
    rw [if_pos h.locked] at hwhole
    exact .inr ⟨hlocates, hwhole⟩
  | some before =>
    rw [hlatest] at heven
    by_cases hread : Clock.readings b.queue.ahead = []
    · have hunread : Clock.readings b.queue.toList = [] := by
        rw [h.ordered.toList_eq, hlead, List.nil_append, hread]
      rw [← h.ordered.toList_eq]
      exact .inl ⟨hunread, (sought_of_unread h.ordered hunread).1⟩
    · exact .inr (Clock.walk_even_from b.queue.passed hlatest h.reference heven hread)

theorem Clearing.sendOff (h : b.Clearing pid) (lead : b.queue.head ≠ b.queue.mark) :
    b.sendOff.Clearing pid ∧ Sends b [b.queue.front] b.sendOff := by
  have hne := h.ordered.head_ne_tail lead
  have hpassed : b.queue.passed ≠ [] := fun hnil => lead (h.ordered.head_eq_mark_iff.mpr hnil)
  have htimes : b.clock.Times b.queue.passed := h.times.resolve_left hpassed
  have hpop : b.sendOff.queue.passed = b.queue.passed.tail := Queue.passed_pop h.ordered hne
  have hahead : b.sendOff.queue.ahead = b.queue.ahead := Queue.ahead_pop lead
  have hlist : b.queue.toList = b.queue.front :: b.sendOff.queue.toList :=
    Queue.toList_pop h.ordered hne
  constructor
  · refine ⟨h.running, h.delivers, h.thresholds, h.counted, Queue.ordered_pop h.ordered hne,
      h.locked, h.reference, ?_, ?_, ?_⟩
    · rw [hahead]
      exact h.even
    · rw [hpop]
      exact htimes.tail
    · exact fun hlatest => absurd (h.pair hlatest).1 hpassed
  · obtain ⟨_, _, latest, last, _, hlast, ends⟩ := htimes
    -- The packet passed last is a reading, so the one in front is not behind the last of them.
    have hread : Clock.readings (b.queue.front :: b.sendOff.queue.toList) ≠ [] := by
      intro hnil
      have hmem : last ∈ b.queue.front :: b.sendOff.queue.toList := by
        rw [← hlist, h.ordered.toList_eq]
        exact List.mem_append_left _ (List.mem_of_getLast? hlast)
      have hnone := Clock.readings_eq_nil_iff.mp hnil last hmem
      rw [ends] at hnone
      cases hnone
    obtain ⟨htimed, huntimed⟩ := Clock.timed_cons hread
    constructor
    · rw [hlist, htimed]
      rfl
    · rw [hlist, huntimed]

theorem Clearing.next (h : b.Clearing pid) (noLead : b.queue.passed = [])
    (found : b.sought.found = true) (now : Int) :
    ((b.withScan b.sought).settle now).buffer.Clearing pid ∧
      ((b.withScan b.sought).settle now).buffer.queue.toList = b.queue.toList := by
  have hlocated := (h.sought noLead).resolve_left fun hlost => by simp [found] at hlost
  obtain ⟨hlocates, hlist⟩ := hlocated
  have hat := b.clock.seek_at h.ordered
  have htimes : b.sought.clock.Times b.sought.queue.passed := times_sought h.ordered found
  have hfixed := (fixed_withScan b).trans (fixed_settle (b.withScan b.sought) now)
  have hclock := clock_settle (b.withScan b.sought) now
  have hlists : ((b.withScan b.sought).settle now).buffer.queue.Ordered ∧ _ ∧ _ :=
    lists_settle hat.ordered
  obtain ⟨hordered, hpassed, hahead⟩ := hlists
  have hblocks : 1 ≤ (b.withScan b.sought).recount.clock.blocks := by
    have henough : (b.withScan b.sought).settings.enough = 1 := h.thresholds.1
    rw [blocks_of_hasBlock hat.ordered htimes.hasBlock, henough]
    exact Nat.le_min.mpr ⟨Nat.le_add_right 1 _, Nat.le_refl 1⟩
  have hreference : b.sought.clock.reference? = some pid :=
    (congrArg Clock.reference? hat.clock_eq).trans hlocates.reference_eq
  have hlatest : b.sought.clock.latest?.isSome = true := by
    rw [Buffer.sought, hat.clock_eq]
    exact hlocates.latest
  constructor
  · refine ⟨flow_settle.trans h.running, hfixed.delivers_eq.trans h.delivers,
      hfixed.settings_eq ▸ h.thresholds, ?_, hordered, ?_, ?_, ?_, ?_, ?_⟩
    · rw [hclock]
      exact hblocks
    · rw [hclock]
      exact (congrArg Clock.locked hat.clock_eq).trans hlocates.locked
    · rw [hclock]
      exact .inr hreference
    · rw [hclock, hahead]
      change Clock.Even pid b.sought.clock.latest? b.sought.queue.ahead
      rw [Buffer.sought, hat.clock_eq, hat.ahead_eq]
      exact hlocates.even
    · rw [hclock, hpassed]
      exact .inr (htimes.congr rfl rfl rfl)
    · rw [hclock]
      intro hnone
      have hnone' : b.sought.clock.latest? = none := hnone
      rw [hnone'] at hlatest
      cases hlatest
  · rw [hordered.toList_eq, hpassed, hahead]
    exact (hat.ordered.toList_eq).symm.trans hlist

theorem Clearing.moment (h : b.Clearing pid) (now : Int) :
    (b.moment? now = none ∧ Clock.readings b.queue.toList = []) ∨
      ∃ m, b.moment? now = some m ∧ m.Clearing pid ∧ m.queue.toList = b.queue.toList ∧
        m.queue.head ≠ m.queue.mark := by
  by_cases hmark : b.queue.head = b.queue.mark
  · have hpassed : b.spend.queue.passed = [] := h.ordered.head_eq_mark_iff.mp hmark
    cases hfound : b.spend.sought.found with
    | true =>
      have hmoment : b.moment? now =
          some ((b.spend.withScan b.spend.sought).settle now).buffer := moment_of_found hmark hfound
      obtain ⟨hclearing, hlist⟩ := h.spend.next hpassed hfound now
      obtain ⟨_, _, _, hlead⟩ := course_moment h.ordered h.running hmoment
      exact .inr ⟨_, hmoment, hclearing, hlist, hlead⟩
    | false =>
      have hmoment : b.moment? now = none :=
        (moment_of_noLead hmark).trans (if_neg (Bool.eq_false_iff.mp hfound))
      rcases h.spend.sought hpassed with ⟨hunread, _⟩ | ⟨hlocates, _⟩
      · exact .inl ⟨hmoment, hunread⟩
      · have hat := b.spend.clock.seek_at h.spend.ordered
        have hfound' : b.spend.sought.found = true := hat.found_eq.trans hlocates.found
        rw [hfound] at hfound'
        cases hfound'
  · exact .inr ⟨_, moment_of_lead hmark, h.spend, rfl, hmark⟩

theorem Clearing.lost (h : b.Clearing pid) (hunread : Clock.readings b.queue.toList = []) :
    (b.withScan b.sought).relearn.Spent ∧
      (b.withScan b.sought).relearn.queue.toList = b.queue.toList := by
  obtain ⟨_, hlist, _⟩ := sought_of_unread h.ordered hunread
  have hrewound : (b.withScan b.sought).relearn.queue.toList = b.queue.toList := hlist
  exact ⟨⟨rfl, rfl, Queue.ordered_rewind (ordered_sought h.ordered), hrewound ▸ hunread⟩, hrewound⟩

theorem Clearing.pace (h : b.Clearing pid) (now : Int) :
    ((b.pace now).buffer.Clearing pid ∨ (b.pace now).buffer.Spent) ∧
      Sends b (b.pace now).sent.toList (b.pace now).buffer := by
  unfold Buffer.pace
  split
  · exact ⟨.inl h, sends_of_eq rfl⟩
  · have hrounds := paceLoop_induct now
      (fun s => s.buffer.Clearing pid ∧ Sends b s.sent.toList s.buffer)
      (fun s => s.buffer.Spent ∧ Sends b s.sent.toList s.buffer)
      (b.queue.length + 1) (s := { buffer := b }) ?_ ?_ ⟨h, sends_of_eq rfl⟩
    · rcases hrounds with ⟨hclearing, hsends⟩ | ⟨hspent, hsends⟩
      · exact ⟨.inl hclearing, hsends⟩
      · exact ⟨.inr hspent, hsends⟩
    · rintro s m log ⟨hclearing, hsends⟩ hmoment
      rcases hclearing.moment now with ⟨hnone, _⟩ | ⟨m', hsome, hclearing', hlist, hlead⟩
      · rw [hnone] at hmoment
        cases hmoment
      · cases Option.some.inj (hsome.symm.trans hmoment)
        obtain ⟨hafter, hfront⟩ := hclearing'.sendOff hlead
        have hsent : (sendFront { s with buffer := m, log }).sent.toList =
            s.sent.toList ++ ([] ++ [m.queue.front]) := by
          simp [sendFront, hclearing'.delivers]
        refine ⟨hafter, ?_⟩
        rw [hsent]
        exact hsends.trans ((sends_of_eq hlist).trans hfront)
    · rintro s log ⟨hclearing, hsends⟩ hmoment
      rcases hclearing.moment now with ⟨_, hunread⟩ | ⟨m', hsome, _⟩
      · obtain ⟨hspent, hlist⟩ := hclearing.spend.lost hunread
        refine ⟨hspent, ?_⟩
        have htrans := hsends.trans (sends_of_eq hlist)
        rwa [List.append_nil] at htrans
      · rw [hsome] at hmoment
        cases hmoment

theorem Clearing.advance (h : b.Clearing pid) (now : Int) (microseconds : Nat) :
    ((b.advance now microseconds).buffer.Clearing pid ∨ (b.advance now microseconds).buffer.Spent) ∧
      Sends b (b.advance now microseconds).sent.toList (b.advance now microseconds).buffer := by
  obtain ⟨asked, hadvance⟩ := advance_eq b now microseconds
  have hupdate : (b.timed now).updateFlow now = (.running, .run) := by
    have hlow : b.settings.low.toNat = 1 := by
      rw [h.thresholds.2]
      rfl
    have hmore : ¬ b.clock.blocks < b.settings.low.toNat := by
      rw [hlow]
      exact Nat.not_lt.mpr h.counted
    simp only [Buffer.timed, updateFlow, h.running, Flow.update, hmore, if_false]
  rw [hadvance, h.running]
  change (((b.timed now).play now microseconds).buffer.Clearing pid ∨
    ((b.timed now).play now microseconds).buffer.Spent) ∧
      Sends b ((b.timed now).play now microseconds).sent.toList
        ((b.timed now).play now microseconds).buffer
  unfold play
  rw [hupdate]
  dsimp only
  rw [if_neg (by decide)]
  have hcredited : { b.credited now microseconds with flow := Flow.running }.Clearing pid :=
    { h.credit (some now) _ with running := rfl }
  obtain ⟨hafter, hsends⟩ := hcredited.pace now
  exact ⟨hafter, hsends.timed_eq, hsends.untimed_eq⟩

theorem Spent.advance (h : b.Spent) (now : Int) (microseconds : Nat) :
    (b.advance now microseconds).buffer.Spent ∧ (b.advance now microseconds).sent = #[] ∧
      (b.advance now microseconds).buffer.queue.toList = b.queue.toList := by
  obtain ⟨asked, hadvance⟩ := advance_eq b now microseconds
  obtain ⟨hlost, hlist, hblock⟩ := sought_of_unread h.ordered h.unread
  have hprepare : (b.timed now).prepare now =
      { buffer := (b.timed now).withScan b.sought, log := b.sought.log } := by
    have hnoBlock : (b.timed now).clock.hasBlock = false := h.noBlock
    unfold prepare
    rw [hnoBlock, if_neg Bool.false_ne_true]
    exact if_neg (Bool.eq_false_iff.mp hlost)
  rw [hadvance, h.buffering]
  dsimp only
  rw [hprepare]
  exact ⟨⟨h.buffering, hblock.trans h.noBlock, ordered_sought h.ordered, hlist ▸ h.unread⟩, rfl,
    hlist⟩

end PacedStream.Buffer
