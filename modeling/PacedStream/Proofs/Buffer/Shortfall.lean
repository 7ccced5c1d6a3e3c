import PacedStream.Proofs.Buffer.Agreement
import PacedStream.Proofs.Buffer.Want

/-!
What a buffer asks for against what it lacks. Main statement: in every buffer reached from a new one
the number asked for is the packets missing for enough blocks, as far as the greatest size leaves
room for them, if a block length is known and the product of blocks and length fits a word; without
a length it is all room there is, which goes beyond the greatest size only where that was lowered.
-/

namespace PacedStream
set_option autoImplicit false

namespace Clock

variable {c c' : Clock} {p : Packet} {v : Verdict} {passed ahead : List Packet} {n : Nat}

/-- No more was counted since the latest reading than was passed, and a block is no longer than the
packets that a scan can come to. -/
structure Within (c : Clock) (n : Nat) (passed ahead : List Packet) : Prop where
  scanned_le : c.scanned ≤ passed.length
  length_le : passed.length + ahead.length ≤ n
  block_le : c.blockLength ≤ n

theorem length_keep_le : (v.keep passed p).length ≤ passed.length + 1 := by
  unfold Verdict.keep
  split
  · exact Nat.le_add_left 1 _
  · exact Nat.le_of_eq List.length_append

theorem within_observes (hobs : Observes c p c' v) (h : c.Within n passed (p :: ahead)) :
    c'.Within n (v.keep passed p) ahead := by
  have hscanned := h.scanned_le
  have hlength := h.length_le
  rw [List.length_cons] at hlength
  have hkeep : (v.keep passed p).length ≤ passed.length + 1 := length_keep_le
  cases hobs with
  | pass =>
    have hone : (Verdict.pass.keep passed p).length = passed.length + 1 := List.length_append
    refine ⟨?_, by omega, h.block_le⟩
    change c.scanned + 1 ≤ _
    omega
  | anchor | broken => exact ⟨Nat.zero_le _, by omega, h.block_le⟩
  | located =>
    refine ⟨Nat.zero_le _, by omega, ?_⟩
    change c.scanned + 1 ≤ n
    omega

theorem within_walk (h : c.Within n passed ahead) : (c.walk passed ahead).clock.Within n
    (c.walk passed ahead).passed (c.walk passed ahead).ahead :=
  walk_keeps (fun c' passed' ahead' => c'.Within n passed' ahead') within_observes h

theorem scanned_walk_of_found (h : (c.walk passed ahead).found = true) :
    (c.walk passed ahead).clock.scanned = 0 := by
  refine (walk_induct (fun _ _ _ => True) (fun c' _ _ => c'.scanned = 0) (fun _ _ _ => trivial) ?_
    trivial).2 h
  intro c c' p passed _ hobs _
  cases hobs
  rfl

end Clock

namespace Buffer

variable {b b' : Buffer} {es : List Event} {op : Operation} {history : List Operation} {n : Nat}

/-- The clock counts no more packets than the scan has passed, and none while they may leave. -/
structure InStep (b : Buffer) : Prop where
  scanned_le : b.clock.scanned ≤ b.queue.scanned
  flowing : b.flow ≠ .empty → b.flow ≠ .buffering → b.clock.scanned = 0

theorem inStep_of_zero (h : b.clock.scanned = 0) : b.InStep := ⟨h ▸ Nat.zero_le _, fun _ _ => h⟩

theorem inStep_create (settings : Settings) : (create settings).buffer.InStep :=
  inStep_of_zero rfl

theorem InStep.congr (h : b.InStep) (clock_eq : b'.clock.scanned = b.clock.scanned)
    (passed_eq : b'.queue.passed = b.queue.passed) (flow_eq : b'.flow = b.flow) : b'.InStep := by
  constructor
  · rw [clock_eq, ← Queue.length_passed, passed_eq, Queue.length_passed]
    exact h.scanned_le
  · rw [flow_eq, clock_eq]
    exact h.flowing

theorem within_of_inStep (h : b.InStep) (hq : b.queue.Ordered) (hlength : b.queue.length ≤ n)
    (hblock : b.clock.blockLength ≤ n) : b.clock.Within n b.queue.passed b.queue.ahead := by
  refine ⟨?_, ?_, hblock⟩
  · rw [Queue.length_passed]
    exact h.scanned_le
  · rw [Queue.length_passed, Queue.length_ahead, hq.scanned_add_unscanned]
    exact hlength

theorem within_sought (h : b.InStep) (hq : b.queue.Ordered) (hlength : b.queue.length ≤ n)
    (hblock : b.clock.blockLength ≤ n) :
    b.sought.clock.Within n b.sought.queue.passed b.sought.queue.ahead := by
  have hat := b.clock.seek_at hq
  rw [sought, hat.clock_eq, hat.passed_eq, hat.ahead_eq]
  exact Clock.within_walk (within_of_inStep h hq hlength hblock)

theorem inStep_move (hmove : Move b es b') (hq : b.queue.Ordered) (h : b.InStep) :
    b'.InStep := by
  cases hmove with
  | adjust queue_eq clock_eq flow_eq =>
    exact h.congr (congrArg Clock.scanned clock_eq) (congrArg Queue.passed queue_eq) flow_eq
  | connect | credit | recount | pin => exact h.congr rfl rfl rfl
  | resize resized => exact h.congr rfl (Queue.resized_of_resize? hq resized).passed_eq rfl
  | feed =>
    refine ⟨h.scanned_le, fun _ hflows => ?_⟩
    cases hflow : b.flow with
    | empty | buffering => exact absurd (congrArg Flow.feed hflow) hflows
    | running | underflow => exact h.flowing (by simp [hflow]) (by simp [hflow])
  | take _ pushed => exact h.congr rfl (Queue.pushed_of_push? hq pushed).passed_eq rfl
  | seek hbuffering =>
    have hwithin := within_sought h hq (Nat.le_max_left _ _) (Nat.le_max_right _ _)
    refine ⟨?_, fun _ hflows => absurd hbuffering hflows⟩
    have hle := hwithin.scanned_le
    rwa [Queue.length_passed] at hle
  | next _ _ found =>
    refine inStep_of_zero ?_
    have hat := b.clock.seek_at hq
    change b.sought.clock.scanned = 0
    rw [sought, hat.clock_eq]
    exact Clock.scanned_walk_of_found (hat.found_eq.symm.trans found)
  | start | lose | empty | repin => exact inStep_of_zero rfl
  | send hrunning => exact inStep_of_zero (h.flowing (by simp [hrunning]) (by simp [hrunning]))
  | stall _ hrunning =>
    exact inStep_of_zero (h.flowing (by simp [hrunning]) (by simp [hrunning]))
  | resume hstalled =>
    exact inStep_of_zero (h.flowing (by simp [hstalled]) (by simp [hstalled]))

theorem InStep.course (h : b.InStep) (hcourse : Course b es b') (hq : b.queue.Ordered) :
    b'.InStep :=
  (hcourse.induct (motive := fun b => b.queue.Ordered ∧ b.InStep) (P := fun _ => True)
    (fun _ _ => trivial)
    (fun hmove _ ⟨hq, h⟩ => ⟨ordered_move hmove hq, inStep_move hmove hq h⟩) ⟨hq, h⟩).1.2

theorem block_move_le (hmove : Move b es b') (hq : b.queue.Ordered) (h : b.InStep)
    (hlength : b.queue.length ≤ n) (hblock : b.clock.blockLength ≤ n) :
    b'.clock.blockLength ≤ n := by
  cases hmove with
  | adjust _ clock_eq => exact clock_eq ▸ hblock
  | seek | next => exact (within_sought h hq hlength hblock).block_le
  | lose | empty | repin => exact Nat.zero_le n
  | connect | credit | recount | resize | feed | take | start | send | stall | resume | pin =>
    exact hblock

theorem length_move_le (hmove : Move b es b') (hq : b.queue.Ordered)
    (htook : ∀ burst, .took burst ∉ es) : b'.queue.length ≤ b.queue.length := by
  have hle := length_effect (effect_move hmove hq)
  have hnone : es.flatMap Event.accepted = [] := by
    refine List.flatMap_eq_nil_iff.mpr fun e he => ?_
    cases e with
    | took burst => exact absurd he (htook burst)
    | sent | emptied | connected => rfl
  rw [hnone] at hle
  exact hle

theorem not_took_tick (b : Buffer) (now : Int) : ∀ burst, .took burst ∉ b.events (.tick now) := by
  intro burst
  have hevents : b.events (.tick now) =
      if b.jumps now || b.givesUp now then [.emptied] else (b.departures now).map .sent := rfl
  rw [hevents]
  split <;> simp

theorem block_tick_le (hq : b.queue.Ordered) (h : b.InStep) (hlength : b.queue.length ≤ n)
    (hblock : b.clock.blockLength ≤ n) (now : Int) :
    (b.tick now).buffer.clock.blockLength ≤ n := by
  have hkeeps := (course_tick hq now).1.induct
    (motive := fun b => b.queue.Ordered ∧ b.InStep ∧ b.queue.length ≤ n ∧ b.clock.blockLength ≤ n)
    (P := fun e => ∀ burst, e ≠ .took burst)
    (fun e he burst heq => not_took_tick b now burst (heq ▸ he)) ?_ ⟨hq, h, hlength, hblock⟩
  · exact hkeeps.1.2.2.2
  · intro b es b' hmove htook ⟨hq, h, hlength, hblock⟩
    have hnone : ∀ burst, .took burst ∉ es := fun burst hmem => htook _ hmem burst rfl
    exact ⟨ordered_move hmove hq, inStep_move hmove hq h,
      Nat.le_trans (length_move_le hmove hq hnone) hlength, block_move_le hmove hq h hlength hblock⟩

theorem block_untimed_le (hop : ∀ now, op ≠ .tick now) :
    (b.apply op).buffer.clock.blockLength ≤ b.clock.blockLength := by
  have huntimed := untimed_apply (b := b) hop
  generalize b.events op = es at huntimed
  generalize b.apply op = s at huntimed
  cases huntimed with
  | offer burst buffer_eq =>
    have hclock := (congrArg Buffer.clock buffer_eq).trans (keeps_offer b burst).1
    exact Nat.le_of_eq (congrArg Clock.blockLength hclock)
  | reset | repin => exact Nat.zero_le _
  | adopt settings =>
    exact Nat.le_of_eq (congrArg Clock.blockLength (takesOver_adopt b settings).keeps.1)
  | adjust _ clock_eq => exact Nat.le_of_eq (congrArg Clock.blockLength clock_eq)
  | pin | connect => exact Nat.le_refl _

/-- No greatest size along a history is more than `n` slots. -/
def Capped (b : Buffer) (history : List Operation) (n : Nat) : Prop :=
  ∀ before, before <+: history → (b.run before).sizing.maxSize ≤ n

theorem Capped.next (h : b.Capped (op :: history) n) :
    (b.apply op).buffer.sizing.maxSize ≤ n ∧ (b.apply op).buffer.Capped history n :=
  ⟨h [op] ⟨history, rfl⟩, fun before hbefore => h (op :: before) (List.cons_prefix_cons.mpr
    ⟨rfl, hbefore⟩)⟩

/-- Neither the slots nor a block come to more than was allowed at some time. -/
theorem sizes_of_capped (hq : b.queue.Ordered) (h : b.InStep) (hsize : b.queue.size ≤ n)
    (hblock : b.clock.blockLength < n) (hcapped : b.Capped history n) :
    (b.run history).queue.size ≤ n ∧ (b.run history).clock.blockLength < n := by
  induction history generalizing b with
  | nil => exact ⟨hsize, hblock⟩
  | cons op history ih =>
    obtain ⟨hmaxSize, hrest⟩ := hcapped.next
    have hgrows : (b.apply op).buffer.queue.size ≤ n :=
      Nat.le_trans (size_apply_le hq op) (Nat.max_le.mpr ⟨hsize, hmaxSize⟩)
    have hlength := hq.length_lt
    refine ih (ordered_apply hq op) (h.course (course_apply hq op).1 hq) hgrows ?_ hrest
    rcases op.tick_or_not with ⟨now, rfl⟩ | hop
    · have hle := block_tick_le (n := n - 1) hq h (by omega) (by omega) now
      change (b.tick now).buffer.clock.blockLength < n
      omega
    · exact Nat.lt_of_le_of_lt (block_untimed_le hop) hblock

theorem sizes_of_create {settings : Settings} (hcapped : (create settings).buffer.Capped history n) :
    ((create settings).buffer.run history).queue.size ≤ n ∧
      ((create settings).buffer.run history).clock.blockLength < n := by
  have hq := ordered_create settings
  have hsize := Nat.le_trans (size_create_le settings) (hcapped [] List.nil_prefix)
  have hpos : 0 < n := Nat.lt_of_lt_of_le (Nat.zero_lt_of_lt hq.head_lt) hsize
  exact sizes_of_capped hq (inStep_create settings) hsize hpos hcapped

def wordSlots : Nat := (2 ^ 64 - 1) / Packet.size

theorem maxSlots_le_wordSlots (settings : Settings) : maxSlots settings ≤ wordSlots := by
  have hword := UInt64.toNat_lt settings.maxBytes
  have hstandard : Queue.standardMinSize ≤ wordSlots := by decide
  refine Nat.max_le.mpr ⟨Nat.div_le_div_right ?_, hstandard⟩
  omega

theorem capped_wordSlots (settings : Settings) (history : List Operation) :
    (create settings).buffer.Capped history wordSlots := by
  intro before _
  rw [((consistent_create settings).run before).maxSize_eq]
  exact maxSlots_le_wordSlots _

/-- What the greatest size leaves beside the queued packets. -/
def spare (b : Buffer) : Nat := b.sizing.maxSize - (b.queue.length + 1)

def missing (b : Buffer) : Nat := b.settings.enough.toNat - b.clock.blocks

theorem toNat_ofNat_mul (i j : Nat) :
    (UInt64.ofNat i * UInt64.ofNat j).toNat = i * j % 2 ^ 64 := by
  rw [UInt64.toNat_mul, UInt64.toNat_ofNat', UInt64.toNat_ofNat', ← Nat.mul_mod]

theorem want_of_length (hlength : 0 < b.clock.blockLength) :
    b.want = min (b.missing * b.clock.blockLength % 2 ^ 64) b.spare := by
  have hne : b.clock.blockLength ≠ 0 := Nat.ne_of_gt hlength
  rw [want, if_neg hne]
  dsimp only
  rw [toNat_ofNat_mul]
  rfl

theorem overflow?_status (hlength : b.clock.blockLength < 2 ^ 64) : b.status.overflow? =
    if b.missing * b.clock.blockLength < 2 ^ 64 then none else some .product := by
  have hmissing : b.missing < 2 ^ 64 := Nat.lt_of_le_of_lt (Nat.sub_le _ _) b.settings.enough.toNat_lt
  change Word.overflow? (Word.mul? (UInt64.ofNat b.missing) (UInt64.ofNat b.clock.blockLength)) = _
  rw [Word.mul?, UInt64.toNat_ofNat_of_lt' hmissing, UInt64.toNat_ofNat_of_lt' hlength]
  split <;> rename_i hfits
  · exact (if_pos hfits).symm
  · exact (if_neg hfits).symm

theorem min_mod_eq_iff {product word bound : Nat} (hword : 0 < word) :
    min (product % word) bound = min product bound ↔ product < word ∨ bound ≤ product % word := by
  have hlt := Nat.mod_lt product hword
  have hle := Nat.mod_le product word
  constructor
  · intro h
    omega
  · rintro (hfits | hbound)
    · rw [Nat.mod_eq_of_lt hfits]
    · omega

theorem want_le_spare_iff (hq : b.queue.Ordered) : b.want ≤ b.spare ↔
    0 < b.clock.blockLength ∨ b.queue.size ≤ max b.sizing.maxSize (b.queue.length + 1) := by
  rcases Nat.eq_zero_or_pos b.clock.blockLength with hnone | hlength
  · have hwant : b.want = b.queue.room := if_pos hnone
    have hlt := hq.length_lt
    rw [hwant, Queue.room, spare]
    omega
  · rw [want_of_length hlength]
    exact ⟨fun _ => .inl hlength, fun _ => Nat.min_le_right _ _⟩

/-- What is asked for after a history, and where this is what is missing. -/
structure AsksFor (start : Buffer) (history : List Operation) (b : Buffer) : Prop where
  unknown : b.clock.blockLength = 0 → b.status.want = b.queue.room
  known : 0 < b.clock.blockLength →
    b.status.want = min (b.missing * b.clock.blockLength % 2 ^ 64) b.spare
  exact_iff : 0 < b.clock.blockLength →
    (b.status.want = min (b.missing * b.clock.blockLength) b.spare ↔
      b.missing * b.clock.blockLength < 2 ^ 64 ∨
        b.spare ≤ b.missing * b.clock.blockLength % 2 ^ 64)
  reported : b.status.overflow? =
    if b.missing * b.clock.blockLength < 2 ^ 64 then none else some .product
  spare_iff : b.status.want ≤ b.spare ↔
    0 < b.clock.blockLength ∨ b.queue.size ≤ max b.sizing.maxSize (b.queue.length + 1)
  /-- More than the greatest size leaves is asked for only after that size was lowered. -/
  beyond : b.spare < b.status.want → start.Lowered history b.queue.size
  /-- Thresholds whose distance fits the greatest size allowed so far are safe. -/
  capped : ∀ n, start.Capped history n → b.queue.size ≤ n ∧ b.clock.blockLength < n ∧
    (b.missing * n ≤ 2 ^ 64 → b.missing * b.clock.blockLength < 2 ^ 64)
  words : b.queue.size < 2 ^ 64 ∧ b.sizing.maxSize < 2 ^ 64 ∧ b.clock.blockLength < 2 ^ 64 ∧
    b.queue.room + (b.queue.length + 1) = b.queue.size

theorem blockLength_lt_word (settings : Settings) (history : List Operation) :
    ((create settings).buffer.run history).clock.blockLength < 2 ^ 64 := by
  obtain ⟨_, hblock⟩ := sizes_of_create (capped_wordSlots settings history)
  exact Nat.lt_trans hblock (by decide)

theorem asks_for_missing (settings : Settings) (history : List Operation) :
    AsksFor (create settings).buffer history ((create settings).buffer.run history) := by
  have hnew := ordered_create settings
  have hq := (course_run hnew history).ordered hnew
  constructor
  case unknown => exact fun hnone => if_pos hnone
  case known => exact want_of_length
  case exact_iff =>
    intro hlength
    change want _ = _ ↔ _
    rw [want_of_length hlength]
    exact min_mod_eq_iff (by decide)
  case reported => exact overflow?_status (blockLength_lt_word settings history)
  case spare_iff => exact want_le_spare_iff hq
  case beyond =>
    intro hbeyond
    have hspare := (want_le_spare_iff hq).not.mp (Nat.not_le.mpr hbeyond)
    refine lowered_of_large hnew (size_create_le settings) history (Nat.le_refl _) ?_
    omega
  case capped =>
    intro n hcapped
    obtain ⟨hsize, hblock⟩ := sizes_of_create hcapped
    refine ⟨hsize, hblock, fun hfits => ?_⟩
    rcases Nat.eq_zero_or_pos ((create settings).buffer.run history).missing with hzero | hpos
    · rw [hzero, Nat.zero_mul]
      decide
    · exact Nat.lt_of_lt_of_le (Nat.mul_lt_mul_of_pos_left hblock hpos) hfits
  case words =>
    have hword : wordSlots < 2 ^ 64 := by decide
    have hcapped := capped_wordSlots settings history
    obtain ⟨hsize, hblock⟩ := sizes_of_create hcapped
    have hmaxSize := hcapped history (List.prefix_refl _)
    have hlt := hq.length_lt
    rw [Queue.room]
    omega

/-- With 6000 packets and no more than 5577 slots allowed, 4919 packets are asked for beside those
that have no room; and with 2 ^ 63 blocks of two packets missing none is asked for. -/
theorem asks_beside_missing :
    let queued := List.replicate 6000 Packet.stuffing
    let lowered := (create {}).buffer.run [.push queued, .setMaxSize 1]
    let distant := (create {}).buffer.run [.setThresholds 9223372036854775809 1,
      .push [Packet.Draft.packet { pid := 256, clock? := some 0 },
        Packet.Draft.packet { pid := 256 },
        Packet.Draft.packet { pid := 256, clock? := some 27000 }],
      .tick 0, .tick 1000000]
    (lowered.clock.blockLength = 0 ∧ lowered.spare = 0 ∧ lowered.status.want = 4919) ∧
      distant.settings.enough = 9223372036854775809 ∧ distant.clock.blockLength = 2 ∧
      min (distant.missing * distant.clock.blockLength) distant.spare = 44616 ∧
      distant.status.want = 0 ∧ distant.status.overflow? = some .product := by
  intro queued lowered distant
  have hqueued : queued.length = 6000 := List.length_replicate
  clear_value queued
  obtain ⟨hmaxSize, _, hlength, hnoBlock⟩ := queue_of_lowered hqueued
  refine ⟨⟨hnoBlock, ?_, (want_of_lowered hqueued).2.2⟩, by decide +kernel, by decide +kernel,
    by decide +kernel, by decide +kernel, by decide +kernel⟩
  rw [spare, hmaxSize, hlength]

end Buffer
end PacedStream
