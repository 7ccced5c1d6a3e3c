import PacedStream.Proofs.Buffer.Histories
import PacedStream.Proofs.Settings.Options

/-!
What a tick leaves alone, and what every operation keeps in agreement: thresholds that fit together,
and the greatest size, the pinned identifier and the least size that follow from the settings.
-/

namespace PacedStream
set_option autoImplicit false

section Sizes
variable {α : Type}

theorem Queue.minSize_push? {q r : Queue α} {items : List α} (h : q.push? items = some r) :
    r.minSize = q.minSize := by
  have hfold : ∀ q : Queue α, (items.foldl write q).minSize = q.minSize := by
    clear h
    induction items with
    | nil => exact fun _ => rfl
    | cons a rest ih => exact fun q => ih (q.write a)
  unfold push? at h
  split at h
  · cases h
    exact hfold q
  · cases h

theorem Sizing.maxSize_consider (s : Sizing) (now : Int) : (s.consider now).maxSize = s.maxSize := by
  unfold consider
  split <;> rfl

variable [Inhabited α]

theorem Queue.minSize_resize? {q r : Queue α} {n : Nat} (h : q.resize? n = some r) :
    r.minSize = q.minSize := by
  rw [resize?_eq] at h
  split at h
  · cases h
    rfl
  · split at h
    · cases h
    · cases h
      rfl

theorem Sizing.minSize_grow (maxSize count n : Nat) (q : Queue α) :
    (grow maxSize count n q).queue.minSize = q.minSize :=
  grow_induct (motive := fun r => r.minSize = q.minSize) maxSize count n
    (fun hresize hbefore => (Queue.minSize_resize? hresize).trans hbefore) rfl

end Sizes

namespace Buffer

variable {b b' b'' : Buffer} {now : Int}

/-- What no part of a tick changes, once it has noted its instant. -/
structure Fixed (b b' : Buffer) : Prop where
  settings_eq : b'.settings = b.settings
  maxSize_eq : b'.sizing.maxSize = b.sizing.maxSize
  pinned_eq : b'.clock.pinned? = b.clock.pinned?
  minSize_eq : b'.queue.minSize = b.queue.minSize
  delivers_eq : b'.delivers = b.delivers
  asks_eq : b'.asks = b.asks
  lastTick_eq : b'.lastTick? = b.lastTick?

theorem Fixed.refl (b : Buffer) : Fixed b b := ⟨rfl, rfl, rfl, rfl, rfl, rfl, rfl⟩

theorem Fixed.trans (h : Fixed b b') (h' : Fixed b' b'') : Fixed b b'' :=
  ⟨h'.settings_eq.trans h.settings_eq, h'.maxSize_eq.trans h.maxSize_eq,
    h'.pinned_eq.trans h.pinned_eq, h'.minSize_eq.trans h.minSize_eq,
    h'.delivers_eq.trans h.delivers_eq, h'.asks_eq.trans h.asks_eq,
    h'.lastTick_eq.trans h.lastTick_eq⟩

theorem fixed_recount (b : Buffer) : Fixed b b.recount := ⟨rfl, rfl, rfl, rfl, rfl, rfl, rfl⟩

theorem fixed_flow (b : Buffer) (flow : Flow) : Fixed b { b with flow } :=
  ⟨rfl, rfl, rfl, rfl, rfl, rfl, rfl⟩

theorem fixed_credit (b : Buffer) (credit : Float) :
    Fixed b { b with clock := { b.clock with credit } } := ⟨rfl, rfl, rfl, rfl, rfl, rfl, rfl⟩

theorem fixed_withScan (b : Buffer) : Fixed b (b.withScan b.sought) := by
  obtain ⟨hpinned, hminSize, _⟩ :=
    Scan.keeps_run b.queue.unscanned { clock := b.clock, queue := b.queue }
  exact ⟨rfl, rfl, hpinned, hminSize, rfl, rfl, rfl⟩

theorem fixed_relearn (b : Buffer) : Fixed b b.relearn := ⟨rfl, rfl, rfl, rfl, rfl, rfl, rfl⟩

theorem minSize_dropAll (b : Buffer) : b.dropAll.queue.minSize = b.queue.minSize := by
  change ((b.queue.clear.resize? b.queue.clear.minSize).getD b.queue.clear).minSize = b.queue.minSize
  cases h : b.queue.clear.resize? b.queue.clear.minSize with
  | none => rfl
  | some queue =>
    have hclear := Queue.minSize_resize? h
    exact hclear

theorem fixed_dropAll (b : Buffer) : Fixed b b.dropAll :=
  ⟨rfl, rfl, rfl, minSize_dropAll b, rfl, rfl, rfl⟩

theorem fixed_settle (b : Buffer) (now : Int) : Fixed b (b.settle now).buffer := by
  unfold settle
  dsimp only
  split
  · exact ⟨rfl, Sizing.maxSize_consider _ _, rfl, rfl, rfl, rfl, rfl⟩
  · rename_i queue hhalve
    exact ⟨rfl, Sizing.maxSize_consider _ _, rfl,
      Queue.minSize_resize? (Sizing.resize?_of_halve? hhalve), rfl, rfl, rfl⟩

theorem fixed_sendOff (b : Buffer) : Fixed b b.sendOff := ⟨rfl, rfl, rfl, rfl, rfl, rfl, rfl⟩

theorem fixed_spend (b : Buffer) : Fixed b b.spend := fixed_credit b _

theorem fixed_moment {m : Buffer} (h : b.moment? now = some m) : Fixed b m := by
  cases comesTo_of_moment h with
  | ahead => exact fixed_spend b
  | found => exact ((fixed_spend b).trans (fixed_withScan b.spend)).trans (fixed_settle _ now)

theorem fixed_pace (b : Buffer) (now : Int) : Fixed b (b.pace now).buffer := by
  unfold pace
  split
  · exact .refl b
  · have hrounds := paceLoop_induct now (fun s => Fixed b s.buffer) (fun s => Fixed b s.buffer)
      (b.queue.length + 1) (s := { buffer := b })
      (fun log hbefore hmoment => (hbefore.trans (fixed_moment hmoment)).trans (fixed_sendOff _))
      (fun log hbefore _ =>
        hbefore.trans (((fixed_spend _).trans (fixed_withScan _)).trans (fixed_relearn _)))
      (.refl b)
    exact hrounds.elim id id

theorem fixed_play (b : Buffer) (now : Int) (microseconds : Nat) :
    Fixed b (b.play now microseconds).buffer := by
  unfold play
  dsimp only
  split
  · exact fixed_flow b _
  · refine Fixed.trans ?_ (fixed_pace _ now)
    exact ⟨rfl, rfl, rfl, rfl, rfl, rfl, rfl⟩

theorem fixed_tryStart (b : Buffer) (now : Int) : Fixed b (b.tryStart now).buffer := by
  unfold tryStart
  dsimp only
  split <;> exact ⟨rfl, rfl, rfl, rfl, rfl, rfl, rfl⟩

theorem fixed_prepare (b : Buffer) (now : Int) : Fixed b (b.prepare now).buffer := by
  unfold prepare
  split
  · exact fixed_tryStart b now
  · dsimp only
    split
    · exact (fixed_withScan b).trans (fixed_tryStart _ now)
    · exact fixed_withScan b

theorem fixed_recover (b : Buffer) (now : Int) : Fixed b (b.recover now).buffer := by
  unfold recover
  dsimp only
  split
  · exact ((fixed_recount b).trans (fixed_flow _ _)).trans (fixed_dropAll _)
  · exact ⟨rfl, rfl, rfl, rfl, rfl, rfl, rfl⟩
  · exact ⟨rfl, rfl, rfl, rfl, rfl, rfl, rfl⟩

theorem fixed_advance (b : Buffer) (now : Int) (microseconds : Nat) :
    Fixed (b.timed now) (b.advance now microseconds).buffer := by
  obtain ⟨asked, hadvance⟩ := advance_eq b now microseconds
  rw [hadvance]
  cases b.flow with
  | empty => exact .refl _
  | buffering => exact fixed_prepare _ now
  | running => exact fixed_play _ now microseconds
  | underflow => exact fixed_recover _ now

theorem fixed_tick (b : Buffer) (now : Int) :
    Fixed { b with lastTick? := (b.tick now).buffer.lastTick? } (b.tick now).buffer := by
  have hticks := ticks b now
  generalize b.tick now = s at hticks
  cases hticks with
  | jump => exact ⟨rfl, rfl, rfl, minSize_dropAll b, rfl, rfl, rfl⟩
  | skip => exact .refl _
  | @count microseconds =>
    have hfixed := fixed_advance b now microseconds
    rw [hfixed.lastTick_eq]
    exact hfixed

/-- Settings that can be used, and all that follows from them. -/
structure Consistent (b : Buffer) : Prop where
  low_pos : 1 ≤ b.settings.low.toNat
  low_le : b.settings.low.toNat ≤ b.settings.enough.toNat
  maxSize_eq : b.sizing.maxSize = maxSlots b.settings
  pinned_eq : b.clock.pinned? = b.settings.pid?
  minSize_eq : b.queue.minSize = Queue.standardMinSize

theorem Consistent.fixed (hc : b.Consistent) (h : Fixed b b') : b'.Consistent := by
  constructor
  · rw [h.settings_eq]
    exact hc.low_pos
  · rw [h.settings_eq]
    exact hc.low_le
  · rw [h.settings_eq, h.maxSize_eq]
    exact hc.maxSize_eq
  · rw [h.settings_eq, h.pinned_eq]
    exact hc.pinned_eq
  · rw [h.minSize_eq]
    exact hc.minSize_eq

theorem Consistent.timed (hc : b.Consistent) (lastTick? : Option Int) :
    ({ b with lastTick? } : Buffer).Consistent :=
  ⟨hc.low_pos, hc.low_le, hc.maxSize_eq, hc.pinned_eq, hc.minSize_eq⟩

theorem thresholds_usable (settings : Settings) : 1 ≤ (usable settings).1.low.toNat ∧
    (usable settings).1.low.toNat ≤ (usable settings).1.enough.toNat := by
  unfold usable
  split
  · rename_i hok
    exact Settings.checkThresholds_eq_ok_iff.mp hok
  · have hstandard : 1 ≤ Settings.standard.low.toNat ∧
        Settings.standard.low.toNat ≤ Settings.standard.enough.toNat := by decide
    exact hstandard

theorem usable_of_thresholds {settings : Settings} (hlow : 1 ≤ settings.low.toNat)
    (hle : settings.low.toNat ≤ settings.enough.toNat) : usable settings = (settings, []) := by
  have hok : Settings.checkThresholds settings.enough settings.low = .ok () :=
    Settings.checkThresholds_eq_ok_iff.mpr ⟨hlow, hle⟩
  unfold usable
  rw [hok]

theorem consistent_create (settings : Settings) : (create settings).buffer.Consistent := by
  obtain ⟨hlow, hle⟩ := thresholds_usable settings
  exact ⟨hlow, hle, rfl, rfl, rfl⟩

theorem fixed_offer (b : Buffer) (burst : List Packet) : Fixed b (b.offer burst).buffer := by
  have hgrown := Sizing.minSize_grow b.sizing.maxSize burst.length
    (b.sizing.maxSize - b.queue.size) b.queue
  unfold offer
  dsimp only
  split
  · exact .refl b
  · split
    · refine ⟨rfl, rfl, rfl, ?_, rfl, rfl, rfl⟩
      change (((b.sizing.makeRoom b.queue burst.length).queue.push? burst).getD
        (b.sizing.makeRoom b.queue burst.length).queue).minSize = b.queue.minSize
      cases h : (b.sizing.makeRoom b.queue burst.length).queue.push? burst with
      | none => exact hgrown
      | some queue => exact (Queue.minSize_push? h).trans hgrown
    · exact ⟨rfl, rfl, rfl, hgrown, rfl, rfl, rfl⟩

/-- What nothing between two ticks changes, but for connecting the receiver. -/
structure Aside (b b' : Buffer) : Prop where
  minSize_eq : b'.queue.minSize = b.queue.minSize
  delivers_eq : b'.delivers = b.delivers
  lastTick_eq : b'.lastTick? = b.lastTick?

theorem Fixed.aside (h : Fixed b b') : Aside b b' := ⟨h.minSize_eq, h.delivers_eq, h.lastTick_eq⟩

theorem TakesOver.aside {settings : Settings} {s : Step} (h : TakesOver b settings s) :
    Aside b s.buffer := by
  cases h with
  | stays => exact ⟨rfl, rfl, rfl⟩
  | moves _ hresize => exact ⟨Queue.minSize_resize? hresize, rfl, rfl⟩

theorem aside_apply {op : Operation} (noTick : ∀ now, op ≠ .tick now)
    (noReceiver : ∀ on, op ≠ .setDelivers on) : Aside b (b.apply op).buffer := by
  have huntimed := untimed_apply (b := b) noTick
  have hevents : ∀ on, b.events op ≠ [.connected on] := by
    cases op with
    | tick now => exact absurd rfl (noTick now)
    | setDelivers on => exact absurd rfl (noReceiver on)
    | push | offer | pushBytes =>
      unfold events taking
      dsimp only
      split <;> exact fun _ => nofun
    | _ => exact fun _ => nofun
  generalize b.events op = es at huntimed hevents
  generalize b.apply op = s at huntimed
  cases huntimed with
  | offer burst buffer_eq =>
    rw [buffer_eq]
    exact (fixed_offer b burst).aside
  | reset => exact (fixed_dropAll b).aside
  | adopt settings => exact (takesOver_adopt b settings).aside
  | adjust queue_eq _ _ delivers_eq _ lastTick_eq =>
    exact ⟨congrArg Queue.minSize queue_eq, delivers_eq, lastTick_eq⟩
  | pin | repin => exact ⟨rfl, rfl, rfl⟩
  | connect on => exact absurd rfl (hevents on)

theorem Consistent.adopt {settings : Settings} (hc : b.Consistent) (hlow : 1 ≤ settings.low.toNat)
    (hle : settings.low.toNat ≤ settings.enough.toNat) (hpid : settings.pid? = b.settings.pid?) :
    (b.adopt settings).buffer.Consistent := by
  have htakes := takesOver_adopt b settings
  have hpinned : b.clock.pinned? = settings.pid? := hc.pinned_eq.trans hpid.symm
  have hminSize := htakes.aside.minSize_eq.trans hc.minSize_eq
  generalize b.adopt settings = s at htakes hminSize
  cases htakes <;> exact ⟨hlow, hle, rfl, hpinned, hminSize⟩

theorem consistent_apply (hc : b.Consistent) (op : Operation) : (b.apply op).buffer.Consistent := by
  cases op with
  | push burst =>
    have hbuffer : (b.apply (.push burst)).buffer = (b.offer burst).buffer := buffer_push
    rw [hbuffer]
    exact hc.fixed (fixed_offer b burst)
  | offer burst => exact hc.fixed (fixed_offer b burst)
  | pushBytes bytes =>
    have hbuffer : (b.apply (.pushBytes bytes)).buffer =
        (b.offer (Packet.frame .empty bytes).packets.toList).buffer := buffer_pushBytes bytes
    rw [hbuffer]
    exact hc.fixed (fixed_offer b _)
  | tick now => exact (hc.timed _).fixed (fixed_tick b now)
  | reset => exact hc.fixed (fixed_dropAll b)
  | setThresholds enough low =>
    unfold apply setThresholds
    dsimp only
    split
    · exact hc
    · rename_i hok
      obtain ⟨hlow, hle⟩ := Settings.checkThresholds_eq_ok_iff.mp hok
      exact ⟨hlow, hle, hc.maxSize_eq, hc.pinned_eq, hc.minSize_eq⟩
  | setMaxSize megabytes =>
    unfold apply setMaxSize
    dsimp only
    split
    · exact hc
    · exact hc.adopt hc.low_pos hc.low_le rfl
  | setOptions options =>
    unfold apply setOptions
    dsimp only
    split
    · exact hc
    · rename_i settings hok
      have htakes := Settings.withOptions_eq_ok_iff.mp hok
      exact hc.adopt htakes.low_pos htakes.low_le htakes.pid?_eq
  | setName name => exact ⟨hc.low_pos, hc.low_le, hc.maxSize_eq, hc.pinned_eq, hc.minSize_eq⟩
  | setPid pid? =>
    unfold apply setPid
    dsimp only
    split
    · exact hc
    · split <;> exact ⟨hc.low_pos, hc.low_le, hc.maxSize_eq, rfl, hc.minSize_eq⟩
  | setDelivers on | setAsks on =>
    exact ⟨hc.low_pos, hc.low_le, hc.maxSize_eq, hc.pinned_eq, hc.minSize_eq⟩

theorem Consistent.run (hc : b.Consistent) (history : List Operation) :
    (b.run history).Consistent := by
  induction history generalizing b with
  | nil => exact hc
  | cons op rest ih => exact ih (consistent_apply hc op)

end Buffer
end PacedStream
