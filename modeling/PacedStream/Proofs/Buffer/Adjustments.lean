import PacedStream.Proofs.Buffer.Acceptance

/-!
Changes of settings. Main statement: on every buffer reached from a new one a change is refused and
nothing changes, or it is made and the queued packets stay. New thresholds change nothing else. A
new greatest size leaves scan, clock and flow as they were, and a queue with more slots shrinks to it
unless its packets do not fit. A new identifier takes the scan back to the front.
-/

namespace PacedStream.Buffer
set_option autoImplicit false

variable {b : Buffer} {s : Step} {sound : Prop} {after : Buffer → Prop} {settings : Settings}

/-- A change is made exactly if what it asks for is sound; then the queued packets stay and `after`
holds of the buffer, and otherwise nothing changes. -/
structure Changes (b : Buffer) (s : Step) (sound : Prop) (after : Buffer → Prop) : Prop where
  accepted_iff : s.accepted = true ↔ sound
  refused : s.accepted = false → s.buffer = b
  toList_eq : s.accepted = true → s.buffer.queue.toList = b.queue.toList
  made : s.accepted = true → after s.buffer

theorem changes_of_unsound (h : ¬ sound) (fault : Fault) :
    Changes b (b.refuse fault) sound after :=
  ⟨iff_of_false nofun h, fun _ => rfl, nofun, nofun⟩

theorem changes_of_sound (h : sound) (haccepted : s.accepted = true)
    (htoList : s.buffer.queue.toList = b.queue.toList) (hafter : after s.buffer) :
    Changes b s sound after :=
  ⟨iff_of_true haccepted h, fun hrefused => absurd (haccepted.symm.trans hrefused) nofun,
    fun _ => htoList, fun _ => hafter⟩

theorem changes_setThresholds (b : Buffer) (enough low : UInt64) :
    Changes b (b.setThresholds enough low) (1 ≤ low.toNat ∧ low.toNat ≤ enough.toNat)
      fun b' => b' = { b with settings := { b.settings with enough, low } } := by
  unfold setThresholds
  cases h : Settings.checkThresholds enough low with
  | error fault =>
    refine changes_of_unsound (fun hsound => ?_) fault
    rw [Settings.checkThresholds_eq_ok_iff.mpr hsound] at h
    cases h
  | ok => exact changes_of_sound (Settings.checkThresholds_eq_ok_iff.mp h) rfl rfl rfl

/-- New settings are taken over: besides the greatest size only the slots of the queue may change,
and they do if there are too many for the settings and few enough of them hold packets. -/
structure Adopts (b : Buffer) (settings : Settings) (b' : Buffer) : Prop where
  rest_eq : b' = { b with
    settings, sizing := { b.sizing with maxSize := maxSlots settings }, queue := b'.queue }
  scanned_eq : b'.queue.scanned = b.queue.scanned
  kept : b.queue.size ≤ maxSlots settings ∨ maxSlots settings ≤ b.queue.length →
    b'.queue = b.queue
  shrunk : maxSlots settings < b.queue.size → b.queue.length < maxSlots settings →
    b'.queue.size = maxSlots settings

theorem TakesOver.adopts {settings : Settings} {s : Step} (hq : b.queue.Ordered)
    (hmin : b.queue.minSize = Queue.standardMinSize) (h : TakesOver b settings s) :
    Adopts b settings s.buffer := by
  -- The least size never is more than the greatest, so it does not get in the way.
  have hmax : max (maxSlots settings) b.queue.minSize = maxSlots settings :=
    Nat.max_eq_left (hmin ▸ Nat.le_max_right _ _)
  cases h with
  | stays _ hkept =>
    refine ⟨rfl, rfl, fun _ => rfl, fun hlarge hfits => ?_⟩
    rcases hkept with hsmall | hnone
    · exact absurd hsmall (Nat.not_le.mpr hlarge)
    · have hfull := (Queue.resize?_eq_none_iff.mp hnone).2
      rw [hmax] at hfull
      exact absurd hfull (Nat.not_le.mpr hfits)
  | @moves queue hlarge hresize =>
    have hresized := Queue.resized_of_resize? hq hresize
    have hsize : queue.size = maxSlots settings := hresized.size_eq.trans hmax
    have hfits : ¬ (max (maxSlots settings) b.queue.minSize ≠ b.queue.size ∧
        max (maxSlots settings) b.queue.minSize ≤ b.queue.length) := by
      rw [← Queue.resize?_eq_none_iff, hresize]
      exact nofun
    rw [hmax] at hfits
    refine ⟨rfl, scanned_eq_of_passed hresized.passed_eq, fun hkept => ?_, fun _ _ => hsize⟩
    omega

theorem changes_setMaxSize (hq : b.queue.Ordered)
    (hmin : b.queue.minSize = Queue.standardMinSize) (megabytes : Nat) :
    Changes b (b.setMaxSize megabytes) (1 ≤ megabytes ∧ megabytes ≤ maxMegabytes) fun b' =>
      ∃ maxBytes, maxBytes.toNat = megabytes * Settings.bytesPerMegabyte ∧
        Adopts b { b.settings with maxBytes } b' := by
  unfold setMaxSize
  cases h : Settings.checkMegabytes megabytes with
  | error fault =>
    refine changes_of_unsound (fun hsound => ?_) fault
    rw [Settings.checkMegabytes_eq_ok_iff.mpr hsound] at h
    cases h
  | ok =>
    have hsound := Settings.checkMegabytes_eq_ok_iff.mp h
    have hword : megabytes * Settings.bytesPerMegabyte < 2 ^ 64 :=
      Nat.lt_of_le_of_lt (Nat.mul_le_mul_right _ hsound.2) (by decide)
    have htakes := takesOver_adopt b
      { b.settings with maxBytes := .ofNat (megabytes * Settings.bytesPerMegabyte) }
    refine changes_of_sound hsound htakes.quiet.2 (htakes.queued hq).1
      ⟨_, ?_, htakes.adopts hq hmin⟩
    exact UInt64.toNat_ofNat_of_lt' hword

theorem changes_setOptions (hq : b.queue.Ordered)
    (hmin : b.queue.minSize = Queue.standardMinSize) (options : String) :
    Changes b (b.setOptions options)
      (∃ settings, b.settings.withOptions options.toList = .ok settings) fun b' =>
      ∃ enough low maxBytes,
        b.settings.withOptions options.toList = .ok { b.settings with enough, low, maxBytes } ∧
          1 ≤ low.toNat ∧ low.toNat ≤ enough.toNat ∧
            Adopts b { b.settings with enough, low, maxBytes } b' := by
  unfold setOptions
  cases h : b.settings.withOptions options.toList with
  | error fault => exact changes_of_unsound (fun ⟨_, hok⟩ => nomatch hok) fault
  | ok settings =>
    have hoptions := Settings.withOptions_eq_ok_iff.mp h
    have htakes := takesOver_adopt b settings
    refine changes_of_sound ⟨settings, rfl⟩ htakes.quiet.2 (htakes.queued hq).1
      ⟨_, _, _, congrArg _ hoptions.eq_with, hoptions.low_pos, hoptions.low_le, ?_⟩
    rw [← hoptions.eq_with]
    exact htakes.adopts hq hmin

/-- An identifier is pinned, or none any more. After the first packets the clock is to be found
anew, from the front of the queue. -/
structure Pins (b : Buffer) (pid? : Option UInt16) (b' : Buffer) : Prop where
  settings_eq : b'.settings = { b.settings with pid? }
  unfed : b.flow = .empty → b' = { b with
    settings := { b.settings with pid? }, clock := b.clock.pin pid? }
  fed : b.flow ≠ .empty → b'.flow = .buffering ∧ b'.queue.mark = b'.queue.head ∧
    b'.clock.hasBlock = false ∧ b'.clock.blocks = 0 ∧ b'.clock.reference? = pid?

theorem checkPid?_eq_ok_iff {pid? : Option UInt16} :
    checkPid? pid? = .ok () ↔ ∀ pid, pid? = some pid → pid < Packet.nullPid := by
  cases pid? with
  | none => exact iff_of_true rfl nofun
  | some pid =>
    rw [checkPid?, Settings.checkPid_eq_ok_iff]
    exact ⟨fun hlt _ hpid => Option.some.inj hpid ▸ hlt, fun hall => hall pid rfl⟩

theorem changes_setPid (b : Buffer) (pid? : Option UInt16) :
    Changes b (b.setPid pid?) (∀ pid, pid? = some pid → pid < Packet.nullPid) (Pins b pid?) := by
  unfold setPid
  cases h : checkPid? pid? with
  | error fault =>
    refine changes_of_unsound (fun hsound => ?_) fault
    rw [checkPid?_eq_ok_iff.mpr hsound] at h
    cases h
  | ok =>
    have hsound := checkPid?_eq_ok_iff.mp h
    by_cases hflow : b.flow = .empty
    · simp only [hflow, if_true]
      refine changes_of_sound hsound rfl rfl ⟨rfl, fun _ => ?_, fun hfed => absurd hflow hfed⟩
      rw [← hflow]
    · simp only [hflow, if_false]
      exact changes_of_sound hsound rfl Queue.toList_rewind
        ⟨rfl, fun hunfed => absurd hunfed hflow, fun _ => ⟨rfl, rfl, rfl, rfl, rfl⟩⟩

structure Adjusts (b : Buffer) : Prop where
  thresholds : ∀ enough low : UInt64,
    Changes b (b.setThresholds enough low) (1 ≤ low.toNat ∧ low.toNat ≤ enough.toNat)
      fun b' => b' = { b with settings := { b.settings with enough, low } }
  maxSize : ∀ megabytes : Nat,
    Changes b (b.setMaxSize megabytes) (1 ≤ megabytes ∧ megabytes ≤ maxMegabytes) fun b' =>
      ∃ maxBytes, maxBytes.toNat = megabytes * Settings.bytesPerMegabyte ∧
        Adopts b { b.settings with maxBytes } b'
  options : ∀ options : String, Changes b (b.setOptions options)
    (∃ settings, b.settings.withOptions options.toList = .ok settings) fun b' =>
      ∃ enough low maxBytes,
        b.settings.withOptions options.toList = .ok { b.settings with enough, low, maxBytes } ∧
          1 ≤ low.toNat ∧ low.toNat ≤ enough.toNat ∧
            Adopts b { b.settings with enough, low, maxBytes } b'
  pid : ∀ pid? : Option UInt16,
    Changes b (b.setPid pid?) (∀ pid, pid? = some pid → pid < Packet.nullPid) (Pins b pid?)

theorem adjusts_run (settings : Settings) (history : List Operation) :
    ((create settings).buffer.run history).Adjusts := by
  have hnew := ordered_create settings
  have hq := (course_run hnew history).ordered hnew
  have hmin := ((consistent_create settings).run history).minSize_eq
  exact ⟨changes_setThresholds _, changes_setMaxSize hq hmin, changes_setOptions hq hmin,
    changes_setPid _⟩

end PacedStream.Buffer
