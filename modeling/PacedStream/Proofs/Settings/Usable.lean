import PacedStream.Proofs.Buffer.Upkeep
import PacedStream.Proofs.Settings.Lines

/-!
Usable settings: thresholds that fit together, a greatest size of 1 to 1024 whole megabytes, an
identifier below the one of stuffing packets, and a name. Main statement: whatever documents and
variables are found, what is loaded is usable, each document keeps settings usable line by line, and
a buffer takes loaded settings over as they are; conversely, all usable settings can be asked for.
-/

namespace PacedStream
set_option autoImplicit false

namespace Settings

variable {s s' : Settings} {parts : List (List Char)} {line : List Char}

structure Usable (s : Settings) : Prop where
  low_pos : 1 ≤ s.low.toNat
  low_le : s.low.toNat ≤ s.enough.toNat
  megabytes : ∃ n, 1 ≤ n ∧ n ≤ maxMegabytes ∧ s.maxBytes.toNat = n * bytesPerMegabyte
  pid_lt : ∀ pid, s.pid? = some pid → pid < Packet.nullPid
  name_ne : s.name ≠ ""

theorem usable_standard : Usable standard :=
  ⟨by decide, by decide, ⟨8, by decide, by decide, rfl⟩, nofun, by decide⟩

theorem Usable.takes (h : Usable s) (htakes : Takes s parts s') : Usable s' := by
  refine ⟨htakes.low_pos, htakes.low_le, ?_, htakes.pid?_eq ▸ h.pid_lt, htakes.name_eq ▸ h.name_ne⟩
  by_cases hempty : fieldAt parts 2 = []
  · have hkept := htakes.maxBytes
    rw [hempty, Sizes, means_nil_iff] at hkept
    rw [hkept]
    exact h.megabytes
  · obtain ⟨n, -, ⟨pos, le⟩, heq⟩ := (means_iff hempty).mp htakes.maxBytes
    exact ⟨n, pos, le, heq⟩

theorem Usable.pinned (h : Usable s) {pid : UInt16} (hlt : pid < Packet.nullPid) :
    Usable { s with pid? := some pid } :=
  ⟨h.low_pos, h.low_le, h.megabytes, fun _ hpid => Option.some.inj hpid ▸ hlt, h.name_ne⟩

theorem Usable.named (h : Usable s) {name : String} (hne : name ≠ "") : Usable { s with name } :=
  ⟨h.low_pos, h.low_le, h.megabytes, h.pid_lt, hne⟩

theorem Usable.assigns (h : Usable s) (hassigns : Assigns s line s') : Usable s' := by
  cases hassigns with
  | options _ takes => exact h.takes takes
  | pid _ _ lt => exact h.pinned lt
  | name _ ne => exact h.named fun hname => ne (String.ofList_eq_empty_iff.mp hname)

theorem Usable.applyLine (h : Usable s) (line : List Char) : Usable (s.applyLine line).1 := by
  rcases inert_or_assigns_applyLine s line with hinert | hassigns
  · rwa [applyLine_of_inert hinert]
  · exact h.assigns hassigns

theorem Usable.applyLines (h : Usable s) (lines : List (List Char)) :
    Usable (s.applyLines lines).1 := by
  induction lines generalizing s with
  | nil => exact h
  | cons line rest ih => exact ih (h.applyLine line)

theorem Usable.applyText (h : Usable s) (text : String) : Usable (s.applyText text).1 :=
  h.applyLines _

theorem Usable.override (h : Usable s) {change : Except Fault Settings}
    (hchange : ∀ s', change = .ok s' → Usable s') (source : String) :
    Usable (s.override source change).1 := by
  cases change with
  | error fault => exact h
  | ok s' => exact hchange s' rfl

theorem Usable.applyOptions (h : Usable s) (value? : Option String) :
    Usable (s.applyOptions value?).1 := by
  cases value? with
  | none => exact h
  | some value => exact h.override (fun _ hok => h.takes (withOptions_eq_ok_iff.mp hok)) _

theorem Usable.applyPid (h : Usable s) (value? : Option String) : Usable (s.applyPid value?).1 := by
  cases value? with
  | none => exact h
  | some value =>
    refine h.override (fun s' hok => ?_) _
    cases hread : readPid value.toList with
    | error fault =>
      rw [hread] at hok
      cases hok
    | ok pid =>
      rw [hread] at hok
      cases hok
      exact h.pinned (readPid_eq_ok_iff.mp hread).2

theorem Usable.applyName (h : Usable s) (value? : Option String) : Usable (s.applyName value?) := by
  cases value? with
  | none => exact h
  | some value =>
    unfold Settings.applyName
    dsimp only
    split
    · exact h
    · rename_i hne
      exact h.named fun hvalue => hne (String.isEmpty_iff.mpr hvalue)

theorem usable_load (file : String → Option ByteArray) (environment : String → Option String) :
    Usable (load file environment).1 := by
  unfold load
  dsimp only
  refine ((Usable.applyOptions ?_ _).applyPid _).applyName _
  split
  · exact usable_standard
  · exact usable_standard.applyText _

theorem create_of_usable (h : Usable s) : (Buffer.create s).buffer.settings = s ∧
    (Buffer.create s).log = #[] ∧ (Buffer.create s).buffer.sizing.maxSize = s.maxPackets := by
  have hkept : Buffer.usable s = (s, []) := Buffer.usable_of_thresholds h.low_pos h.low_le
  obtain ⟨n, pos, -, hbytes⟩ := h.megabytes
  -- A megabyte holds more packets than the least queue.
  have hroom : Queue.standardMinSize ≤ s.maxPackets := by
    have hsize : Packet.size = 188 := rfl
    unfold maxPackets Queue.standardMinSize
    rw [hbytes, bytesPerMegabyte, hsize]
    omega
  have hmax : Buffer.maxSlots s = s.maxPackets := Nat.max_eq_left hroom
  unfold Buffer.create
  rw [hkept]
  exact ⟨rfl, rfl, hmax⟩

theorem plain_of_mem_toDigits {c : Char} {n : Nat} (h : c ∈ Nat.toDigits 10 n) :
    ¬ Text.isBlank c ∧ c ≠ ',' := by
  obtain ⟨d, hdigit⟩ := (Numeral.spells_toDigits n).digit_of_mem h
  have hzero : '0'.toNat = 48 := rfl
  cases hdigit with
  | figure below is =>
    constructor
    · intro hblank
      obtain ⟨r, hr, hle⟩ := Text.inRanges_iff.mp hblank
      simp only [Text.blankRanges, List.mem_cons, List.not_mem_nil, or_false] at hr
      rcases hr with rfl | rfl | rfl | rfl | rfl | rfl | rfl | rfl | rfl | rfl <;> omega
    · rintro rfl
      have hcomma : ','.toNat = 44 := rfl
      omega
  | lower _ _ lt => omega
  | upper _ _ lt => omega

theorem trim_toDigits (n : Nat) : Text.trim (Nat.toDigits 10 n) = Nat.toDigits 10 n :=
  Text.strip_eq_self fun _ hc => (plain_of_mem_toDigits hc).1

def written (enough low megabytes : Nat) : List Char :=
  Nat.toDigits 10 enough ++ ',' :: (Nat.toDigits 10 low ++ ',' :: Nat.toDigits 10 megabytes)

theorem fields_written (enough low megabytes : Nat) : fields (written enough low megabytes) =
    [Nat.toDigits 10 enough, Nat.toDigits 10 low, Nat.toDigits 10 megabytes] := by
  have hcomma : ∀ n, ',' ∉ Nat.toDigits 10 n := fun _ h => (plain_of_mem_toDigits h).2 rfl
  unfold fields written
  rw [List.splitOn_append_cons_self_of_not_mem (hcomma _),
    List.splitOn_append_cons_self_of_not_mem (hcomma _), List.splitOn_eq_singleton (hcomma _)]
  simp only [List.map_cons, List.map_nil, trim_toDigits]

theorem takes_written (h : Usable s) {n : Nat} (pos : 1 ≤ n) (le : n ≤ maxMegabytes)
    (hbytes : s.maxBytes.toNat = n * bytesPerMegabyte) (before : Settings) :
    Takes before (fields (written s.enough.toNat s.low.toNat n))
      { before with enough := s.enough, low := s.low, maxBytes := s.maxBytes } := by
  rw [fields_written]
  exact ⟨Nat.le_refl 3, .written (Numeral.writes_toDigits _) (UInt64.toNat_lt _),
    .written (Numeral.writes_toDigits _) (UInt64.toNat_lt _),
    hbytes ▸ .written (Numeral.writes_toDigits n) ⟨pos, le⟩, h.low_pos, h.low_le, rfl, rfl⟩

theorem readPid_toDigits {pid : UInt16} (h : pid < Packet.nullPid) :
    readPid (Nat.toDigits 10 pid.toNat) = .ok pid := by
  refine readPid_eq_ok_iff.mpr ⟨.decimal ?_, h⟩
  rw [trim_toDigits]
  exact Numeral.writes_toDigits _

theorem Usable.exists_load (h : Usable s) :
    ∃ environment, load (fun _ => none) environment = (s, []) := by
  obtain ⟨n, pos, le, hbytes⟩ := h.megabytes
  let options := written s.enough.toNat s.low.toNat n
  let pid? := s.pid?.map fun pid => String.ofList (Nat.toDigits 10 pid.toNat)
  let sized : Settings :=
    { standard with enough := s.enough, low := s.low, maxBytes := s.maxBytes }
  have hsized : standard.applyOptions (some (String.ofList options)) = (sized, []) := by
    refine applyOptions_eq_iff.mpr (.inl ⟨?_, rfl⟩)
    rw [String.toList_ofList]
    exact takes_written h pos le hbytes standard
  have hpinned : sized.applyPid pid? = ({ sized with pid? := s.pid? }, []) := by
    cases hpid : s.pid? with
    | none => simp only [pid?, hpid]; rfl
    | some pid =>
      have hread := readPid_toDigits (h.pid_lt pid hpid)
      simp only [pid?, hpid, Option.map_some, Settings.applyPid, String.toList_ofList, hread]
      rfl
  have hnamed : ({ sized with pid? := s.pid? } : Settings).applyName (some s.name) = s :=
    if_neg fun hempty => h.name_ne (String.isEmpty_iff.mp hempty)
  refine ⟨fun source => if source = optionsVariable then some (String.ofList options)
    else if source = pidVariable then pid? else some s.name, ?_⟩
  have hdocument : document? (fun _ => none) = none := rfl
  unfold load
  rw [hdocument]
  dsimp only
  rw [if_pos rfl, hsized, if_neg (by decide), if_pos rfl, hpinned, if_neg (by decide),
    if_neg (by decide), hnamed]
  rfl

theorem loaded_usable :
    (∀ file environment, Usable (load file environment).1) ∧
    (∀ (s : Settings) (text : String), Usable s → Usable (s.applyText text).1) ∧
    (∀ file environment, let s := (load file environment).1
      (Buffer.create s).buffer.settings = s ∧ (Buffer.create s).log = #[] ∧
        (Buffer.create s).buffer.sizing.maxSize = s.maxBytes.toNat / 188) ∧
    ∀ s, Usable s → ∃ environment, load (fun _ => none) environment = (s, []) :=
  ⟨usable_load, fun _ text h => h.applyText text,
    fun file environment => create_of_usable (usable_load file environment),
    fun _ h => h.exists_load⟩

/-- The lower threshold is raised above the upper one in vain, and so is the identifier. -/
theorem loaded_usable_after_refusals :
    Usable (standard.applyText "buffer = 4,4,1024\nbuffer = ,5\npcr_pid = 0x1fff").1 ∧
    (standard.applyText "buffer = 4,4,1024\nbuffer = ,5\npcr_pid = 0x1fff").1 =
      { standard with enough := 4, low := 4, maxBytes := 1073741824 } :=
  ⟨loaded_usable.2.1 standard _ usable_standard, by decide +kernel⟩

end Settings
end PacedStream
