import Mathlib.Data.List.Forall2
import PacedStream.Proofs.Numeral.Grammar
import PacedStream.Proofs.Text.Pieces
import PacedStream.Settings.Load

/-!
The grammar of option strings. Main statement: options are taken exactly if they have at most three
fields, each of them empty or a number that fits a word, the third a size in range, and the
thresholds fit together, where an empty field stands for the current value. They are refused for the
count of fields first, then for the first field that is at fault, then for the thresholds, and then
nothing changes.
-/

namespace PacedStream
set_option autoImplicit false

section Chains
variable {ε α β : Type} {x : Except ε α} {f : α → Except ε β}

theorem bind_eq_ok_iff {b : β} : x >>= f = .ok b ↔ ∃ a, x = .ok a ∧ f a = .ok b := by
  cases x with
  | error e => exact ⟨nofun, nofun⟩
  | ok a => exact ⟨fun h => ⟨a, rfl, h⟩, fun ⟨_, ha, h⟩ => Except.ok.inj ha ▸ h⟩

theorem bind_eq_error_iff {e : ε} :
    x >>= f = .error e ↔ x = .error e ∨ ∃ a, x = .ok a ∧ f a = .error e := by
  cases x with
  | error e' =>
    refine ⟨fun h => .inl (congrArg _ (Except.error.inj h)), fun h => h.elim (fun he => ?_) nofun⟩
    exact congrArg _ (Except.error.inj he)
  | ok a =>
    refine ⟨fun h => .inr ⟨a, rfl, h⟩, fun h => h.elim nofun ?_⟩
    rintro ⟨_, ha, h⟩
    exact Except.ok.inj ha ▸ h

theorem mapError_eq_ok_iff {ε' : Type} {f : ε → ε'} {a : α} :
    x.mapError f = .ok a ↔ x = .ok a := by
  cases x with
  | error e => exact ⟨nofun, nofun⟩
  | ok a' => rw [Except.mapError, Except.ok.injEq, Except.ok.injEq]

end Chains

namespace Settings

variable {s s' : Settings} {parts : List (List Char)} {options field : List Char} {n i : Nat}
  {current value enough low : UInt64} {fault : Fault}

/-- What a field stands for: the current value if it is empty, and else its number, which has to fit,
in the units of the value. -/
inductive Means (fits : Nat → Prop) (units : Nat → Nat) (current : Nat) : List Char → Nat → Prop
  | kept : Means fits units current [] current
  | written {field : List Char} {n : Nat} (writes : Numeral.Writes 10 field n) (fit : fits n) :
    Means fits units current field (units n)

abbrev Stands : Nat → List Char → Nat → Prop := Means (· < UInt64.size) id

/-- The greatest size is given in megabytes and kept in bytes. -/
abbrev Sizes : Nat → List Char → Nat → Prop :=
  Means (fun n => 1 ≤ n ∧ n ≤ maxMegabytes) (· * bytesPerMegabyte)

/-- What is wrong with a field: it is no number that fits a word, or the third is out of range. -/
inductive FieldFault (i : Nat) (field : List Char) : Fault → Prop
  | unread {cause : Numeral.Fault} (ne : field ≠ [])
    (unread : Numeral.Unread 10 UInt64.size field cause) : FieldFault i field (.numeral cause)
  | range {n : Nat} (third : i = 2) (writes : Numeral.Writes 10 field n) (lt : n < UInt64.size)
    (out : ¬ (1 ≤ n ∧ n ≤ maxMegabytes)) : FieldFault i field (.settings (.sizeOutOfRange n))

theorem readWord_eq_ok_iff :
    readWord field = .ok n ↔ Numeral.Writes 10 field n ∧ n < UInt64.size := by
  rw [← Numeral.read_eq_ok_iff (by decide)]
  exact mapError_eq_ok_iff

theorem readWord_eq_error_iff : readWord field = .error fault ↔
    ∃ cause, Numeral.Unread 10 UInt64.size field cause ∧ fault = .numeral cause := by
  simp only [← Numeral.read_eq_error_iff (by decide : 0 < UInt64.size)]
  unfold readWord
  cases Numeral.read 10 UInt64.size field with
  | error cause =>
    constructor
    · rintro ⟨⟩
      exact ⟨cause, rfl, rfl⟩
    · rintro ⟨_, ⟨⟩, rfl⟩
      rfl
  | ok m => exact ⟨nofun, nofun⟩

theorem means_nil_iff {fits : Nat → Prop} {units : Nat → Nat} {current : Nat} :
    Means fits units current [] n ↔ n = current := by
  constructor
  · intro h
    cases h with
    | kept => rfl
    | written writes => exact absurd rfl writes.ne_nil
  · rintro rfl
    exact .kept

theorem means_iff {fits : Nat → Prop} {units : Nat → Nat} {current : Nat} (h : field ≠ []) :
    Means fits units current field n ↔ ∃ m, Numeral.Writes 10 field m ∧ fits m ∧ n = units m := by
  constructor
  · intro hmeans
    cases hmeans with
    | kept => exact absurd rfl h
    | written writes fit => exact ⟨_, writes, fit, rfl⟩
  · rintro ⟨m, writes, fit, rfl⟩
    exact .written writes fit

theorem stands_iff {current : Nat} (h : field ≠ []) :
    Stands current field n ↔ Numeral.Writes 10 field n ∧ n < UInt64.size := by
  refine (means_iff h).trans ⟨?_, ?_⟩
  · rintro ⟨_, writes, lt, rfl⟩
    exact ⟨writes, lt⟩
  · rintro ⟨writes, lt⟩
    exact ⟨n, writes, lt, rfl⟩

theorem not_fieldFault_nil : ¬ FieldFault i [] fault := by
  intro h
  cases h with
  | unread ne => exact ne rfl
  | range _ writes => exact writes.ne_nil rfl

theorem readThreshold_eq_ok_iff :
    readThreshold current field = .ok value ↔ Stands current.toNat field value.toNat := by
  unfold readThreshold
  cases field with
  | nil =>
    rw [Stands, means_nil_iff, UInt64.toNat_inj]
    exact ⟨fun h => (Except.ok.inj h).symm, fun h => congrArg _ h.symm⟩
  | cons c rest =>
    rw [stands_iff (List.cons_ne_nil c rest), ← readWord_eq_ok_iff]
    have hlt : ∀ n, readWord (c :: rest) = .ok n → n < 2 ^ 64 := fun n h =>
      (readWord_eq_ok_iff.mp h).2
    cases hread : readWord (c :: rest) with
    | error fault => exact ⟨nofun, nofun⟩
    | ok n =>
      have hn : (UInt64.ofNat n).toNat = n := UInt64.toNat_ofNat_of_lt' (hlt n hread)
      rw [List.isEmpty_cons, if_neg Bool.false_ne_true, Except.map, Except.ok.injEq,
        Except.ok.injEq, ← UInt64.toNat_inj, hn]

theorem readThreshold_eq_error_iff (hi : i ≠ 2) :
    readThreshold current field = .error fault ↔ FieldFault i field fault := by
  unfold readThreshold
  cases field with
  | nil => exact iff_of_false nofun not_fieldFault_nil
  | cons c rest =>
    have hfault : readWord (c :: rest) = .error fault ↔ FieldFault i (c :: rest) fault := by
      rw [readWord_eq_error_iff]
      constructor
      · rintro ⟨cause, hunread, rfl⟩
        exact .unread (List.cons_ne_nil c rest) hunread
      · intro h
        cases h with
        | unread _ hunread => exact ⟨_, hunread, rfl⟩
        | range third => exact absurd third hi
    rw [← hfault, List.isEmpty_cons, if_neg Bool.false_ne_true]
    cases readWord (c :: rest) with
    | error fault' => rw [Except.map, Except.error.injEq, Except.error.injEq]
    | ok n => exact ⟨nofun, nofun⟩

theorem checkMegabytes_eq_error_iff : checkMegabytes n = .error fault ↔
    ¬ (1 ≤ n ∧ n ≤ maxMegabytes) ∧ fault = .settings (.sizeOutOfRange n) := by
  rw [← checkMegabytes_eq_ok_iff]
  unfold checkMegabytes
  split
  · exact ⟨fun h => ⟨nofun, (Except.error.inj h).symm⟩, fun h => congrArg _ h.2.symm⟩
  · exact ⟨nofun, fun h => absurd rfl h.1⟩

theorem toNat_bytes (h : n ≤ maxMegabytes) :
    (UInt64.ofNat (n * bytesPerMegabyte)).toNat = n * bytesPerMegabyte :=
  UInt64.toNat_ofNat_of_lt' (Nat.lt_of_le_of_lt (Nat.mul_le_mul_right _ h) (by decide))

theorem readMaxBytes_eq_ok_iff :
    readMaxBytes current field = .ok value ↔ Sizes current.toNat field value.toNat := by
  unfold readMaxBytes
  cases field with
  | nil =>
    rw [Sizes, means_nil_iff, UInt64.toNat_inj]
    exact ⟨fun h => (Except.ok.inj h).symm, fun h => congrArg _ h.symm⟩
  | cons c rest =>
    rw [Sizes, means_iff (List.cons_ne_nil c rest), List.isEmpty_cons, if_neg Bool.false_ne_true]
    simp only [bind_eq_ok_iff, readWord_eq_ok_iff]
    constructor
    · rintro ⟨n, ⟨writes, -⟩, _, hcheck, hvalue⟩
      obtain ⟨pos, le⟩ := checkMegabytes_eq_ok_iff.mp hcheck
      exact ⟨n, writes, ⟨pos, le⟩, by rw [← Except.ok.inj hvalue, toNat_bytes le]⟩
    · rintro ⟨n, writes, ⟨pos, le⟩, hvalue⟩
      refine ⟨n, ⟨writes, Nat.lt_of_le_of_lt le (by decide)⟩, (),
        checkMegabytes_eq_ok_iff.mpr ⟨pos, le⟩, ?_⟩
      rw [← toNat_bytes le, UInt64.toNat_inj] at hvalue
      rw [hvalue]

theorem readMaxBytes_eq_error_iff :
    readMaxBytes current field = .error fault ↔ FieldFault 2 field fault := by
  unfold readMaxBytes
  cases field with
  | nil => exact iff_of_false nofun not_fieldFault_nil
  | cons c rest =>
    rw [List.isEmpty_cons, if_neg Bool.false_ne_true]
    simp only [bind_eq_error_iff, readWord_eq_error_iff, readWord_eq_ok_iff,
      checkMegabytes_eq_error_iff]
    constructor
    · rintro (⟨cause, hunread, rfl⟩ | ⟨n, ⟨writes, lt⟩, ⟨out, rfl⟩ | ⟨_, _, hok⟩⟩)
      · exact .unread (List.cons_ne_nil c rest) hunread
      · exact .range rfl writes lt out
      · cases hok
    · intro h
      cases h with
      | unread _ hunread => exact .inl ⟨_, hunread, rfl⟩
      | range _ writes lt out => exact .inr ⟨_, ⟨writes, lt⟩, .inl ⟨out, rfl⟩⟩

def fieldAt (parts : List (List Char)) (i : Nat) : List Char := parts[i]?.getD []

inductive ThresholdFault (enough low : UInt64) : Fault → Prop
  | zero (zero : enough = 0 ∨ low = 0) : ThresholdFault enough low (.settings .zeroThreshold)
  | above (enough_ne : enough ≠ 0) (low_ne : low ≠ 0) (lt : enough < low) :
    ThresholdFault enough low (.settings (.lowAboveEnough low enough))

structure Takes (s : Settings) (parts : List (List Char)) (s' : Settings) : Prop where
  length_le : parts.length ≤ 3
  enough : Stands s.enough.toNat (fieldAt parts 0) s'.enough.toNat
  low : Stands s.low.toNat (fieldAt parts 1) s'.low.toNat
  maxBytes : Sizes s.maxBytes.toNat (fieldAt parts 2) s'.maxBytes.toNat
  low_pos : 1 ≤ s'.low.toNat
  low_le : s'.low.toNat ≤ s'.enough.toNat
  pid?_eq : s'.pid? = s.pid?
  name_eq : s'.name = s.name

theorem Takes.eq_with (h : Takes s parts s') :
    s' = { s with enough := s'.enough, low := s'.low, maxBytes := s'.maxBytes } := by
  rw [← h.pid?_eq, ← h.name_eq]

/-- The fault that is reported of an option string: too many fields, then the first field at fault,
then thresholds that do not fit together. -/
inductive Refused (s : Settings) (parts : List (List Char)) : Fault → Prop
  | count (lt : 3 < parts.length) : Refused s parts (.settings (.tooManyFields parts.length))
  | field {i : Nat} {fault : Fault} (length_le : parts.length ≤ 3)
    (here : FieldFault i (fieldAt parts i) fault)
    (first : ∀ j < i, ∀ other, ¬ FieldFault j (fieldAt parts j) other) : Refused s parts fault
  | thresholds {enough low : UInt64} {fault : Fault} (length_le : parts.length ≤ 3)
    (fine : ∀ j other, ¬ FieldFault j (fieldAt parts j) other)
    (stands_enough : Stands s.enough.toNat (fieldAt parts 0) enough.toNat)
    (stands_low : Stands s.low.toNat (fieldAt parts 1) low.toNat)
    (here : ThresholdFault enough low fault) : Refused s parts fault

theorem checkThresholds_eq_error_iff :
    checkThresholds enough low = .error fault ↔ ThresholdFault enough low fault := by
  unfold checkThresholds
  constructor
  · intro h
    split at h
    · rename_i hzero
      cases h
      exact .zero hzero
    · rename_i hpos
      obtain ⟨henough, hlow⟩ := not_or.mp hpos
      split at h
      · rename_i hlt
        cases h
        exact .above henough hlow hlt
      · cases h
  · intro h
    cases h with
    | zero hzero => exact if_pos hzero
    | above henough hlow hlt => rw [if_neg (not_or.mpr ⟨henough, hlow⟩), if_pos hlt]

theorem withOptions_eq_ok_iff :
    s.withOptions options = .ok s' ↔ Takes s (fields options) s' := by
  unfold withOptions
  dsimp only
  split
  · rename_i hlt
    exact iff_of_false nofun fun h => absurd h.length_le (Nat.not_le.mpr hlt)
  · rename_i hle
    simp only [bind_eq_ok_iff, readThreshold_eq_ok_iff, readMaxBytes_eq_ok_iff]
    constructor
    · rintro ⟨enough, henough, low, hlow, maxBytes, hmaxBytes, _, hcheck, ⟨⟩⟩
      obtain ⟨hpos, hfit⟩ := checkThresholds_eq_ok_iff.mp hcheck
      exact ⟨Nat.not_lt.mp hle, henough, hlow, hmaxBytes, hpos, hfit, rfl, rfl⟩
    · intro h
      refine ⟨_, h.enough, _, h.low, _, h.maxBytes, (),
        checkThresholds_eq_ok_iff.mpr ⟨h.low_pos, h.low_le⟩, congrArg _ h.eq_with.symm⟩

theorem fieldFault_lt (hle : parts.length ≤ 3) (h : FieldFault i (fieldAt parts i) fault) :
    i < 3 := by
  by_contra hge
  rw [fieldAt, List.getElem?_eq_none (by omega)] at h
  exact not_fieldFault_nil h

theorem not_fieldFault_of_threshold (hi : i ≠ 2) (h : readThreshold current field = .ok value) :
    ∀ other, ¬ FieldFault i field other := fun _ hother =>
  nomatch h.symm.trans ((readThreshold_eq_error_iff hi).mpr hother)

theorem not_fieldFault_of_maxBytes (h : readMaxBytes current field = .ok value) :
    ∀ other, ¬ FieldFault 2 field other := fun _ hother =>
  nomatch h.symm.trans (readMaxBytes_eq_error_iff.mpr hother)

theorem exists_readThreshold (current : UInt64) (hi : i ≠ 2)
    (h : ∀ other, ¬ FieldFault i field other) :
    ∃ value, readThreshold current field = .ok value := by
  cases hread : readThreshold current field with
  | error other => exact absurd ((readThreshold_eq_error_iff hi).mp hread) (h other)
  | ok value => exact ⟨value, rfl⟩

theorem exists_readMaxBytes (current : UInt64) (h : ∀ other, ¬ FieldFault 2 field other) :
    ∃ value, readMaxBytes current field = .ok value := by
  cases hread : readMaxBytes current field with
  | error other => exact absurd (readMaxBytes_eq_error_iff.mp hread) (h other)
  | ok value => exact ⟨value, rfl⟩

theorem refused_of_withOptions (h : s.withOptions options = .error fault) :
    Refused s (fields options) fault := by
  unfold withOptions at h
  dsimp only at h
  split at h
  · rename_i hlt
    cases h
    exact .count hlt
  · rename_i hnot
    have hle := Nat.not_lt.mp hnot
    simp only [bind_eq_error_iff] at h
    rcases h with hfault | ⟨enough, henough, hfault | ⟨low, hlow, hfault |
      ⟨maxBytes, hmaxBytes, hfault | ⟨_, _, hok⟩⟩⟩⟩
    · exact .field hle ((readThreshold_eq_error_iff (by decide)).mp hfault)
        fun j hj => absurd hj (Nat.not_lt_zero j)
    · refine .field hle ((readThreshold_eq_error_iff (by decide)).mp hfault) fun j hj => ?_
      obtain rfl : j = 0 := by omega
      exact not_fieldFault_of_threshold (by decide) henough
    · refine .field hle (readMaxBytes_eq_error_iff.mp hfault) fun j hj => ?_
      obtain rfl | rfl : j = 0 ∨ j = 1 := by omega
      · exact not_fieldFault_of_threshold (by decide) henough
      · exact not_fieldFault_of_threshold (by decide) hlow
    · refine .thresholds hle (fun j other hother => ?_) (readThreshold_eq_ok_iff.mp henough)
        (readThreshold_eq_ok_iff.mp hlow) (checkThresholds_eq_error_iff.mp hfault)
      have hj := fieldFault_lt hle hother
      obtain rfl | rfl | rfl : j = 0 ∨ j = 1 ∨ j = 2 := by omega
      · exact not_fieldFault_of_threshold (by decide) henough other hother
      · exact not_fieldFault_of_threshold (by decide) hlow other hother
      · exact not_fieldFault_of_maxBytes hmaxBytes other hother
    · cases hok

theorem withOptions_of_refused (h : Refused s (fields options) fault) :
    s.withOptions options = .error fault := by
  unfold withOptions
  dsimp only
  cases h with
  | count hlt => exact if_pos hlt
  | @field i _ hle here first =>
    rw [if_neg (Nat.not_lt.mpr hle)]
    simp only [bind_eq_error_iff]
    have hi := fieldFault_lt hle here
    obtain rfl | rfl | rfl : i = 0 ∨ i = 1 ∨ i = 2 := by omega
    · exact .inl ((readThreshold_eq_error_iff (by decide)).mpr here)
    · obtain ⟨enough, henough⟩ := exists_readThreshold s.enough (by decide) (first 0 (by decide))
      exact .inr ⟨enough, henough, .inl ((readThreshold_eq_error_iff (by decide)).mpr here)⟩
    · obtain ⟨enough, henough⟩ := exists_readThreshold s.enough (by decide) (first 0 (by decide))
      obtain ⟨low, hlow⟩ := exists_readThreshold s.low (by decide) (first 1 (by decide))
      exact .inr ⟨enough, henough, .inr ⟨low, hlow, .inl (readMaxBytes_eq_error_iff.mpr here)⟩⟩
  | @thresholds enough low _ hle fine henough hlow here =>
    rw [if_neg (Nat.not_lt.mpr hle)]
    simp only [bind_eq_error_iff]
    obtain ⟨maxBytes, hmaxBytes⟩ := exists_readMaxBytes s.maxBytes (fine 2)
    exact .inr ⟨enough, readThreshold_eq_ok_iff.mpr henough, .inr ⟨low,
      readThreshold_eq_ok_iff.mpr hlow, .inr ⟨maxBytes, hmaxBytes,
        .inl (checkThresholds_eq_error_iff.mpr here)⟩⟩⟩

theorem withOptions_eq_error_iff :
    s.withOptions options = .error fault ↔ Refused s (fields options) fault :=
  ⟨refused_of_withOptions, withOptions_of_refused⟩

/-- The fields of an option string: the pieces between its commas, without blanks at their ends. -/
def Cut (options : List Char) (parts : List (List Char)) : Prop :=
  ∃ pieces, pieces ≠ [] ∧ (∀ piece ∈ pieces, ',' ∉ piece) ∧ [','].intercalate pieces = options ∧
    List.Forall₂ (Text.Stripped Text.isBlank) pieces parts

theorem cut_fields (options : List Char) : Cut options (fields options) := by
  refine ⟨options.splitOn ',', List.splitOn_ne_nil _ _,
    fun _ => Text.sep_not_mem_of_mem_splitOn, List.intercalate_splitOn ',', ?_⟩
  rw [fields, List.forall₂_map_right_iff, List.forall₂_same]
  exact fun piece _ => Text.stripped_strip Text.isBlank piece

/-- What an option string must be like to be taken. -/
structure Sound (s : Settings) (parts : List (List Char)) : Prop where
  length_le : parts.length ≤ 3
  numbers : ∀ field ∈ parts, field ≠ [] → ∃ n, Numeral.Writes 10 field n ∧ n < UInt64.size
  megabytes : ∀ field, parts[2]? = some field → field ≠ [] →
    ∃ n, Numeral.Writes 10 field n ∧ 1 ≤ n ∧ n ≤ maxMegabytes
  thresholds : ∃ enough low, Stands s.enough.toNat (fieldAt parts 0) enough ∧
    Stands s.low.toNat (fieldAt parts 1) low ∧ 1 ≤ low ∧ low ≤ enough

theorem fieldAt_of_getElem? (h : parts[i]? = some field) : fieldAt parts i = field := by
  rw [fieldAt, h, Option.getD_some]

theorem Stands.lt_size {current : Nat} (h : Stands current field n)
    (hcurrent : current < UInt64.size) : n < UInt64.size := by
  cases h with
  | kept => exact hcurrent
  | written _ lt => exact lt

theorem Takes.sound (h : Takes s parts s') : Sound s parts := by
  refine ⟨h.length_le, fun field hfield hne => ?_, fun field hthird hne => ?_,
    _, _, h.enough, h.low, h.low_pos, h.low_le⟩
  · obtain ⟨i, hi⟩ := List.mem_iff_getElem?.mp hfield
    have hlt : i < parts.length := (List.getElem?_eq_some_iff.mp hi).1
    have hle := h.length_le
    have hat := fieldAt_of_getElem? hi
    obtain rfl | rfl | rfl : i = 0 ∨ i = 1 ∨ i = 2 := by omega
    · exact ⟨_, (stands_iff hne).mp (hat ▸ h.enough)⟩
    · exact ⟨_, (stands_iff hne).mp (hat ▸ h.low)⟩
    · obtain ⟨n, writes, ⟨-, le⟩, -⟩ := (means_iff hne).mp (hat ▸ h.maxBytes)
      exact ⟨n, writes, Nat.lt_of_le_of_lt le (by decide)⟩
  · obtain ⟨n, writes, ⟨pos, le⟩, -⟩ :=
      (means_iff hne).mp (fieldAt_of_getElem? hthird ▸ h.maxBytes)
    exact ⟨n, writes, pos, le⟩

theorem Sound.exists_sizes (h : Sound s parts) :
    ∃ maxBytes : UInt64, Sizes s.maxBytes.toNat (fieldAt parts 2) maxBytes.toNat := by
  cases hthird : parts[2]? with
  | none => exact ⟨s.maxBytes, by rw [fieldAt, hthird]; exact .kept⟩
  | some field =>
    rw [fieldAt_of_getElem? hthird]
    by_cases hne : field = []
    · exact ⟨s.maxBytes, hne ▸ .kept⟩
    · obtain ⟨n, writes, pos, le⟩ := h.megabytes field hthird hne
      refine ⟨.ofNat (n * bytesPerMegabyte), ?_⟩
      rw [toNat_bytes le]
      exact .written writes ⟨pos, le⟩

theorem Sound.exists_takes (h : Sound s parts) : ∃ s', Takes s parts s' := by
  obtain ⟨enough, low, henough, hlow, hpos, hle⟩ := h.thresholds
  obtain ⟨maxBytes, hmaxBytes⟩ := h.exists_sizes
  have hword : ∀ {current : UInt64} {field n}, Stands current.toNat field n →
      (UInt64.ofNat n).toNat = n := fun hn =>
    UInt64.toNat_ofNat_of_lt' (hn.lt_size (UInt64.toNat_lt _))
  refine ⟨{ s with enough := .ofNat enough, low := .ofNat low, maxBytes }, h.length_le,
    (hword henough).symm ▸ henough, (hword hlow).symm ▸ hlow, hmaxBytes, ?_, ?_, rfl, rfl⟩
  · rwa [hword hlow]
  · rwa [hword hlow, hword henough]

/-- Taken or refused, and in the latter case nothing changes. -/
theorem applyOptions_eq_iff {text : String} {log : List Entry} :
    s.applyOptions (some text) = (s', log) ↔
      (Takes s (fields text.toList) s' ∧ log = []) ∨
        ∃ fault, Refused s (fields text.toList) fault ∧ s' = s ∧
          log = [{ name := s.name, message := .overrideIgnored optionsVariable fault }] := by
  simp only [← withOptions_eq_ok_iff, ← withOptions_eq_error_iff]
  unfold applyOptions override
  dsimp only
  split
  · rename_i taken hok
    rw [hok]
    constructor
    · rintro ⟨⟩
      exact .inl ⟨rfl, rfl⟩
    · rintro (⟨⟨⟩, rfl⟩ | ⟨_, hnot, _⟩)
      · rfl
      · cases hnot
  · rename_i fault herror
    rw [herror]
    constructor
    · rintro ⟨⟩
      exact .inr ⟨fault, rfl, rfl, rfl⟩
    · rintro (⟨hnot, _⟩ | ⟨_, ⟨⟩, rfl, rfl⟩)
      · cases hnot
      · rfl

theorem options_grammar (s : Settings) (options : String) :
    Cut options.toList (fields options.toList) ∧
    ((∃ s', s.withOptions options.toList = .ok s') ↔ Sound s (fields options.toList)) ∧
    (∀ s', s.withOptions options.toList = .ok s' ↔ Takes s (fields options.toList) s') ∧
    (∀ fault, s.withOptions options.toList = .error fault ↔
      Refused s (fields options.toList) fault) ∧
    ∀ s' log, s.applyOptions (some options) = (s', log) ↔
      (Takes s (fields options.toList) s' ∧ log = []) ∨
        ∃ fault, Refused s (fields options.toList) fault ∧ s' = s ∧
          log = [{ name := s.name, message := .overrideIgnored optionsVariable fault }] := by
  refine ⟨cut_fields _, ⟨fun ⟨s', h⟩ => ?_, fun hsound => ?_⟩, fun _ => withOptions_eq_ok_iff,
    fun _ => withOptions_eq_error_iff, fun _ _ => applyOptions_eq_iff⟩
  · exact (withOptions_eq_ok_iff.mp h).sound
  · obtain ⟨s', htakes⟩ := hsound.exists_takes
    exact ⟨s', withOptions_eq_ok_iff.mpr htakes⟩

end Settings
end PacedStream
