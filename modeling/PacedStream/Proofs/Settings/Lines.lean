import PacedStream.Proofs.Settings.Options

/-!
Settings documents line by line. Main statement: two texts with a line feed between them act one
after the other, so a document acts by its lines, however these end. A line either assigns what its
key names or is inert, and then it makes no difference wherever it stands: it is blank, a comment,
without a key or with an unknown one, or its value is refused in the settings reached there.
-/

namespace PacedStream
set_option autoImplicit false

namespace Settings

variable {s s' : Settings} {line key value : List Char} {n : Nat} {fault : Fault} {pid : UInt16}

/-- The identifier that a value writes: in hexadecimal after `0x`, in decimal otherwise. -/
inductive WritesPid (value : List Char) (n : Nat) : Prop
  | hexadecimal {digits : List Char}
    (marked : Text.trim value = '0' :: 'x' :: digits ∨ Text.trim value = '0' :: 'X' :: digits)
    (writes : Numeral.Writes 16 digits n) : WritesPid value n
  | decimal (writes : Numeral.Writes 10 (Text.trim value) n) : WritesPid value n

theorem not_writes_marked {mark : Char} {digits : List Char} (h : mark = 'x' ∨ mark = 'X') :
    ¬ Numeral.Writes 10 ('0' :: mark :: digits) n := by
  rintro ⟨_, -, rfl | hsigned, hspells⟩
  · obtain ⟨d, hdigit⟩ := hspells.digit_of_mem (List.mem_cons_of_mem _ List.mem_cons_self)
    have hnone : Numeral.digit? 10 mark = none := by
      rcases h with rfl | rfl <;> decide
    exact Numeral.digit?_eq_none_iff.mp hnone d hdigit
  · cases hsigned

theorem writesPid_iff_of_marked {mark : Char} {digits : List Char} (hmark : mark = 'x' ∨ mark = 'X')
    (htrim : Text.trim value = '0' :: mark :: digits) :
    WritesPid value n ↔ Numeral.Writes 16 digits n := by
  constructor
  · intro h
    cases h with
    | hexadecimal marked writes =>
      rcases marked with hmarked | hmarked <;> cases htrim.symm.trans hmarked <;> exact writes
    | decimal writes => exact absurd (htrim ▸ writes) (not_writes_marked hmark)
  · intro writes
    refine .hexadecimal ?_ writes
    rcases hmark with rfl | rfl
    · exact .inl htrim
    · exact .inr htrim

def readPidNumber (value : List Char) : Except Numeral.Fault Nat :=
  match Text.trim value with
  | '0' :: 'x' :: digits | '0' :: 'X' :: digits => Numeral.read 16 UInt16.size digits
  | digits => Numeral.read 10 UInt16.size digits

theorem readPidNumber_eq_ok_iff :
    readPidNumber value = .ok n ↔ WritesPid value n ∧ n < UInt16.size := by
  unfold readPidNumber
  split
  · rename_i digits htrim
    rw [Numeral.read_eq_ok_iff (by decide), writesPid_iff_of_marked (.inl rfl) htrim]
  · rename_i digits htrim
    rw [Numeral.read_eq_ok_iff (by decide), writesPid_iff_of_marked (.inr rfl) htrim]
  · rename_i hlower hupper
    rw [Numeral.read_eq_ok_iff (by decide)]
    refine and_congr_left fun _ => ⟨.decimal, fun h => ?_⟩
    cases h with
    | hexadecimal marked =>
      exact marked.elim (fun h => absurd h (hlower _)) fun h => absurd h (hupper _)
    | decimal writes => exact writes

theorem readPid_eq_ok_iff :
    readPid value = .ok pid ↔ WritesPid value pid.toNat ∧ pid < Packet.nullPid := by
  change (readPidNumber value).mapError Fault.numeral >>= _ = _ ↔ _
  simp only [bind_eq_ok_iff, mapError_eq_ok_iff, readPidNumber_eq_ok_iff]
  constructor
  · rintro ⟨n, ⟨hwrites, hlt⟩, _, hcheck, ⟨⟩⟩
    rw [UInt16.toNat_ofNat_of_lt' hlt]
    exact ⟨hwrites, checkPid_eq_ok_iff.mp hcheck⟩
  · rintro ⟨hwrites, hlt⟩
    refine ⟨pid.toNat, ⟨hwrites, pid.toNat_lt⟩, (), ?_, ?_⟩
    · rwa [UInt16.ofNat_toNat, checkPid_eq_ok_iff]
    · rw [UInt16.ofNat_toNat]

/-- A line gives a value to a key: the first equals sign stands between them, and quotes around the
value do not belong to it. -/
def Gives (line key value : List Char) : Prop :=
  ∃ front back, line = front ++ '=' :: back ∧ '=' ∉ front ∧ Text.trim front = key ∧
    unquote back = value

/-- A line that changes nothing in some settings. -/
inductive Inert (s : Settings) (line : List Char) : Prop
  | blank (all : ∀ c ∈ line, Text.isBlank c)
  | comment {before after : List Char} (eq : line = before ++ '#' :: after)
    (all : ∀ c ∈ before, Text.isBlank c)
  | keyless (none : '=' ∉ line)
  | unknown {key value : List Char} (gives : Gives line key value)
    (other : key ∉ ["buffer".toList, "pcr_pid".toList, "name".toList])
  | nameless (gives : Gives line "name".toList [])
  | options {value : List Char} (gives : Gives line "buffer".toList value)
    (refused : ¬ Sound s (fields value))
  | pid {value : List Char} (gives : Gives line "pcr_pid".toList value)
    (refused : ∀ n, WritesPid value n → Packet.nullPid.toNat ≤ n)

inductive Assigns (s : Settings) (line : List Char) : Settings → Prop
  | options {value : List Char} {s' : Settings} (gives : Gives line "buffer".toList value)
    (takes : Takes s (fields value) s') : Assigns s line s'
  | pid {value : List Char} {pid : UInt16} (gives : Gives line "pcr_pid".toList value)
    (writes : WritesPid value pid.toNat) (lt : pid < Packet.nullPid) :
    Assigns s line { s with pid? := some pid }
  | name {value : List Char} (gives : Gives line "name".toList value) (ne : value ≠ []) :
    Assigns s line { s with name := String.ofList value }

theorem unquote_dropEnd (value : List Char) :
    unquote (Text.dropEnd Text.isBlank value) = unquote value := by
  unfold unquote
  rw [Text.trim, Text.trim, Text.strip_dropEnd]

theorem trim_equals (front back : List Char) : Text.trim (front ++ '=' :: back) =
    front.dropWhile Text.isBlank ++ '=' :: Text.dropEnd Text.isBlank back :=
  Text.strip_append_cons (by decide) front back

theorem ofChars_of_gives (h : Gives line key value) (hkey : key.head? ≠ some '#') :
    Line.ofChars (Text.trim line) = .ofEntry key value := by
  obtain ⟨front, back, rfl, hfront, rfl, rfl⟩ := h
  have hbare : '=' ∉ front.dropWhile Text.isBlank := fun hmem =>
    hfront ((List.dropWhile_sublist _).subset hmem)
  rw [Text.trim, Text.head?_strip] at hkey
  rw [trim_equals]
  unfold Line.ofChars
  rw [if_neg, Text.splitFirst?_append hbare]
  · dsimp only
    rw [unquote_dropEnd, Text.trim, Text.strip_dropWhile, Text.trim]
  · cases hdrop : front.dropWhile Text.isBlank with
    | nil => exact fun h => absurd (Option.some.inj h) (by decide)
    | cons c rest =>
      rw [hdrop] at hkey
      exact hkey

theorem ofChars_of_comment {before after : List Char} (all : ∀ c ∈ before, Text.isBlank c) :
    Line.ofChars (Text.trim (before ++ '#' :: after)) = .inert := by
  have hmark : ¬ Text.isBlank '#' := by decide
  rw [Text.trim, Text.strip_append_left all, ← List.nil_append ('#' :: after),
    Text.strip_append_cons hmark]
  exact if_pos rfl

theorem ofChars_of_keyless (none : '=' ∉ line) : Line.ofChars (Text.trim line) = .inert := by
  have hbare : '=' ∉ Text.trim line := fun hmem => none (Text.mem_of_mem_strip hmem)
  unfold Line.ofChars
  rw [Text.splitFirst?_eq_none_iff.mpr hbare]
  split <;> rfl

theorem applyLine_of_ok (h : s.withLine (.ofChars (Text.trim line)) = .ok s') :
    s.applyLine line = (s', []) := by
  unfold applyLine
  rw [h]

theorem applyLine_of_error (h : s.withLine (.ofChars (Text.trim line)) = .error fault) :
    (s.applyLine line).1 = s := by
  unfold applyLine
  rw [h]

theorem applyLine_of_assigns (h : Assigns s line s') : s.applyLine line = (s', []) := by
  apply applyLine_of_ok
  cases h with
  | options gives takes =>
    rw [ofChars_of_gives gives (by decide)]
    exact withOptions_eq_ok_iff.mpr takes
  | pid gives writes lt =>
    rw [ofChars_of_gives gives (by decide)]
    change (readPid _).map _ = _
    rw [readPid_eq_ok_iff.mpr ⟨writes, lt⟩]
    rfl
  | name gives ne =>
    rw [ofChars_of_gives gives (by decide)]
    unfold Line.ofEntry
    rw [if_neg (by decide), if_neg (by decide), if_pos ⟨rfl, ne⟩]
    rfl

theorem ofChars_of_other (h : Gives line key value)
    (other : key ∉ ["buffer".toList, "pcr_pid".toList, "name".toList]) :
    Line.ofChars (Text.trim line) = .inert := by
  by_cases hkey : key.head? = some '#'
  · obtain ⟨front, back, rfl, -, rfl, -⟩ := h
    rw [Text.trim, Text.head?_strip] at hkey
    obtain ⟨rest, hrest⟩ := List.head?_eq_some_iff.mp hkey
    rw [trim_equals, hrest]
    exact if_pos rfl
  · rw [ofChars_of_gives h hkey]
    simp only [List.mem_cons, List.not_mem_nil, or_false, not_or] at other
    unfold Line.ofEntry
    rw [if_neg other.1, if_neg other.2.1, if_neg fun hname => other.2.2 hname.1]

theorem applyLine_of_inert (h : Inert s line) : (s.applyLine line).1 = s := by
  have hskip : Line.ofChars (Text.trim line) = .inert → (s.applyLine line).1 = s := fun hinert => by
    rw [applyLine_of_ok (congrArg s.withLine hinert)]
  cases h with
  | blank all => exact hskip (by rw [Text.trim, Text.strip_eq_nil all]; rfl)
  | comment eq all => exact hskip (by rw [eq, ofChars_of_comment all])
  | keyless none => exact hskip (ofChars_of_keyless none)
  | unknown gives other => exact hskip (ofChars_of_other gives other)
  | nameless gives => exact hskip (by rw [ofChars_of_gives gives (by decide)]; rfl)
  | @options value gives refused =>
    cases htake : s.withOptions value with
    | ok s' => exact absurd (withOptions_eq_ok_iff.mp htake).sound refused
    | error fault =>
      rw [applyLine_of_error]
      rw [ofChars_of_gives gives (by decide)]
      exact htake
  | @pid value gives refused =>
    cases hread : readPid value with
    | ok pid =>
      obtain ⟨writes, lt⟩ := readPid_eq_ok_iff.mp hread
      exact absurd (UInt16.lt_iff_toNat_lt.mp lt) (Nat.not_lt.mpr (refused _ writes))
    | error fault =>
      rw [applyLine_of_error]
      rw [ofChars_of_gives gives (by decide)]
      change (readPid value).map _ = _
      rw [hread]
      rfl

theorem inert_or_assigns (s : Settings) (line : List Char) :
    Inert s line ∨ ∃ s', Assigns s line s' := by
  by_cases hequals : '=' ∈ line
  · obtain ⟨front, back, hline, hfront⟩ := Text.exists_first hequals
    have gives : Gives line (Text.trim front) (unquote back) :=
      ⟨front, back, hline, hfront, rfl, rfl⟩
    by_cases hkey : Text.trim front ∈ ["buffer".toList, "pcr_pid".toList, "name".toList]
    · simp only [List.mem_cons, List.not_mem_nil, or_false] at hkey
      rcases hkey with hkey | hkey | hkey <;> rw [hkey] at gives
      · by_cases hsound : Sound s (fields (unquote back))
        · obtain ⟨s', takes⟩ := hsound.exists_takes
          exact .inr ⟨s', .options gives takes⟩
        · exact .inl (.options gives hsound)
      · by_cases hpid : ∀ n, WritesPid (unquote back) n → Packet.nullPid.toNat ≤ n
        · exact .inl (.pid gives hpid)
        · push Not at hpid
          obtain ⟨n, writes, hlt⟩ := hpid
          have hn : (UInt16.ofNat n).toNat = n :=
            UInt16.toNat_ofNat_of_lt' (Nat.lt_trans hlt (UInt16.toNat_lt _))
          exact .inr ⟨_, .pid gives (hn.symm ▸ writes) (UInt16.lt_iff_toNat_lt.mpr (hn.symm ▸ hlt))⟩
      · by_cases hvalue : unquote back = []
        · exact .inl (.nameless (hvalue ▸ gives))
        · exact .inr ⟨_, .name gives hvalue⟩
    · exact .inl (.unknown gives hkey)
  · exact .inl (.keyless hequals)

theorem inert_or_assigns_applyLine (s : Settings) (line : List Char) :
    Inert s line ∨ Assigns s line (s.applyLine line).1 := by
  rcases inert_or_assigns s line with hinert | ⟨s', hassigns⟩
  · exact .inl hinert
  · rw [applyLine_of_assigns hassigns]
    exact .inr hassigns

theorem applyText_line_feed (s : Settings) (a b : String) :
    s.applyText (a ++ "\n" ++ b) = (((s.applyText a).1.applyText b).1,
      (s.applyText a).2 ++ ((s.applyText a).1.applyText b).2) := by
  have hlines : Text.lines (a ++ "\n" ++ b).toList =
      Text.lines a.toList ++ Text.lines b.toList := by
    rw [String.toList_append, String.toList_append, List.append_assoc]
    exact List.splitOn_append_cons_self _ _
  unfold applyText
  rw [hlines, applyLines_append]

theorem applyLine_nil (s : Settings) : s.applyLine [] = (s, []) := applyLine_of_ok rfl

theorem applyLine_dropReturn (s : Settings) (line : List Char) :
    s.applyLine (Text.dropReturn line) = s.applyLine line := by
  unfold applyLine
  rw [Text.trim_dropReturn]

theorem applyLines_ended (s : Settings) (pieces : List (List Char)) :
    s.applyLines (Text.ended pieces) = s.applyLines pieces := by
  induction pieces using Text.ended.induct generalizing s with
  | case1 => rfl
  | case2 =>
    rw [Text.ended, if_pos rfl]
    exact (applyLine_nil s).symm
  | case3 last hlast => rw [Text.ended, if_neg hlast]
  | case4 line next rest ih =>
    rw [Text.ended, applyLines, applyLine_dropReturn, ih, ← applyLines]

theorem applyText_intercalate (s : Settings) (pieces : List String) :
    s.applyText ("\n".intercalate pieces) =
      s.applyLines (pieces.flatMap fun piece => Text.lines piece.toList) := by
  induction pieces generalizing s with
  | nil => exact applyLine_nil s
  | cons piece rest ih =>
    rw [List.flatMap_cons]
    cases rest with
    | nil =>
      rw [String.intercalate_singleton, List.flatMap_nil, List.append_nil]
      rfl
    | cons next rest =>
      rw [String.intercalate_cons_of_ne_nil (List.cons_ne_nil next rest), applyText_line_feed, ih,
        applyLines_append]
      rfl

theorem applyText_insert {line : String} (before after : List String) (bare : '\n' ∉ line.toList)
    (inert : Inert (s.applyText ("\n".intercalate before)).1 line.toList) :
    (s.applyText ("\n".intercalate (before ++ line :: after))).1 =
      (s.applyText ("\n".intercalate (before ++ after))).1 := by
  rw [applyText_intercalate] at inert
  have hline : Text.lines line.toList = [line.toList] := List.splitOn_eq_singleton bare
  simp only [applyText_intercalate, List.flatMap_append, List.flatMap_cons, hline,
    applyLines_append, List.cons_append, List.nil_append, applyLines, applyLine_of_inert inert]

theorem text_by_lines (s : Settings) :
    (∀ a b : String, s.applyText (a ++ "\n" ++ b) = (((s.applyText a).1.applyText b).1,
      (s.applyText a).2 ++ ((s.applyText a).1.applyText b).2)) ∧
    (∀ (before after : List String) (line : String), '\n' ∉ line.toList →
      Inert (s.applyText ("\n".intercalate before)).1 line.toList →
      (s.applyText ("\n".intercalate (before ++ line :: after))).1 =
        (s.applyText ("\n".intercalate (before ++ after))).1) ∧
    (∀ text : String, s.applyText text =
      s.applyLines (Text.ended (Text.lines text.toList))) ∧
    ∀ line : List Char, Inert s line ∨ Assigns s line (s.applyLine line).1 :=
  ⟨applyText_line_feed s, fun before after _ => applyText_insert before after,
    fun _ => (applyLines_ended s _).symm, inert_or_assigns_applyLine s⟩

/-- The second line is refused after the first one, though the standard settings would take it. -/
theorem text_by_lines_refused_here :
    Inert (standard.applyText "buffer = 20,15").1 "buffer = \"12\"".toList ∧
    (standard.applyText "buffer = 20,15\nbuffer = \"12\"\nname = x").1 =
      (standard.applyText "buffer = 20,15\nname = x").1 := by
  have gives : Gives "buffer = \"12\"".toList "buffer".toList "12".toList :=
    ⟨"buffer ".toList, " \"12\"".toList, by decide, by decide, by decide, by decide⟩
  have refused : ¬ Sound (standard.applyText "buffer = 20,15").1 (fields "12".toList) := by
    intro hsound
    obtain ⟨s', htakes⟩ := hsound.exists_takes
    have herror : (standard.applyText "buffer = 20,15").1.withOptions "12".toList =
        .error (.settings (.lowAboveEnough 15 12)) := by decide +kernel
    cases herror.symm.trans (withOptions_eq_ok_iff.mpr htakes)
  have inert := Inert.options gives refused
  exact ⟨inert, (text_by_lines standard).2.1 ["buffer = 20,15"] ["name = x"] "buffer = \"12\""
    (by decide) inert⟩

end Settings
end PacedStream
