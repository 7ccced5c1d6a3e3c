import PacedStream.Numeral

/-!
The grammar of numerals: at least one digit of a radix, the greatest place first, after a plus sign
or none. Main statements: reading gives the number that is written if it lies below the limit, and
otherwise the fault of the first character, from the left, that is no digit or leads to the limit.
-/

namespace PacedStream.Numeral
set_option autoImplicit false

variable {radix limit m n d : Nat} {c : Char} {front digits cs rest : List Char} {fault : Fault}

/-- What a character is worth as a digit: from ten on digits are letters of either case. -/
inductive Digit (radix : Nat) (c : Char) : Nat → Prop
  | figure {d : Nat} (below : d < 10) (is : c.toNat = '0'.toNat + d) (lt : d < radix) :
    Digit radix c d
  | lower {d : Nat} (below : d < 26) (is : c.toNat = 'a'.toNat + d) (lt : 10 + d < radix) :
    Digit radix c (10 + d)
  | upper {d : Nat} (below : d < 26) (is : c.toNat = 'A'.toNat + d) (lt : 10 + d < radix) :
    Digit radix c (10 + d)

theorem digit?_eq_some_iff : digit? radix c = some d ↔ Digit radix c d := by
  have h0 : '0'.toNat = 48 := rfl
  have h9 : '9'.toNat = 57 := rfl
  have ha : 'a'.toNat = 97 := rfl
  have hz : 'z'.toNat = 122 := rfl
  have hA : 'A'.toNat = 65 := rfl
  have hZ : 'Z'.toNat = 90 := rfl
  have hle : ∀ a b : Char, a ≤ b ↔ a.toNat ≤ b.toNat := fun _ _ => Iff.rfl
  unfold digit?
  simp only [hle, Option.ite_none_right_eq_some, Option.some.injEq]
  constructor
  · rintro ⟨hlt, hd⟩
    rw [hd] at hlt
    split at hd
    · exact .figure (by omega) (by omega) hlt
    · split at hd
      · obtain ⟨k, rfl⟩ : ∃ k, d = 10 + k := ⟨d - 10, by omega⟩
        exact .lower (by omega) (by omega) hlt
      · split at hd
        · obtain ⟨k, rfl⟩ : ∃ k, d = 10 + k := ⟨d - 10, by omega⟩
          exact .upper (by omega) (by omega) hlt
        · omega
  · intro h
    cases h with
    | figure below is lt => split <;> omega
    | lower below is lt =>
      split
      · omega
      · split <;> omega
    | upper below is lt =>
      split
      · omega
      · split
        · omega
        · split <;> omega

theorem digit?_eq_none_iff : digit? radix c = none ↔ ∀ d, ¬ Digit radix c d := by
  simp only [Option.eq_none_iff_forall_ne_some, ne_eq, digit?_eq_some_iff]

theorem Digit.lt (h : Digit radix c d) : d < radix := by
  cases h <;> assumption

theorem not_digit_plus : ¬ Digit radix '+' d := by
  intro h
  have hplus : '+'.toNat = 43 := rfl
  have h0 : '0'.toNat = 48 := rfl
  have ha : 'a'.toNat = 97 := rfl
  have hA : 'A'.toNat = 65 := rfl
  cases h <;> omega

/-- The number that digits write. One more digit takes all others up one place. -/
inductive Spells (radix : Nat) : List Char → Nat → Prop
  | nil : Spells radix [] 0
  | concat {digits : List Char} {c : Char} {m d : Nat} (front : Spells radix digits m)
    (last : Digit radix c d) : Spells radix (digits ++ [c]) (m * radix + d)

theorem Spells.digit_of_mem (h : Spells radix digits n) (hc : c ∈ digits) :
    ∃ d, Digit radix c d := by
  induction h with
  | nil => cases hc
  | concat _ last ih =>
    rcases List.mem_append.mp hc with hfront | hlast
    · exact ih hfront
    · cases List.mem_singleton.mp hlast
      exact ⟨_, last⟩

theorem le_place (h : Digit radix c d) (m : Nat) : m ≤ m * radix + d := by
  have hpos : 0 < radix := Nat.lt_of_le_of_lt (Nat.zero_le d) h.lt
  exact Nat.le_trans (Nat.le_mul_of_pos_right m hpos) (Nat.le_add_right _ d)

/-- The first character, from the left, at which reading a number below a limit ends. -/
inductive Fails (radix limit : Nat) : List Char → Fault → Prop
  | invalidDigit {front rest : List Char} {c : Char} {m : Nat} (spelled : Spells radix front m)
    (lt : m < limit) (other : ∀ d, ¬ Digit radix c d) :
    Fails radix limit (front ++ c :: rest) .invalidDigit
  | overflow {front rest : List Char} {c : Char} {m d : Nat} (spelled : Spells radix front m)
    (lt : m < limit) (digit : Digit radix c d) (le : limit ≤ m * radix + d) :
    Fails radix limit (front ++ c :: rest) .overflow

theorem readDigits_cons (h : Digit radix c d) (m : Nat) (rest : List Char) :
    readDigits radix limit m (c :: rest) =
      if m * radix + d < limit then readDigits radix limit (m * radix + d) rest
      else .error .overflow := by
  rw [readDigits, digit?_eq_some_iff.mpr h]

theorem readDigits_append (h : Spells radix front m) (hlt : m < limit) (rest : List Char) :
    readDigits radix limit 0 (front ++ rest) = readDigits radix limit m rest := by
  induction h generalizing rest with
  | nil => rfl
  | @concat digits c m d _ last ih =>
    have hbefore : m < limit := Nat.lt_of_le_of_lt (le_place last m) hlt
    rw [List.append_assoc, ih hbefore, List.singleton_append, readDigits_cons last, if_pos hlt]

theorem readDigits_of_spells (h : Spells radix cs n) (hlt : n < limit) :
    readDigits radix limit 0 cs = .ok n := by
  have hall := readDigits_append h hlt []
  rwa [List.append_nil] at hall

theorem readDigits_of_fails (h : Fails radix limit cs fault) :
    readDigits radix limit 0 cs = .error fault := by
  cases h with
  | invalidDigit spelled lt other =>
    rw [readDigits_append spelled lt, readDigits, digit?_eq_none_iff.mpr other]
  | overflow spelled lt digit le =>
    rw [readDigits_append spelled lt, readDigits_cons digit, if_neg (Nat.not_lt.mpr le)]

/-- Either all digits write a number below the limit or one of them ends the reading. -/
theorem spells_or_fails (h : Spells radix front m) (hlt : m < limit) (rest : List Char) :
    (∃ n, Spells radix (front ++ rest) n ∧ n < limit) ∨
      ∃ fault, Fails radix limit (front ++ rest) fault := by
  induction rest generalizing front m with
  | nil => exact .inl ⟨m, by rwa [List.append_nil], hlt⟩
  | cons c rest ih =>
    cases hc : digit? radix c with
    | none => exact .inr ⟨_, .invalidDigit h hlt (digit?_eq_none_iff.mp hc)⟩
    | some d =>
      have hdigit := digit?_eq_some_iff.mp hc
      by_cases hnext : m * radix + d < limit
      · have hrest := ih (.concat h hdigit) hnext
        rwa [List.append_assoc, List.singleton_append] at hrest
      · exact .inr ⟨_, .overflow h hlt hdigit (Nat.not_lt.mp hnext)⟩

theorem readDigits_eq_ok_iff (hpos : 0 < limit) :
    readDigits radix limit 0 cs = .ok n ↔ Spells radix cs n ∧ n < limit := by
  refine ⟨fun h => ?_, fun ⟨hspells, hlt⟩ => readDigits_of_spells hspells hlt⟩
  rcases spells_or_fails .nil hpos cs with ⟨m, hspells, hlt⟩ | ⟨fault, hfails⟩
  · cases h.symm.trans (readDigits_of_spells hspells hlt)
    exact ⟨hspells, hlt⟩
  · cases h.symm.trans (readDigits_of_fails hfails)

theorem readDigits_eq_error_iff (hpos : 0 < limit) :
    readDigits radix limit 0 cs = .error fault ↔ Fails radix limit cs fault := by
  refine ⟨fun h => ?_, readDigits_of_fails⟩
  rcases spells_or_fails .nil hpos cs with ⟨m, hspells, hlt⟩ | ⟨fault', hfails⟩
  · cases h.symm.trans (readDigits_of_spells hspells hlt)
  · cases h.symm.trans (readDigits_of_fails hfails)
    exact hfails

/-- The digits of a numeral: a plus sign in front of anything is a sign. -/
def unsigned : List Char → List Char
  | '+' :: c :: cs => c :: cs
  | cs => cs

def Writes (radix : Nat) (cs : List Char) (n : Nat) : Prop :=
  ∃ digits, digits ≠ [] ∧ (cs = digits ∨ cs = '+' :: digits) ∧ Spells radix digits n

/-- Why a text is no numeral of a number below a limit. -/
inductive Unread (radix limit : Nat) : List Char → Fault → Prop
  | empty : Unread radix limit [] .empty
  | digits {cs : List Char} {fault : Fault} (ne : cs ≠ [])
    (fails : Fails radix limit (unsigned cs) fault) : Unread radix limit cs fault

theorem read_of_ne_nil (h : cs ≠ []) :
    read radix limit cs = readDigits radix limit 0 (unsigned cs) := by
  unfold read unsigned
  split
  · exact absurd rfl h
  · rfl
  · rename_i hsigned
    split
    · exact absurd rfl (hsigned _ _)
    · rfl

theorem writes_iff (h : cs ≠ []) : Writes radix cs n ↔ Spells radix (unsigned cs) n := by
  constructor
  · rintro ⟨digits, hne, rfl | rfl, hspells⟩
    · have hunsigned : unsigned cs = cs := by
        unfold unsigned
        split
        · obtain ⟨d, hd⟩ := hspells.digit_of_mem List.mem_cons_self
          exact absurd hd not_digit_plus
        · rfl
      rwa [hunsigned]
    · obtain ⟨c, rest, rfl⟩ := List.exists_cons_of_ne_nil hne
      exact hspells
  · intro hspells
    unfold unsigned at hspells
    split at hspells
    · exact ⟨_, List.cons_ne_nil _ _, .inr rfl, hspells⟩
    · exact ⟨_, h, .inl rfl, hspells⟩

theorem Writes.ne_nil (h : Writes radix cs n) : cs ≠ [] := by
  obtain ⟨digits, hne, rfl | rfl, -⟩ := h
  · exact hne
  · exact List.cons_ne_nil _ _

theorem read_eq_ok_iff (hpos : 0 < limit) :
    read radix limit cs = .ok n ↔ Writes radix cs n ∧ n < limit := by
  by_cases h : cs = []
  · subst h
    exact iff_of_false nofun fun hwrites => hwrites.1.ne_nil rfl
  · rw [read_of_ne_nil h, readDigits_eq_ok_iff hpos, writes_iff h]

theorem read_eq_error_iff (hpos : 0 < limit) :
    read radix limit cs = .error fault ↔ Unread radix limit cs fault := by
  by_cases h : cs = []
  · subst h
    refine ⟨fun hread => ?_, fun hunread => ?_⟩
    · cases hread
      exact .empty
    · cases hunread with
      | empty => rfl
      | digits ne => exact absurd rfl ne
  · rw [read_of_ne_nil h, readDigits_eq_error_iff hpos]
    refine ⟨.digits h, fun hunread => ?_⟩
    cases hunread with
    | empty => exact absurd rfl h
    | digits _ fails => exact fails

theorem digit_digitChar (h : d < 10) : Digit 10 d.digitChar d :=
  .figure h (Nat.toNat_digitChar_of_lt_ten h) h

theorem spells_toDigits (n : Nat) : Spells 10 (Nat.toDigits 10 n) n := by
  induction n using Nat.strongRecOn with
  | ind n ih =>
    by_cases h : n < 10
    · rw [Nat.toDigits_of_lt_base h]
      have hlast := Spells.concat .nil (digit_digitChar h)
      rwa [Nat.zero_mul, Nat.zero_add] at hlast
    · rw [Nat.toDigits_of_base_le (by decide) (Nat.not_lt.mp h)]
      have hfront := ih (n / 10) (by omega)
      have hall := hfront.concat (digit_digitChar (Nat.mod_lt n (by decide)))
      rwa [Nat.div_add_mod'] at hall

theorem writes_toDigits (n : Nat) : Writes 10 (Nat.toDigits 10 n) n :=
  ⟨_, Nat.toDigits_ne_nil, .inl rfl, spells_toDigits n⟩

end PacedStream.Numeral
