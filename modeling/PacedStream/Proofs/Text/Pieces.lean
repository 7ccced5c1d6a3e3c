import Mathlib.Data.List.DropRight
import PacedStream.Text.Blank
import PacedStream.Text.Line

/-!
Pieces of a text. Stripping takes away characters of a class and leaves none of them at either end.
A text is cut at its separators into pieces without a separator, and at its line ends into lines.
-/

namespace PacedStream.Text
set_option autoImplicit false

variable {p : Char → Bool} {c sep : Char} {before after cs bare piece : List Char}

theorem dropEnd_eq_rdropWhile (p : Char → Bool) (cs : List Char) :
    dropEnd p cs = cs.rdropWhile p := rfl

theorem dropEnd_append_right (h : ∀ c ∈ after, p c) (cs : List Char) :
    dropEnd p (cs ++ after) = dropEnd p cs := by
  have hreverse : ∀ c ∈ after.reverse, p c := fun c hc => h c (List.mem_reverse.mp hc)
  rw [dropEnd, List.reverse_append, List.dropWhile_append_of_pos hreverse]
  rfl

theorem dropEnd_append_cons (h : ¬ p c) (before after : List Char) :
    dropEnd p (before ++ c :: after) = before ++ c :: dropEnd p after := by
  unfold dropEnd
  rw [List.reverse_append, List.reverse_cons, List.append_assoc, List.dropWhile_append]
  split
  · rename_i hnil
    rw [List.isEmpty_iff.mp hnil]
    simp [h]
  · simp

theorem strip_append_left (h : ∀ c ∈ before, p c) (cs : List Char) :
    strip p (before ++ cs) = strip p cs := by
  rw [strip, List.dropWhile_append_of_pos h]
  rfl

theorem strip_append_right (h : ∀ c ∈ after, p c) (cs : List Char) :
    strip p (cs ++ after) = strip p cs := by
  unfold strip
  rw [List.dropWhile_append]
  split
  · rename_i hnil
    rw [List.isEmpty_iff.mp hnil, List.dropWhile_eq_nil_iff.mpr h]
  · exact dropEnd_append_right h _

theorem strip_eq_nil (h : ∀ c ∈ cs, p c) : strip p cs = [] := by
  have hnil := strip_append_left h []
  rwa [List.append_nil, strip_nil] at hnil

theorem strip_eq_self (h : ∀ c ∈ cs, ¬ p c) : strip p cs = cs := by
  have hfront : ∀ cs : List Char, (∀ c ∈ cs, ¬ p c) → cs.dropWhile p = cs := fun cs hcs => by
    cases cs with
    | nil => rfl
    | cons c rest => exact List.dropWhile_cons_of_neg (hcs c List.mem_cons_self)
  rw [strip, hfront cs h, dropEnd, hfront _ fun c hc => h c (List.mem_reverse.mp hc),
    List.reverse_reverse]

theorem strip_dropWhile (cs : List Char) : strip p (cs.dropWhile p) = strip p cs := by
  conv => rhs; rw [← List.takeWhile_append_dropWhile (p := p) (l := cs)]
  exact (strip_append_left (fun _ hc => List.mem_takeWhile_imp hc) _).symm

theorem strip_dropEnd (cs : List Char) : strip p (dropEnd p cs) = strip p cs := by
  conv => rhs; rw [← List.rdropWhile_append_rtakeWhile (p := p) (l := cs)]
  exact (strip_append_right (fun _ hc => List.mem_rtakeWhile_imp hc) _).symm

/-- A character that is not of the class parts what is stripped in front from what is stripped at
the end. -/
theorem strip_append_cons (h : ¬ p c) (before after : List Char) :
    strip p (before ++ c :: after) = before.dropWhile p ++ c :: dropEnd p after := by
  unfold strip
  rw [List.dropWhile_append]
  split
  · rename_i hnil
    rw [List.isEmpty_iff.mp hnil, List.dropWhile_cons_of_neg h]
    exact dropEnd_append_cons h [] after
  · exact dropEnd_append_cons h _ after

theorem not_of_dropWhile_eq_cons {rest : List Char} (h : cs.dropWhile p = c :: rest) : ¬ p c := by
  have hhead := List.head?_dropWhile_not p cs
  rw [h] at hhead
  exact Bool.eq_false_iff.mp hhead

theorem strip_of_dropWhile_eq_cons {rest : List Char} (h : cs.dropWhile p = c :: rest) :
    strip p cs = c :: dropEnd p rest := by
  rw [strip, h]
  exact dropEnd_append_cons (not_of_dropWhile_eq_cons h) [] rest

theorem head?_strip (p : Char → Bool) (cs : List Char) :
    (strip p cs).head? = (cs.dropWhile p).head? := by
  cases h : cs.dropWhile p with
  | nil => rw [strip_eq_nil (List.dropWhile_eq_nil_iff.mp h)]
  | cons c rest =>
    rw [strip_of_dropWhile_eq_cons h]
    rfl

/-- Only characters of a class are gone, and none is left at either end. -/
structure Stripped (p : Char → Bool) (cs bare : List Char) : Prop where
  exists_ends : ∃ before after, cs = before ++ bare ++ after ∧
    (∀ c ∈ before, p c) ∧ ∀ c ∈ after, p c
  head : ∀ c, bare.head? = some c → ¬ p c
  last : ∀ c, bare.getLast? = some c → ¬ p c

theorem stripped_strip (p : Char → Bool) (cs : List Char) : Stripped p cs (strip p cs) := by
  refine ⟨⟨cs.takeWhile p, (cs.dropWhile p).rtakeWhile p, ?_, fun _ hc => List.mem_takeWhile_imp hc,
    fun _ hc => List.mem_rtakeWhile_imp hc⟩, fun c hc => ?_, fun c hc => ?_⟩
  · rw [strip, dropEnd_eq_rdropWhile, List.append_assoc, List.rdropWhile_append_rtakeWhile,
      List.takeWhile_append_dropWhile]
  · rw [head?_strip] at hc
    obtain ⟨rest, hrest⟩ := List.head?_eq_some_iff.mp hc
    exact not_of_dropWhile_eq_cons hrest
  · rw [strip, dropEnd, List.getLast?_reverse] at hc
    obtain ⟨rest, hrest⟩ := List.head?_eq_some_iff.mp hc
    exact not_of_dropWhile_eq_cons hrest

theorem mem_of_mem_strip (h : c ∈ strip p cs) : c ∈ cs := by
  obtain ⟨before, after, hcs, -⟩ := (stripped_strip p cs).exists_ends
  rw [hcs]
  exact List.mem_append_left _ (List.mem_append_right _ h)

theorem splitFirst?_append (h : sep ∉ before) (after : List Char) :
    splitFirst? sep (before ++ sep :: after) = some (before, after) := by
  induction before with
  | nil => rw [List.nil_append, splitFirst?, if_pos rfl]
  | cons c rest ih =>
    obtain ⟨hne, hrest⟩ := not_or.mp (mt List.mem_cons.mpr h)
    rw [List.cons_append, splitFirst?, if_neg (Ne.symm hne), ih hrest]
    rfl

theorem exists_first (h : sep ∈ cs) :
    ∃ before after, cs = before ++ sep :: after ∧ sep ∉ before := by
  cases hsplit : splitFirst? sep cs with
  | none => exact absurd h (splitFirst?_eq_none_iff.mp hsplit)
  | some parts => exact ⟨parts.1, parts.2, eq_of_splitFirst? hsplit⟩

theorem sep_not_mem_of_mem_splitOn (h : piece ∈ cs.splitOn sep) : sep ∉ piece := by
  induction cs generalizing piece with
  | nil =>
    rw [List.splitOn_nil, List.mem_singleton] at h
    exact h ▸ List.not_mem_nil
  | cons c rest ih =>
    rw [List.splitOn_cons_eq_if_modifyHead] at h
    split at h
    · rcases List.mem_cons.mp h with rfl | hrest
      · exact List.not_mem_nil
      · exact ih hrest
    · rename_i hne
      cases hsplit : rest.splitOn sep with
      | nil => exact absurd hsplit (List.splitOn_ne_nil _ _)
      | cons first pieces =>
        rw [hsplit, List.modifyHead_cons] at h
        rw [hsplit] at ih
        rcases List.mem_cons.mp h with rfl | hrest
        · rw [List.mem_cons, not_or]
          exact ⟨fun heq => hne (beq_iff_eq.mpr heq.symm), ih List.mem_cons_self⟩
        · exact ih (List.mem_cons_of_mem _ hrest)

/-- A line without the carriage return that belongs to its end. -/
def dropReturn (line : List Char) : List Char :=
  if line.getLast? = some '\r' then line.dropLast else line

/-- The lines of the pieces between line feeds. What follows the last line feed is a line unless it
is empty, and nothing ends it. -/
def ended : List (List Char) → List (List Char)
  | [] => []
  | [last] => if last = [] then [] else [last]
  | line :: next :: rest => dropReturn line :: ended (next :: rest)

theorem trim_dropReturn (line : List Char) : trim (dropReturn line) = trim line := by
  unfold dropReturn
  split
  · rename_i hlast
    obtain ⟨front, rfl⟩ := List.getLast?_eq_some_iff.mp hlast
    have hblank : ∀ c ∈ ['\r'], isBlank c := fun c hc => by
      rw [List.mem_singleton.mp hc]
      rfl
    rw [List.dropLast_concat]
    exact (strip_append_right hblank front).symm
  · rfl

end PacedStream.Text
