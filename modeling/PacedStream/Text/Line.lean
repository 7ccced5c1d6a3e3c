/-!
Lines and fields. A line ends at a line feed; the carriage return that may stand before it is
blank, so a trimmed line never shows it.
-/

namespace PacedStream.Text
set_option autoImplicit false

def lines (cs : List Char) : List (List Char) := cs.splitOn '\n'

def splitFirst? (sep : Char) : List Char → Option (List Char × List Char)
  | [] => none
  | c :: cs =>
    if c = sep then some ([], cs)
    else (splitFirst? sep cs).map fun (a, b) => (c :: a, b)

theorem eq_of_splitFirst? {sep : Char} {cs a b : List Char}
    (h : splitFirst? sep cs = some (a, b)) : cs = a ++ sep :: b ∧ sep ∉ a := by
  induction cs generalizing a with
  | nil => simp [splitFirst?] at h
  | cons c cs ih =>
    simp only [splitFirst?] at h
    split at h
    · simp_all
    · obtain ⟨⟨a', b'⟩, h', he⟩ := Option.map_eq_some_iff.mp h
      obtain ⟨rfl, rfl⟩ := Prod.mk.inj he
      obtain ⟨rfl, hn⟩ := ih h'
      refine ⟨rfl, ?_⟩
      simp only [List.mem_cons, not_or]
      exact ⟨fun he => by simp_all, hn⟩

theorem splitFirst?_eq_none_iff {sep : Char} {cs : List Char} :
    splitFirst? sep cs = none ↔ sep ∉ cs := by
  induction cs with
  | nil => simp [splitFirst?]
  | cons c cs ih =>
    simp only [splitFirst?]
    split
    · simp_all
    · simp only [Option.map_eq_none_iff, ih, List.mem_cons, not_or]
      exact ⟨fun h => ⟨fun he => by simp_all, h⟩, fun h => h.2⟩

end PacedStream.Text
