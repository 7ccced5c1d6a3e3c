import PacedStream.Packet.Draft
import PacedStream.Proofs.Clock.Tracking

/-!
Scans in pieces. Packets written behind the last one do not change what a scan does with those in
front of them, so a scan that found nothing goes on where it stopped. Main statement: taking a burst
in pieces and scanning behind each of them ends as one scan behind the whole burst does.
-/

namespace PacedStream
set_option autoImplicit false

namespace Queue

section Writing
variable {α : Type} {q : Queue α} {items : List α} {i : Nat}

theorem foldl_write_eq (q : Queue α) (items : List α) : ∃ slots tail, slots.size = q.size ∧
    ∀ head mark, items.foldl write { q with head, mark } = { q with slots, head, mark, tail } := by
  induction items generalizing q with
  | nil => exact ⟨q.slots, q.tail, rfl, fun _ _ => rfl⟩
  | cons a items ih =>
    obtain ⟨slots, tail, hsize, heq⟩ := ih (q.write a)
    exact ⟨slots, tail, hsize.trans size_write, heq⟩

theorem foldl_write_pass : (items.foldl write q).pass = items.foldl write q.pass := by
  obtain ⟨slots, tail, hsize, heq⟩ := foldl_write_eq q items
  refine (congrArg pass (heq q.head q.mark)).trans (Eq.trans ?_ (heq q.head (q.next q.mark)).symm)
  have hnext : ({ q with slots, tail } : Queue α).next q.mark = q.next q.mark := by
    change (if q.mark + 1 = slots.size then 0 else q.mark + 1) = _
    rw [hsize]
    rfl
  rw [← hnext]
  rfl

theorem foldl_write_dropTo : (items.foldl write q).dropTo i = items.foldl write (q.dropTo i) := by
  obtain ⟨_, _, _, heq⟩ := foldl_write_eq q items
  exact (congrArg (dropTo · i) (heq q.head q.mark)).trans (heq i q.mark).symm

theorem head_foldl_write : (items.foldl write q).head = q.head := by
  obtain ⟨_, _, _, heq⟩ := foldl_write_eq q items
  exact (congrArg head (heq q.head q.mark) :)

theorem mark_foldl_write : (items.foldl write q).mark = q.mark := by
  obtain ⟨_, _, _, heq⟩ := foldl_write_eq q items
  exact (congrArg mark (heq q.head q.mark) :)

theorem push?_of_room (hq : q.Ordered) (hroom : q.length + items.length < q.size) :
    q.push? items = some (items.foldl write q) := if_pos ((le_room_iff hq).mpr hroom)

theorem room_of_push? {all : Queue α} (hq : q.Ordered) (h : q.push? items = some all) :
    q.length + items.length < q.size ∧ all = items.foldl write q := by
  have hroom := (isSome_push?_iff hq).mp (by rw [h]; rfl)
  exact ⟨hroom, Option.some.inj (h.symm.trans (push?_of_room hq hroom))⟩

end Writing

variable {α : Type} [Inhabited α] {q : Queue α} {items : List α}

theorem Ordered.mark_eq_tail_iff (hq : q.Ordered) : q.mark = q.tail ↔ q.ahead = [] := by
  rw [← List.length_eq_zero_iff, length_ahead]
  exact (distance_eq_zero_iff hq.mark_lt hq.tail_lt).symm

theorem slot_mark_foldl_write (hq : q.Ordered) (hroom : q.length + items.length < q.size)
    (hne : q.mark ≠ q.tail) : (items.foldl write q).slot q.mark = q.slot q.mark := by
  have hpushed := pushed_foldl hq hroom
  have hahead := hpushed.ahead_eq
  rw [ahead_eq_cons hq hne] at hahead
  have hne' : (items.foldl write q).mark ≠ (items.foldl write q).tail := by
    rw [Ne, hpushed.ordered.mark_eq_tail_iff, hahead]
    exact List.cons_ne_nil _ _
  rw [ahead_eq_cons hpushed.ordered hne', mark_foldl_write] at hahead
  exact (List.cons.inj hahead).1

end Queue

namespace Scan

variable {s : Scan} {items : List Packet}

def fed (s : Scan) (items : List Packet) : Scan :=
  { s with queue := items.foldl Queue.write s.queue }

theorem step_fed (hq : s.queue.Ordered)
    (hroom : s.queue.length + items.length < s.queue.size) (hne : s.queue.mark ≠ s.queue.tail) :
    (s.fed items).step = s.step.fed items := by
  have hmark : (s.fed items).queue.mark = s.queue.mark := Queue.mark_foldl_write
  have hslot : (s.fed items).queue.slot s.queue.mark = s.queue.slot s.queue.mark :=
    Queue.slot_mark_foldl_write hq hroom hne
  have hpass : (s.fed items).queue.pass = items.foldl Queue.write s.queue.pass :=
    Queue.foldl_write_pass
  have hclock : (s.fed items).clock = s.clock := rfl
  unfold step
  dsimp only
  rw [hmark, hslot, hpass, hclock]
  split
  · rw [Queue.foldl_write_dropTo]
    rfl
  · rfl

theorem room_step {n : Nat} (hq : s.queue.Ordered) (hne : s.queue.mark ≠ s.queue.tail)
    (hroom : s.queue.length + n < s.queue.size) :
    s.step.queue.length + n < s.step.queue.size := by
  obtain ⟨p, hahead, hat⟩ := at_step hq hne
  have hsuffix : s.step.queue.toList <:+ s.queue.toList := by
    rw [hat.ordered.toList_eq, hq.toList_eq, hahead, hat.passed_eq]
    exact Clock.keep_suffix
  have hlength := hsuffix.length_le
  rw [Queue.length_toList, Queue.length_toList] at hlength
  rw [(keeps_step s).2.2]
  omega

theorem run_succ (n : Nat) (s : Scan) :
    run (n + 1) s = if s.step.found then s.step else run n s.step := rfl

theorem run_fed (n : Nat) (hq : s.queue.Ordered)
    (hroom : s.queue.length + items.length < s.queue.size) (hn : n ≤ s.queue.unscanned) :
    run n (s.fed items) = (run n s).fed items := by
  induction n generalizing s with
  | zero => rfl
  | succ n ih =>
    obtain ⟨m, hm⟩ := Nat.exists_eq_add_of_le' hn
    obtain ⟨hne, hleft⟩ := unscanned_step (n := m + n) hq hm
    obtain ⟨_, _, hat⟩ := at_step hq hne
    have hsame : (s.step.fed items).found = s.step.found := rfl
    rw [run_succ, run_succ, step_fed hq hroom hne, hsame]
    split
    · rfl
    · exact ih hat.ordered (room_step hq hne hroom) (by omega)

theorem run_add (m n : Nat) (hfound : s.found = false) :
    run (m + n) s = if (run m s).found then run m s else run n (run m s) := by
  induction m generalizing s with
  | zero => simp [run, hfound]
  | succ m ih =>
    rw [Nat.add_right_comm, run_succ, run_succ]
    cases hlast : s.step.found with
    | true =>
      rw [if_pos rfl, if_pos rfl, hlast, if_pos rfl]
    | false =>
      rw [if_neg Bool.false_ne_true, if_neg Bool.false_ne_true]
      exact ih hlast

/-- What a scan notes does not depend on what was noted before. -/
theorem run_noted (n : Nat) (s : Scan) (log : Array Message) :
    run n { s with log := log ++ s.log } = { run n s with log := log ++ (run n s).log } := by
  induction n generalizing s with
  | zero => rfl
  | succ n ih =>
    have hlog : ∀ more : List Message, log ++ s.log ++ more = log ++ (s.log ++ more) :=
      fun more => Array.toList_inj.mp (by simp)
    have hstep : ({ s with log := log ++ s.log } : Scan).step =
        { s.step with log := log ++ s.step.log } := by
      unfold step
      dsimp only
      rw [hlog]
    rw [run_succ, run_succ, hstep]
    dsimp only
    split
    · rfl
    · exact ih s.step

end Scan

namespace Clock

variable {c : Clock} {q : Queue Packet} {items passed ahead : List Packet}

theorem unscanned_of_lost (hq : q.Ordered) (h : (c.seek q).found = false) :
    (c.seek q).queue.unscanned = 0 := by
  rw [← Queue.length_ahead, ahead_seek_of_lost hq h, List.length_nil]

theorem room_seek {n : Nat} (hq : q.Ordered) (hroom : q.length + n < q.size) :
    (c.seek q).queue.length + n < (c.seek q).queue.size := by
  have hat := c.seek_at hq
  have hsuffix : (c.seek q).queue.toList <:+ q.toList := by
    rw [hat.ordered.toList_eq, hq.toList_eq, hat.passed_eq, hat.ahead_eq]
    exact (follows_walk c q.passed q.ahead).suffix
  have hlength := hsuffix.length_le
  rw [Queue.length_toList, Queue.length_toList] at hlength
  have hsize : (c.seek q).queue.size = q.size := (Scan.keeps_run _ _).2.2
  omega

theorem seek_fed (hq : q.Ordered) (hroom : q.length + items.length < q.size) :
    c.seek (items.foldl Queue.write q) =
      if (c.seek q).found then (c.seek q).fed items
      else Scan.run items.length ((c.seek q).fed items) := by
  have hpushed := Queue.pushed_foldl hq hroom
  have hmore : (items.foldl Queue.write q).unscanned = q.unscanned + items.length := by
    rw [← Queue.length_ahead, hpushed.ahead_eq, List.length_append, Queue.length_ahead]
  have hpart : Scan.run q.unscanned { clock := c, queue := items.foldl Queue.write q } =
      (c.seek q).fed items :=
    Scan.run_fed (s := { clock := c, queue := q }) q.unscanned hq hroom (Nat.le_refl _)
  rw [seek, hmore, Scan.run_add _ _ rfl, hpart]
  rfl

theorem seek_of_lost (hq : q.Ordered) (hroom : q.length + items.length < q.size)
    (h : (c.seek q).found = false) :
    let again := (c.seek q).clock.seek (items.foldl Queue.write (c.seek q).queue)
    c.seek (items.foldl Queue.write q) = { again with log := (c.seek q).log ++ again.log } := by
  have hordered := (c.seek_at hq).ordered
  have hpushed := Queue.pushed_foldl hordered (room_seek (c := c) hq hroom)
  have hmore : (items.foldl Queue.write (c.seek q).queue).unscanned = items.length := by
    rw [← Queue.length_ahead, hpushed.ahead_eq, List.length_append, Queue.length_ahead,
      unscanned_of_lost hq h, Nat.zero_add]
  intro again
  have hagain : again = Scan.run items.length
      { clock := (c.seek q).clock, queue := items.foldl Queue.write (c.seek q).queue } := by
    rw [← hmore]
    rfl
  rw [seek_fed hq hroom, h, if_neg Bool.false_ne_true, hagain, ← Scan.run_noted]
  congr 1
  simp [Scan.fed, h]

theorem seek_of_found (hq : q.Ordered) (hroom : q.length + items.length < q.size)
    (h : (c.seek q).found = true) : c.seek (items.foldl Queue.write q) = (c.seek q).fed items := by
  rw [seek_fed hq hroom, if_pos h]

end Clock

namespace Scan

/-- Takes a piece, and goes on scanning unless a block was found already. -/
def intake? (s : Scan) (piece : List Packet) : Option Scan :=
  (s.queue.push? piece).map fun queue =>
    if s.found then { s with queue }
    else
      let again := s.clock.seek queue
      { again with log := s.log ++ again.log }

/-- How the scan of a whole burst stands to that of its first part. -/
structure Resumes (part whole : Scan) (rest : List Packet) : Prop where
  /-- The same as a second scan, behind the rest. -/
  lost : part.found = false → ∃ queue, part.queue.push? rest = some queue ∧
    whole = { part.clock.seek queue with log := part.log ++ (part.clock.seek queue).log }
  found : part.found = true → whole.found = true ∧ whole.clock = part.clock ∧
    whole.queue.head = part.queue.head ∧ whole.queue.mark = part.queue.mark ∧
    part.queue.push? rest = some whole.queue

end Scan

namespace Clock

variable {c : Clock} {q all : Queue Packet} {piece first rest : List Packet}
  {pieces : List (List Packet)}

theorem resumes_seek (hq : q.Ordered) (hroom : q.length + rest.length < q.size) :
    Scan.Resumes (c.seek q) (c.seek (rest.foldl Queue.write q)) rest := by
  have hpush := Queue.push?_of_room (c.seek_at hq).ordered (room_seek (c := c) hq hroom)
  constructor
  · intro hlost
    exact ⟨_, hpush, seek_of_lost hq hroom hlost⟩
  · intro hfound
    rw [seek_of_found hq hroom hfound]
    exact ⟨hfound, rfl, Queue.head_foldl_write, Queue.mark_foldl_write, hpush⟩

theorem intake?_seek (hq : q.Ordered) (hroom : q.length + piece.length < q.size) :
    (c.seek q).intake? piece = some (c.seek (piece.foldl Queue.write q)) := by
  have hpush := Queue.push?_of_room (c.seek_at hq).ordered (room_seek (c := c) hq hroom)
  rw [Scan.intake?, hpush, Option.map_some]
  cases hfound : (c.seek q).found with
  | true =>
    rw [if_pos rfl, seek_of_found hq hroom hfound, Scan.fed, hfound]
  | false => rw [if_neg Bool.false_ne_true, seek_of_lost hq hroom hfound]

theorem foldlM_intake? (hq : q.Ordered) (hroom : q.length + pieces.flatten.length < q.size) :
    pieces.foldlM Scan.intake? (c.seek q) =
      some (c.seek (pieces.flatten.foldl Queue.write q)) := by
  induction pieces generalizing q with
  | nil => rfl
  | cons piece pieces ih =>
    rw [List.flatten_cons, List.length_append] at hroom
    have hone : q.length + piece.length < q.size := by omega
    have hpushed := Queue.pushed_foldl hq hone
    have hlength := Queue.length_foldl_write hq hone
    have hrest := ih hpushed.ordered (by rw [hlength, hpushed.size_eq]; omega)
    rw [List.foldlM_cons, intake?_seek hq hone, List.flatten_cons, List.foldl_append]
    exact hrest

/-- A burst that fits may come in two pieces or in many. -/
theorem seek_resumes (c : Clock) (q : Queue Packet) (hq : q.Ordered) :
    (∀ first rest all, q.push? (first ++ rest) = some all →
      ∃ part, q.push? first = some part ∧ Scan.Resumes (c.seek part) (c.seek all) rest) ∧
    ∀ piece pieces all, q.push? (piece :: pieces).flatten = some all →
      (piece :: pieces).foldlM Scan.intake? { clock := c, queue := q } = some (c.seek all) := by
  constructor
  · intro first rest all hall
    obtain ⟨hroom, rfl⟩ := Queue.room_of_push? hq hall
    rw [List.length_append] at hroom
    have hone : q.length + first.length < q.size := by omega
    have hpushed := Queue.pushed_foldl hq hone
    have hlength := Queue.length_foldl_write hq hone
    refine ⟨_, Queue.push?_of_room hq hone, ?_⟩
    rw [List.foldl_append]
    exact resumes_seek hpushed.ordered (by rw [hlength, hpushed.size_eq]; omega)
  · intro piece pieces all hall
    obtain ⟨hroom, rfl⟩ := Queue.room_of_push? hq hall
    rw [List.flatten_cons, List.length_append] at hroom
    have hone : q.length + piece.length < q.size := by omega
    have hpushed := Queue.pushed_foldl hq hone
    have hlength := Queue.length_foldl_write hq hone
    have hfirst : Scan.intake? { clock := c, queue := q } piece =
        some (c.seek (piece.foldl Queue.write q)) := by
      rw [Scan.intake?, Queue.push?_of_room hq hone, Option.map_some, if_neg Bool.false_ne_true]
      simp
    rw [List.foldlM_cons, hfirst, List.flatten_cons, List.foldl_append]
    exact foldlM_intake? hpushed.ordered (by rw [hlength, hpushed.size_eq]; omega)

def turning : Queue Packet where
  slots := Array.replicate 6 (Packet.Draft.packet { pid := 257 })
  head := 4
  mark := 5
  tail := 5
  minSize := 2

/-- Between the pieces lies an anchor in front and a break behind. -/
theorem seek_resumes_at_break :
    let c : Clock := {}
    let first := [Packet.Draft.packet { pid := 256, clock? := some 0 },
      Packet.Draft.packet { pid := 256 }]
    let rest := [Packet.Draft.packet { pid := 256, clock? := some 90000000 },
      Packet.Draft.packet { pid := 256, clock? := some 90054000 }]
    ∃ part all, turning.push? first = some part ∧ turning.push? (first ++ rest) = some all ∧
      (c.seek part).found = false ∧ (c.seek all).found = true ∧ (c.seek all).clock.breaks = 1 ∧
      Scan.Resumes (c.seek part) (c.seek all) rest ∧
      [first, rest].foldlM Scan.intake? { clock := c, queue := turning } = some (c.seek all) := by
  intro c first rest
  have hq : turning.Ordered := by
    constructor
    all_goals decide
  have hall : turning.push? (first ++ rest) = some ((first ++ rest).foldl Queue.write turning) :=
    if_pos (by decide)
  obtain ⟨htwo, hmany⟩ := seek_resumes c turning hq
  obtain ⟨part, hpart, hresumes⟩ := htwo first rest _ hall
  have hpieces := hmany first [rest] _ hall
  have hbefore : (c.seek (first.foldl Queue.write turning)).found = false := by decide +kernel
  obtain ⟨_, rfl⟩ := Queue.room_of_push? hq hpart
  exact ⟨_, _, hpart, hall, hbefore, by decide +kernel, by decide +kernel, hresumes, hpieces⟩

end Clock
end PacedStream
