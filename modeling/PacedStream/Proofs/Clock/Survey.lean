import PacedStream.Packet.Draft
import PacedStream.Proofs.Clock.Visits

/-!
The scan told from the readings ahead. Each is compared with the one before it, the first of them
with the latest that the clock knows, and the scan ends behind the first that is close enough to the
one before. Main statement: a scan finds a block exactly if there is one, and clock and cursors then
are those that the compared readings and their places give.
-/

namespace PacedStream
set_option autoImplicit false

/-- A reading and the place of its packet. Packets that a scan has not reached are numbered from
zero, those behind it are below. -/
structure Mark where
  place : Int
  ticks : UInt64
deriving DecidableEq

namespace Mark

variable {a b : Mark}

def span (a b : Mark) : Nat :=
  (((b.ticks.toNat : Int) - a.ticks.toNat) % ClockReference.wrap.toNat).toNat

/-- The second of two readings ends a block that the first opens. -/
def close (pair : Mark × Mark) : Bool :=
  0 < pair.1.span pair.2 && pair.1.span pair.2 < Clock.maxGap.toNat

theorem span_eq (ha : a.ticks < ClockReference.wrap) (hb : b.ticks < ClockReference.wrap) :
    a.span b = (ClockReference.gap a.ticks b.ticks).toNat := by
  rw [span, ← Clock.toNat_gap ha hb, Int.toNat_natCast]

theorem close_eq (ha : a.ticks < ClockReference.wrap) (hb : b.ticks < ClockReference.wrap) :
    close (a, b) = !Clock.isBreak a.ticks b.ticks := by
  have hspan : (a, b).1.span (a, b).2 = (ClockReference.gap a.ticks b.ticks).toNat := span_eq ha hb
  rw [close, hspan, Clock.isBreak]
  generalize ClockReference.gap a.ticks b.ticks = gap
  have hzero : gap = 0 ↔ gap.toNat = 0 := UInt64.toNat_inj.symm
  have hle : Clock.maxGap ≤ gap ↔ Clock.maxGap.toNat ≤ gap.toNat := UInt64.le_iff_toNat_le
  simp only [hzero, hle, Bool.not_or, ← decide_not, Nat.not_le, Nat.pos_iff_ne_zero]

def pairs (chain : List Mark) : List (Mark × Mark) := chain.zip chain.tail

theorem pairs_cons_cons (a b : Mark) (chain : List Mark) :
    pairs (a :: b :: chain) = (a, b) :: pairs (b :: chain) := rfl

theorem head?_of_pairs {chain : List Mark} {rest : List (Mark × Mark)}
    (h : pairs chain = (a, b) :: rest) : chain.head? = some a := by
  match chain, h with
  | _ :: _ :: _, h => exact congrArg some (congrArg Prod.fst (List.cons.inj h).1)

theorem head?_of_single {chain : List Mark} (h : pairs chain = [])
    (hlast : chain.getLast? = some a) : chain.head? = some a := by
  match chain, h with
  | [_], _ => exact hlast

end Mark

namespace Queue

variable {α : Type} {q : Queue α} {i : Nat}

def slotAhead (q : Queue α) (i : Nat) : Nat := (q.mark + i) % q.size

theorem slotAhead_zero (h : q.mark < q.size) : q.slotAhead 0 = q.mark := Nat.mod_eq_of_lt h

theorem next_slotAhead (h : 0 < q.size) : q.next (q.slotAhead i) = q.slotAhead (i + 1) := by
  have hlt : q.slotAhead i < q.size := Nat.mod_lt _ h
  rw [next_eq_mod hlt, slotAhead, slotAhead, Nat.mod_add_mod, Nat.add_assoc]

end Queue

namespace Clock

variable {c c' : Clock} {p : Packet} {pid : UInt16} {ticks : UInt64} {pid? : Option UInt16}
  {ahead : List Packet} {first : Nat}

/-- The identifier that a scan reads the clock from, which may be that of the first reading. -/
def source? (c : Clock) (ahead : List Packet) : Option UInt16 :=
  c.reference?.or (ahead.findSome? fun p => (reading? p).map Prod.fst)

def ticksOn? (pid? : Option UInt16) (p : Packet) : Option UInt64 :=
  (reading? p).bind fun r => if pid? = some r.1 then some r.2 else none

/-- The readings on an identifier, in packets numbered from `first`. -/
def marks (pid? : Option UInt16) (first : Nat) (ahead : List Packet) : List Mark :=
  (ahead.zipIdx first).filterMap fun x => (ticksOn? pid? x.1).map fun ticks => ⟨x.2, ticks⟩

/-- The place of the packet with the latest reading, if the next one is number `first`. -/
def origin (c : Clock) (first : Nat) : Int := (first : Int) - 1 - c.scanned

/-- The readings that a scan compares: the latest that the clock knows and those ahead. -/
def chain (c : Clock) (first : Nat) (ahead : List Packet) : List Mark :=
  (c.latest?.map fun ticks => ⟨c.origin first, ticks⟩).toList ++
    marks (c.source? ahead) first ahead

theorem marks_cons : marks pid? first (p :: ahead) =
    ((ticksOn? pid? p).map fun ticks => ⟨first, ticks⟩).toList ++
      marks pid? (first + 1) ahead := by
  unfold marks
  rw [List.zipIdx_cons, List.filterMap_cons]
  cases ticksOn? pid? p <;> rfl

theorem source?_pass (other : ∀ pid ticks, reading? p = some (pid, ticks) →
    c.reference?.getD pid ≠ pid) : c.source? (p :: ahead) = c.counted.source? ahead := by
  have href : c.counted.reference? = c.reference? := rfl
  unfold source?
  rw [href]
  cases hknown : c.reference? with
  | some pid => rfl
  | none =>
    have hnone : reading? p = none := by
      cases hread : reading? p with
      | none => rfl
      | some r => exact absurd (by rw [hknown]; rfl) (other r.1 r.2 hread)
    simp [hnone]

theorem ticksOn?_pass (other : ∀ pid ticks, reading? p = some (pid, ticks) →
    c.reference?.getD pid ≠ pid) : ticksOn? (c.source? (p :: ahead)) p = none := by
  cases hread : reading? p with
  | none => simp [ticksOn?, hread]
  | some r =>
    have hother := other r.1 r.2 hread
    cases hknown : c.reference? with
    | none => exact absurd (by rw [hknown]; rfl) hother
    | some pid =>
      rw [hknown] at hother
      have hne : pid ≠ r.1 := hother
      simp [ticksOn?, hread, source?, hknown, hne]

theorem chain_pass (other : ∀ pid ticks, reading? p = some (pid, ticks) →
    c.reference?.getD pid ≠ pid) :
    c.chain first (p :: ahead) = c.counted.chain (first + 1) ahead := by
  have horigin : c.counted.origin (first + 1) = c.origin first := by
    have hscanned : c.counted.scanned = c.scanned + 1 := rfl
    unfold origin
    omega
  unfold chain
  rw [marks_cons, ticksOn?_pass other, source?_pass other, horigin]
  rfl

theorem source?_read (read : reading? p = some (pid, ticks))
    (own : c.reference?.getD pid = pid) (ahead : List Packet) :
    c.source? (p :: ahead) = some pid := by
  unfold source?
  cases hknown : c.reference? with
  | none => simp [read]
  | some pid' =>
    rw [hknown] at own
    exact congrArg some own

/-- The clock takes the reading of a packet and scans on from it. -/
structure Takes (c : Clock) (p : Packet) (pid : UInt16) (ticks : UInt64) (c' : Clock) : Prop where
  read : reading? p = some (pid, ticks)
  own : c.reference?.getD pid = pid
  reference_eq : c'.reference? = some pid
  latest_eq : c'.latest? = some ticks
  scanned_eq : c'.scanned = 0

theorem takes_anchor (read : reading? p = some (pid, ticks)) (own : c.reference?.getD pid = pid) :
    c.Takes p pid ticks ((c.counted.learn pid).anchor ticks) :=
  ⟨read, own, learn_reference? own, rfl, rfl⟩

theorem takes_restart (read : reading? p = some (pid, ticks)) (own : c.reference?.getD pid = pid) :
    c.Takes p pid ticks ((c.counted.learn pid).restart ticks) :=
  ⟨read, own, learn_reference? own, rfl, rfl⟩

theorem takes_locate (read : reading? p = some (pid, ticks)) (own : c.reference?.getD pid = pid)
    (before : UInt64) :
    c.Takes p pid ticks ((c.counted.learn pid).locate before ticks) :=
  ⟨read, own, learn_reference? own, rfl, rfl⟩

theorem Takes.source?_eq (h : c.Takes p pid ticks c') (ahead : List Packet) :
    c.source? (p :: ahead) = c'.source? ahead := by
  rw [source?_read h.read h.own, source?, h.reference_eq]
  rfl

theorem Takes.origin_eq (h : c.Takes p pid ticks c') (first : Nat) :
    c'.origin (first + 1) = first := by
  have hscanned := h.scanned_eq
  unfold origin
  omega

theorem Takes.chain_eq (h : c.Takes p pid ticks c') (first : Nat) (ahead : List Packet) :
    c.chain first (p :: ahead) = (c.latest?.map fun ticks => ⟨c.origin first, ticks⟩).toList ++
      c'.chain (first + 1) ahead := by
  have hticks : ticksOn? (some pid) p = some ticks := by simp [ticksOn?, h.read]
  have hsource : c'.source? ahead = some pid := by rw [source?, h.reference_eq]; rfl
  unfold chain
  rw [source?_read h.read h.own, hsource, marks_cons, hticks, h.latest_eq, h.origin_eq]

theorem Takes.chain_cons (h : c.Takes p pid ticks c') (first : Nat) (ahead : List Packet) :
    c'.chain (first + 1) ahead =
      ⟨first, ticks⟩ :: marks (c'.source? ahead) (first + 1) ahead := by
  rw [chain, h.latest_eq, h.origin_eq]
  rfl

theorem Takes.getLast?_elim (h : c.Takes p pid ticks c') (first : Nat) (ahead : List Packet)
    (i j : Int) : (c'.chain (first + 1) ahead).getLast?.elim i Mark.place =
      (c'.chain (first + 1) ahead).getLast?.elim j Mark.place := by
  cases hlast : (c'.chain (first + 1) ahead).getLast? with
  | some a => rfl
  | none =>
    rw [h.chain_cons] at hlast
    exact absurd (List.getLast?_eq_none_iff.mp hlast) (List.cons_ne_nil _ _)

@[simp] theorem chain_nil : c.chain first [] =
    (c.latest?.map fun ticks => ⟨c.origin first, ticks⟩).toList := List.append_nil _

/-- The clock behind a block from `a` to `b`, with breaks in front of it. -/
def behind (c : Clock) (ahead : List Packet) (breaks : Nat) (a b : Mark) : Clock :=
  { c with
    reference? := c.source? ahead
    opening? := some a.ticks
    latest? := some b.ticks
    quantum := (UInt64.ofNat (a.span b)).toFloat / Float.ofNat (b.place - a.place).toNat
    scanned := 0
    blockLength := (b.place - a.place).toNat
    blocks := if breaks = 0 then c.blocks else 0
    locked := true
    breaks := c.breaks + breaks }

/-- The clock when all packets are passed and every reading but the first was a break. -/
def beyond (c : Clock) (first : Nat) (ahead : List Packet) : Clock :=
  let chain := c.chain first ahead
  let breaks := (Mark.pairs chain).length
  let last := chain.getLast?.elim (c.origin first) Mark.place
  { c with
    reference? := c.source? ahead
    opening? := if breaks = 0 then c.opening? else none
    latest? := chain.getLast?.map Mark.ticks
    scanned := ((first : Int) + ahead.length - 1 - last).toNat
    blocks := if breaks = 0 then c.blocks else 0
    breaks := c.breaks + breaks }

/-- What is queued in front of the reading that a scan measures from in the end goes if the reading
was a break, or the first of a clock without a lock. -/
def sheds (c : Clock) (breaks : Nat) : Bool := 0 < breaks || c.latest?.isNone && !c.locked

theorem behind_pass {n : Nat} {a b : Mark} (other : ∀ pid ticks, reading? p = some (pid, ticks) →
    c.reference?.getD pid ≠ pid) : c.behind (p :: ahead) n a b = c.counted.behind ahead n a b := by
  unfold behind
  rw [source?_pass other]
  rfl

theorem last_cons : (first : Int) + (p :: ahead).length - 1 =
    ((first + 1 : Nat) : Int) + ahead.length - 1 := by
  rw [List.length_cons]
  omega

theorem beyond_pass (other : ∀ pid ticks, reading? p = some (pid, ticks) →
    c.reference?.getD pid ≠ pid) :
    c.beyond first (p :: ahead) = c.counted.beyond (first + 1) ahead := by
  have horigin : c.counted.origin (first + 1) = c.origin first := by
    have hscanned : c.counted.scanned = c.scanned + 1 := rfl
    unfold origin
    omega
  unfold beyond
  dsimp only
  rw [chain_pass other, source?_pass other, horigin, last_cons]
  rfl

theorem beyond_nil : c.beyond first [] = c := by
  have hsource : c.source? [] = c.reference? := Option.or_none
  have hpairs : Mark.pairs (c.chain first []) = [] := by
    rw [chain_nil]
    cases c.latest? <;> rfl
  have hlatest : (c.chain first []).getLast?.map Mark.ticks = c.latest? := by
    rw [chain_nil]
    cases c.latest? <;> rfl
  have hplace : (c.chain first []).getLast?.elim (c.origin first) Mark.place = c.origin first := by
    rw [chain_nil]
    cases c.latest? <;> rfl
  have hscanned : ((first : Int) + ([] : List Packet).length - 1 - c.origin first).toNat =
      c.scanned := by
    rw [List.length_nil, origin]
    omega
  unfold beyond
  dsimp only
  rw [hsource, hpairs, hlatest, hplace, hscanned]
  rfl

theorem behind_anchor {n : Nat} {a b : Mark} (read : reading? p = some (pid, ticks))
    (own : c.reference?.getD pid = pid) : c.behind (p :: ahead) n a b =
      ((c.counted.learn pid).anchor ticks).behind ahead n a b := by
  unfold behind
  rw [(takes_anchor read own).source?_eq]
  rfl

theorem beyond_anchor (read : reading? p = some (pid, ticks)) (own : c.reference?.getD pid = pid)
    (hnone : c.latest? = none) : c.beyond first (p :: ahead) =
      ((c.counted.learn pid).anchor ticks).beyond (first + 1) ahead := by
  have htakes := takes_anchor read own
  have hchain : c.chain first (p :: ahead) =
      ((c.counted.learn pid).anchor ticks).chain (first + 1) ahead := by
    rw [htakes.chain_eq, hnone]
    rfl
  have hlast := htakes.getLast?_elim first ahead (c.origin first)
    (((c.counted.learn pid).anchor ticks).origin (first + 1))
  unfold beyond
  dsimp only
  rw [hchain, hlast, last_cons, htakes.source?_eq]
  rfl

theorem behind_broken {n : Nat} {a b : Mark} (read : reading? p = some (pid, ticks))
    (own : c.reference?.getD pid = pid) : c.behind (p :: ahead) (n + 1) a b =
      ((c.counted.learn pid).restart ticks).behind ahead n a b := by
  have hbreaks : c.breaks + (n + 1) = c.breaks + 1 + n := by omega
  unfold behind
  rw [(takes_restart read own).source?_eq, hbreaks, if_neg (Nat.succ_ne_zero n)]
  cases n <;> rfl

theorem beyond_broken {before : UInt64} (read : reading? p = some (pid, ticks))
    (own : c.reference?.getD pid = pid) (last : c.latest? = some before) :
    c.beyond first (p :: ahead) =
      ((c.counted.learn pid).restart ticks).beyond (first + 1) ahead := by
  have htakes := takes_restart read own
  have hchain : c.chain first (p :: ahead) = ⟨c.origin first, before⟩ ::
      ((c.counted.learn pid).restart ticks).chain (first + 1) ahead := by
    rw [htakes.chain_eq, last]
    rfl
  have hlast := htakes.getLast?_elim first ahead (c.origin first)
    (((c.counted.learn pid).restart ticks).origin (first + 1))
  have hbreaks : ∀ n, c.breaks + (n + 1) = c.breaks + 1 + n := fun n => by omega
  have hopening : ((c.counted.learn pid).restart ticks).opening? = none := rfl
  have hblocks : ((c.counted.learn pid).restart ticks).blocks = 0 := rfl
  unfold beyond
  dsimp only
  rw [hchain, htakes.source?_eq, last_cons]
  rw [htakes.chain_cons] at hlast ⊢
  rw [Mark.pairs_cons_cons, List.getLast?_cons_cons, hlast, List.length_cons, hbreaks,
    if_neg (Nat.succ_ne_zero _), if_neg (Nat.succ_ne_zero _), hopening, hblocks, ite_self, ite_self]
  rfl

/-- The packet that locates a block is the second of its readings. -/
theorem locate_eq_behind {before : UInt64} (read : reading? p = some (pid, ticks))
    (own : c.reference?.getD pid = pid) (hbefore : before < ClockReference.wrap)
    (hticks : ticks < ClockReference.wrap) : (c.counted.learn pid).locate before ticks =
      c.behind (p :: ahead) 0 ⟨c.origin first, before⟩ ⟨first, ticks⟩ := by
  have hspan : Mark.span ⟨c.origin first, before⟩ ⟨first, ticks⟩ =
      (ClockReference.gap before ticks).toNat := Mark.span_eq hbefore hticks
  have hlength : ((first : Int) - c.origin first).toNat = c.scanned + 1 := by
    unfold origin
    omega
  have hlearned : c.counted.learn pid = { c.counted with reference? := some pid } :=
    congrArg (fun pid => { c.counted with reference? := some pid }) own
  unfold behind
  dsimp only
  rw [source?_read read own, hspan, UInt64.ofNat_toNat, hlength, hlearned]
  rfl

end Clock

namespace Scan

variable {q : Queue Packet} {s s' t : Scan} {first n : Nat} {p : Packet} {pid : UInt16}
  {ticks : UInt64}

def frontAt (q : Queue Packet) (s : Scan) (breaks : Nat) (a : Mark) : Nat :=
  if s.clock.sheds breaks then q.slotAhead a.place.toNat else s.queue.head

/-- The scan `s` of the queue `q` has come to packet `first` and ends as `t`. -/
structure Ends (q : Queue Packet) (first : Nat) (s t : Scan) : Prop where
  found : ∀ broken a b rest,
    Mark.pairs (s.clock.chain first s.queue.ahead) = broken ++ (a, b) :: rest →
    (∀ pair ∈ broken, Mark.close pair = false) → Mark.close (a, b) = true →
      t.found = true ∧ t.clock = s.clock.behind s.queue.ahead broken.length a b ∧
      t.queue = { q with
        head := frontAt q s broken.length a, mark := q.slotAhead (b.place.toNat + 1) }
  lost : (∀ pair ∈ Mark.pairs (s.clock.chain first s.queue.ahead), Mark.close pair = false) →
    t.found = false ∧ t.clock = s.clock.beyond first s.queue.ahead ∧
    t.queue = { q with
      head := (s.clock.chain first s.queue.ahead).getLast?.elim s.queue.head
        (frontAt q s (Mark.pairs (s.clock.chain first s.queue.ahead)).length)
      mark := q.tail }

/-- The scan has come to packet `first` of the queue, of which it has changed nothing but cursors. -/
def Reaches (q : Queue Packet) (first : Nat) (s : Scan) : Prop :=
  s.queue = { q with head := s.queue.head, mark := q.slotAhead first }

theorem step_queue (s : Scan) : s.step.queue = { s.queue with
    head := if (s.clock.observe s.here).verdict.drops then s.queue.mark else s.queue.head
    mark := s.queue.next s.queue.mark } := by
  change (if (s.clock.observe s.here).verdict.drops then s.queue.pass.dropTo s.queue.mark
    else s.queue.pass) = _
  split <;> rfl

theorem Reaches.step (h : Reaches q first s) (hsize : 0 < q.size) :
    Reaches q (first + 1) s.step := by
  have hmark : s.queue.mark = q.slotAhead first := congrArg Queue.mark h
  have hnext : s.queue.next s.queue.mark = q.slotAhead (first + 1) := by
    have hsame : s.queue.next s.queue.mark = q.next s.queue.mark := by rw [h]; rfl
    rw [hsame, hmark, Queue.next_slotAhead hsize]
  unfold Reaches
  rw [step_queue s, hnext, h]

theorem Ends.same (h : Ends q (first + 1) s' t)
    (chain_eq : s.clock.chain first s.queue.ahead = s'.clock.chain (first + 1) s'.queue.ahead)
    (behind_eq : ∀ n a b, s.clock.behind s.queue.ahead n a b = s'.clock.behind s'.queue.ahead n a b)
    (beyond_eq : s.clock.beyond first s.queue.ahead = s'.clock.beyond (first + 1) s'.queue.ahead)
    (front_eq : ∀ n a, (n = 0 → (s.clock.chain first s.queue.ahead).head? = some a) →
      frontAt q s n a = frontAt q s' n a)
    (head_eq : s.clock.chain first s.queue.ahead = [] → s.queue.head = s'.queue.head) :
    Ends q first s t := by
  constructor
  · intro broken a b rest hsplit hbroken hclose
    have hfront := front_eq broken.length a fun hzero => by
      rw [List.length_eq_zero_iff.mp hzero] at hsplit
      exact Mark.head?_of_pairs hsplit
    rw [behind_eq, hfront]
    exact h.found broken a b rest (chain_eq ▸ hsplit) hbroken hclose
  · intro hfar
    obtain ⟨hfound, hclock, hqueue⟩ := h.lost (chain_eq ▸ hfar)
    refine ⟨hfound, hclock.trans beyond_eq.symm, ?_⟩
    rw [hqueue, ← chain_eq]
    cases hlast : (s.clock.chain first s.queue.ahead).getLast? with
    | none => rw [Option.elim_none, Option.elim_none, head_eq (List.getLast?_eq_none_iff.mp hlast)]
    | some a =>
      rw [Option.elim_some, Option.elim_some, front_eq]
      intro hzero
      exact Mark.head?_of_single (List.length_eq_zero_iff.mp hzero) hlast

/-- One more comparison in front that finds nothing close counts as a break. -/
theorem Ends.far {m : Mark} (h : Ends q (first + 1) s' t)
    (pairs_eq : Mark.pairs (s.clock.chain first s.queue.ahead) =
      (m, ⟨first, ticks⟩) :: Mark.pairs (s'.clock.chain (first + 1) s'.queue.ahead))
    (last_eq : (s.clock.chain first s.queue.ahead).getLast? =
      (s'.clock.chain (first + 1) s'.queue.ahead).getLast?)
    (start : (s'.clock.chain (first + 1) s'.queue.ahead).head? = some ⟨first, ticks⟩)
    (far : Mark.close (m, ⟨first, ticks⟩) = false)
    (behind_eq : ∀ n a b,
      s.clock.behind s.queue.ahead (n + 1) a b = s'.clock.behind s'.queue.ahead n a b)
    (beyond_eq : s.clock.beyond first s.queue.ahead = s'.clock.beyond (first + 1) s'.queue.ahead)
    (front_eq : ∀ n a, (n = 0 → (⟨first, ticks⟩ : Mark) = a) →
      frontAt q s (n + 1) a = frontAt q s' n a) : Ends q first s t := by
  have hfront : ∀ n a, (n = 0 → (s'.clock.chain (first + 1) s'.queue.ahead).head? = some a) →
      frontAt q s (n + 1) a = frontAt q s' n a := fun n a hhead =>
    front_eq n a fun hzero => Option.some.inj (start.symm.trans (hhead hzero))
  constructor
  · intro broken a b rest hsplit hbroken hclose
    rw [pairs_eq] at hsplit
    cases broken with
    | nil =>
      obtain ⟨hpair, _⟩ := List.cons.inj hsplit
      rw [← hpair, far] at hclose
      cases hclose
    | cons pair broken =>
      obtain ⟨_, hsplit'⟩ := List.cons.inj hsplit
      rw [List.length_cons, behind_eq, hfront]
      · exact h.found broken a b rest hsplit'
          (fun pair' h' => hbroken pair' (List.mem_cons_of_mem _ h')) hclose
      · intro hzero
        rw [List.length_eq_zero_iff.mp hzero] at hsplit'
        exact Mark.head?_of_pairs hsplit'
  · intro hall
    rw [pairs_eq] at hall
    obtain ⟨hfound, hclock, hqueue⟩ := h.lost fun pair h' => hall pair (List.mem_cons_of_mem _ h')
    refine ⟨hfound, hclock.trans beyond_eq.symm, ?_⟩
    rw [hqueue, pairs_eq, last_eq, List.length_cons]
    cases hlast : (s'.clock.chain (first + 1) s'.queue.ahead).getLast? with
    | none =>
      rw [List.getLast?_eq_none_iff.mp hlast] at start
      cases start
    | some a =>
      rw [Option.elim_some, Option.elim_some, hfront]
      intro hzero
      exact Mark.head?_of_single (List.length_eq_zero_iff.mp hzero) hlast

/-- What a scan knows of its next step. -/
structure Nears (q : Queue Packet) (first : Nat) (s : Scan) (p : Packet) (s' : Scan)
    (v : Clock.Verdict) : Prop where
  mark_eq : s.queue.mark = q.slotAhead first
  ahead_eq : s.queue.ahead = p :: s'.queue.ahead
  head_eq : s'.queue.head = if v.drops then s.queue.mark else s.queue.head

theorem ends_pass (hnears : Nears q first s p s' .pass)
    (other : ∀ pid ticks, Clock.reading? p = some (pid, ticks) →
      s.clock.reference?.getD pid ≠ pid) (hclock : s'.clock = s.clock.counted)
    (h : Ends q (first + 1) s' t) : Ends q first s t := by
  have hhead : s'.queue.head = s.queue.head := hnears.head_eq
  refine h.same ?_ ?_ ?_ ?_ ?_
  all_goals rw [hnears.ahead_eq]
  · rw [hclock]
    exact Clock.chain_pass other
  · intro n a b
    rw [hclock]
    exact Clock.behind_pass other
  · rw [hclock]
    exact Clock.beyond_pass other
  · intro n a _
    rw [frontAt, frontAt, hhead, hclock]
    rfl
  · exact fun _ => hhead.symm

theorem ends_anchor (hnears : Nears q first s p s' (.anchor s.clock.locked))
    (read : Clock.reading? p = some (pid, ticks)) (own : s.clock.reference?.getD pid = pid)
    (hnone : s.clock.latest? = none)
    (hclock : s'.clock = (s.clock.counted.learn pid).anchor ticks)
    (h : Ends q (first + 1) s' t) : Ends q first s t := by
  have htakes := hclock ▸ Clock.takes_anchor read own
  have hchain := htakes.chain_eq first s'.queue.ahead
  have hstart := htakes.chain_cons first s'.queue.ahead
  rw [hnone] at hchain
  refine h.same ?_ ?_ ?_ ?_ ?_
  all_goals rw [hnears.ahead_eq]
  · exact hchain
  · intro n a b
    rw [hclock]
    exact Clock.behind_anchor read own
  · rw [hclock]
    exact Clock.beyond_anchor read own hnone
  · intro n a hfront
    have hhead := hnears.head_eq
    have hsheds : s.clock.sheds n = (decide (0 < n) || !s.clock.locked) := by
      simp [Clock.sheds, hnone]
    have hsheds' : s'.clock.sheds n = decide (0 < n) := by
      rw [hclock]
      simp [Clock.sheds, Clock.anchor]
    rw [frontAt, frontAt, hsheds, hsheds', hhead]
    by_cases hpos : 0 < n
    · simp [hpos]
    · -- Without a break the scan measures from this very packet.
      have hfirst := hfront (by omega)
      rw [hchain, Option.map_none, Option.toList_none, List.nil_append, hstart] at hfirst
      cases hfirst
      cases hlocked : s.clock.locked <;> simp [hpos, Clock.Verdict.drops, hnears.mark_eq]
  · rw [hchain, Option.map_none, Option.toList_none, List.nil_append, hstart]
    exact fun h => absurd h (List.cons_ne_nil _ _)

theorem ends_broken {before : UInt64} (hnears : Nears q first s p s' .broken)
    (read : Clock.reading? p = some (pid, ticks)) (own : s.clock.reference?.getD pid = pid)
    (last : s.clock.latest? = some before) (gap : Clock.isBreak before ticks = true)
    (hbefore : before < ClockReference.wrap) (hticks : ticks < ClockReference.wrap)
    (hclock : s'.clock = (s.clock.counted.learn pid).restart ticks)
    (h : Ends q (first + 1) s' t) : Ends q first s t := by
  have htakes := hclock ▸ Clock.takes_restart read own
  have hchain : s.clock.chain first s.queue.ahead =
      ⟨s.clock.origin first, before⟩ :: s'.clock.chain (first + 1) s'.queue.ahead := by
    rw [hnears.ahead_eq, htakes.chain_eq, last]
    rfl
  have hstart := htakes.chain_cons first s'.queue.ahead
  have hhead : (s'.clock.chain (first + 1) s'.queue.ahead).head? = some ⟨first, ticks⟩ := by
    rw [hstart, List.head?_cons]
  refine h.far (m := ⟨s.clock.origin first, before⟩) ?_ ?_ hhead ?_ ?_ ?_ ?_
  · rw [hchain, hstart, Mark.pairs_cons_cons]
  · rw [hchain, hstart, List.getLast?_cons_cons]
  · rw [Mark.close_eq hbefore hticks, gap]
    rfl
  · intro n a b
    rw [hnears.ahead_eq, hclock]
    exact Clock.behind_broken read own
  · rw [hnears.ahead_eq, hclock]
    exact Clock.beyond_broken read own last
  · intro n a hfirst
    have hsheds : s'.clock.sheds n = decide (0 < n) := by
      rw [hclock]
      simp [Clock.sheds, Clock.restart, Clock.anchor]
    rw [frontAt, frontAt, hsheds, hnears.head_eq]
    by_cases hpos : 0 < n
    · simp [hpos, Clock.sheds]
    · -- This packet is then the one that the scan measures from, and the first that stays.
      cases hfirst (by omega)
      simp [hpos, Clock.sheds, Clock.Verdict.drops, hnears.mark_eq]

theorem ends_located {before : UInt64} (hnears : Nears q first s p s' .located)
    (hreaches : Reaches q (first + 1) s') (hfound : s'.found = true)
    (read : Clock.reading? p = some (pid, ticks)) (own : s.clock.reference?.getD pid = pid)
    (last : s.clock.latest? = some before) (gap : Clock.isBreak before ticks = false)
    (hbefore : before < ClockReference.wrap) (hticks : ticks < ClockReference.wrap)
    (hclock : s'.clock = (s.clock.counted.learn pid).locate before ticks) : Ends q first s s' := by
  have htakes := hclock ▸ Clock.takes_locate read own before
  have hpairs : Mark.pairs (s.clock.chain first s.queue.ahead) =
      (⟨s.clock.origin first, before⟩, ⟨first, ticks⟩) ::
        Mark.pairs (s'.clock.chain (first + 1) s'.queue.ahead) := by
    rw [hnears.ahead_eq, htakes.chain_eq, last, htakes.chain_cons]
    rfl
  have hnear : Mark.close (⟨s.clock.origin first, before⟩, ⟨first, ticks⟩) = true := by
    rw [Mark.close_eq hbefore hticks, gap]
    rfl
  constructor
  · intro broken a b rest hsplit hbroken _
    rw [hpairs] at hsplit
    cases broken with
    | cons pair broken =>
      obtain ⟨hpair, _⟩ := List.cons.inj hsplit
      have hfar := hbroken pair List.mem_cons_self
      rw [← hpair, hnear] at hfar
      cases hfar
    | nil =>
      obtain ⟨hpair, _⟩ := List.cons.inj hsplit
      cases hpair
      refine ⟨hfound, ?_, ?_⟩
      · rw [hclock, hnears.ahead_eq]
        exact Clock.locate_eq_behind read own hbefore hticks
      · have hsheds : s.clock.sheds 0 = false := by simp [Clock.sheds, last]
        have hhead : s'.queue.head = s.queue.head := hnears.head_eq
        rw [frontAt, List.length_nil, hsheds, hreaches, hhead]
        rfl
  · intro hall
    have hfar := hall _ (hpairs ▸ List.mem_cons_self)
    rw [hnear] at hfar
    cases hfar

theorem ends_nil (hreaches : Reaches q first s) (hnil : s.queue.ahead = [])
    (htail : s.queue.mark = q.tail) (hfound : s.found = false) : Ends q first s s := by
  have hnone : Mark.pairs (s.clock.chain first []) = [] := by
    rw [Clock.chain_nil]
    cases s.clock.latest? <;> rfl
  constructor
  · intro broken a b rest hsplit
    rw [hnil, hnone] at hsplit
    cases broken <;> cases hsplit
  · intro _
    have hhead : (s.clock.chain first []).getLast?.elim s.queue.head (frontAt q s 0) =
        s.queue.head := by
      rw [Clock.chain_nil]
      cases hlatest : s.clock.latest? with
      | none => rfl
      | some ticks =>
        have hsheds : s.clock.sheds 0 = false := by simp [Clock.sheds, hlatest]
        exact if_neg (by simp [hsheds])
    have hmark : q.slotAhead first = q.tail := (congrArg Queue.mark hreaches).symm.trans htail
    rw [hnil, hnone, List.length_nil, hhead, Clock.beyond_nil]
    exact ⟨hfound, rfl,
      hreaches.trans (congrArg (fun mark => { q with head := s.queue.head, mark }) hmark)⟩

theorem nears_step (hq : s.queue.Ordered) (hne : s.queue.mark ≠ s.queue.tail)
    (hreaches : Reaches q first s) :
    Nears q first s s.here s.step (s.clock.observe s.here).verdict := by
  obtain ⟨_, hcons, _⟩ := step_lists hq hne
  exact ⟨congrArg Queue.mark hreaches, hcons, congrArg Queue.head (step_queue s)⟩

theorem Ends.step (hq : s.queue.Ordered) (hsize : 0 < q.size) (hne : s.queue.mark ≠ s.queue.tail)
    (hreaches : Reaches q first s)
    (hlatest : ∀ ticks, s.clock.latest? = some ticks → ticks < ClockReference.wrap)
    (hhere : Clock.OnCircle s.here) (hmore : s.step.found = false → Ends q (first + 1) s.step t)
    (hlast : s.step.found = true → t = s.step) : Ends q first s t := by
  have hobs := Clock.observes s.clock s.here
  have hnears := nears_step hq hne hreaches
  have hclock : s.step.clock = (s.clock.observe s.here).clock := rfl
  have hfound : s.step.found = decide ((s.clock.observe s.here).verdict = .located) := rfl
  generalize (s.clock.observe s.here).clock = c' at hobs hclock
  generalize (s.clock.observe s.here).verdict = v at hobs hnears hfound
  cases hobs with
  | pass other => exact ends_pass hnears other hclock (hmore hfound)
  | anchor read own first => exact ends_anchor hnears read own first hclock (hmore hfound)
  | broken read own last gap =>
    obtain ⟨_, _, hread⟩ := Clock.reading?_eq_some_iff.mp read
    exact ends_broken hnears read own last gap (hlatest _ last) (hhere _ hread) hclock
      (hmore hfound)
  | located read own last gap =>
    obtain ⟨_, _, hread⟩ := Clock.reading?_eq_some_iff.mp read
    rw [hlast hfound]
    exact ends_located hnears (hreaches.step hsize) hfound read own last gap (hlatest _ last)
      (hhere _ hread) hclock

theorem ends_run (n : Nat) (hq : s.queue.Ordered) (hsize : 0 < q.size)
    (hreaches : Reaches q first s) (hn : s.queue.unscanned = n) (hfound : s.found = false)
    (hlatest : ∀ ticks, s.clock.latest? = some ticks → ticks < ClockReference.wrap)
    (hahead : ∀ p ∈ s.queue.ahead, Clock.OnCircle p) : Ends q first s (run n s) := by
  induction n generalizing s first with
  | zero =>
    have hnil : s.queue.ahead = [] := by
      rw [← List.length_eq_zero_iff, Queue.length_ahead, hn]
    have htail : s.queue.tail = q.tail := by rw [hreaches]
    have hmark := (Queue.distance_eq_zero_iff hq.mark_lt hq.tail_lt).mp hn
    exact ends_nil hreaches hnil (hmark.trans htail) hfound
  | succ n ih =>
    obtain ⟨hne, hleft⟩ := unscanned_step hq hn
    obtain ⟨v, hcons, hobs, _, hordered, _⟩ := step_lists hq hne
    rw [hcons] at hahead
    unfold run
    dsimp only
    refine Ends.step hq hsize hne hreaches hlatest (hahead _ List.mem_cons_self) ?_ ?_
    · intro hmore
      rw [hmore, if_neg Bool.false_ne_true]
      refine ih hordered (hreaches.step hsize) hleft hmore ?_
        fun p hp => hahead p (List.mem_cons_of_mem _ hp)
      exact Clock.latest_lt_observes hobs hlatest (hahead _ List.mem_cons_self)
    · intro hlast
      rw [if_pos hlast]

theorem Ends.found_iff (h : Ends q first s t) : t.found = true ↔
    ∃ pair ∈ Mark.pairs (s.clock.chain first s.queue.ahead), Mark.close pair = true := by
  cases hfind : (Mark.pairs (s.clock.chain first s.queue.ahead)).find? Mark.close with
  | none =>
    have hall := List.find?_eq_none.mp hfind
    have hlost := (h.lost fun pair hpair => Bool.eq_false_iff.mpr (hall pair hpair)).1
    simp only [hlost, Bool.false_eq_true, false_iff]
    exact fun ⟨pair, hpair, hclose⟩ => hall pair hpair hclose
  | some pair =>
    obtain ⟨hclose, broken, rest, hsplit, hbroken⟩ := List.find?_eq_some_iff_append.mp hfind
    have hfound := (h.found broken pair.1 pair.2 rest hsplit
      (fun pair hpair => by simpa using hbroken pair hpair) hclose).1
    exact ⟨fun _ => ⟨pair, List.mem_of_find?_eq_some hfind, hclose⟩, fun _ => hfound⟩

end Scan

namespace Clock

/-- What the scan of a queue comes to, told from the readings ahead. -/
theorem seek_ends (c : Clock) (q : Queue Packet) (hq : q.Ordered)
    (hlatest : ∀ ticks, c.latest? = some ticks → ticks < ClockReference.wrap)
    (hahead : ∀ p ∈ q.ahead, OnCircle p) :
    ((c.seek q).found = true ↔ ∃ pair ∈ Mark.pairs (c.chain 0 q.ahead), Mark.close pair = true) ∧
      Scan.Ends q 0 { clock := c, queue := q } (c.seek q) := by
  have hsize : 0 < q.size := Nat.lt_of_le_of_lt (Nat.zero_le _) hq.mark_lt
  have hreaches : Scan.Reaches q 0 { clock := c, queue := q } := by
    unfold Scan.Reaches
    rw [Queue.slotAhead_zero hq.mark_lt]
  have hends : Scan.Ends q 0 { clock := c, queue := q } (c.seek q) :=
    Scan.ends_run q.unscanned (s := { clock := c, queue := q }) hq hsize hreaches rfl rfl hlatest
      hahead
  exact ⟨hends.found_iff, hends⟩

/-- A queue over the end of its slots, with a reading on the first and the fourth of the five packets
that a scan has not reached. -/
def crossing : Queue Packet where
  slots :=
    let plain := Packet.Draft.packet { pid := 257 }
    #[plain, Packet.Draft.packet { pid := 256, clock? := some 81000 }, plain, plain, plain, plain,
      Packet.Draft.packet { pid := 256, clock? := some 0 }, plain]
  head := 5
  mark := 6
  tail := 3
  minSize := 2

/-- The first of the two readings breaks the clock and drops the packet in front of it, and the
second ends a block of three packets. -/
theorem seek_ends_crossing :
    let c : Clock :=
      { reference? := some 256, latest? := some 90000000, scanned := 1, locked := true, breaks := 2 }
    (c.seek crossing).found = true ∧ (c.seek crossing).clock.breaks = 3 ∧
      (c.seek crossing).clock.blockLength = 3 ∧
      (c.seek crossing).queue = { crossing with head := 6, mark := 2 } := by
  intro c
  have hq : crossing.Ordered := by
    constructor
    all_goals decide +kernel
  have hlatest : ∀ ticks, c.latest? = some ticks → ticks < ClockReference.wrap := by
    rintro _ ⟨⟩
    decide
  have hreadings : crossing.ahead.all (fun p => p.clock?.all (· < ClockReference.wrap)) = true := by
    decide +kernel
  have hahead : ∀ p ∈ crossing.ahead, OnCircle p := fun p hp =>
    onCircle_iff.mpr (List.all_eq_true.mp hreadings p hp)
  have hpairs : Mark.pairs (c.chain 0 crossing.ahead) =
      [(⟨-2, 90000000⟩, ⟨0, 0⟩)] ++ (⟨0, 0⟩, ⟨3, 81000⟩) :: [] := by
    decide +kernel
  have hbroken : ∀ pair ∈ [((⟨-2, 90000000⟩, ⟨0, 0⟩) : Mark × Mark)], Mark.close pair = false := by
    decide +kernel
  obtain ⟨_, hends⟩ := seek_ends c crossing hq hlatest hahead
  obtain ⟨hfound, hclock, hqueue⟩ :=
    hends.found _ ⟨0, 0⟩ ⟨3, 81000⟩ _ hpairs hbroken (by decide +kernel)
  exact ⟨hfound, congrArg Clock.breaks hclock, congrArg Clock.blockLength hclock, hqueue⟩

end Clock
end PacedStream
