import PacedStream.Proofs.Buffer.Alike

/-!
What a run depends on. Main statement: a buffer that gets packets with the same identifiers, and with
readings that are all later by the same number of ticks on the circle, runs in the same way and sends
the packets with the same numbers. What else is in the packets does not matter, nor does a wrap.
-/

namespace PacedStream
set_option autoImplicit false

/-- A reading below the wrap, and the one `c` ticks later on the circle. -/
structure ClockReference.Later (c : Nat) (ticks ticks' : UInt64) : Prop where
  below : ticks < wrap
  toNat_eq : ticks'.toNat = (ticks.toNat + c) % wrap.toNat

/-- The same identifier, and either no reading or one that is `c` ticks later. -/
structure Packet.Shifted (c : Nat) (p p' : Packet) : Prop where
  pid_eq : p'.pid = p.pid
  clock : Option.Rel (ClockReference.Later c) p.clock? p'.clock?

variable {c : Nat}

theorem ClockReference.Later.below' {t t' : UInt64} (h : Later c t t') : t' < wrap := by
  rw [UInt64.lt_iff_toNat_lt, h.toNat_eq]
  exact Nat.mod_lt _ (by decide)

theorem ClockReference.Later.gap_eq {a a' b b' : UInt64} (ha : Later c a a') (hb : Later c b b') :
    gap a' b' = gap a b := by
  have hgap := Clock.toNat_gap ha.below hb.below
  have hgap' := Clock.toNat_gap ha.below' hb.below'
  have hwrap : wrap.toNat = 2576980377600 := rfl
  have hbelow := UInt64.lt_iff_toNat_lt.mp ha.below
  rw [ha.toNat_eq, hb.toNat_eq] at hgap'
  apply UInt64.toNat_inj.mp
  rw [hwrap] at hgap hgap'
  omega

theorem Clock.likeness_shifted (c : Nat) :
    Likeness (Packet.Shifted c) (ClockReference.Later c) :=
  ⟨fun h => h.pid_eq, fun h => h.clock, fun ha hb => ha.gap_eq hb⟩

theorem Packet.Shifted.of_readings {p p' : Packet} {t t' : UInt64}
    (later : ClockReference.Later c t t') (hread : p.clock? = some t) (hread' : p'.clock? = some t')
    (pid_eq : p'.pid = p.pid) : Shifted c p p' := by
  refine ⟨pid_eq, ?_⟩
  rw [hread, hread']
  exact .some later

/-- Steps with the same answers, and as many packets sent. -/
structure Step.Matches (c : Nat) (s s' : Step) : Prop where
  fault_eq : s'.fault? = s.fault?
  asked_eq : s'.asked = s.asked
  sent : List.Forall₂ (Packet.Shifted c) s.sent.toList s'.sent.toList
  status_eq : s'.buffer.status = s.buffer.status
  breaks_eq : s'.buffer.clock.breaks = s.buffer.clock.breaks

namespace Buffer

variable {history history' : List Operation} {op op' : Operation}

theorem depends_on_differences (settings : Settings)
    (hhistory : List.Forall₂ (Operation.Alike (Packet.Shifted c)) history history')
    (hop : op.Alike (Packet.Shifted c) op') :
    let b := (create settings).buffer
    let s := (b.run history).apply op
    let s' := (b.run history').apply op'
    s.Matches c s' ∧ ∃ numbers first,
      InOrder (b.accepted (history ++ [op])) (b.sent (history ++ [op])) s.buffer.queue.toList
        numbers first ∧
      InOrder (b.accepted (history' ++ [op'])) (b.sent (history' ++ [op'])) s'.buffer.queue.toList
        numbers first := by
  intro b s s'
  have hlike := Clock.likeness_shifted c
  have hq := ordered_create settings
  have hnil : b.queue.toList = [] := Queue.toList_create _ _
  have hstart : b.Alike (Packet.Shifted c) (ClockReference.Later c) b :=
    .mk (Queue.alike_of_empty hq hq rfl rfl hnil hnil) (.fresh _)
  have hstep := alike_apply hlike (alike_run hlike hstart hhistory) hop
  refine ⟨⟨hstep.fault_eq, hstep.asked_eq, hstep.sent, hstep.buffer.status_eq,
    hstep.buffer.clock.breaks_eq⟩, ?_⟩
  have hall : List.Forall₂ (Operation.Alike (Packet.Shifted c)) (history ++ [op])
      (history' ++ [op']) := List.rel_append hhistory (.cons hop .nil)
  have hnumbers := numbers_eq (alike_happened hlike hstart hall) 0
  have haccepted := (alike_accepted hlike hstart hall).length_eq
  have hqueued := hstep.buffer.queue.length_eq
  have horder := inOrder_run hq hnil (history ++ [op])
  have horder' := inOrder_run hq hnil (history' ++ [op'])
  rw [run_append] at horder horder'
  rw [hnumbers, ← haccepted] at horder'
  have hfirst : (b.accepted (history ++ [op])).length - ((b.run history').run [op']).queue.length =
      (b.accepted (history ++ [op])).length - ((b.run history).run [op]).queue.length :=
    congrArg (_ - ·) hqueued
  rw [hfirst] at horder'
  exact ⟨_, _, horder, horder'⟩

def early : List Packet :=
  [Packet.Draft.packet { pid := 256, clock? := some 0 },
    Packet.Draft.packet { pid := 256, clock? := some 27000 }]

def wrapping : List Packet :=
  [Packet.Draft.packet { pid := 256, clock? := some 2576980350600, payload := [1, 2, 3] },
    Packet.Draft.packet { pid := 256, clock? := some 0, counter := 5 }]

theorem depends_on_differences_at_wrap :
    let history := [.setDelivers true, .push early, .tick 0, .tick 1000000]
    let history' := [.setDelivers true, .push wrapping, .tick 0, .tick 1000000]
    let b := (create sampleSettings).buffer
    let s := (b.run history).apply (.tick 2000000)
    let s' := (b.run history').apply (.tick 2000000)
    s.sent.size = 1 ∧ s.Matches 2576980350600 s' := by
  intro history history' b s s'
  have hfirst : ClockReference.Later 2576980350600 0 2576980350600 := ⟨by decide, by decide⟩
  have hsecond : ClockReference.Later 2576980350600 27000 0 := ⟨by decide, by decide⟩
  have hearly : List.Forall₂ (Packet.Shifted 2576980350600) early wrapping := by
    refine .cons (.of_readings hfirst ?_ ?_ ?_) (.cons (.of_readings hsecond ?_ ?_ ?_) .nil)
    all_goals decide +kernel
  have hhistory : List.Forall₂ (Operation.Alike (Packet.Shifted 2576980350600)) history history' :=
    .cons (.setDelivers true) (.cons (.push hearly) (.cons (.tick 0) (.cons (.tick 1000000) .nil)))
  have h := depends_on_differences sampleSettings hhistory (.tick 2000000)
  exact ⟨by decide +kernel, h.1⟩

end Buffer
end PacedStream
