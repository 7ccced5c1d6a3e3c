import PacedStream.Packet.Draft
import PacedStream.Proofs.Packet.Headers

/-!
Packets built from their parts. The bytes of a built packet are its lead, the payload cut to the
room that is left, and stuffing. Main statement: all readers of the packet find the parts that it
was built from, and no payload is taken for a clock reading.
-/

namespace PacedStream.Packet
set_option autoImplicit false

variable {p : Packet} {h : Header}

theorem getElem_ofBytes {fill : UInt8} {bytes : List UInt8} {i : Nat} (hi : i < size) :
    (ofBytes fill bytes)[i] = bytes.getD i fill := by
  simp [ofBytes]

theorem toList_ofBytes (fill : UInt8) (bytes : List UInt8) : (ofBytes fill bytes).toList =
    bytes.take size ++ List.replicate (size - bytes.length) fill := by
  refine List.ext_getElem ?_ fun i hleft hright => ?_
  · simp only [Vector.length_toList, List.length_append, List.length_take, List.length_replicate]
    omega
  · rw [Vector.length_toList] at hleft
    rw [Vector.getElem_toList, getElem_ofBytes hleft]
    by_cases hi : i < bytes.length
    · rw [List.getElem_append_left (by rw [List.length_take]; omega), List.getElem_take,
        List.getD_eq_getElem _ _ hi]
    · rw [List.getElem_append_right (by rw [List.length_take]; omega), List.getElem_replicate,
        List.getD_eq_default _ _ (Nat.le_of_not_lt hi)]

theorem toList_eq_cons (p : Packet) :
    p.toList = p[0] :: p[1] :: p[2] :: p[3] :: p.toList.drop 4 := by
  have hlength : p.toList.length = 188 := Vector.length_toList
  have hcons (i : Nat) (hi : i < 188) : p.toList.drop i = p[i] :: p.toList.drop (i + 1) := by
    rw [List.drop_eq_getElem_cons (hlength ▸ hi), Vector.getElem_toList]
  rw [← hcons 3, ← hcons 2, ← hcons 1, ← hcons 0, List.drop_zero]

theorem shared_of_decode (hdecode : Header.decode p.toList = .ok h) :
    p[0] = syncByte ∧ p.pid = h.pid ∧ (p[3] &&& 0x20 ≠ 0 ↔ h.adaptation = true) := by
  rw [toList_eq_cons, Header.decode] at hdecode
  split at hdecode
  · rename_i hsync
    cases hdecode
    exact ⟨hsync, rfl, decide_eq_true_iff.symm⟩
  · cases hdecode

theorem clock?_eq_none_of_decode (hdecode : Header.decode p.toList = .ok h)
    (hplain : h.adaptation = false) : p.clock? = none := by
  obtain ⟨-, -, hadaptation⟩ := shared_of_decode hdecode
  refine if_neg fun hclock => ?_
  have hup : h.adaptation = true := hadaptation.mp hclock.2.1
  rw [hplain] at hup
  cases hup

namespace Draft

variable {d : Draft} {ticks : UInt64}

theorem toList_packet (d : Draft) : d.packet.toList = d.lead ++
    (d.payload.take (size - d.lead.length) ++
      List.replicate (size - d.lead.length - d.payload.length) 0xff) := by
  have hlead : d.lead.length ≤ size := by
    rw [length_lead]
    split <;> decide
  rw [packet, toList_ofBytes, List.take_append, List.take_of_length_le hlead, List.append_assoc,
    List.length_append, Nat.sub_add_eq]

theorem decode_packet (d : Draft) : Header.decode d.packet.toList = .ok d.header.cut := by
  rw [toList_packet, lead, List.append_assoc, Header.decode_encode]
  exact if_pos rfl

theorem cut_header (d : Draft) : d.header.cut = {
    pid := d.pid &&& 0x1fff
    adaptation := d.clock?.isSome
    counter := d.counter &&& 0x0f } := by
  have hpid : d.pid &&& nullPid &&& 0x1fff = d.pid &&& 0x1fff := by
    rw [UInt16.and_assoc]
    rfl
  simp only [Header.cut, header, hpid, UInt8.zero_and]

theorem adaptation_cut_header (d : Draft) : d.header.cut.adaptation = d.clock?.isSome := rfl

theorem toList_packet_of_clock (hclock : d.clock? = some ticks) :
    ∃ rest, d.packet.toList = d.header.encode ++
      7 :: 0x10 :: (ClockReference.encode ticks ++ rest) := by
  have hlead : d.lead = d.header.encode ++ adaptationField ticks := by
    rw [lead, hclock]
    rfl
  rw [toList_packet, hlead, List.append_assoc]
  exact ⟨_, rfl⟩

theorem announces_packet (hclock : d.clock? = some ticks) : d.packet.Announces := by
  obtain ⟨rest, hbytes⟩ := toList_packet_of_clock hclock
  obtain ⟨hsync, -, hadaptation⟩ := shared_of_decode d.decode_packet
  have hlength : d.packet.toList[4]? = some 7 := by
    rw [hbytes]
    rfl
  have hflags : d.packet.toList[5]? = some 0x10 := by
    rw [hbytes]
    rfl
  obtain ⟨_, hlength⟩ := List.getElem?_eq_some_iff.mp hlength
  obtain ⟨_, hflags⟩ := List.getElem?_eq_some_iff.mp hflags
  rw [Vector.getElem_toList] at hlength hflags
  refine ⟨hsync, hadaptation.mpr ?_, ?_, ?_⟩
  · rw [adaptation_cut_header, hclock]
    rfl
  · rw [hlength]
    decide
  · rw [hflags]
    decide

theorem clockBytes_packet (hclock : d.clock? = some ticks) :
    d.packet.clockBytes = ClockReference.encode ticks := by
  obtain ⟨rest, hbytes⟩ := toList_packet_of_clock hclock
  rw [clockBytes, hbytes, List.extract_eq_take_drop]
  exact List.take_left' (ClockReference.length_encode ticks)

theorem clock?_packet (d : Draft) :
    d.packet.clock? = d.clock?.map (· % ClockReference.wrap) := by
  cases hclock : d.clock? with
  | none =>
    have hplain : d.header.cut.adaptation = false := by
      rw [adaptation_cut_header, hclock]
      rfl
    exact clock?_eq_none_of_decode d.decode_packet hplain
  | some ticks =>
    have hbytes := clockBytes_packet hclock
    rw [clockBytes_eq] at hbytes
    rw [clock?_of_announces (announces_packet hclock), ClockReference.decode_of_encode hbytes.symm]
    rfl

theorem reads_as_built (d : Draft) :
    let front := if d.clock?.isSome then 12 else 4
    d.packet.toList.length = 188 ∧
    Header.decode d.packet.toList = .ok {
      sync := syncByte
      transportError := false
      unitStart := false
      priority := false
      pid := d.pid &&& 0x1fff
      scrambling := 0
      adaptation := d.clock?.isSome
      payload := true
      counter := d.counter &&& 0x0f } ∧
    d.packet.pid = d.pid &&& 0x1fff ∧
    d.packet.clock? = d.clock?.map (· % ClockReference.wrap) ∧
    d.packet.toList.drop front = d.payload.take (188 - front) ++
      List.replicate (188 - front - d.payload.length) 0xff := by
  intro front
  have hlead : d.lead.length = front := d.length_lead
  have hdecode := d.decode_packet
  obtain ⟨-, hpid, -⟩ := shared_of_decode hdecode
  rw [cut_header] at hdecode hpid
  refine ⟨Vector.length_toList, hdecode, hpid, d.clock?_packet, ?_⟩
  rw [toList_packet, List.drop_left' hlead, hlead]

/-- A payload written like an adaptation field holds no clock reading. -/
example : (packet { pid := 0x100, payload := adaptationField 300 }).clock? = none := by
  decide +kernel

end Draft

end PacedStream.Packet
