import Mathlib.Data.List.Induction
import PacedStream.Packet.Framing

/-!
Bytes in and out of packets. Framing neither loses nor changes a byte, so that its packets are the
consecutive groups of the bytes, with fewer than one packet carried.
-/

namespace PacedStream.Packet
set_option autoImplicit false

variable {packets : List Packet} {bytes rest : List UInt8}

def bytesOf (packets : List Packet) : List UInt8 := packets.flatMap Vector.toList

@[simp] theorem bytesOf_nil : bytesOf [] = [] := rfl

theorem bytesOf_append (a b : List Packet) : bytesOf (a ++ b) = bytesOf a ++ bytesOf b :=
  List.flatMap_append

theorem length_bytesOf (packets : List Packet) :
    (bytesOf packets).length = packets.length * size := by
  induction packets with
  | nil => rfl
  | cons p rest ih =>
    rw [bytesOf, List.flatMap_cons, List.length_append, Vector.length_toList, List.length_cons,
      Nat.succ_mul, Nat.add_comm]
    exact congrArg (· + size) ih

/-- Packets are the consecutive groups of some bytes, and the rest falls short of one more. -/
structure Groups (bytes : List UInt8) (packets : List Packet) (rest : List UInt8) : Prop where
  length_eq : packets.length = bytes.length / size
  group_eq : ∀ i p, packets[i]? = some p → p.toList = (bytes.drop (i * size)).take size
  rest_eq : rest = bytes.drop (packets.length * size)
  rest_lt : rest.length < size

theorem groups_of_bytes (h : bytes = bytesOf packets ++ rest) (hrest : rest.length < size) :
    Groups bytes packets rest := by
  have hlength : bytes.length = packets.length * size + rest.length := by
    rw [h, List.length_append, length_bytesOf]
  have hdrop : bytes.drop (packets.length * size) = rest := by
    rw [h, List.drop_left' (length_bytesOf packets)]
  refine ⟨?_, ?_, hdrop.symm, hrest⟩
  · rw [hlength, Nat.mul_comm, Nat.mul_add_div (by decide), Nat.div_eq_of_lt hrest, Nat.add_zero]
  · intro i p hp
    obtain ⟨hi, rfl⟩ := List.getElem?_eq_some_iff.mp hp
    -- The packet stands behind the bytes of the first `i`.
    have hsplit : packets = packets.take i ++ packets[i] :: packets.drop (i + 1) := by
      rw [← List.drop_eq_getElem_cons hi, List.take_append_drop]
    have hfront : (bytesOf (packets.take i)).length = i * size := by
      rw [length_bytesOf, List.length_take_of_le (Nat.le_of_lt hi)]
    have hbytes : bytes = bytesOf (packets.take i) ++
        (packets[i].toList ++ (bytesOf (packets.drop (i + 1)) ++ rest)) := by
      rw [h]
      conv => lhs; rw [hsplit]
      simp only [bytesOf, List.flatMap_append, List.flatMap_cons, List.append_assoc]
    rw [hbytes, List.drop_left' hfront, List.take_left' (Vector.length_toList)]

namespace Framing

def allBytes (f : Framing) : List UInt8 := bytesOf f.packets.toList ++ f.carry.bytes.toList

theorem allBytes_feed (f : Framing) (byte : UInt8) : (f.feed byte).allBytes = f.allBytes ++ [byte] := by
  unfold feed Carry.feed
  split
  · rename_i carry hfeed
    split at hfeed
    · cases hfeed
    · cases hfeed
      simp [allBytes]
  · rename_i carry p hfeed
    split at hfeed
    · cases hfeed
      simp [allBytes, bytesOf, Carry.empty]
    · cases hfeed

theorem allBytes_feedAll (f : Framing) (bytes : List UInt8) :
    (f.feedAll bytes).allBytes = f.allBytes ++ bytes := by
  induction bytes generalizing f with
  | nil => simp
  | cons byte rest ih =>
    have hstep : f.feedAll (byte :: rest) = (f.feed byte).feedAll rest := rfl
    rw [hstep, ih, allBytes_feed, List.append_assoc]
    rfl

/-- Packets that are out already make no difference to those that follow. -/
theorem feedAll_eq (f : Framing) (bytes : List UInt8) :
    f.feedAll bytes = { carry := (frame f.carry bytes).carry
                        packets := f.packets ++ (frame f.carry bytes).packets } := by
  induction bytes using List.reverseRecOn with
  | nil => simp [frame]
  | append_singleton bytes byte ih =>
    have hlast : frame f.carry (bytes ++ [byte]) = (frame f.carry bytes).feed byte :=
      feedAll_append { carry := f.carry } bytes [byte]
    have hstep : f.feedAll (bytes ++ [byte]) = (f.feedAll bytes).feed byte :=
      feedAll_append f bytes [byte]
    rw [hstep, hlast, ih]
    unfold feed
    dsimp only
    split <;> simp

end Framing

theorem frame_append (carry : Carry) (first second : List UInt8) :
    frame carry (first ++ second) =
      { carry := (frame (frame carry first).carry second).carry
        packets := (frame carry first).packets ++
          (frame (frame carry first).carry second).packets } :=
  (Framing.feedAll_append { carry } first second).trans (Framing.feedAll_eq (frame carry first) second)

theorem bytes_frame (carry : Carry) (bytes : List UInt8) :
    carry.bytes.toList ++ bytes =
      bytesOf (frame carry bytes).packets.toList ++ (frame carry bytes).carry.bytes.toList :=
  (Framing.allBytes_feedAll { carry } bytes).symm

end PacedStream.Packet
