import PacedStream.Fault

/-!
Settings of a buffer and the rules they keep: thresholds are positive and the lower one does not
exceed the upper, the greatest size is 1 to 1024 megabytes, and the reference identifier lies below
the one of stuffing packets.
-/

namespace PacedStream
set_option autoImplicit false

structure Settings where
  enough : UInt64 := 10
  low : UInt64 := 5
  maxBytes : UInt64 := 8388608
  pid? : Option UInt16 := none
  name : String := "sync"
deriving DecidableEq

namespace Settings

def standard : Settings := {}

def bytesPerMegabyte : Nat := 1048576

def maxPackets (s : Settings) : Nat := s.maxBytes.toNat / Packet.size

def checkThresholds (enough low : UInt64) : Except Fault Unit :=
  if enough = 0 ∨ low = 0 then .error (.settings .zeroThreshold)
  else if enough < low then .error (.settings (.lowAboveEnough low enough))
  else .ok ()

def checkMegabytes (megabytes : Nat) : Except Fault Unit :=
  if megabytes = 0 ∨ maxMegabytes < megabytes then
    .error (.settings (.sizeOutOfRange megabytes))
  else .ok ()

def checkPid (pid : UInt16) : Except Fault Unit :=
  if Packet.nullPid ≤ pid then .error (.settings (.unusablePid pid)) else .ok ()

theorem checkThresholds_eq_ok_iff {enough low : UInt64} :
    checkThresholds enough low = .ok () ↔ 1 ≤ low.toNat ∧ low.toNat ≤ enough.toNat := by
  unfold checkThresholds
  simp only [← UInt64.toNat_inj, UInt64.lt_iff_toNat_lt, UInt64.toNat_ofNat]
  by_cases zero : enough.toNat = 0 ∨ low.toNat = 0
  · have h : ¬(1 ≤ low.toNat ∧ low.toNat ≤ enough.toNat) := by omega
    simp [zero, h]
  · by_cases above : enough.toNat < low.toNat
    · have h : ¬(1 ≤ low.toNat ∧ low.toNat ≤ enough.toNat) := by omega
      simp [zero, above, h]
    · have h : 1 ≤ low.toNat ∧ low.toNat ≤ enough.toNat := by omega
      simp [zero, above, h]

theorem checkMegabytes_eq_ok_iff {megabytes : Nat} :
    checkMegabytes megabytes = .ok () ↔ 1 ≤ megabytes ∧ megabytes ≤ maxMegabytes := by
  unfold checkMegabytes
  split <;> simp <;> omega

theorem checkPid_eq_ok_iff {pid : UInt16} : checkPid pid = .ok () ↔ pid < Packet.nullPid := by
  rw [← UInt16.not_le]
  unfold checkPid
  split <;> simp_all

end Settings

end PacedStream
