/-!
Words that are checked. Where the exact result of an operation is no word, a program with checked
words ends with an overflow, and in one without the words wrap.
-/

namespace PacedStream
set_option autoImplicit false

inductive Overflow where
  | sum
  | difference
  | product
deriving DecidableEq

def Overflow.text : Overflow → String
  | .sum => "attempt to add with overflow"
  | .difference => "attempt to subtract with overflow"
  | .product => "attempt to multiply with overflow"

namespace Word

/-- A sum that wraps is less than its summands. -/
def add? (a b : UInt64) : Except Overflow UInt64 :=
  if a ≤ a + b then .ok (a + b) else .error .sum

def sub? (a b : UInt64) : Except Overflow UInt64 :=
  if b ≤ a then .ok (a - b) else .error .difference

def mul? (a b : UInt64) : Except Overflow UInt64 :=
  if a.toNat * b.toNat < UInt64.size then .ok (a * b) else .error .product

theorem add?_eq (a b : UInt64) :
    add? a b = if a.toNat + b.toNat < UInt64.size then .ok (a + b) else .error .sum := by
  have ha := a.toNat_lt_size
  have hb := b.toNat_lt_size
  have hsum : (a + b).toNat = (a.toNat + b.toNat) % UInt64.size := UInt64.toNat_add a b
  have hiff : a ≤ a + b ↔ a.toNat + b.toNat < UInt64.size := by
    rw [UInt64.le_iff_toNat_le, hsum]
    rcases Nat.lt_or_ge (a.toNat + b.toNat) UInt64.size with hlt | hge
    · rw [Nat.mod_eq_of_lt hlt]
      omega
    · rw [Nat.mod_eq_sub_mod hge, Nat.mod_eq_of_lt (by omega)]
      omega
  simp only [add?, hiff]

theorem sub?_eq (a b : UInt64) :
    sub? a b = if b.toNat ≤ a.toNat then .ok (a - b) else .error .difference := by
  simp only [sub?, UInt64.le_iff_toNat_le]

def overflow? {α : Type} : Except Overflow α → Option Overflow
  | .ok _ => none
  | .error cause => some cause

end Word
end PacedStream
