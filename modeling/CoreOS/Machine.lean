/-
The machine underneath the kernel: 64-bit `usize` arithmetic as the release
build computes it (wrapping, on naturals), the page geometry, and the
direct map, through which the kernel reaches physical memory at
`p2v(phys)`.
-/
import CoreOS.Lib.Memory

namespace CoreOS

/-- `2^64`, the modulus of `usize`. -/
def usizeMod : Nat := 2 ^ 64

/-- `isize::MAX`, the most bytes one object can hold. -/
def isizeMax : Nat := 2 ^ 63 - 1

/-- `a + b` on `usize`, wrapping. -/
def wrappingAdd (a b : Nat) : Nat := (a + b) % usizeMod

/-- `a.saturating_add(b)`. -/
def saturatingAdd (a b : Nat) : Nat := min (a + b) (usizeMod - 1)

/-- A `usize` cast to `i64`. -/
def toI64 (n : Nat) : Int := (BitVec.ofNat 64 n).toInt

/-- `a.saturating_add(b)` on `i64`. -/
def i64SaturatingAdd (a b : Int) : Int := max (-2 ^ 63) (min (a + b) (2 ^ 63 - 1))

/-- `a - b` on `usize`, wrapping. -/
def wrappingSub (a b : Nat) : Nat := (a + usizeMod - b) % usizeMod

/-- `a.div_ceil(b)`. -/
def divCeil (a b : Nat) : Nat := (a + b - 1) / b

theorem getLsbD_bit {i j : Nat} (hj : j < 64) : (1#64 <<< i).getLsbD j = decide (j = i) := by
  rw [BitVec.getLsbD_shiftLeft, BitVec.getLsbD_one, Bool.eq_iff_iff]
  simp only [Bool.and_eq_true, decide_eq_true_eq, Bool.not_eq_true', decide_eq_false_iff_not]
  omega

theorem toI64_of_lt {n : Nat} (h : n < 2 ^ 63) : toI64 n = n := by
  rw [toI64, BitVec.toInt_ofNat']
  exact Int.bmod_eq_of_le (by omega) (by omega)

theorem wrappingAdd_of_lt {a b : Nat} (h : a + b < usizeMod) : wrappingAdd a b = a + b :=
  Nat.mod_eq_of_lt h

theorem wrappingSub_of_le {a b : Nat} (hb : b ≤ a) (ha : a < usizeMod) : wrappingSub a b = a - b := by
  unfold wrappingSub usizeMod at *
  omega

/-- `PAGE_SIZE`. -/
def pageSize : Nat := 4096

/-- `PHYSICAL_OFFSET`. -/
def physicalOffset : Nat := 0xFFFF800000000000

/-- The direct-map address of a physical one. -/
def p2v (phys : Nat) : Nat := wrappingAdd phys physicalOffset

/-- The physical address of a kernel virtual one; below the direct map the
kernel image's link base is assumed. -/
def v2p (virt : Nat) : Nat :=
  if virt ≥ physicalOffset then virt - physicalOffset else wrappingSub virt 0xFFFFFFFF80000000

theorem p2v_of_lt {a : Nat} (h : a < 2 ^ 47) : p2v a = a + physicalOffset := by
  unfold p2v
  apply wrappingAdd_of_lt
  unfold physicalOffset usizeMod
  omega

theorem v2p_p2v {a : Nat} (h : a < 2 ^ 47) : v2p (p2v a) = a := by
  rw [p2v_of_lt h]
  simp [v2p]

end CoreOS
