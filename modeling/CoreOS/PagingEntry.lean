/-
Page-table entries bit by bit: what the entries the kernel writes say when
they are read back, and the memory seen as a store of tables.
-/
import CoreOS.Lib.Radix
import CoreOS.Paging
import CoreOS.PmmFacts

namespace CoreOS

open ByteMem Radix

/-! ## Bits -/

theorem has_bit {entry : Word} {k : Nat} (hk : k < 64) : has entry (1#64 <<< k) = entry.getLsbD k := by
  have h := BitVec.and_twoPow entry k
  rw [BitVec.twoPow] at h
  unfold has
  rw [h]
  split
  · next hb =>
    have hne : 1#64 <<< k ≠ 0#64 := fun h0 => by
      have := getLsbD_bit (i := k) hk
      simp [h0] at this
    simp [hb, hne]
  · next hb => simp [hb]

variable {e : Word}

theorem has_present : has e ptePresent = e.getLsbD 0 := has_bit (by decide)

theorem has_writable : has e pteWritable = e.getLsbD 1 := has_bit (by decide)

theorem has_user : has e pteUser = e.getLsbD 2 := has_bit (by decide)

theorem has_huge : has e pteHuge = e.getLsbD 7 := has_bit (by decide)

theorem has_nx : has e pteNx = e.getLsbD 63 := has_bit (by decide)

variable {i : Nat}

theorem addrMask_bit (hi : i < 64) : pteAddrMask.getLsbD i = decide (12 ≤ i ∧ i < 52) := by
  have h : ∀ i < 64, pteAddrMask.getLsbD i = decide (12 ≤ i ∧ i < 52) := by decide
  exact h i hi

theorem getLsbD_if {b : Bool} {k : Nat} (hi : i < 64) :
    (if b then 1#64 <<< k else 0).getLsbD i = (b && decide (i = k)) := by
  cases b
  · simp
  · rw [if_pos rfl, getLsbD_bit hi, Bool.true_and]

theorem bits_bit {flags : MapFlags} (hi : i < 64) : flags.bits.getLsbD i =
    ((flags.writable && decide (i = 1)) || (flags.user && decide (i = 2)) ||
      (!flags.executable && decide (i = 63))) := by
  unfold MapFlags.bits pteWritable pteUser pteNx
  have hx : (if flags.executable then (0 : Word) else 1#64 <<< 63) = if !flags.executable then 1#64 <<< 63 else 0 := by
    cases flags.executable <;> rfl
  rw [BitVec.getLsbD_or, BitVec.getLsbD_or, hx, getLsbD_if hi, getLsbD_if hi, getLsbD_if hi]

variable {g : Nat}

theorem testBit_frame (hi : i < 12) : (g * pageSize).testBit i = false := by
  rw [show pageSize = 2 ^ 12 by rfl, Nat.mul_comm, Nat.testBit_two_pow_mul]
  simp
  omega

theorem testBit_high {n : Nat} (hn : n < 2 ^ 52) (hi : 52 ≤ i) : n.testBit i = false :=
  Nat.testBit_lt_two_pow (hn.trans_le (Nat.pow_le_pow_right (by decide) hi))

/-! ## Addresses -/

/-- The number of the frame a table entry points to. -/
def frameOf (e : Word) : Nat := e.toNat / pageSize

theorem tableOf_eq (e : Word) : tableOf e = frameOf e * pageSize := by
  have h : e &&& ~~~0xFFF#64 = (e >>> 12) <<< 12 := by
    apply BitVec.eq_of_getLsbD_eq
    intro i hi
    have hmask : ∀ i < 64, (~~~0xFFF#64).getLsbD i = decide (12 ≤ i) := by decide
    rw [BitVec.getLsbD_and, hmask i hi, BitVec.getLsbD_shiftLeft, BitVec.getLsbD_ushiftRight]
    by_cases h12 : i < 12
    · simp [h12, show ¬ 12 ≤ i by omega]
    · simp [h12, hi, show 12 ≤ i by omega, show 12 + (i - 12) = i by omega]
  have hlt := e.isLt
  rw [tableOf, h, BitVec.toNat_shiftLeft, BitVec.toNat_ushiftRight, Nat.shiftRight_eq_div_pow, Nat.shiftLeft_eq]
  unfold frameOf pageSize
  omega

theorem masked_eq {n : Nat} (hn : n < 2 ^ 52) (halign : n % pageSize = 0)
    (h : ∀ i, 12 ≤ i → i < 52 → e.getLsbD i = n.testBit i) : (e &&& pteAddrMask).toNat = n := by
  have he : e &&& pteAddrMask = BitVec.ofNat 64 n := by
    apply BitVec.eq_of_getLsbD_eq
    intro i hi
    rw [BitVec.getLsbD_and, addrMask_bit hi, BitVec.getLsbD_ofNat]
    by_cases hin : 12 ≤ i ∧ i < 52
    · rw [h i hin.1 hin.2]
      simp [hin, hi]
    · have : n.testBit i = false := by
        by_cases h12 : i < 12
        · rw [show n = n / pageSize * pageSize by unfold pageSize at *; omega]
          exact testBit_frame h12
        · exact testBit_high hn (by omega)
      simp [hin, this]
  rw [he, BitVec.toNat_ofNat]
  omega

theorem masked_aligned (e : Word) : (e &&& pteAddrMask).toNat % pageSize = 0 := by
  have h : (e &&& pteAddrMask).toNat = e.toNat % 2 ^ 52 / pageSize * pageSize := by
    refine masked_eq ?_ (by simp) fun i h1 h2 => ?_
    · unfold pageSize
      omega
    · rw [← BitVec.testBit_toNat, show pageSize = 2 ^ 12 by rfl, Nat.mul_comm, Nat.testBit_two_pow_mul,
        Nat.testBit_div_two_pow, Nat.testBit_mod_two_pow]
      simp [h1, h2]
  rw [h]
  simp

theorem frameOf_of_lt (hg : g < 2 ^ 40) (h : ∀ i, 12 ≤ i → i < 64 → e.getLsbD i = (g * pageSize).testBit i) :
    frameOf e = g := by
  have hlt := e.isLt
  have hsame : e.toNat >>> 12 = g := by
    apply Nat.eq_of_testBit_eq
    intro i
    rw [Nat.testBit_shiftRight, BitVec.testBit_toNat]
    by_cases hi : 12 + i < 64
    · rw [h (12 + i) (by omega) hi, show pageSize = 2 ^ 12 by rfl, Nat.mul_comm, Nat.testBit_two_pow_mul]
      simp
    · rw [BitVec.getLsbD_of_ge _ _ (by omega)]
      exact (Nat.testBit_lt_two_pow (hg.trans_le (Nat.pow_le_pow_right (by decide) (by omega)))).symm
  rw [← hsame, Nat.shiftRight_eq_div_pow]
  rfl

theorem masked_of_frameOf (h : frameOf e < maxFrames) :
    (e &&& pteAddrMask).toNat = frameOf e * pageSize := by
  unfold frameOf maxFrames pageSize at h
  refine masked_eq ?_ ?_ fun i h1 h2 => ?_
  · unfold frameOf pageSize
    omega
  · simp [frameOf]
  · rw [← BitVec.testBit_toNat]
    unfold frameOf
    rw [show pageSize = 2 ^ 12 by rfl, Nat.mul_comm, Nat.testBit_two_pow_mul, Nat.testBit_div_two_pow]
    simp [h1]

/-! ## The entries the kernel writes -/

/-- The entry for a new table. -/
def tableEntry (g : Nat) (flags : MapFlags) : Word :=
  BitVec.ofNat 64 (g * pageSize) ||| ptePresent ||| pteWritable ||| (if flags.user then pteUser else 0)

theorem tableEntry_facts (flags : MapFlags) (hg : g < maxFrames) :
    has (tableEntry g flags) ptePresent = true ∧ has (tableEntry g flags) pteHuge = false ∧
      frameOf (tableEntry g flags) = g := by
  have hbit : ∀ i, i < 64 → (tableEntry g flags).getLsbD i =
      ((g * pageSize).testBit i || decide (i = 0) || decide (i = 1) || (flags.user && decide (i = 2))) := by
    intro i hi
    unfold tableEntry ptePresent pteWritable pteUser
    rw [BitVec.getLsbD_or, BitVec.getLsbD_or, BitVec.getLsbD_or, getLsbD_bit hi, getLsbD_bit hi, getLsbD_if hi,
      BitVec.getLsbD_ofNat]
    simp [hi]
  refine ⟨?_, ?_, frameOf_of_lt (hg.trans (by decide)) fun i h1 h2 => ?_⟩
  · rw [has_present, hbit 0 (by decide)]
    simp
  · rw [has_huge, hbit 7 (by decide)]
    simp [testBit_frame]
  · rw [hbit i h2]
    simp [show i ≠ 0 by omega, show i ≠ 1 by omega, show i ≠ 2 by omega]

/-- The entry for a page. -/
def leafEntry (phys : Nat) (flags : MapFlags) : Word := BitVec.ofNat 64 phys ||| ptePresent ||| flags.bits

theorem leafEntry_bit {phys : Nat} {flags : MapFlags} (hi : i < 64) : (leafEntry phys flags).getLsbD i =
    (phys.testBit i || decide (i = 0) || ((flags.writable && decide (i = 1)) || (flags.user && decide (i = 2)) ||
      (!flags.executable && decide (i = 63)))) := by
  unfold leafEntry ptePresent
  rw [BitVec.getLsbD_or, BitVec.getLsbD_or, getLsbD_bit hi, bits_bit hi, BitVec.getLsbD_ofNat]
  simp [hi]

theorem leafEntry_present (phys : Nat) (flags : MapFlags) : has (leafEntry phys flags) ptePresent = true := by
  rw [has_present, leafEntry_bit (by decide)]
  simp

theorem leafEntry_facts {phys : Nat} (flags : MapFlags) (hlt : phys < 2 ^ 52) (halign : phys % pageSize = 0) :
    (leafEntry phys flags &&& pteAddrMask).toNat = phys ∧
      has (leafEntry phys flags) pteWritable = flags.writable ∧ has (leafEntry phys flags) pteUser = flags.user ∧
      has (leafEntry phys flags) pteNx = !flags.executable := by
  have hlow : ∀ i, i < 12 → phys.testBit i = false := by
    intro i hi
    rw [show phys = phys / pageSize * pageSize by unfold pageSize at *; omega]
    exact testBit_frame hi
  refine ⟨masked_eq hlt halign fun i h1 h2 => ?_, ?_, ?_, ?_⟩
  · rw [leafEntry_bit (by omega)]
    simp [show i ≠ 0 by omega, show i ≠ 1 by omega, show i ≠ 2 by omega, show i ≠ 63 by omega]
  · rw [has_writable, leafEntry_bit (by decide)]
    simp [hlow]
  · rw [has_user, leafEntry_bit (by decide)]
    simp [hlow]
  · rw [has_nx, leafEntry_bit (by decide)]
    simp [testBit_high hlt]

/-- The entry of a page with its flags replaced. -/
def protectEntry (e : Word) (flags : MapFlags) : Word :=
  (e &&& ~~~(pteWritable ||| pteUser ||| pteNx)) ||| flags.bits

theorem protectEntry_facts (e : Word) (flags : MapFlags) :
    has (protectEntry e flags) ptePresent = has e ptePresent ∧
      protectEntry e flags &&& pteAddrMask = e &&& pteAddrMask ∧
      has (protectEntry e flags) pteWritable = flags.writable ∧ has (protectEntry e flags) pteUser = flags.user ∧
      has (protectEntry e flags) pteNx = !flags.executable := by
  have hbit : ∀ i, i < 64 → (protectEntry e flags).getLsbD i =
      ((e.getLsbD i && !(decide (i = 1) || decide (i = 2) || decide (i = 63))) ||
        ((flags.writable && decide (i = 1)) || (flags.user && decide (i = 2)) ||
          (!flags.executable && decide (i = 63)))) := by
    intro i hi
    unfold protectEntry pteWritable pteUser pteNx
    rw [BitVec.getLsbD_or, bits_bit hi, BitVec.getLsbD_and, BitVec.getLsbD_not, BitVec.getLsbD_or,
      BitVec.getLsbD_or, getLsbD_bit hi, getLsbD_bit hi, getLsbD_bit hi]
    simp [hi]
  refine ⟨?_, BitVec.eq_of_getLsbD_eq fun i hi => ?_, ?_, ?_, ?_⟩
  · rw [has_present, has_present, hbit 0 (by decide)]
    simp
  · rw [BitVec.getLsbD_and, BitVec.getLsbD_and, addrMask_bit hi, hbit i hi]
    by_cases hin : 12 ≤ i ∧ i < 52
    · simp [hin, show i ≠ 1 by omega, show i ≠ 2 by omega, show i ≠ 63 by omega]
    · simp [hin]
  · rw [has_writable, hbit 1 (by decide)]
    simp
  · rw [has_user, hbit 2 (by decide)]
    simp
  · rw [has_nx, hbit 63 (by decide)]
    simp

/-! ## Memory as tables -/

/-- Memory as a store of tables, one for each frame. -/
def tables (mem : Mem) (f : Nat) (i : Fin 512) : Word := entryAt mem (f * pageSize) i

variable {mem : Mem} {f : Nat}

theorem entryAt_eq {i : Fin 512} : entryAt mem (f * pageSize) i = tables mem f i := rfl

theorem tables_congr {mem' : Mem} (h : ∀ x, f * pageSize ≤ x → x < f * pageSize + pageSize → mem' x = mem x) :
    tables mem' f = tables mem f := by
  funext i
  refine loadWord_congr fun x h1 h2 => h x (by omega) ?_
  have := i.isLt
  unfold pageSize at *
  omega

theorem tables_writeEntry {i : Fin 512} {w : Word} :
    tables (writeEntry mem (f * pageSize) i w) = setEntry (tables mem) f i w := by
  funext g j
  by_cases h : g = f ∧ j = i
  · obtain ⟨rfl, rfl⟩ := h
    rw [setEntry_self]
    exact loadWord_storeWord
  · rw [setEntry_other (by rw [← not_and_or]; exact h)]
    have hi := i.isLt
    have hj := j.isLt
    refine loadWord_storeWord_other ?_
    have hne : g ≠ f ∨ j.val ≠ i.val := by
      rw [← not_and_or]
      exact fun ⟨h1, h2⟩ => h ⟨h1, Fin.ext h2⟩
    unfold pageSize
    omega

theorem writeEntry_out {x : Nat} {i : Fin 512} {w : Word} (hx : x / pageSize ≠ f) :
    writeEntry mem (f * pageSize) i w x = mem x := by
  have hi := i.isLt
  refine storeWord_out ?_
  unfold pageSize at *
  omega

theorem tables_fill : tables (fill mem (f * pageSize) pageSize 0) f = fun _ => 0 := by
  funext i
  have hi := i.isLt
  refine loadWord_zero fun x h1 h2 => fill_in (by omega) ?_
  unfold pageSize at *
  omega

end CoreOS
