/-
The check of the boot memory map (`mem/validate.rs`). Ends of regions are computed with
`u64`s that wrap, so an overlap with a region that reaches past `2^64` can be missed.
-/
import CoreOS.Pmm

namespace CoreOS

/-- Why `validate_mmap` panics. -/
inductive MmapPanic
  | count (n : Nat)
  | unaligned (start : Nat)
  | zeroSized (start : Nat)
  | overlap (start stop oStart oStop : Nat)
  deriving DecidableEq

namespace MemMapEntry

/-- `start + num_pages * 4096`, wrapping. -/
def wrappedEnd (e : MemMapEntry) : Nat := wrappingAdd e.physicalStart (e.numPages * 4096 % usizeMod)

/-- A round of the inner loop. -/
def checkApart (e o : MemMapEntry) : Except MmapPanic Unit :=
  if e.physicalStart < o.wrappedEnd ∧ o.physicalStart < e.wrappedEnd then
    .error (.overlap e.physicalStart e.wrappedEnd o.physicalStart o.wrappedEnd)
  else .ok ()

/-- The entry against those that follow it. -/
def checkRest (e : MemMapEntry) : List MemMapEntry → Except MmapPanic Unit
  | [] => .ok ()
  | o :: rest =>
    match e.checkApart o with
    | .error p => .error p
    | .ok _ => e.checkRest rest

/-- The outer loop. -/
def checkAll : List MemMapEntry → Except MmapPanic Unit
  | [] => .ok ()
  | e :: rest =>
    if e.physicalStart % 4096 ≠ 0 then .error (.unaligned e.physicalStart)
    else if e.numPages = 0 then .error (.zeroSized e.physicalStart)
    else
      match e.checkRest rest with
      | .error p => .error p
      | .ok _ => checkAll rest

end MemMapEntry

/-- `validate_mmap`; an error is a panic. -/
def validateMmap (boot : BootInfo) : Except MmapPanic Unit :=
  if boot.mmap.length = 0 ∨ 256 < boot.mmap.length then .error (.count boot.mmap.length)
  else MemMapEntry.checkAll boot.mmap

namespace MemMapEntry

/-- The address is in the region, as an interval of natural numbers. -/
def Contains (e : MemMapEntry) (x : Nat) : Prop :=
  e.physicalStart ≤ x ∧ x < e.physicalStart + 4096 * e.numPages

def Apart (e o : MemMapEntry) : Prop := ∀ x, ¬ (e.Contains x ∧ o.Contains x)

/-- The regions do not overlap as far as the wrapped ends show it. -/
def SeemApart (e o : MemMapEntry) : Prop := ¬ (e.physicalStart < o.wrappedEnd ∧ o.physicalStart < e.wrappedEnd)

/-- Aligned and not empty. -/
def Proper (e : MemMapEntry) : Prop := e.physicalStart % 4096 = 0 ∧ e.numPages ≠ 0

variable {e o : MemMapEntry}

theorem wrappedEnd_le (e : MemMapEntry) : e.wrappedEnd ≤ e.physicalStart + 4096 * e.numPages := by
  unfold wrappedEnd wrappingAdd
  have h1 := Nat.mod_le (e.physicalStart + e.numPages * 4096 % usizeMod) usizeMod
  have h2 := Nat.mod_le (e.numPages * 4096) usizeMod
  omega

theorem apart_iff (he : e.Proper) (ho : o.Proper) :
    e.Apart o ↔ ¬ (e.physicalStart < o.physicalStart + 4096 * o.numPages ∧
      o.physicalStart < e.physicalStart + 4096 * e.numPages) := by
  have hepos := Nat.pos_of_ne_zero he.2
  have hopos := Nat.pos_of_ne_zero ho.2
  constructor
  · intro h hlt
    refine h (max e.physicalStart o.physicalStart) ?_
    unfold Contains
    omega
  · intro h x hx
    unfold Contains at hx
    omega

theorem Apart.seem (he : e.Proper) (ho : o.Proper) (h : e.Apart o) : e.SeemApart o := by
  have hle := e.wrappedEnd_le
  have hole := o.wrappedEnd_le
  rw [apart_iff he ho] at h
  unfold SeemApart
  omega

theorem checkRest_ok {rest : List MemMapEntry} : e.checkRest rest = .ok () ↔ ∀ o ∈ rest, e.SeemApart o := by
  induction rest with
  | nil => simp [checkRest]
  | cons o rest ih =>
    rw [List.forall_mem_cons, ← ih, checkRest, checkApart]
    by_cases h : e.physicalStart < o.wrappedEnd ∧ o.physicalStart < e.wrappedEnd
    · simp [h, SeemApart]
    · simp [h, SeemApart]

theorem checkAll_ok {mmap : List MemMapEntry} :
    checkAll mmap = .ok () ↔ (∀ e ∈ mmap, e.Proper) ∧ mmap.Pairwise SeemApart := by
  induction mmap with
  | nil => simp [checkAll]
  | cons e rest ih =>
    rw [List.forall_mem_cons, List.pairwise_cons, checkAll]
    by_cases halign : e.physicalStart % 4096 = 0
    · by_cases hzero : e.numPages = 0
      · simp [halign, hzero, Proper]
      · cases hrest : e.checkRest rest with
        | error p =>
          have hno : ¬ ∀ o ∈ rest, e.SeemApart o := fun h => by simp [checkRest_ok.mpr h] at hrest
          simp [halign, hzero, hno]
        | ok _ =>
          have hall : ∀ o ∈ rest, e.SeemApart o := checkRest_ok.mp hrest
          simp only [halign, ne_eq, not_true_eq_false, if_false, hzero, ih, Proper, not_false_eq_true, true_and]
          exact ⟨fun h => ⟨h.1, hall, h.2⟩, fun h => ⟨h.1, h.2.2⟩⟩
    · simp [halign, Proper]

end MemMapEntry

/-- The map is one a machine can have. -/
def BootInfo.ValidMap (boot : BootInfo) : Prop :=
  (∀ e ∈ boot.mmap, e.Proper) ∧ boot.mmap.Pairwise MemMapEntry.Apart

/-- Regions overlap, and the wrapped ends do not show it. -/
def BootInfo.OverlapUnseen (boot : BootInfo) : Prop :=
  ¬ boot.mmap.Pairwise MemMapEntry.Apart ∧ boot.mmap.Pairwise MemMapEntry.SeemApart

/-- **The validator of the memory map.** For every map of 1 to 256 entries:
`validate_mmap` returns exactly if the map is valid, exactly if some entry is unaligned
or empty or no overlap is hidden by the wrap-around. -/
theorem validate_mmap_exact_iff (boot : BootInfo) (hpos : 1 ≤ boot.mmap.length) (hmax : boot.mmap.length ≤ 256) :
    (validateMmap boot = .ok () ↔ boot.ValidMap) ↔ ¬ ((∀ e ∈ boot.mmap, e.Proper) ∧ boot.OverlapUnseen) := by
  rw [validateMmap, if_neg (by omega), MemMapEntry.checkAll_ok]
  unfold BootInfo.ValidMap BootInfo.OverlapUnseen
  have hseem : (∀ e ∈ boot.mmap, e.Proper) → boot.mmap.Pairwise MemMapEntry.Apart →
      boot.mmap.Pairwise MemMapEntry.SeemApart := by
    intro hproper h
    refine h.imp_of_mem fun he ho hap => ?_
    exact hap.seem (hproper _ he) (hproper _ ho)
  constructor
  · rintro h ⟨hproper, hover, hunseen⟩
    exact hover (h.mp ⟨hproper, hunseen⟩).2
  · intro h
    constructor
    · rintro ⟨hproper, hpair⟩
      refine ⟨hproper, ?_⟩
      by_contra hover
      exact h ⟨hproper, hover, hpair⟩
    · rintro ⟨hproper, hpair⟩
      exact ⟨hproper, hseem hproper hpair⟩

theorem validate_mmap_exact_iff_two :
    validateMmap ⟨[⟨0, 1, 7⟩, ⟨0x1000, 1, 7⟩], 0, 0⟩ = .ok () ∧
      (validateMmap ⟨[⟨0, 1, 7⟩, ⟨0x1000, 1, 7⟩], 0, 0⟩ = .ok () ↔
        BootInfo.ValidMap ⟨[⟨0, 1, 7⟩, ⟨0x1000, 1, 7⟩], 0, 0⟩) := by
  refine ⟨by decide, (validate_mmap_exact_iff ⟨[⟨0, 1, 7⟩, ⟨0x1000, 1, 7⟩], 0, 0⟩ (by decide) (by decide)).mpr ?_⟩
  rintro ⟨-, hover, -⟩
  refine hover ?_
  simp only [List.pairwise_cons, List.mem_singleton, forall_eq, List.not_mem_nil, false_implies, implies_true,
    List.Pairwise.nil, and_true]
  rintro x ⟨⟨-, h1⟩, h2, -⟩
  dsimp only at h1 h2
  omega

/-- Where no region reaches `2^64` no end wraps, and the validator is right. -/
theorem validate_mmap_of_ends_lt (boot : BootInfo) (hpos : 1 ≤ boot.mmap.length) (hmax : boot.mmap.length ≤ 256)
    (hends : ∀ e ∈ boot.mmap, e.physicalStart + 4096 * e.numPages < 2 ^ 64) :
    validateMmap boot = .ok () ↔ boot.ValidMap := by
  have hwrap : ∀ e ∈ boot.mmap, e.wrappedEnd = e.physicalStart + 4096 * e.numPages := by
    intro e he
    have := hends e he
    unfold MemMapEntry.wrappedEnd wrappingAdd usizeMod
    omega
  rw [validateMmap, if_neg (by omega), MemMapEntry.checkAll_ok]
  refine and_congr_right fun hproper => List.Pairwise.iff_of_mem fun {e o} he ho => ?_
  rw [MemMapEntry.apart_iff (hproper e he) (hproper o ho), MemMapEntry.SeemApart, hwrap e he, hwrap o ho]

/-- A region of `2^52` pages from `0` on, over a page that is listed before it: its
wrapped end is `0`. -/
theorem overlap_wraps_unseen :
    validateMmap ⟨[⟨0x1000, 1, 7⟩, ⟨0, 2 ^ 52, 7⟩], 0, 0⟩ = .ok () ∧
      ¬ BootInfo.ValidMap ⟨[⟨0x1000, 1, 7⟩, ⟨0, 2 ^ 52, 7⟩], 0, 0⟩ := by
  refine ⟨by decide, fun h => ?_⟩
  have hap := (List.pairwise_cons.mp h.2).1 ⟨0, 2 ^ 52, 7⟩ (List.mem_singleton_self _)
  refine hap 0x1000 ⟨⟨?_, ?_⟩, ?_, ?_⟩ <;> decide

end CoreOS
