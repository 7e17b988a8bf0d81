/-
The allocator of the user library (`malloc` of `libcshim.c`), over a kernel break that is
extended to what is asked for or left alone. Sizes and pointers wrap, so a request near
the top of the size range is served with less than it asks for.
-/
import CoreOS.Machine

namespace CoreOS

/-- `HEAP_CHUNK`. -/
def heapChunk : Nat := 64 * 1024

/-- `(n + a - 1) & ~(a - 1)`, for `a` a power of two; the sum wraps. -/
def roundUpTo (a n : Nat) : Nat := wrappingAdd n (a - 1) / a * a

/-- The kernel's `brk`: `grows` says whether it has the memory. -/
def sysBrk (grows : Bool) (brk addr : Nat) : Nat :=
  if addr = 0 then brk else if grows ∧ brk < addr then addr else brk

/-- The heap of a program; `live` is what was handed out, with the sizes asked for. -/
structure UserHeap where
  heapPtr : Nat
  brk : Nat
  live : List (Nat × Nat)

structure MallocCall where
  size : Nat
  grows : Bool

namespace UserHeap

/-- Where the next block starts: `heap_ptr`, taken from the break by the first call. -/
def start (h : UserHeap) : Nat := if h.heapPtr = 0 then sysBrk false h.brk 0 else h.heapPtr

/-- `malloc`: the pointer returned, 0 for `NULL`. -/
def malloc (h : UserHeap) (c : MallocCall) : Nat × UserHeap :=
  let size := roundUpTo 16 c.size
  let newPtr := wrappingAdd h.start size
  let currentEnd := sysBrk false h.brk 0
  if currentEnd < newPtr then
    let extra := roundUpTo heapChunk (wrappingSub newPtr currentEnd)
    let got := sysBrk c.grows h.brk (wrappingAdd currentEnd extra)
    if got < newPtr then (0, { h with heapPtr := h.start, brk := got })
    else (h.start, ⟨newPtr, got, (h.start, c.size) :: h.live⟩)
  else (h.start, ⟨newPtr, h.brk, (h.start, c.size) :: h.live⟩)

/-- What a call promises: a result that is not `NULL` is aligned, its bytes lie below
the break and apart from what was handed out. -/
def Promised (h : UserHeap) (c : MallocCall) : Prop :=
  (h.malloc c).1 ≠ 0 → (h.malloc c).1 % 16 = 0 ∧ (h.malloc c).1 + c.size ≤ (h.malloc c).2.brk ∧
    ∀ b ∈ h.live, ∀ x, ¬ ((b.1 ≤ x ∧ x < b.1 + b.2) ∧ (h.malloc c).1 ≤ x ∧ x < (h.malloc c).1 + c.size)

/-- The sums of the call do not wrap. -/
def Fits (h : UserHeap) (c : MallocCall) : Prop := c.size + 15 < usizeMod ∧ h.start + roundUpTo 16 c.size < usizeMod

/-- All along the calls. -/
def All (P : UserHeap → MallocCall → Prop) : UserHeap → List MallocCall → Prop
  | _, [] => True
  | h, c :: cs => P h c ∧ All P (h.malloc c).2 cs

/-- The break is aligned, and what was handed out ends below the heap pointer. -/
structure Sound (h : UserHeap) : Prop where
  pos : 0 < h.brk
  aligned : h.brk % 16 = 0
  lt : h.brk < usizeMod
  ptr : h.heapPtr ≤ h.brk ∧ h.heapPtr % 16 = 0
  live : ∀ b ∈ h.live, b.1 + b.2 ≤ h.start

variable {h : UserHeap} {c : MallocCall}

theorem Sound.start_ok (hs : h.Sound) : 16 ≤ h.start ∧ h.start ≤ h.brk ∧ h.start % 16 = 0 := by
  have := hs.pos
  have := hs.aligned
  have := hs.ptr
  unfold start sysBrk
  split
  · rw [if_pos rfl]
    omega
  · omega

theorem roundUpTo_of_lt {n : Nat} (hn : n + 15 < usizeMod) :
    n ≤ roundUpTo 16 n ∧ roundUpTo 16 n < n + 16 ∧ roundUpTo 16 n % 16 = 0 := by
  rw [roundUpTo, wrappingAdd_of_lt hn]
  omega

theorem sysBrk_cases (grows : Bool) (brk addr : Nat) :
    sysBrk grows brk addr = brk ∨ sysBrk grows brk addr = addr ∧ brk < addr := by
  unfold sysBrk
  split
  · exact .inl rfl
  · split
    next hg => exact .inr ⟨rfl, hg.2⟩
    · exact .inl rfl

theorem requested_aligned (hs : h.Sound) (newPtr : Nat) :
    wrappingAdd h.brk (roundUpTo heapChunk (wrappingSub newPtr h.brk)) % 16 = 0 ∧
      wrappingAdd h.brk (roundUpTo heapChunk (wrappingSub newPtr h.brk)) < usizeMod := by
  have := hs.aligned
  unfold roundUpTo heapChunk wrappingAdd usizeMod
  omega

/-- **What a call comes to** where the sums do not wrap: `NULL` with the heap as it is,
or the next block with the break above it. -/
theorem malloc_cases (hs : h.Sound) :
    ∃ brk, h.brk ≤ brk ∧ brk % 16 = 0 ∧ brk < usizeMod ∧
      (h.malloc c = (0, { h with heapPtr := h.start, brk }) ∨
        wrappingAdd h.start (roundUpTo 16 c.size) ≤ brk ∧
          h.malloc c = (h.start, ⟨wrappingAdd h.start (roundUpTo 16 c.size), brk, (h.start, c.size) :: h.live⟩)) := by
  have hend : sysBrk false h.brk 0 = h.brk := if_pos rfl
  have hreq := requested_aligned hs (wrappingAdd h.start (roundUpTo 16 c.size))
  unfold malloc
  rw [hend]
  dsimp only
  split
  next hlt =>
    have hgot := sysBrk_cases c.grows h.brk
      (wrappingAdd h.brk (roundUpTo heapChunk (wrappingSub (wrappingAdd h.start (roundUpTo 16 c.size)) h.brk)))
    generalize sysBrk c.grows h.brk _ = got at hgot ⊢
    refine ⟨got, ?_, ?_, ?_, ?_⟩
    · rcases hgot with rfl | ⟨rfl, hgt⟩
      · exact Nat.le_refl _
      · exact Nat.le_of_lt hgt
    · rcases hgot with rfl | ⟨rfl, -⟩
      · exact hs.aligned
      · exact hreq.1
    · rcases hgot with rfl | ⟨rfl, -⟩
      · exact hs.lt
      · exact hreq.2
    · split
      · exact .inl rfl
      next hge => exact .inr ⟨Nat.not_lt.mp hge, rfl⟩
  next hge => exact ⟨h.brk, Nat.le_refl _, hs.aligned, hs.lt, .inr ⟨Nat.not_lt.mp hge, rfl⟩⟩

theorem malloc_of_le (hle : wrappingAdd h.start (roundUpTo 16 c.size) ≤ h.brk) :
    h.malloc c = (h.start, ⟨wrappingAdd h.start (roundUpTo 16 c.size), h.brk, (h.start, c.size) :: h.live⟩) := by
  have hend : sysBrk false h.brk 0 = h.brk := if_pos rfl
  unfold malloc
  rw [hend]
  exact if_neg (Nat.not_lt.mpr hle)

theorem Fits.newPtr (hf : h.Fits c) :
    wrappingAdd h.start (roundUpTo 16 c.size) = h.start + roundUpTo 16 c.size := wrappingAdd_of_lt hf.2

theorem Sound.not_fits (hs : h.Sound) (hc : c.size < usizeMod) (hno : ¬ h.Fits c) :
    wrappingAdd h.start (roundUpTo 16 c.size) ≤ h.start ∧ h.brk < h.start + c.size := by
  obtain ⟨h16, hle, hmod⟩ := hs.start_ok
  have hlt := hs.lt
  have hal := hs.aligned
  by_cases hsum : c.size + 15 < usizeMod
  · obtain ⟨hn, hup, -⟩ := roundUpTo_of_lt hsum
    have hover : usizeMod ≤ h.start + roundUpTo 16 c.size := by
      by_contra hlt
      exact hno ⟨hsum, Nat.not_le.mp hlt⟩
    unfold wrappingAdd
    unfold usizeMod at *
    omega
  · have hzero : roundUpTo 16 c.size = 0 := by
      unfold roundUpTo wrappingAdd
      unfold usizeMod at *
      omega
    rw [hzero, wrappingAdd]
    unfold usizeMod at *
    omega

theorem Sound.promised_iff (hs : h.Sound) (hc : c.size < usizeMod) : h.Promised c ↔ h.Fits c := by
  obtain ⟨h16, hle, hmod⟩ := hs.start_ok
  constructor
  · intro hp
    by_contra hno
    obtain ⟨hnew, hover⟩ := hs.not_fits hc hno
    have hm := malloc_of_le (Nat.le_trans hnew hle)
    rw [Promised, hm] at hp
    have := (hp (by dsimp only; omega)).2.1
    dsimp only at this
    omega
  · intro hf
    obtain ⟨brk, -, -, -, hr⟩ := malloc_cases (c := c) hs
    rcases hr with hr | ⟨hnew, hr⟩
    · rw [Promised, hr]
      exact fun hne => absurd rfl hne
    · rw [hf.newPtr] at hnew
      have hn := (roundUpTo_of_lt hf.1).1
      rw [Promised, hr]
      refine fun _ => ⟨hmod, by dsimp only; omega, fun b hb x hx => ?_⟩
      have := hs.live b hb
      dsimp only at hx
      omega

theorem Sound.malloc (hs : h.Sound) (hf : h.Fits c) : (h.malloc c).2.Sound := by
  obtain ⟨h16, hle, hmod⟩ := hs.start_ok
  have hpos := hs.pos
  have hstart : ∀ {ptr brk : Nat} {live : List (Nat × Nat)}, 16 ≤ ptr → (UserHeap.mk ptr brk live).start = ptr :=
    fun hp => if_neg (by dsimp only; omega)
  obtain ⟨brk, hge, hal, hlt, hr | ⟨hnew, hr⟩⟩ := malloc_cases (c := c) hs
  · rw [hr]
    refine ⟨by dsimp only; omega, hal, hlt, ⟨by dsimp only; omega, hmod⟩, fun b hb => ?_⟩
    rw [hstart h16]
    exact hs.live b hb
  · obtain ⟨hn, -, hround⟩ := roundUpTo_of_lt hf.1
    rw [hr]
    rw [hf.newPtr] at hnew ⊢
    refine ⟨by dsimp only; omega, hal, hlt, ⟨hnew, by dsimp only; omega⟩, fun b hb => ?_⟩
    rw [hstart (by omega)]
    rcases List.mem_cons.mp hb with rfl | hb
    · dsimp only
      omega
    · have := hs.live b hb
      omega

end UserHeap

/-- **`malloc`.** From any aligned break on, for every sequence of requests and every
kernel: every result that is not `NULL` is aligned, lies below the break and is apart
from all that was handed out before, exactly if no sum of any call wraps. -/
theorem malloc_promised_iff (brk : Nat) (hpos : 0 < brk) (halign : brk % 16 = 0) (hlt : brk < usizeMod)
    (calls : List MallocCall) (hsize : ∀ c ∈ calls, c.size < usizeMod) :
    UserHeap.All UserHeap.Promised ⟨0, brk, []⟩ calls ↔ UserHeap.All UserHeap.Fits ⟨0, brk, []⟩ calls := by
  have hall : ∀ {h : UserHeap}, h.Sound → (h.All UserHeap.Promised calls ↔ h.All UserHeap.Fits calls) := by
    induction calls with
    | nil => exact fun _ => Iff.rfl
    | cons c calls ih =>
      intro h hs
      obtain ⟨hc, hrest⟩ := List.forall_mem_cons.mp hsize
      rw [UserHeap.All, UserHeap.All, hs.promised_iff hc]
      exact and_congr_right fun hf => ih hrest (hs.malloc hf)
  exact hall ⟨hpos, halign, hlt, ⟨Nat.zero_le _, rfl⟩, fun b hb => (List.not_mem_nil hb).elim⟩

theorem malloc_promised_iff_two :
    UserHeap.All UserHeap.Promised ⟨0, 0x400000, []⟩ [⟨100, true⟩, ⟨7, false⟩] :=
  (malloc_promised_iff 0x400000 (by decide) (by decide) (by decide) _ (by decide)).mpr
    ⟨⟨by decide, by decide⟩, ⟨by decide, by decide⟩, trivial⟩

/-- `malloc(SIZE_MAX)` is rounded up to nothing, and the break is returned as a block. -/
theorem malloc_size_max_served :
    ((UserHeap.mk 0 0x400000 []).malloc ⟨2 ^ 64 - 1, false⟩).1 = 0x400000 ∧
      ¬ (UserHeap.mk 0 0x400000 []).Promised ⟨2 ^ 64 - 1, false⟩ := by
  refine ⟨by decide, fun h => ?_⟩
  exact absurd (h (by decide)).2.1 (by decide)

end CoreOS
