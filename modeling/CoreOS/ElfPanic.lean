/-
Where the ELF loader panics. Every fixed-size read of the file header is in
range, and so is every slice of a segment; the program headers are what is not
checked enough. Their size comes from the file and may be too small for the
fields that are read (`readProgramHeader_isSome`), and the check of their end
wraps. Both show in the first header or not at all, since a header that passed
the check leaves the next one no room to wrap. Apart from them there is the panic
of `alloc_table` when a page's frame was the last one.
-/
import CoreOS.ElfFormat
import CoreOS.FrameDemand

namespace CoreOS

open ByteMem

/-! ## Frames -/

/-- A frame for each page, and for the three tables on the way to it. -/
def framesFor (ps : List ProgramHeader) : Nat := 4 * (ps.map ProgramHeader.pages).sum

namespace Phys

variable {s s' : Phys}

variable {pml4 page : Nat}

theorem mapSegment_there {frame : Nat} (n : Nat) (htr : s.translatePage pml4 page = some frame) :
    mapSegment pml4 (n + 1) page s = mapSegment pml4 n (wrappingAdd page pageSize) s := by
  rw [mapSegment, htr]

theorem mapSegment_oom (n : Nat) (htr : s.translatePage pml4 page = none) (hal : s.allocFrame = (0, s')) :
    mapSegment pml4 (n + 1) page s = some (.error .oomLoadingSegment, s') := by
  rw [mapSegment, htr]
  dsimp only
  rw [hal]
  rfl

theorem mapSegment_new {a : Nat} (n : Nat) (htr : s.translatePage pml4 page = none) (hal : s.allocFrame = (a, s'))
    (ha : a ≠ 0) :
    mapSegment pml4 (n + 1) page s = (s'.mapPageIn pml4 page a segmentFlags).bind fun s =>
      mapSegment pml4 n (wrappingAdd page pageSize) (s.setMem (fill s.mem a pageSize 0)) := by
  rw [mapSegment, htr]
  dsimp only
  rw [hal]
  split
  next heq => exact absurd (congrArg Prod.fst heq) ha
  next heq =>
    cases heq
    cases s'.mapPageIn pml4 page a segmentFlags <;> rfl

/-- **Everything a round of the mapping loop can do.** -/
theorem mapSegment_cases (pml4 n page : Nat) (s : Phys) :
    (∃ frame, s.translatePage pml4 page = some frame ∧
      mapSegment pml4 (n + 1) page s = mapSegment pml4 n (wrappingAdd page pageSize) s) ∨
    (s.translatePage pml4 page = none ∧ s.allocFrame = (0, s) ∧ s.avail = ∅ ∧
      mapSegment pml4 (n + 1) page s = some (.error .oomLoadingSegment, s)) ∨
    (s.translatePage pml4 page = none ∧ ∃ g s1, s.allocFrame = (g * pageSize, s1) ∧ Took s g 1 s1 ∧
      mapSegment pml4 (n + 1) page s = (s1.mapPageIn pml4 page (g * pageSize) segmentFlags).bind fun s2 =>
        mapSegment pml4 n (wrappingAdd page pageSize) (s2.setMem (fill s2.mem (g * pageSize) pageSize 0))) := by
  cases htr : s.translatePage pml4 page with
  | some frame => exact .inl ⟨frame, rfl, mapSegment_there n htr⟩
  | none =>
    rcases s.allocFrame_cases with ⟨g, s1, hal, ht⟩ | ⟨hal, hnone⟩
    · exact .inr (.inr ⟨rfl, g, s1, hal, ht, mapSegment_new n htr hal ht.addr_ne_zero⟩)
    · exact .inr (.inl ⟨rfl, hal, avail_eq_empty hnone, mapSegment_oom n htr hal⟩)

theorem mapSegment_returns (pml4 n page m : Nat) (s : Phys) (h : s.avail = ∅ ∨ 4 * n + m ≤ s.avail.card) :
    ∃ r s', mapSegment pml4 n page s = some (r, s') ∧ (s'.avail = ∅ ∨ m ≤ s'.avail.card) := by
  induction n generalizing page s with
  | zero => exact ⟨_, s, rfl, h.imp id (by omega)⟩
  | succ n ih =>
    rcases mapSegment_cases pml4 n page s with ⟨-, -, he⟩ | ⟨-, -, hnone, he⟩ | ⟨-, g, s1, -, ht, he⟩
    · rw [he]
      exact ih _ s (h.imp id (by omega))
    · exact ⟨_, s, he, .inl hnone⟩
    · have hc1 := ht.avail_card
      have hcard : 4 * (n + 1) + m ≤ s.avail.card := h.resolve_left fun hnone => by
        rw [hnone, Finset.card_empty] at hc1
        omega
      obtain ⟨s2, hs2, hc2⟩ := s1.mapPageIn_frames pml4 page (g * pageSize) segmentFlags (by omega)
      rw [he, hs2, Option.bind_some]
      exact ih _ _ (.inr (by rw [avail_setMem]; omega))

theorem copySegment_pmm (pml4 vaddr : Nat) (src : List Byte) (fuel copied curPage : Nat) (s : Phys) :
    (copySegment pml4 vaddr src fuel copied curPage s).2.pmm = s.pmm := by
  induction fuel generalizing copied curPage s with
  | zero => rfl
  | succ fuel ih =>
    unfold copySegment
    split
    · dsimp only
      split
      · rfl
      · exact ih ..
    · rfl

theorem avail_of_pmm (h : s'.pmm = s.pmm) : s'.avail = s.avail := by
  unfold avail
  rw [h]

theorem loadSegment_returns (pml4 m : Nat) {data : List Byte} {p : ProgramHeader} (hfile : p.InFile data)
    (h : s.avail = ∅ ∨ 4 * p.pages + m ≤ s.avail.card) :
    ∃ r s', loadSegment pml4 data p s = some (r, s') ∧ (s'.avail = ∅ ∨ m ≤ s'.avail.card) := by
  unfold loadSegment
  obtain ⟨r, s1, hs1, hleft⟩ := mapSegment_returns pml4 p.pages p.pageStart m s h
  rw [hs1]
  cases r with
  | error e => exact ⟨_, s1, rfl, hleft⟩
  | ok u =>
    dsimp only
    split
    · exact ⟨_, s1, rfl, hleft⟩
    next =>
      obtain ⟨src, hsrc⟩ := Option.isSome_iff_exists.mp (slice_isSome.mpr
        (show p.offset ≤ wrappingAdd p.offset p.filesz ∧ wrappingAdd p.offset p.filesz ≤ data.length by
          rw [wrappingAdd_of_lt hfile.1]
          exact ⟨Nat.le_add_right .., hfile.2⟩))
      rw [hsrc]
      dsimp only
      have hpmm := copySegment_pmm pml4 p.vaddr src src.length 0 p.pageStart s1
      rw [← avail_of_pmm hpmm] at hleft
      generalize copySegment pml4 p.vaddr src src.length 0 p.pageStart s1 = copied at hleft
      obtain ⟨e | u, s2⟩ := copied
      · exact ⟨_, s2, rfl, hleft⟩
      · dsimp only
        split <;> exact ⟨_, s2, rfl, hleft⟩

end Phys

/-! ## Program headers -/

/-- The first program header passes the check of its end, but that end wrapped or
the header is too short to be read. -/
def ElfHeader.Panics (h : ElfHeader) (data : List Byte) : Prop :=
  h.phEnd 0 ≤ data.length ∧ (usizeMod ≤ h.phoff + h.phentsize ∨ h.phentsize < 48)

instance {h : ElfHeader} {data : List Byte} : Decidable (h.Panics data) := inferInstanceAs (Decidable (_ ∧ _))

/-- What is known of the headers before header `i` is read: the one before it, if
any, ended in the file. -/
def ElfHeader.Reached (h : ElfHeader) (data : List Byte) (i : Nat) : Prop :=
  i = 0 ∨ 48 ≤ h.phentsize ∧ h.phoff + i * h.phentsize ≤ data.length

namespace ElfHeader

variable {h : ElfHeader} {data : List Byte} {i : Nat}

theorem phStart_zero (hc : h.Checked) : h.phStart 0 = h.phoff := by
  unfold phStart
  rw [Nat.zero_mul, wrappingAdd_of_lt hc.phoff, Nat.add_zero]

theorem phEnd_zero (hc : h.Checked) : h.phEnd 0 = wrappingAdd h.phoff h.phentsize := by
  unfold phEnd
  rw [phStart_zero hc]

theorem programHeader_of_panics (hc : h.Checked) (hp : h.Panics data) : h.programHeader data 0 = none := by
  have hle := hc.phoff
  have hsize := hc.phentsize
  have hend := phEnd_zero hc
  unfold programHeader
  cases hs : slice data (h.phStart 0) (h.phEnd 0) with
  | none => rfl
  | some ph =>
    have hsome := slice_isSome.mp (Option.isSome_iff_exists.mpr ⟨ph, hs⟩)
    have hlen := slice_length hs
    rw [phStart_zero hc, hend] at hlen hsome
    rw [Option.bind_some]
    by_contra hne
    have := readProgramHeader_isSome.mp (Option.isSome_iff_ne_none.mpr hne)
    rcases hp.2 with hwrap | hshort
    all_goals
      unfold wrappingAdd usizeMod at *
      omega

theorem phEnd_of_lt (hlt : h.phoff + i * h.phentsize + h.phentsize < usizeMod) :
    h.phStart i = h.phoff + i * h.phentsize ∧ h.phEnd i = h.phoff + i * h.phentsize + h.phentsize := by
  have hstart : h.phStart i = h.phoff + i * h.phentsize := wrappingAdd_of_lt (by omega)
  refine ⟨hstart, ?_⟩
  unfold phEnd
  rw [hstart, wrappingAdd_of_lt hlt]

theorem programHeader_isSome (hsize : 48 ≤ h.phentsize) (hlt : h.phoff + i * h.phentsize + h.phentsize < usizeMod)
    (hend : h.phEnd i ≤ data.length) : ∃ p, h.programHeader data i = some p := by
  obtain ⟨hstart, hend'⟩ := phEnd_of_lt hlt
  obtain ⟨ph, hph⟩ := Option.isSome_iff_exists.mp (slice_isSome.mpr
    (show h.phStart i ≤ h.phEnd i ∧ h.phEnd i ≤ data.length from ⟨by omega, hend⟩))
  have hl := slice_length hph
  unfold programHeader
  rw [hph, Option.bind_some]
  exact Option.isSome_iff_exists.mp (readProgramHeader_isSome.mpr (by omega))

theorem Reached.step (hr : h.Reached data i) (hc : h.Checked) (hp : ¬ h.Panics data) (hlen : data.length ≤ isizeMax)
    (hend : h.phEnd i ≤ data.length) : (∃ p, h.programHeader data i = some p) ∧ h.Reached data (i + 1) := by
  have hsize := hc.phentsize
  have hin : 48 ≤ h.phentsize ∧ h.phoff + i * h.phentsize + h.phentsize < usizeMod := by
    rcases hr with rfl | ⟨hsz, hle⟩
    · unfold Panics at hp
      push Not at hp
      obtain ⟨hwrap, hshort⟩ := hp hend
      exact ⟨hshort, by omega⟩
    · exact ⟨hsz, by unfold isizeMax at hlen; unfold usizeMod; omega⟩
  obtain ⟨hsz, hlt⟩ := hin
  refine ⟨programHeader_isSome hsz hlt hend, .inr ⟨hsz, ?_⟩⟩
  have hend' := (phEnd_of_lt hlt).2
  rw [Nat.add_mul]
  omega

end ElfHeader

theorem framesFor_cons (p : ProgramHeader) (ps : List ProgramHeader) :
    framesFor (p :: ps) = 4 * p.pages + framesFor ps := by
  unfold framesFor
  rw [List.map_cons, List.sum_cons, Nat.mul_add]

variable {data : List Byte} {h : ElfHeader}

theorem Phys.loadInto_panics (hh : validateHeader data = some (.ok h)) (hc : h.Checked) (hp : h.Panics data)
    (s : Phys) (pml4 : Nat) : s.loadInto pml4 data = none := by
  obtain ⟨n, hn⟩ := Nat.exists_eq_succ_of_ne_zero hc.phnum
  unfold loadInto
  rw [hh]
  dsimp only
  rw [hn, loadSegments, if_neg (by have := hp.1; omega), h.programHeader_of_panics hc hp]

variable {s : Phys}

theorem Phys.loadSegments_returns (pml4 m : Nat) (hc : h.Checked) (hp : ¬ h.Panics data) (hlen : data.length ≤ isizeMax)
    {n i : Nat} (phdr : Nat) (hr : h.Reached data i)
    (hframes : s.avail = ∅ ∨ framesFor (h.segmentsFrom data i n) + m ≤ s.avail.card) :
    ∃ r s', loadSegments pml4 data h n i phdr s = some (r, s') ∧ (s'.avail = ∅ ∨ m ≤ s'.avail.card) := by
  have hstops : s.avail = ∅ ∨ m ≤ s.avail.card := hframes.imp id (Nat.le_trans (Nat.le_add_left ..))
  induction n generalizing i phdr s with
  | zero => exact ⟨_, s, rfl, hstops⟩
  | succ n ih =>
    unfold loadSegments
    split
    · exact ⟨_, s, rfl, hstops⟩
    next hend =>
      obtain ⟨⟨p, hph⟩, hr'⟩ := hr.step hc hp hlen (by omega)
      rw [ElfHeader.segmentsFrom_succ hph] at hframes
      rw [hph]
      dsimp only
      split
      next hload =>
        rw [if_neg hload] at hframes
        exact ih phdr hr' hframes hstops
      next hload =>
        rw [if_pos (not_not.mp hload), framesFor_cons, Nat.add_assoc] at hframes
        split
        · exact ⟨_, s, rfl, hstops⟩
        next hfile =>
          obtain ⟨r, s1, hs1, hleft⟩ := loadSegment_returns pml4 _ (not_not.mp hfile) hframes
          rw [hs1]
          cases r with
          | error e => exact ⟨_, s1, rfl, hleft.imp id (Nat.le_trans (Nat.le_add_left ..))⟩
          | ok u => exact ih _ hr' hleft (hleft.imp id (Nat.le_trans (Nat.le_add_left ..)))

/-- The first program header of the file makes the loader panic. -/
def HeadersPanic (data : List Byte) : Prop := ∃ h, validateHeader data = some (.ok h) ∧ h.Panics data

instance {data : List Byte} : Decidable (HeadersPanic data) :=
  match hv : validateHeader data with
  | some (.ok h) => decidable_of_iff (h.Panics data) (by simp [HeadersPanic, hv])
  | some (.error _) => isFalse (by simp [HeadersPanic, hv])
  | none => isFalse (by simp [HeadersPanic, hv])

/-- Frames that are enough for all segments of the file. -/
def loadFrames (data : List Byte) : Nat :=
  match validateHeader data with
  | some (.ok h) => framesFor (h.segments data)
  | _ => 0

theorem Phys.loadInto_returns (s : Phys) (pml4 m : Nat) (hlen : data.length ≤ isizeMax) (hp : ¬ HeadersPanic data)
    (hframes : s.avail = ∅ ∨ loadFrames data + m ≤ s.avail.card) :
    ∃ r s', s.loadInto pml4 data = some (r, s') ∧ (s'.avail = ∅ ∨ m ≤ s'.avail.card) := by
  unfold HeadersPanic loadFrames at *
  unfold loadInto
  rcases validateHeader_cases data with ⟨e, he⟩ | ⟨h, hh, hc⟩
  · rw [he]
    exact ⟨_, s, rfl, hframes.imp id (Nat.le_trans (Nat.le_add_left ..))⟩
  · rw [hh] at hframes ⊢
    have hp' : ¬ h.Panics data := fun hp' => hp ⟨h, hh, hp'⟩
    obtain ⟨r, s', hs', hleft⟩ := loadSegments_returns pml4 m hc hp' hlen 0 (.inl rfl) hframes
    dsimp only
    rw [hs']
    cases r <;> exact ⟨_, s', rfl, hleft⟩

theorem HeadersPanic.loadInto (hp : HeadersPanic data) (s : Phys) (pml4 : Nat) : s.loadInto pml4 data = none := by
  obtain ⟨h, hh, hp⟩ := hp
  rcases validateHeader_cases data with ⟨e, he⟩ | ⟨h', hh', hc⟩
  · cases hh.symm.trans he
  · cases hh.symm.trans hh'
    exact Phys.loadInto_panics hh hc hp s pml4

/-- A segment of four bytes and four zeros. -/
def onePageSegment : ProgramHeader := ⟨ptLoad, 120, 0x400000, 4, 8⟩

/-- A file of one page, with the four bytes after its headers in it. -/
def onePage : List Byte := elfFile 0x400000 [onePageSegment] [1, 2, 3, 4]

theorem onePage_header : validateHeader onePage = some (.ok ⟨0x400000, 64, 56, 1⟩) :=
  validateHeader_elfFile (by decide) _ (by decide) (by simp)

theorem onePage_fits : ∀ p ∈ [onePageSegment], p.Fits := by
  intro p hp
  rw [List.mem_singleton.mp hp]
  exact ⟨by decide, by decide, by decide, by decide, by decide⟩

theorem onePage_programHeader : ElfHeader.programHeader ⟨0x400000, 64, 56, 1⟩ onePage 0 = some onePageSegment :=
  programHeader_elfFile (by decide) _ onePage_fits rfl

theorem onePage_segments : ElfHeader.segments ⟨0x400000, 64, 56, 1⟩ onePage = [onePageSegment] :=
  (segments_elfFile (by decide) _ onePage_fits).trans (by decide)

theorem onePage_length : onePage.length = 124 := rfl

theorem onePage_headers : ¬ HeadersPanic onePage := by
  rintro ⟨h, hh, -, hwrap | hshort⟩
  all_goals
    cases onePage_header.symm.trans hh
  · exact absurd hwrap (by decide)
  · exact absurd hshort (by decide)

theorem onePage_loadFrames : loadFrames onePage = 4 := by
  unfold loadFrames
  rw [onePage_header]
  dsimp only
  rw [onePage_segments]
  decide

end CoreOS
