/-
The files the ELF loader reads: what its fixed-size reads give, which of them
are in range, and that a file laid out as the format says is read back as what
was laid out (`validateHeader_elfFile`, `programHeader_elfFile`).
-/
import CoreOS.Elf

namespace CoreOS

open ByteMem

/-! ## Slices and reads -/

theorem slice_isSome {data : List Byte} {start stop : Nat} :
    (slice data start stop).isSome ↔ start ≤ stop ∧ stop ≤ data.length := by
  unfold slice
  split <;> simp_all

theorem slice_length {data bytes : List Byte} {start stop : Nat} (h : slice data start stop = some bytes) :
    bytes.length = stop - start := by
  unfold slice at h
  split at h
  next hb =>
    cases h
    rw [List.length_take, List.length_drop]
    omega
  · cases h

theorem readLe_isSome {n offset : Nat} {data : List Byte} : (readLe n data offset).isSome ↔ offset + n ≤ data.length := by
  unfold readLe
  rw [Option.isSome_map, slice_isSome]
  omega

theorem readLe_lt {n offset v : Nat} {data : List Byte} (h : readLe n data offset = some v) : v < 256 ^ n := by
  obtain ⟨bytes, hs, rfl⟩ := Option.map_eq_some_iff.mp h
  have hlt := ofBytes_lt bytes
  rwa [slice_length hs, Nat.add_sub_cancel_left] at hlt

theorem readProgramHeader_isSome {ph : List Byte} : (readProgramHeader ph).isSome ↔ 48 ≤ ph.length := by
  have hread : ∀ n offset, offset + n ≤ ph.length → ∃ v, readLe n ph offset = some v :=
    fun n offset h => Option.isSome_iff_exists.mp (readLe_isSome.mpr h)
  unfold readProgramHeader readU32 readU64
  constructor
  · intro h
    obtain ⟨p, hp⟩ := Option.isSome_iff_exists.mp h
    simp only [Option.bind_eq_bind, Option.bind_eq_some_iff] at hp
    obtain ⟨-, -, -, -, -, -, -, -, memsz, hm, -⟩ := hp
    exact readLe_isSome.mp (Option.isSome_iff_exists.mpr ⟨memsz, hm⟩)
  · intro h
    obtain ⟨type, h1⟩ := hread 4 phType (by unfold phType; omega)
    obtain ⟨offset, h2⟩ := hread 8 phOffset (by unfold phOffset; omega)
    obtain ⟨vaddr, h3⟩ := hread 8 phVaddr (by unfold phVaddr; omega)
    obtain ⟨filesz, h4⟩ := hread 8 phFilesz (by unfold phFilesz; omega)
    obtain ⟨memsz, h5⟩ := hread 8 phMemsz (by unfold phMemsz; omega)
    rw [h1, h2, h3, h4, h5]
    rfl

/-! ## The file header -/

/-- What the checks leave to be known of the header. -/
structure ElfHeader.Checked (h : ElfHeader) : Prop where
  phoff : h.phoff < usizeMod
  phentsize : h.phentsize < 2 ^ 16
  phnum : h.phnum ≠ 0

/-- **Everything the header checks can do**: they never panic. -/
theorem validateHeader_cases (data : List Byte) :
    (∃ e, validateHeader data = some (.error e)) ∨ ∃ h, validateHeader data = some (.ok h) ∧ h.Checked := by
  unfold validateHeader
  split
  · exact .inl ⟨_, rfl⟩
  next hlen =>
    have hread : ∀ n offset, offset + n ≤ 64 → ∃ v, readLe n data offset = some v ∧ v < 256 ^ n := by
      intro n offset h
      obtain ⟨v, hv⟩ := Option.isSome_iff_exists.mp (readLe_isSome.mpr (show offset + n ≤ data.length by omega))
      exact ⟨v, hv, readLe_lt hv⟩
    obtain ⟨magic, hmagic⟩ := Option.isSome_iff_exists.mp
      (slice_isSome.mpr (show 0 ≤ 4 ∧ 4 ≤ data.length from ⟨by omega, by omega⟩))
    obtain ⟨elfClass, hclass⟩ : ∃ b, data[offClass]? = some b :=
      ⟨_, List.getElem?_eq_getElem (show offClass < data.length by unfold offClass; omega)⟩
    obtain ⟨elfData, hdata⟩ : ∃ b, data[offData]? = some b :=
      ⟨_, List.getElem?_eq_getElem (show offData < data.length by unfold offData; omega)⟩
    obtain ⟨type, htype, -⟩ := hread 2 offType (by decide)
    obtain ⟨machine, hmachine, -⟩ := hread 2 offMachine (by decide)
    obtain ⟨entry, hentry, -⟩ := hread 8 offEntry (by decide)
    obtain ⟨phoff, hphoff, hoff⟩ := hread 8 offPhoff (by decide)
    obtain ⟨phentsize, hphentsize, hsize⟩ := hread 2 offPhentsize (by decide)
    obtain ⟨phnum, hphnum, -⟩ := hread 2 offPhnum (by decide)
    unfold readU16 readU64
    rw [hmagic, hclass, hdata, htype, hmachine, hentry, hphoff, hphentsize, hphnum]
    simp only [Option.bind_eq_bind, Option.bind_some]
    repeat' split
    all_goals first
      | exact .inl ⟨_, rfl⟩
      | exact .inr ⟨_, rfl, hoff, hsize, ‹_›⟩

/-! ## Segments -/

/-- Program header `i` and the `n - 1` after it that load something. -/
def ElfHeader.segmentsFrom (h : ElfHeader) (data : List Byte) (i n : Nat) : List ProgramHeader :=
  ((List.range' i n).filterMap (h.programHeader data)).filter fun p => p.Loads

/-- The segments of a file. -/
def ElfHeader.segments (h : ElfHeader) (data : List Byte) : List ProgramHeader := h.segmentsFrom data 0 h.phnum

namespace ElfHeader

variable {h : ElfHeader} {data : List Byte} {i : Nat}

theorem segmentsFrom_succ {n : Nat} {p : ProgramHeader} (hp : h.programHeader data i = some p) :
    h.segmentsFrom data i (n + 1) = if p.Loads then p :: h.segmentsFrom data (i + 1) n else h.segmentsFrom data (i + 1) n := by
  unfold segmentsFrom
  rw [List.range'_succ, List.filterMap_cons_some hp, List.filter_cons]
  simp

end ElfHeader

/-! ## Files -/

/-- Little-endian fields one after the other, each with its width. -/
def layout (fs : List (Nat × Nat)) : List Byte := fs.flatMap fun f => toBytes f.1 f.2

/-- The offset of field `k`. -/
def fieldOffset (fs : List (Nat × Nat)) (k : Nat) : Nat := ((fs.take k).map Prod.fst).sum

theorem layout_length (fs : List (Nat × Nat)) : (layout fs).length = (fs.map Prod.fst).sum := by
  rw [layout, List.length_flatMap]
  simp only [toBytes_length]

theorem slice_append (a b c : List Byte) : slice (a ++ b ++ c) a.length (a.length + b.length) = some b := by
  unfold slice
  rw [if_pos (by simp), List.append_assoc, List.drop_left, Nat.add_sub_cancel_left, List.take_left]

theorem flatMap_piece {α : Type} {xs : List α} {k : Nat} {x : α} (f : α → List Byte) (hk : xs[k]? = some x) :
    xs.flatMap f = (xs.take k).flatMap f ++ f x ++ (xs.drop (k + 1)).flatMap f := by
  obtain ⟨hlt, rfl⟩ := List.getElem?_eq_some_iff.mp hk
  calc xs.flatMap f = (xs.take k ++ xs.drop k).flatMap f := by rw [List.take_append_drop]
    _ = _ := by rw [List.drop_eq_getElem_cons hlt, List.flatMap_append, List.flatMap_cons, List.append_assoc]

theorem readLe_layout {fs : List (Nat × Nat)} (k : Nat) {n v : Nat} (rest : List Byte) (hk : fs[k]? = some (n, v))
    (hv : v < 256 ^ n) : readLe n (layout fs ++ rest) (fieldOffset fs k) = some v := by
  have hdata : layout fs ++ rest = layout (fs.take k) ++ toBytes n v ++ (layout (fs.drop (k + 1)) ++ rest) := by
    rw [← List.append_assoc]
    exact congrArg (· ++ rest) (flatMap_piece _ hk)
  have hslice := slice_append (layout (fs.take k)) (toBytes n v) (layout (fs.drop (k + 1)) ++ rest)
  rw [layout_length, toBytes_length] at hslice
  unfold readLe fieldOffset
  rw [hdata, hslice, Option.map_some, ofBytes_toBytes, Nat.mod_eq_of_lt hv]

/-- The 64 bytes of a file header. -/
def fileHeader (h : ElfHeader) : List Byte :=
  layout [(4, ofBytes elfMag), (1, elfClass64.toNat), (1, elfData2Lsb.toNat), (10, 0), (2, etExec), (2, emX8664), (4, 0),
    (8, h.entry), (8, h.phoff), (14, 0), (2, h.phentsize), (2, h.phnum), (6, 0)]

/-- The 56 bytes of a program header. -/
def headerBytes (p : ProgramHeader) : List Byte :=
  layout [(4, p.type), (4, 0), (8, p.offset), (8, p.vaddr), (8, 0), (8, p.filesz), (8, p.memsz), (8, 0)]

/-- The fields of a header fit their widths. -/
structure ElfHeader.Fits (h : ElfHeader) : Prop where
  entry : h.entry < 2 ^ 64
  phoff : h.phoff < 2 ^ 64
  phentsize : h.phentsize < 2 ^ 16
  phnum : h.phnum < 2 ^ 16
  any : h.phnum ≠ 0

structure ProgramHeader.Fits (p : ProgramHeader) : Prop where
  type : p.type < 2 ^ 32
  offset : p.offset < 2 ^ 64
  vaddr : p.vaddr < 2 ^ 64
  filesz : p.filesz < 2 ^ 64
  memsz : p.memsz < 2 ^ 64

theorem validateHeader_fileHeader {h : ElfHeader} (hf : h.Fits) (rest : List Byte) :
    validateHeader (fileHeader h ++ rest) = some (.ok h) := by
  have hlen : ¬ (fileHeader h ++ rest).length < 64 := by
    rw [List.length_append, fileHeader, layout_length]
    exact Nat.not_lt.mpr (Nat.le_add_right 64 _)
  have hmagic : slice (fileHeader h ++ rest) 0 4 = some elfMag := rfl
  have hclass : (fileHeader h ++ rest)[offClass]? = some elfClass64 := rfl
  have hdata : (fileHeader h ++ rest)[offData]? = some elfData2Lsb := rfl
  have htype : readU16 (fileHeader h ++ rest) offType = some etExec := readLe_layout 4 rest rfl (by decide)
  have hmachine : readU16 (fileHeader h ++ rest) offMachine = some emX8664 := readLe_layout 5 rest rfl (by decide)
  have hentry : readU64 (fileHeader h ++ rest) offEntry = some h.entry := readLe_layout 7 rest rfl hf.entry
  have hphoff : readU64 (fileHeader h ++ rest) offPhoff = some h.phoff := readLe_layout 8 rest rfl hf.phoff
  have hsize : readU16 (fileHeader h ++ rest) offPhentsize = some h.phentsize := readLe_layout 10 rest rfl hf.phentsize
  have hnum : readU16 (fileHeader h ++ rest) offPhnum = some h.phnum := readLe_layout 11 rest rfl hf.phnum
  unfold validateHeader
  rw [if_neg hlen, hmagic, hclass, hdata, htype, hmachine, hentry, hphoff, hsize, hnum]
  simp only [Option.bind_eq_bind, Option.bind_some, ne_eq, not_true_eq_false, if_false, if_neg hf.any]

theorem readProgramHeader_headerBytes {p : ProgramHeader} (hf : p.Fits) :
    readProgramHeader (headerBytes p) = some p := by
  have htype : readU32 (headerBytes p ++ []) phType = some p.type := readLe_layout 0 [] rfl hf.type
  have hoffset : readU64 (headerBytes p ++ []) phOffset = some p.offset := readLe_layout 2 [] rfl hf.offset
  have hvaddr : readU64 (headerBytes p ++ []) phVaddr = some p.vaddr := readLe_layout 3 [] rfl hf.vaddr
  have hfilesz : readU64 (headerBytes p ++ []) phFilesz = some p.filesz := readLe_layout 5 [] rfl hf.filesz
  have hmemsz : readU64 (headerBytes p ++ []) phMemsz = some p.memsz := readLe_layout 6 [] rfl hf.memsz
  rw [List.append_nil] at *
  unfold readProgramHeader
  rw [htype, hoffset, hvaddr, hfilesz, hmemsz]
  rfl

/-- A file of the program headers `ps` after the file header, and `rest`. -/
def elfFile (entry : Nat) (ps : List ProgramHeader) (rest : List Byte) : List Byte :=
  fileHeader { entry, phoff := 64, phentsize := 56, phnum := ps.length } ++ ps.flatMap headerBytes ++ rest

/-- The file header of such a file. -/
def elfFileHeader (entry : Nat) (ps : List ProgramHeader) : ElfHeader := ⟨entry, 64, 56, ps.length⟩

section

variable {entry : Nat} {ps : List ProgramHeader} (hlen : ps.length < 2 ^ 16) (rest : List Byte)
include hlen

theorem validateHeader_elfFile (hentry : entry < 2 ^ 64) (hne : ps ≠ []) :
    validateHeader (elfFile entry ps rest) = some (.ok (elfFileHeader entry ps)) := by
  unfold elfFile
  rw [List.append_assoc]
  exact validateHeader_fileHeader ⟨hentry, (by decide : 64 < 2 ^ 64), (by decide : 56 < 2 ^ 16), hlen, fun h => hne (List.length_eq_zero_iff.mp h)⟩ _

theorem programHeader_elfFile (hps : ∀ p ∈ ps, p.Fits) {i : Nat} {p : ProgramHeader} (hi : ps[i]? = some p) :
    (elfFileHeader entry ps).programHeader (elfFile entry ps rest) i = some p := by
  obtain ⟨hlt, rfl⟩ := List.getElem?_eq_some_iff.mp hi
  have hstart : (elfFileHeader entry ps).phStart i = 64 + i * 56 :=
    wrappingAdd_of_lt (by simp only [elfFileHeader]; unfold usizeMod; omega)
  have hend : (elfFileHeader entry ps).phEnd i = 64 + i * 56 + 56 := by
    unfold ElfHeader.phEnd
    rw [hstart]
    exact wrappingAdd_of_lt (by simp only [elfFileHeader]; unfold usizeMod; omega)
  have hdata : elfFile entry ps rest = (fileHeader (elfFileHeader entry ps) ++ (ps.take i).flatMap headerBytes) ++
      headerBytes ps[i] ++ ((ps.drop (i + 1)).flatMap headerBytes ++ rest) := by
    unfold elfFile elfFileHeader
    rw [flatMap_piece headerBytes hi]
    simp only [List.append_assoc]
  have hpre : (fileHeader (elfFileHeader entry ps) ++ (ps.take i).flatMap headerBytes).length = 64 + i * 56 := by
    have h56 : (fun p => (headerBytes p).length) = fun _ => 56 := funext fun p => layout_length _
    rw [List.length_append, List.length_flatMap, h56, List.map_const', List.sum_replicate_nat, List.length_take,
      Nat.min_eq_left hlt.le]
    exact congrArg (· + i * 56) (layout_length _)
  have hslice := slice_append (fileHeader (elfFileHeader entry ps) ++ (ps.take i).flatMap headerBytes) (headerBytes ps[i])
    ((ps.drop (i + 1)).flatMap headerBytes ++ rest)
  rw [hpre, ← hdata, show (headerBytes ps[i]).length = 56 from layout_length _] at hslice
  unfold ElfHeader.programHeader
  rw [hstart, hend, hslice, Option.bind_some, readProgramHeader_headerBytes (hps _ (List.getElem_mem hlt))]

theorem segments_elfFile (hps : ∀ p ∈ ps, p.Fits) :
    (elfFileHeader entry ps).segments (elfFile entry ps rest) = ps.filter fun p => p.Loads := by
  have hmap : (List.range' 0 ps.length).map ((elfFileHeader entry ps).programHeader (elfFile entry ps rest)) =
      ps.map some := by
    refine List.ext_getElem (by simp) fun i h1 h2 => ?_
    rw [List.length_map] at h2
    rw [List.getElem_map, List.getElem_map, List.getElem_range', Nat.zero_add, Nat.one_mul]
    exact programHeader_elfFile hlen rest hps (List.getElem?_eq_getElem h2)
  have hall : (List.range' 0 ps.length).filterMap ((elfFileHeader entry ps).programHeader (elfFile entry ps rest)) = ps := by
    have h := congrArg (List.filterMap id) hmap
    rwa [List.filterMap_map, List.filterMap_map, Function.id_comp, Function.id_comp, List.filterMap_some] at h
  unfold ElfHeader.segments ElfHeader.segmentsFrom
  rw [show (elfFileHeader entry ps).phnum = ps.length from rfl, hall]

end

end CoreOS
