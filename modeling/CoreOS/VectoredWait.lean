/-
A `readv` on a pipe or on the terminal. Buffer by buffer it takes what is there:
what is in the pipe, or in the first line of the terminal (`fills_pipe`,
`fills_terminal`). After a buffer that was filled it goes on to the next one, and
waits there if the last byte has just been taken (`readv_blocks_iff`).
-/
import CoreOS.VectoredIo
import Mathlib.Algebra.Order.BigOperators.Group.List

namespace CoreOS

open ByteMem Contents

/-! ## One buffer of a `readv` -/

namespace Pipe

theorem readBytes_length (p : Pipe) (count : Nat) :
    (p.readBytes count).1.length = min count p.len ∧ (p.readBytes count).2.len = p.len - min count p.len := by
  induction count generalizing p with
  | zero => simp [readBytes]
  | succ count ih =>
    simp only [readBytes]
    split
    next hpos =>
      obtain ⟨hbytes, hlen⟩ := ih p.popByte
      have hpop : p.popByte.len = p.len - 1 := rfl
      simp only [List.length_cons, hbytes, hlen, hpop]
      omega
    next hpos =>
      simp only [List.length_nil]
      omega

end Pipe

/-- What is left in a terminal after a read that fills its buffer: no line end
before the last byte. -/
def Tty.takeLine (bytes : List Byte) (n : Nat) : Option (List Byte) :=
  if n ≤ (firstLine bytes).length then some (bytes.drop n) else none

/-- The buffers are filled one after the other, each within a line. -/
def Tty.LinesFill (bytes : List Byte) (lens : List Nat) : Prop := (Lts.exec takeLine bytes lens).isSome = true

theorem Tty.firstLine_length_le (bytes : List Byte) : (firstLine bytes).length ≤ bytes.length := by
  induction bytes with
  | nil => exact Nat.le_refl 0
  | cons b bytes ih =>
    rw [firstLine]
    split
    · simp
    · simpa using ih

theorem Tty.exec_takeLine {bytes rest : List Byte} {lens : List Nat} (h : Lts.exec takeLine bytes lens = some rest) :
    rest = bytes.drop lens.sum ∧ lens.sum ≤ bytes.length := by
  induction lens generalizing bytes with
  | nil =>
    cases h
    exact ⟨rfl, Nat.zero_le _⟩
  | cons n lens ih =>
    obtain ⟨b, hb, hrest⟩ := Lts.exec_cons.mp h
    unfold takeLine at hb
    split at hb
    next hle =>
      cases hb
      obtain ⟨hr, hsum⟩ := ih hrest
      have hline := firstLine_length_le bytes
      rw [List.length_drop] at hsum
      rw [List.sum_cons]
      exact ⟨by rw [hr, List.drop_drop], by omega⟩
    · cases hb

theorem FdPipe.live_setPipe {k : Kernel} {j : Nat} {p : Pipe} (huse : p.inUse = (k.pipes j).inUse)
    (j' : Nat) : FdPipe.live (k.setPipe j p) j' = FdPipe.live k j' := by
  by_cases hj : j' = j
  · subst hj
    simp [FdPipe.live, huse]
  · simp [FdPipe.live, hj]

namespace Io

variable {s : Io} {fd : Nat}

variable {v : Iovec}

theorem readBuf_empty (hok : v.ok = true) (hz : v.len = 0) : readBuf fd s v = .moved 0 s := by
  simp only [readBuf, hok, not_true_eq_false, if_false, hz, readFromFd_zero, put, store_nil, List.length_nil]

theorem readBuf_fault (hok : ¬ v.ok = true) : readBuf fd s v = .failed .fault s := by
  rw [readBuf, if_pos hok]

variable {j : Nat}

theorem readSide_setPipe {k : Kernel} {p : Pipe} (huse : p.inUse = (k.pipes j).inUse) :
    readSide (k.setPipe j p) fd = readSide k fd := by
  have htarget : getFdTarget (k.setPipe j p) fd = getFdTarget k fd := rfl
  have hopen : ∀ i, FdOpen.live (k.setPipe j p) i = FdOpen.live k i := fun i => rfl
  simp only [readSide, htarget, FdPipe.live_setPipe huse, hopen]

theorem writeSide_setPipe {k : Kernel} {p : Pipe} (huse : p.inUse = (k.pipes j).inUse) :
    writeSide (k.setPipe j p) fd = writeSide k fd := by
  have htarget : getFdTarget (k.setPipe j p) fd = getFdTarget k fd := rfl
  have hopen : ∀ i, FdOpen.live (k.setPipe j p) i = FdOpen.live k i := fun i => rfl
  simp only [writeSide, htarget, FdPipe.live_setPipe huse, hopen]

/-- Pipe `j` is behind the descriptor and is read. -/
structure Writable (fd j : Nat) (t : Io) : Prop where
  side : writeSide t.kernel fd = .pipe j
  readers : (t.kernel.pipes j).readRefs ≠ 0

theorem readBuf_bytes {bytes : List Byte} {t : Io} (hok : v.ok = true)
    (hread : s.readFromFd fd v.len = some (.bytes bytes, t)) :
    readBuf fd s v = .moved bytes.length (t.put v.base bytes) := by
  simp only [readBuf, hok, not_true_eq_false, if_false, hread]

theorem readBuf_wait {t : Io} (hok : v.ok = true) (hread : s.readFromFd fd v.len = some (.wait, t)) :
    readBuf fd s v = .wait t := by
  simp only [readBuf, hok, not_true_eq_false, if_false, hread]

theorem readBuf_pipe (hside : readSide s.kernel fd = .pipe j) (hok : v.ok = true) :
    (readBuf fd s v = .wait s ∧ (s.kernel.pipes j).len = 0 ∧ (s.kernel.pipes j).writeRefs ≠ 0 ∧ v.len ≠ 0) ∨
    ∃ u, readBuf fd s v = .moved (min v.len (s.kernel.pipes j).len) u ∧ readSide u.kernel fd = .pipe j ∧
      (u.kernel.pipes j).len = (s.kernel.pipes j).len - min v.len (s.kernel.pipes j).len ∧
      (u.kernel.pipes j).writeRefs = (s.kernel.pipes j).writeRefs ∧
      (v.len = 0 ∨ 0 < (s.kernel.pipes j).len ∨ (s.kernel.pipes j).writeRefs = 0) ∧ u.tty = s.tty := by
  by_cases hz : v.len = 0
  · exact .inr ⟨s, by rw [readBuf_empty hok hz, hz, Nat.zero_min], hside, by simp [hz], rfl, .inl hz, rfl⟩
  · have hread : s.readFromFd fd v.len = (ReadSide.pipe j).read s v.len := hside ▸ readFromFd_eq hz
    by_cases hlen : 0 < (s.kernel.pipes j).len
    · obtain ⟨hcount, hleft⟩ := (s.kernel.pipes j).readBytes_length v.len
      have hends : Pipe.SameEnds (s.kernel.pipes j) ((s.kernel.pipes j).readBytes v.len).2 := Pipe.sameEnds_readBytes v.len
      simp only [ReadSide.read, hlen, if_true] at hread
      have hmove := readBuf_bytes hok hread
      rw [hcount] at hmove
      refine .inr ⟨_, hmove, ?_, ?_, ?_, .inr (.inl hlen), rfl⟩
      · rw [put_kernel, withKernel_kernel, readSide_setPipe hends.inUse, hside]
      · simp only [put_kernel, withKernel_kernel, Kernel.setPipe_pipes, Function.update_self, hleft]
      · simp only [put_kernel, withKernel_kernel, Kernel.setPipe_pipes, Function.update_self, hends.writeRefs]
    · have hzero : (s.kernel.pipes j).len = 0 := Nat.eq_zero_of_not_pos hlen
      by_cases hrefs : (s.kernel.pipes j).writeRefs = 0
      · simp only [ReadSide.read, hlen, if_false, hrefs, if_true] at hread
        have hmove := readBuf_bytes hok hread
        rw [put, store_nil] at hmove
        exact .inr ⟨s, by rw [hzero, Nat.min_zero]; exact hmove, hside, by simp [hzero], rfl, .inr (.inr hrefs), rfl⟩
      · simp only [ReadSide.read, hlen, if_false, hrefs] at hread
        exact .inl ⟨readBuf_wait hok hread, hzero, hrefs, hz⟩

theorem readBuf_terminal (hside : readSide s.kernel fd = .terminal) (htty : s.tty.IndicesOK) (hok : v.ok = true) :
    (readBuf fd s v = .wait s ∧ s.tty.unread = [] ∧ v.len ≠ 0) ∨
    ∃ u, readBuf fd s v = .moved (min v.len (Tty.firstLine s.tty.unread).length) u ∧
      readSide u.kernel fd = .terminal ∧ u.tty.IndicesOK ∧
      u.tty.unread = s.tty.unread.drop (min v.len (Tty.firstLine s.tty.unread).length) ∧
      (v.len = 0 ∨ s.tty.unread ≠ []) := by
  by_cases hz : v.len = 0
  · exact .inr ⟨s, by rw [readBuf_empty hok hz, hz, Nat.zero_min], hside, htty, by simp [hz], .inl hz⟩
  · have hread : s.readFromFd fd v.len = ReadSide.terminal.read s v.len := hside ▸ readFromFd_eq hz
    rcases Tty.read_cases v.len htty with ⟨bytes, t, hr, hbytes, hokT, hunread, -, hsome⟩ | ⟨hr, hnil, -⟩
    · simp only [ReadSide.read, hr] at hread
      have hlen : bytes.length = min v.len (Tty.firstLine s.tty.unread).length := by rw [hbytes, List.length_take]
      have hmove := readBuf_bytes hok hread
      rw [hlen] at hmove
      refine .inr ⟨_, hmove, hside, hokT, ?_, hsome⟩
      rw [← hlen, hunread, List.drop_left]
      rfl
    · simp only [ReadSide.read, hr] at hread
      exact .inl ⟨readBuf_wait hok hread, hnil, hz⟩

theorem readBuf_zero (hside : readSide s.kernel fd = .zero) (hok : v.ok = true) :
    readBuf fd s v = .moved v.len (s.put v.base (List.replicate v.len 0)) := by
  by_cases hz : v.len = 0
  · rw [readBuf_empty hok hz, hz, List.replicate_zero, put, store_nil]
  · have hread : s.readFromFd fd v.len = ReadSide.zero.read s v.len := hside ▸ readFromFd_eq hz
    have hmove := readBuf_bytes hok hread
    rwa [List.length_replicate] at hmove

theorem readBuf_null (hside : readSide s.kernel fd = .null) (hok : v.ok = true) :
    readBuf fd s v = .moved 0 s := by
  by_cases hz : v.len = 0
  · exact readBuf_empty hok hz
  · have hread : s.readFromFd fd v.len = ReadSide.null.read s v.len := hside ▸ readFromFd_eq hz
    have hmove := readBuf_bytes hok hread
    rwa [put, store_nil] at hmove

/-! ## Buffers that are filled -/

theorem ok_of_readBuf {n : Nat} {u : Io} (h : readBuf fd s v = .moved n u) : v.ok = true := by
  by_contra hok
  rw [readBuf_fault hok] at h
  cases h

section

variable {t : Io} {pre : List Iovec}

theorem fills_pipe {j : Nat} (hside : readSide s.kernel fd = .pipe j) (h : Vectored.Fills Iovec.len (readBuf fd) s pre t) :
    readSide t.kernel fd = .pipe j ∧ (t.kernel.pipes j).writeRefs = (s.kernel.pipes j).writeRefs ∧
      (t.kernel.pipes j).len + Iovec.total pre = (s.kernel.pipes j).len := by
  obtain ⟨⟨hs, hr⟩, hleft⟩ := h.counted
    (fun t => readSide t.kernel fd = .pipe j ∧ (t.kernel.pipes j).writeRefs = (s.kernel.pipes j).writeRefs)
    (fun t => (t.kernel.pipes j).len) (by
      rintro t v u ⟨ht, hrefs⟩ hm
      rcases readBuf_pipe ht (ok_of_readBuf hm) with ⟨hw, -⟩ | ⟨u', hm', hu, hlen, hrefs', -⟩
      · rw [hw] at hm
        cases hm
      · rw [hm'] at hm
        injection hm with hn hu'
        subst hu'
        exact ⟨⟨hu, hrefs'.trans hrefs⟩, by omega⟩) ⟨hside, rfl⟩
  exact ⟨hs, hr, hleft⟩

theorem fills_of_pipe {j : Nat} (hside : readSide s.kernel fd = .pipe j) (hok : ∀ v ∈ pre, v.ok = true)
    (hlen : Iovec.total pre ≤ (s.kernel.pipes j).len) : ∃ t, Vectored.Fills Iovec.len (readBuf fd) s pre t := by
  refine Vectored.fills_of_counted (fun t => readSide t.kernel fd = .pipe j) (fun t => (t.kernel.pipes j).len)
    (fun t v ht hv hle => ?_) hside hok hlen
  rcases readBuf_pipe ht hv with ⟨-, hz, -, hne⟩ | ⟨u, hm, hu, hleft, -⟩
  · omega
  · rw [Nat.min_eq_left hle] at hm hleft
    exact ⟨u, hm, hu, hleft⟩

theorem fills_terminal (hside : readSide s.kernel fd = .terminal) (htty : s.tty.IndicesOK)
    (h : Vectored.Fills Iovec.len (readBuf fd) s pre t) :
    readSide t.kernel fd = .terminal ∧ t.tty.IndicesOK ∧
      Lts.exec Tty.takeLine s.tty.unread (pre.map Iovec.len) = some t.tty.unread := by
  obtain ⟨⟨hs, ht⟩, hexec⟩ := h.taken (fun t => readSide t.kernel fd = .terminal ∧ t.tty.IndicesOK)
    (fun t => t.tty.unread) Tty.takeLine (by
      rintro t v u ⟨ht, htty⟩ hm
      rcases readBuf_terminal ht htty (ok_of_readBuf hm) with ⟨hw, -⟩ | ⟨u', hm', hu, hok, hrest, -⟩
      · rw [hw] at hm
        cases hm
      · rw [hm'] at hm
        injection hm with hn hu'
        subst hu'
        rw [hn] at hrest
        refine ⟨⟨hu, hok⟩, ?_⟩
        rw [Tty.takeLine, if_pos (by omega), hrest]) ⟨hside, htty⟩
  exact ⟨hs, ht, hexec⟩

theorem fills_of_terminal (hside : readSide s.kernel fd = .terminal) (htty : s.tty.IndicesOK)
    (hok : ∀ v ∈ pre, v.ok = true) {rest : List Byte}
    (hfill : Lts.exec Tty.takeLine s.tty.unread (pre.map Iovec.len) = some rest) :
    ∃ t, Vectored.Fills Iovec.len (readBuf fd) s pre t := by
  obtain ⟨t, hf, -⟩ := Vectored.fills_of_taken (fun t : Io => readSide t.kernel fd = .terminal ∧ t.tty.IndicesOK)
    (fun t => t.tty.unread) Tty.takeLine (by
      rintro t v a ⟨ht, htty⟩ hv htake
      unfold Tty.takeLine at htake
      split at htake
      next hle =>
        cases htake
        rcases readBuf_terminal ht htty hv with ⟨-, hnil, hne⟩ | ⟨u, hm, hu, huok, hleft, -⟩
        · rw [hnil] at hle
          exact absurd (Nat.le_zero.mp hle) hne
        · rw [Nat.min_eq_left hle] at hm hleft
          exact ⟨u, hm, ⟨hu, huok⟩, hleft⟩
      · cases htake) ⟨hside, htty⟩ hok hfill
  exact ⟨t, hf⟩

theorem onFile_of_readSide {i : Nat} (hside : readSide s.kernel fd = .file i) : OnFile s.kernel fd i := by
  unfold readSide at hside
  split at hside
  · cases hside
  · cases hside
  · cases hside
  · cases hside
  · split at hside <;> cases hside
  · next i' hi =>
    split at hside
    next hlive =>
      cases hside
      exact ⟨hi, hlive⟩
    · cases hside
  · cases hside

/-! ## Waiting after progress -/

/-- A call waits although it has moved bytes. -/
def BlocksAfterProgress (r : IoResult) : Prop := ∃ rest total t, r = .wait rest total t ∧ 0 < total

/-- The buffers `pre` take exactly what is there, and more can come. -/
def Exhausts (s : Io) (fd : Nat) (pre : List Iovec) : Prop :=
  match readSide s.kernel fd with
  | .terminal => Tty.LinesFill s.tty.unread (pre.map Iovec.len) ∧ Iovec.total pre = s.tty.unread.length
  | .pipe j => Iovec.total pre = (s.kernel.pipes j).len ∧ (s.kernel.pipes j).writeRefs ≠ 0
  | _ => False

theorem sum_saturating (iovs : List Iovec) {total : Nat} (h : total ≤ usizeMod - 1) :
    Vectored.sum Iovec.len saturatingAdd iovs total = min (total + Iovec.total iovs) (usizeMod - 1) := by
  induction iovs generalizing total with
  | nil =>
    rw [show Iovec.total [] = 0 from rfl]
    exact (Nat.min_eq_left h).symm
  | cons v iovs ih =>
    have hstep : Vectored.sum Iovec.len saturatingAdd iovs (saturatingAdd total v.len) = _ := ih (Nat.min_le_right _ _)
    rw [Iovec.total_cons]
    refine hstep.trans ?_
    unfold saturatingAdd
    omega

/-- A read into a buffer fails, waits, or leaves the descriptor as it is. -/
theorem readBuf_cases {v : Iovec} (htty : s.tty.IndicesOK) (hok : v.ok = true) (hz : v.len ≠ 0) :
    (∃ e u, readBuf fd s v = .failed e u) ∨
      (readBuf fd s v = .wait s ∧ ((readSide s.kernel fd = .terminal ∧ s.tty.unread = []) ∨
        ∃ j, readSide s.kernel fd = .pipe j ∧ (s.kernel.pipes j).len = 0 ∧ (s.kernel.pipes j).writeRefs ≠ 0)) ∨
      ∃ n u, readBuf fd s v = .moved n u ∧ readSide u.kernel fd = readSide s.kernel fd ∧ u.tty.IndicesOK := by
  have hread : s.readFromFd fd v.len = _ := readFromFd_eq hz
  cases hside : readSide s.kernel fd with
  | closed =>
    rw [hside] at hread
    exact .inl ⟨_, _, by rw [readBuf, if_neg (not_not.mpr hok), hread]; rfl⟩
  | null => exact .inr (.inr ⟨_, _, readBuf_null hside hok, hside, htty⟩)
  | zero => exact .inr (.inr ⟨_, _, readBuf_zero hside hok, hside, htty⟩)
  | pipe j =>
    rcases readBuf_pipe hside hok with ⟨hw, hlen, hrefs, -⟩ | ⟨u, hm, hu, -, -, -, hsame⟩
    · exact .inr (.inl ⟨hw, .inr ⟨j, rfl, hlen, hrefs⟩⟩)
    · exact .inr (.inr ⟨_, u, hm, hu, hsame ▸ htty⟩)
  | terminal =>
    rcases readBuf_terminal hside htty hok with ⟨hw, hnil, -⟩ | ⟨u, hm, hu, hokT, -⟩
    · exact .inr (.inl ⟨hw, .inl ⟨rfl, hnil⟩⟩)
    · exact .inr (.inr ⟨_, u, hm, hu, hokT⟩)
  | file i =>
    rw [hside] at hread
    simp only [ReadSide.read] at hread
    split at hread
    · exact .inl ⟨_, _, by rw [readBuf, if_neg (not_not.mpr hok), hread]⟩
    · exact .inr (.inr ⟨_, _, readBuf_bytes hok hread,
        readSide_file (s := s.withKernel _) ((onFile_of_readSide hside).kept rfl (by simp)), htty⟩)

theorem readBuf_keeps {v : Iovec} {n : Nat} {u : Io} (htty : s.tty.IndicesOK) (h : readBuf fd s v = .moved n u) :
    readSide u.kernel fd = readSide s.kernel fd ∧ u.tty.IndicesOK := by
  have hok := ok_of_readBuf h
  by_cases hz : v.len = 0
  · rw [readBuf_empty hok hz] at h
    cases h
    exact ⟨rfl, htty⟩
  · rcases readBuf_cases htty hok hz with ⟨e, u', he⟩ | ⟨he, -⟩ | ⟨n', u', he, hkeep⟩
    all_goals cases he.symm.trans h
    exact hkeep

theorem readBuf_waits {v : Iovec} {u : Io} (htty : s.tty.IndicesOK) (h : readBuf fd s v = .wait u) :
    v.ok = true ∧ v.len ≠ 0 ∧ u = s ∧
      ((readSide s.kernel fd = .terminal ∧ s.tty.unread = []) ∨
        ∃ j, readSide s.kernel fd = .pipe j ∧ (s.kernel.pipes j).len = 0 ∧ (s.kernel.pipes j).writeRefs ≠ 0) := by
  have hok : v.ok = true := by
    by_contra hok
    rw [readBuf_fault hok] at h
    cases h
  have hz : v.len ≠ 0 := by
    intro hz
    rw [readBuf_empty hok hz] at h
    cases h
  rcases readBuf_cases htty hok hz with ⟨e, u', he⟩ | ⟨he, hwhy⟩ | ⟨n', u', he, -⟩
  all_goals cases he.symm.trans h
  exact ⟨hok, hz, rfl, hwhy⟩

/-- **`readv` waits after progress** exactly when its first buffers take just what
the pipe or the terminal holds, to the byte, and a buffer that is not empty comes
next. -/
theorem readv_blocks_iff (s : Io) (htty : s.tty.IndicesOK) (fd : Nat) (iovs : List Iovec) :
    BlocksAfterProgress (readvLoop fd s iovs) ↔
      ∃ pre v post, iovs = pre ++ v :: post ∧ (∀ w ∈ pre, w.ok = true) ∧ v.ok = true ∧ v.len ≠ 0 ∧
        0 < Iovec.total pre ∧ Exhausts s fd pre := by
  have hsum : ∀ pre : List Iovec, 0 < Vectored.sum Iovec.len saturatingAdd pre 0 ↔ 0 < Iovec.total pre := by
    intro pre
    rw [sum_saturating pre (Nat.zero_le _)]
    unfold usizeMod
    omega
  constructor
  · rintro ⟨rest, total, u, hr, hpos⟩
    obtain ⟨pre, v, post, t, his, -, rfl, hf, hm⟩ := Vectored.run_wait_iff.mp hr
    obtain ⟨hside, hokT⟩ : readSide t.kernel fd = readSide s.kernel fd ∧ t.tty.IndicesOK := by
      refine hf.invariant (fun t => readSide t.kernel fd = readSide s.kernel fd ∧ t.tty.IndicesOK)
        (fun t v u ht hm => ?_) ⟨rfl, htty⟩
      obtain ⟨hside, hok⟩ := readBuf_keeps ht.2 hm
      exact ⟨hside.trans ht.1, hok⟩
    obtain ⟨hok, hz, -, hwhy⟩ := readBuf_waits hokT hm
    refine ⟨pre, v, post, his, hf.forall fun _ _ _ hm => ok_of_readBuf hm, hok, hz, (hsum pre).mp hpos, ?_⟩
    rw [hside] at hwhy
    rcases hwhy with ⟨hterm, hnil⟩ | ⟨j, hpipe, hlen, hrefs⟩
    · obtain ⟨-, -, hexec⟩ := fills_terminal hterm htty hf
      obtain ⟨hdrop, hle⟩ := Tty.exec_takeLine hexec
      simp only [Exhausts, hterm]
      refine ⟨by rw [Tty.LinesFill, hexec]; rfl, Nat.le_antisymm hle ?_⟩
      rw [hnil] at hdrop
      exact List.drop_eq_nil_iff.mp hdrop.symm
    · obtain ⟨-, hrefs', hleft⟩ := fills_pipe hpipe hf
      simp only [Exhausts, hpipe]
      exact ⟨by omega, hrefs' ▸ hrefs⟩
  · rintro ⟨pre, v, post, his, hall, hok, hz, hpos, hex⟩
    unfold Exhausts at hex
    split at hex
    next hterm =>
      obtain ⟨hfill, htotal⟩ := hex
      obtain ⟨rest, hrest⟩ := Option.isSome_iff_exists.mp hfill
      obtain ⟨t, hf⟩ := fills_of_terminal hterm htty hall hrest
      obtain ⟨hside, hokT, hexec⟩ := fills_terminal hterm htty hf
      obtain ⟨hdrop, -⟩ := Tty.exec_takeLine hexec
      have hnil : t.tty.unread = [] := hdrop.trans (List.drop_eq_nil_of_le (Nat.le_of_eq htotal.symm))
      rcases readBuf_terminal hside hokT hok with ⟨hw, -⟩ | ⟨u, -, -, -, -, hsome⟩
      · exact ⟨_, _, _, Vectored.run_wait_iff.mpr ⟨pre, v, post, t, his, rfl, rfl, hf, hw⟩, (hsum pre).mpr hpos⟩
      · rcases hsome with hz' | hne
        · exact absurd hz' hz
        · exact absurd hnil hne
    next j hpipe =>
      obtain ⟨htotal, hrefs⟩ := hex
      obtain ⟨t, hf⟩ := fills_of_pipe hpipe hall (Nat.le_of_eq htotal)
      obtain ⟨hside, hrefs', hleft⟩ := fills_pipe hpipe hf
      rcases readBuf_pipe hside hok with ⟨hw, -⟩ | ⟨u, -, -, -, -, hsome, -⟩
      · exact ⟨_, _, _, Vectored.run_wait_iff.mpr ⟨pre, v, post, t, his, rfl, rfl, hf, hw⟩, (hsum pre).mpr hpos⟩
      · rcases hsome with hz' | hlen | hzero
        · exact absurd hz' hz
        · omega
        · exact absurd (hrefs' ▸ hzero) hrefs
    · exact hex.elim

end

/-- A pipe of three bytes that is still written, and a vector of a buffer of three
bytes and one of one. -/
def heldPipe : Io where
  kernel :=
    { fileSharers with
      processes := fun _ => some pipeHolder
      pipes := fun _ => { Pipe.empty with len := 3, writePos := 3, readRefs := 1, writeRefs := 1, inUse := true } }
  tty := .new
  console := []
  user := storeWords (fun _ => 0) 0x1000 [0x2000, 3, 0x3000, 1]

theorem readv_blocks_iff_heldPipe : BlocksAfterProgress (readvLoop 3 heldPipe [⟨0x2000, 3⟩, ⟨0x3000, 1⟩]) := by
  refine (readv_blocks_iff heldPipe ⟨by decide, by decide⟩ 3 _).mpr
    ⟨[⟨0x2000, 3⟩], ⟨0x3000, 1⟩, [], rfl, by decide +kernel, by decide +kernel, by decide, by decide, ?_⟩
  exact ⟨rfl, by decide⟩

/-- The three bytes are taken, and then the call waits for a fourth, where a read of
four bytes returns them. -/
theorem readv_waits_with_three_bytes :
    (∃ t, heldPipe.readv 3 0x1000 2 = .wait [⟨0x3000, 1⟩] 3 t) ∧
      ∃ t, heldPipe.readFromFd 3 4 = some (.bytes [0, 0, 0], t) :=
  ⟨⟨_, rfl⟩, _, rfl⟩

end Io

end CoreOS
