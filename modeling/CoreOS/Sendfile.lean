/-
`sendfile` from a file to a pipe (`sendfile_impl` in `syscall/io.rs`).
-/
import CoreOS.VectoredWait

namespace CoreOS

open ByteMem

namespace Io

/-- The `offset_ptr` of the call as the caller's memory has it. -/
def offsetArg (s : Io) (offsetPtr : Nat) : OffsetArg :=
  if offsetPtr = 0 then .null
  else if userRangeOk offsetPtr 8 then .value (loadWord s.user offsetPtr).toInt
  else .outside

/-- The end of `sendfile_impl`: the caller's word or the cursor moves on. -/
def advance (s : Io) (inFd offsetPtr start written : Nat) : Except SysError Nat × Io :=
  if offsetPtr ≠ 0 then
    if userRangeOk offsetPtr 8 then
      (.ok written, { s with user := storeWord s.user offsetPtr (BitVec.ofNat 64 (wrappingAdd start written)) })
    else (.error .fault, s)
  else
    match fdOpenIdx s.kernel inFd with
    | some i =>
      (.ok written, s.withKernel
        (s.kernel.setOpenFile i { s.kernel.openFiles i with offset := wrappingAdd start written }))
    | none => (.error .badFd, s)

/-- `sendfile_impl`; `none` is a panic. -/
def sendfile (s : Io) (outFd inFd offsetPtr count : Nat) : Option (Except SysError Nat × Io) :=
  match getStatusFlags s.kernel inFd with
  | none => some (.error .badFd, s)
  | some status =>
    if status &&& oAccmode = oWronly then some (.error .badFd, s)
    else
      match descriptorInfo s.kernel inFd with
      | none => some (.error .badFd, s)
      | some (.file fileIdx _) =>
        match (s.offsetArg offsetPtr).start s.kernel inFd with
        | .error e => some (.error e, s)
        | .ok start =>
          match fsReadToVec s.kernel.fs fileIdx start count with
          | none => none
          | some none => some (.error .badFd, s)
          | some (some bytes) =>
            match s.writeToFd outFd bytes with
            | none => none
            | some (none, s) => some (.error .badFd, s)
            | some (some written, s) => some (s.advance inFd offsetPtr start written)
      | some _ => some (.error .notSeekable, s)

/-- **`sendfile`** does to the kernel what it does where the caller's offset is given as
a value, and stores the new offset. -/
theorem sendfile_value (s : Io) (outFd inFd offsetPtr count : Nat) :
    (s.sendfile outFd inFd offsetPtr count).map (fun r => (r.1, r.2.kernel, r.2.user)) =
      (CoreOS.sendfile s.kernel outFd inFd (s.offsetArg offsetPtr) count).map fun r => (r.1.map Prod.fst, r.2,
        match r.1 with
        | .ok (_, some offset) => storeWord s.user offsetPtr (BitVec.ofInt 64 offset)
        | _ => s.user) := by
  unfold sendfile CoreOS.sendfile
  cases getStatusFlags s.kernel inFd with
  | none => rfl
  | some status =>
    dsimp only
    split
    · rfl
    cases descriptorInfo s.kernel inFd with
    | none => rfl
    | some d =>
      cases d with
      | file fileIdx size =>
        dsimp only
        cases hstart : (s.offsetArg offsetPtr).start s.kernel inFd with
        | error e => rfl
        | ok start =>
          dsimp only
          rcases fsReadToVec s.kernel.fs fileIdx start count with _ | _ | bytes
          · rfl
          · rfl
          · unfold writeToFd
            dsimp only
            rcases CoreOS.writeToFd s.kernel outFd bytes with _ | ⟨_ | n, k⟩
            · rfl
            · rfl
            · unfold advance offsetArg OffsetArg.advance toI64
              dsimp only [Option.map_some]
              by_cases hz : offsetPtr = 0
              · simp only [hz, ne_eq, not_true_eq_false, if_false, if_true]
                cases fdOpenIdx k inFd <;> rfl
              · by_cases hok : userRangeOk offsetPtr 8 = true
                · simp [hz, hok, Except.map]
                · simp [hz, hok, Except.map]
      | _ => rfl

variable {s t : Io}

/-! ## A call that fails -/

variable {fd inFd : Nat} {bytes : List Byte}

theorem onFile_of_writeToFd {i : Nat} {r : Option Nat} (h : OnFile s.kernel inFd i)
    (hw : s.writeToFd fd bytes = some (r, t)) : OnFile t.kernel inFd i := by
  rw [writeToFd_eq] at hw
  cases hside : writeSide s.kernel fd with
  | terminal =>
    simp only [hside, WriteSide.write] at hw
    cases hw
    exact h
  | null =>
    simp only [hside, WriteSide.write] at hw
    cases hw
    exact h
  | pipe j =>
    simp only [hside, WriteSide.write] at hw
    split at hw
    · cases hw
      exact h
    · cases hw
      exact h.kept rfl rfl
  | file i' =>
    simp only [hside, WriteSide.write] at hw
    split at hw
    · split at hw
      · cases hw
      · cases hw
        exact h
      · cases hw
        refine h.kept rfl ?_
        by_cases hi : i = i'
        · subst hi
          simp
        · simp only [withKernel_kernel, Kernel.setOpenFile_openFiles, Function.update_of_ne hi]
          rfl
    · cases hw
      exact h
  | closed =>
    simp only [hside, WriteSide.write] at hw
    cases hw
    exact h

theorem writeToFd_refuses (hw : s.writeToFd fd bytes = some (none, t)) : t = s := by
  rw [writeToFd_eq] at hw
  cases hside : writeSide s.kernel fd with
  | terminal => simp [hside, WriteSide.write] at hw
  | null => simp [hside, WriteSide.write] at hw
  | pipe j =>
    simp only [hside, WriteSide.write] at hw
    split at hw <;> cases hw
  | file i' =>
    simp only [hside, WriteSide.write] at hw
    split at hw
    · split at hw
      · cases hw
      · cases hw
        rfl
      · cases hw
    · cases hw
      rfl
  | closed =>
    simp only [hside, WriteSide.write] at hw
    cases hw
    rfl

variable {offsetPtr : Nat}

theorem advance_ok {start : Nat} {written : Nat} (hstart : (s.offsetArg offsetPtr).start s.kernel inFd = .ok start)
    (hw : s.writeToFd fd bytes = some (some written, t)) :
    ∃ u, t.advance inFd offsetPtr start written = (.ok written, u) := by
  unfold offsetArg at hstart
  unfold advance
  by_cases hz : offsetPtr = 0
  · rw [if_pos hz] at hstart
    simp only [OffsetArg.start] at hstart
    split at hstart
    next i hi =>
      have hon := onFile_of_writeToFd (fdOpenIdx_eq_some.mp hi) hw
      rw [if_neg (not_not.mpr hz), fdOpenIdx_eq_some.mpr hon]
      exact ⟨_, rfl⟩
    · cases hstart
  · rw [if_neg hz] at hstart
    rw [if_pos hz]
    split at hstart
    next hok =>
      rw [if_pos hok]
      exact ⟨_, rfl⟩
    · cases hstart

theorem sendfile_failed {outFd count : Nat} {e : SysError}
    (h : s.sendfile outFd inFd offsetPtr count = some (.error e, t)) : t = s := by
  unfold sendfile at h
  split at h
  · cases h
    rfl
  split at h
  · cases h
    rfl
  split at h
  · cases h
    rfl
  · split at h
    · cases h
      rfl
    next hstart =>
    split at h
    · cases h
    · cases h
      rfl
    split at h
    · cases h
    next hw =>
      cases h
      exact writeToFd_refuses hw
    next hw =>
      obtain ⟨u, hu⟩ := advance_ok hstart hw
      rw [hu] at h
      cases h
  · cases h
    rfl

end Io

/-! ## One call -/

/-- A file that is sent to a pipe: the descriptors and the pointer that the calls
are given, the description and the pipe behind them, and the bytes of the file. -/
structure Sending where
  outFd : Nat
  inFd : Nat
  offsetPtr : Nat
  source : Nat
  pipe : Nat
  data : List Byte

namespace Sending

variable {c : Sending} {s t : Io}

/-- Where the next call begins: the caller's word where one is given, else the
cursor. -/
def position (c : Sending) (s : Io) : Nat :=
  if c.offsetPtr = 0 then (s.kernel.openFiles c.source).offset else (loadWord s.user c.offsetPtr).toNat

/-- The bytes in the pipe. -/
def unread (c : Sending) (s : Io) : List Byte := (s.kernel.pipes c.pipe).unread

/-- The file may be read from the position on, and the pipe is read. -/
structure Holds (c : Sending) (s : Io) : Prop where
  onFile : OnFile s.kernel c.inFd c.source
  mode : (s.kernel.openFiles c.source).statusFlags &&& oAccmode ≠ oWronly
  contents : fsData s.kernel.fs (s.kernel.openFiles c.source).fileIdx = some c.data
  fits : c.data.length ≤ isizeMax
  dest : Io.Writable c.outFd c.pipe s
  ring : (s.kernel.pipes c.pipe).RingOK
  word : c.offsetPtr ≠ 0 → userRangeOk c.offsetPtr 8 = true
  inFile : c.position s ≤ c.data.length

theorem Holds.start (h : c.Holds s) : (s.offsetArg c.offsetPtr).start s.kernel c.inFd = .ok (c.position s) := by
  have hle := Nat.le_trans h.inFile h.fits
  unfold Io.offsetArg
  unfold position at *
  by_cases hz : c.offsetPtr = 0
  · rw [if_pos hz] at hle ⊢
    rw [if_pos hz, OffsetArg.start, fdOpenIdx_eq_some.mpr h.onFile]
  · rw [if_neg hz] at hle ⊢
    have hint : (loadWord s.user c.offsetPtr).toInt = (loadWord s.user c.offsetPtr).toNat := by
      refine BitVec.toInt_eq_toNat_of_lt ?_
      unfold isizeMax at hle
      omega
    rw [if_neg hz, if_pos (h.word hz), OffsetArg.start, hint, if_neg (by omega), Int.toNat_natCast]

/-- How many bytes a call moves. -/
def amount (c : Sending) (s : Io) (count : Nat) : Nat :=
  min (min count (c.data.length - c.position s)) (pipeCapacity - (s.kernel.pipes c.pipe).len)

/-- What one call leaves behind. -/
structure Sent (c : Sending) (s t : Io) (w : Nat) : Prop where
  unread : c.unread t = c.unread s ++ (c.data.drop (c.position s)).take w
  position : c.position t = c.position s + w
  cursor : c.offsetPtr ≠ 0 → t.kernel.openFiles = s.kernel.openFiles
  user : t.user = if c.offsetPtr = 0 then s.user
    else storeWord s.user c.offsetPtr (BitVec.ofNat 64 (c.position s + w))
  files : t.kernel.fs = s.kernel.fs
  pipes : ∀ j, j ≠ c.pipe → t.kernel.pipes j = s.kernel.pipes j

theorem Holds.setPipe {p : Pipe} (h : c.Holds s) (hp : p.RingOK) (hends : Pipe.SameEnds (s.kernel.pipes c.pipe) p) :
    c.Holds (s.withKernel (s.kernel.setPipe c.pipe p)) where
  onFile := h.onFile.kept rfl rfl
  mode := h.mode
  contents := h.contents
  fits := h.fits
  dest := by
    refine ⟨(Io.writeSide_setPipe hends.inUse).trans h.dest.side, ?_⟩
    simp only [Io.withKernel_kernel, Kernel.setPipe_pipes, Function.update_self, hends.readRefs]
    exact h.dest.readers
  ring := by
    simp only [Io.withKernel_kernel, Kernel.setPipe_pipes, Function.update_self]
    exact hp
  word := h.word
  inFile := h.inFile

theorem Holds.writeToFd (h : c.Holds s) (bytes : List Byte) :
    ∃ p, s.writeToFd c.outFd bytes =
        some (some (min bytes.length (pipeCapacity - (s.kernel.pipes c.pipe).len)),
          s.withKernel (s.kernel.setPipe c.pipe p)) ∧
      Pipe.Wrote (s.kernel.pipes c.pipe) bytes (min bytes.length (pipeCapacity - (s.kernel.pipes c.pipe).len)) p := by
  have hspec := Pipe.writeBytes_spec bytes h.ring
  rw [hspec.count] at hspec
  refine ⟨_, ?_, hspec⟩
  rw [Io.writeToFd_eq, h.dest.side, WriteSide.write, if_neg h.dest.readers, ← (Pipe.writeBytes_spec bytes h.ring).count]

/-- The position put at `pos`. -/
def record (c : Sending) (s : Io) (pos : Nat) : Io :=
  if c.offsetPtr = 0 then s.seekTo c.source pos
  else { s with user := storeWord s.user c.offsetPtr (BitVec.ofNat 64 pos) }

@[simp] theorem record_pipes (c : Sending) (s : Io) (pos : Nat) : (c.record s pos).kernel.pipes = s.kernel.pipes := by
  unfold record
  split <;> rfl

@[simp] theorem record_fs (c : Sending) (s : Io) (pos : Nat) : (c.record s pos).kernel.fs = s.kernel.fs := by
  unfold record
  split <;> rfl

theorem record_user (c : Sending) (s : Io) (pos : Nat) :
    (c.record s pos).user = if c.offsetPtr = 0 then s.user else storeWord s.user c.offsetPtr (BitVec.ofNat 64 pos) := by
  unfold record
  split <;> rfl

variable {pos : Nat}

theorem record_openFiles (hz : c.offsetPtr ≠ 0) : (c.record s pos).kernel.openFiles = s.kernel.openFiles := by
  rw [record, if_neg hz]

theorem record_position (hpos : pos ≤ isizeMax) : c.position (c.record s pos) = pos := by
  unfold position record
  split
  · rw [Io.seekTo_offset]
  · rw [loadWord_storeWord, BitVec.toNat_ofNat]
    exact Nat.mod_eq_of_lt (lt_usizeMod_of_le hpos)

theorem Holds.record (h : c.Holds s) (hpos : pos ≤ c.data.length) : c.Holds (c.record s pos) := by
  have hin : c.position (c.record s pos) ≤ c.data.length := by rwa [record_position (Nat.le_trans hpos h.fits)]
  have hring : ((c.record s pos).kernel.pipes c.pipe).RingOK := by
    rw [record_pipes]
    exact h.ring
  have hreaders : ((c.record s pos).kernel.pipes c.pipe).readRefs ≠ 0 := by
    rw [record_pipes]
    exact h.dest.readers
  by_cases hz : c.offsetPtr = 0
  · have hrec : c.record s pos = s.seekTo c.source pos := if_pos hz
    rw [hrec] at hin hring hreaders ⊢
    refine ⟨Io.onFile_seekTo h.onFile pos, ?_, ?_, h.fits, ⟨?_, hreaders⟩, hring, h.word, hin⟩
    · rw [Io.seekTo_statusFlags]
      exact h.mode
    · have hcontents := h.contents
      simpa [Io.seekTo, Kernel.putFile, Kernel.setOpenFile, Kernel.setFs] using hcontents
    · rw [Io.writeSide_seekTo, h.dest.side]
  · have hrec : c.record s pos = { s with user := storeWord s.user c.offsetPtr (BitVec.ofNat 64 pos) } := if_neg hz
    rw [hrec] at hin hring hreaders ⊢
    exact ⟨h.onFile, h.mode, h.contents, h.fits, ⟨h.dest.side, hreaders⟩, hring, h.word, hin⟩

theorem Holds.advance {start written : Nat} (h : c.Holds s) (hle : start + written ≤ isizeMax) :
    s.advance c.inFd c.offsetPtr start written = (.ok written, c.record s (start + written)) := by
  unfold Io.advance Sending.record
  rw [wrappingAdd_of_lt (lt_usizeMod_of_le hle)]
  by_cases hz : c.offsetPtr = 0
  · rw [if_neg (not_not.mpr hz), if_pos hz, fdOpenIdx_eq_some.mpr h.onFile]
    rfl
  · rw [if_pos hz, if_neg hz, if_pos (h.word hz)]

/-- **One call** moves as many bytes as were asked for, are in the file from the
position on and have room in the pipe, and records as many. -/
theorem sendfile_sends (h : c.Holds s) (count : Nat) :
    ∃ t, s.sendfile c.outFd c.inFd c.offsetPtr count = some (.ok (c.amount s count), t) ∧
      c.Sent s t (c.amount s count) ∧ c.Holds t := by
  have hread : fsReadToVec s.kernel.fs (s.kernel.openFiles c.source).fileIdx (c.position s) count =
      some (some ((c.data.drop (c.position s)).take count)) := by
    rw [fsReadToVec_eq h.contents, if_pos h.inFile, fileRange_eq, take_min_length]
  obtain ⟨p, hwrite, hwrote⟩ := h.writeToFd ((c.data.drop (c.position s)).take count)
  have hamount : min ((c.data.drop (c.position s)).take count).length (pipeCapacity - (s.kernel.pipes c.pipe).len) =
      c.amount s count := by
    rw [List.length_take, List.length_drop, amount]
  rw [hamount] at hwrite hwrote
  have hle : c.position s + c.amount s count ≤ c.data.length := by
    have := h.inFile
    unfold amount
    omega
  have hmax := Nat.le_trans hle h.fits
  have hholds := h.setPipe hwrote.ring hwrote.ends
  have hcall : s.sendfile c.outFd c.inFd c.offsetPtr count = some (.ok (c.amount s count),
      c.record (s.withKernel (s.kernel.setPipe c.pipe p)) (c.position s + c.amount s count)) := by
    simp only [Io.sendfile, h.onFile.statusFlags, h.mode, if_false, h.onFile.info, h.start, hread, hwrite,
      hholds.advance hmax]
  refine ⟨_, hcall, ⟨?_, record_position hmax, fun hz => ?_, ?_, ?_, fun j hj => ?_⟩, hholds.record hle⟩
  · rw [unread, record_pipes, Io.withKernel_kernel, Kernel.setPipe_pipes, Function.update_self, hwrote.unread,
      List.take_take, Nat.min_eq_left (by unfold amount; omega)]
    rfl
  · rw [record_openFiles hz]
    rfl
  · rw [record_user]
    rfl
  · rw [record_fs]
    rfl
  · rw [record_pipes]
    exact Function.update_of_ne hj _ _

end Sending

/-! ## Runs -/

/-- A call, a read of the pipe by the caller, or one by another process. -/
inductive SendOp
  | send (count : Nat)
  | read (fd : Nat) (v : Iovec)
  | elsewhere (count : Nat)

/-- A run, with how much was sent and what was read. -/
structure SendRun where
  io : Io
  sent : Nat
  delivered : List Byte

namespace Sending

variable {c : Sending} {s : Io} {r : SendRun}

def step (c : Sending) (r : SendRun) : SendOp → Option SendRun
  | .send count =>
    match r.io.sendfile c.outFd c.inFd c.offsetPtr count with
    | some (.ok w, io) => some { r with io, sent := r.sent + w }
    | some (.error _, io) => some { r with io }
    | none => none
  | .read fd v =>
    match Io.readBuf fd r.io v with
    | .moved n io => some { r with io, delivered := r.delivered ++ load io.user v.base n }
    | .failed _ io | .wait io => some { r with io }
    | .panics => none
  | .elsewhere count =>
    let (bs, p) := (r.io.kernel.pipes c.pipe).readBytes count
    some { r with io := r.io.withKernel (r.io.kernel.setPipe c.pipe p), delivered := r.delivered ++ bs }

/-- The caller reads this pipe, and not into the word that holds the offset. -/
def Apart (c : Sending) (r : SendRun) : SendOp → Prop
  | .read fd v =>
    readSide r.io.kernel fd = .pipe c.pipe ∧
      (c.offsetPtr = 0 ∨ v.base + v.len ≤ c.offsetPtr ∨ c.offsetPtr + 8 ≤ v.base)
  | .send _ | .elsewhere _ => True

/-- What was delivered and what is still in the pipe is, after what was there in
`s`, the front of the file from the position in `s` on. -/
structure Conserves (c : Sending) (s : Io) (r : SendRun) : Prop where
  holds : c.Holds r.io
  position : c.position r.io = c.position s + r.sent
  bytes : r.delivered ++ c.unread r.io = c.unread s ++ (c.data.drop (c.position s)).take r.sent

variable {bs : List Byte}

theorem Holds.put {base : Nat} (h : c.Holds s)
    (hapart : c.offsetPtr = 0 ∨ base + bs.length ≤ c.offsetPtr ∨ c.offsetPtr + 8 ≤ base) :
    c.Holds (s.put base bs) ∧ c.position (s.put base bs) = c.position s := by
  have hpos : c.position (s.put base bs) = c.position s := by
    unfold position
    split
    · rfl
    next hz =>
      have hword : loadWord (store s.user base bs) c.offsetPtr = loadWord s.user c.offsetPtr :=
        loadWord_congr fun x _ _ => store_out (by omega)
      exact congrArg BitVec.toNat hword
  refine ⟨⟨h.onFile, h.mode, h.contents, h.fits, ⟨h.dest.side, h.dest.readers⟩, h.ring, h.word, ?_⟩, hpos⟩
  rw [hpos]
  exact h.inFile

theorem Conserves.took {count : Nat} {p : Pipe} (h : c.Conserves s r)
    (ht : Pipe.Took (r.io.kernel.pipes c.pipe) count bs p) :
    c.Conserves s { r with io := r.io.withKernel (r.io.kernel.setPipe c.pipe p), delivered := r.delivered ++ bs } := by
  refine ⟨h.holds.setPipe ht.ring ht.ends, h.position, ?_⟩
  have hunread : c.unread (r.io.withKernel (r.io.kernel.setPipe c.pipe p)) = p.unread := by simp [unread]
  have hall : bs ++ p.unread = c.unread r.io := by
    rw [ht.bytes, ht.unread]
    exact List.take_append_drop count _
  rw [hunread, List.append_assoc, hall]
  exact h.bytes

theorem readBuf_took {fd j : Nat} {v : Iovec} (hside : readSide s.kernel fd = .pipe j)
    (hring : (s.kernel.pipes j).RingOK) :
    (∃ e, Io.readBuf fd s v = .failed e s) ∨ Io.readBuf fd s v = .wait s ∨
      ∃ bs p, Io.readBuf fd s v = .moved bs.length ((s.withKernel (s.kernel.setPipe j p)).put v.base bs) ∧
        Pipe.Took (s.kernel.pipes j) v.len bs p := by
  have hself : s.withKernel (s.kernel.setPipe j (s.kernel.pipes j)) = s := by
    simp only [Kernel.setPipe, Function.update_eq_self]
    rfl
  by_cases hok : v.ok = true
  · by_cases hz : v.len = 0
    · have hmove : Io.readBuf fd s v = .moved 0 s := Io.readBuf_empty hok hz
      refine .inr (.inr ⟨[], s.kernel.pipes j, ?_, ⟨by simp [hz], hring, by simp [hz], .refl _⟩⟩)
      rw [hmove, hself, Io.put, store_nil, List.length_nil]
    · have hread : s.readFromFd fd v.len = (ReadSide.pipe j).read s v.len := hside ▸ Io.readFromFd_eq hz
      by_cases hlen : 0 < (s.kernel.pipes j).len
      · simp only [ReadSide.read, hlen, if_true] at hread
        exact .inr (.inr ⟨_, _, Io.readBuf_bytes hok hread, Pipe.readBytes_spec v.len hring⟩)
      · have hnil : (s.kernel.pipes j).unread = [] :=
          List.eq_nil_of_length_eq_zero (by rw [Pipe.unread_length]; omega)
        by_cases hrefs : (s.kernel.pipes j).writeRefs = 0
        · simp only [ReadSide.read, hlen, if_false, hrefs, if_true] at hread
          refine .inr (.inr ⟨[], s.kernel.pipes j, ?_, ⟨by simp [hnil], hring, by simp [hnil], .refl _⟩⟩)
          rw [Io.readBuf_bytes hok hread, hself]
        · simp only [ReadSide.read, hlen, if_false, hrefs] at hread
          exact .inr (.inl (Io.readBuf_wait hok hread))
  · exact .inl ⟨_, Io.readBuf_fault hok⟩

theorem Conserves.step {op : SendOp} (h : c.Conserves s r) (hop : c.Apart r op) :
    ∃ r', c.step r op = some r' ∧ c.Conserves s r' := by
  cases op with
  | send count =>
    obtain ⟨t, hcall, hsent, ht⟩ := sendfile_sends h.holds count
    have hstep : c.step r (.send count) = some { r with io := t, sent := r.sent + c.amount r.io count } := by
      simp only [Sending.step, hcall]
    refine ⟨_, hstep, ht, ?_, ?_⟩
    · rw [hsent.position, h.position, Nat.add_assoc]
    · dsimp only
      rw [hsent.unread, ← List.append_assoc, h.bytes, h.position, List.append_assoc, ← List.drop_drop, ← List.take_add]
  | read fd v =>
    obtain ⟨hside, hapart⟩ := hop
    rcases readBuf_took (v := v) hside h.holds.ring with ⟨e, hm⟩ | hm | ⟨bs, p, hm, ht⟩
    · have hstep : c.step r (.read fd v) = some r := by simp only [Sending.step, hm]
      exact ⟨r, hstep, h⟩
    · have hstep : c.step r (.read fd v) = some r := by simp only [Sending.step, hm]
      exact ⟨r, hstep, h⟩
    · have hlen : bs.length ≤ v.len := by
        rw [ht.bytes]
        exact List.length_take_le _ _
      have htook := h.took ht
      have hclear : c.offsetPtr = 0 ∨ v.base + bs.length ≤ c.offsetPtr ∨ c.offsetPtr + 8 ≤ v.base := by omega
      obtain ⟨hholds, hpos⟩ := htook.holds.put hclear
      have hload : load ((r.io.withKernel (r.io.kernel.setPipe c.pipe p)).put v.base bs).user v.base bs.length = bs :=
        load_store _ _ _
      have hstep : c.step r (.read fd v) = some { r with
          io := (r.io.withKernel (r.io.kernel.setPipe c.pipe p)).put v.base bs, delivered := r.delivered ++ bs } := by
        simp only [Sending.step, hm, hload]
      exact ⟨_, hstep, hholds, hpos.trans htook.position, htook.bytes⟩
  | elsewhere count => exact ⟨_, rfl, h.took (Pipe.readBytes_spec count h.holds.ring)⟩

/-- **`sendfile` to a pipe neither loses nor duplicates bytes.** One call moves the
bytes at the position that were asked for and have room, and records as many. A run
of calls and reads in any order delivers, after what the pipe held, the file from
the position on, each byte once and in order. A call that fails, whatever it was
given, changes nothing. -/
theorem sendfile_exact (c : Sending) (s : Io) (hs : c.Holds s) :
    (∀ count, ∃ t, s.sendfile c.outFd c.inFd c.offsetPtr count = some (.ok (c.amount s count), t) ∧
      c.Sent s t (c.amount s count)) ∧
    (∀ ops, Lts.Meets c.step c.Apart ⟨s, 0, []⟩ ops → ∃ r, Lts.exec c.step ⟨s, 0, []⟩ ops = some r ∧
      c.position r.io = c.position s + r.sent ∧ c.position r.io ≤ c.data.length ∧
      r.delivered ++ c.unread r.io = c.unread s ++ (c.data.drop (c.position s)).take r.sent ∧
      (c.position r.io = c.data.length → c.unread r.io = [] →
        r.delivered = c.unread s ++ c.data.drop (c.position s))) ∧
    ∀ (s t : Io) outFd inFd offsetPtr count e, s.sendfile outFd inFd offsetPtr count = some (.error e, t) → t = s := by
  refine ⟨fun count => ?_, fun ops hops => ?_, fun s t outFd inFd offsetPtr count e h => Io.sendfile_failed h⟩
  · obtain ⟨t, hcall, hsent, -⟩ := sendfile_sends hs count
    exact ⟨t, hcall, hsent⟩
  · have hstart : c.Conserves s ⟨s, 0, []⟩ := ⟨hs, rfl, by simp⟩
    obtain ⟨r, hr, hc⟩ := Lts.exec_progress (c.Conserves s) (fun r op h hop => h.step hop) hstart hops
    refine ⟨r, hr, hc.position, hc.holds.inFile, hc.bytes, fun hend hempty => ?_⟩
    have hbytes := hc.bytes
    have hpos := hc.position
    rw [hempty, List.append_nil, List.take_of_length_le (by rw [List.length_drop]; omega)] at hbytes
    exact hbytes

/-- A file of three bytes behind descriptor 5, an empty pipe between 3 and 4, and an
offset of 1 in the caller's word. -/
def threeBytesSent : Sending := ⟨4, 5, 0x1000, 0, 0, [1, 2, 3]⟩

def threeBytesIo : Io where
  kernel :=
    { fileSharers with
      fs := some ⟨[⟨['a'], [1, 2, 3]⟩]⟩
      processes := fun _ => some { pipeHolder with fds := Function.update pipeHolder.fds 5 (.openFile 0) }
      pipes := fun _ => { Pipe.empty with readRefs := 1, writeRefs := 1, inUse := true } }
  tty := .new
  console := []
  user := storeWord (fun _ => 0) 0x1000 1

theorem sendfile_exact_threeBytes :
    ∃ r, Lts.exec threeBytesSent.step ⟨threeBytesIo, 0, []⟩ [.send 1, .read 3 ⟨0x2000, 8⟩, .send 5, .elsewhere 2] =
        some r ∧ threeBytesSent.position r.io = 1 + r.sent := by
  have hs : threeBytesSent.Holds threeBytesIo :=
    ⟨⟨by decide +kernel, by decide +kernel⟩, by decide +kernel, rfl, by decide, ⟨rfl, by decide⟩,
      ⟨by decide, by decide, by decide⟩, fun _ => by decide +kernel, by decide +kernel⟩
  obtain ⟨r, hr, hpos, -⟩ := (sendfile_exact threeBytesSent threeBytesIo hs).2.1
    [.send 1, .read 3 ⟨0x2000, 8⟩, .send 5, .elsewhere 2] ⟨trivial, fun r1 h1 => ⟨⟨by cases h1; rfl, by decide⟩,
      fun r2 _ => ⟨trivial, fun r3 _ => ⟨trivial, fun r4 _ => trivial⟩⟩⟩⟩
  exact ⟨r, hr, hpos⟩

end Sending

end CoreOS
