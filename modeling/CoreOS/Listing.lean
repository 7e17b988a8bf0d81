/-
The listing of the files (`ls_impl` of `syscall/vfs.rs`).
-/
import CoreOS.SyscallVfs

namespace CoreOS

open ByteMem

/-! ## The call -/

/-- One of the loops: the bytes are written as long as there is room for one more and
the zero at the end. -/
def lsPut (buf bufLen : Nat) : List Byte → Nat × Mem → Nat × Mem
  | [], st => st
  | b :: bs, (pos, user) =>
    if bufLen ≤ pos + 1 then (pos, user)
    else lsPut buf bufLen bs (pos + 1, store user (buf + pos) [b])

/-- The digits of a number, the last one first, as many as there is room for. -/
def lsDigitLoop : Nat → Nat → List Byte
  | 0, _ => []
  | left + 1, value =>
    if value = 0 then [] else BitVec.ofNat 8 (0x30 + value % 10) :: lsDigitLoop left (value / 10)

def lsDigits (size : Nat) : List Byte := if size = 0 then [0x30] else lsDigitLoop 20 size

/-- One turn of the loop over the files. -/
def lsFile (buf bufLen : Nat) (st : Nat × Mem) (file : File) : Nat × Mem :=
  let st := lsPut buf bufLen (pathBytes file.name) st
  let st := lsPut buf bufLen (pathBytes [' ', '(']) st
  let st := lsPut buf bufLen (lsDigits file.data.length).reverse st
  lsPut buf bufLen (pathBytes [' ', 'b', 'y', 't', 'e', 's', ')'] ++ [0x0A]) st

/-- `ls_impl`. -/
def ls (fs : Option RamFS) (user : Mem) (bufPtr bufLen : Nat) : Except SysError Nat × Mem :=
  if ¬ userRangeOk bufPtr bufLen then (.error .fault, user)
  else
    let files := (Vfs.list fs).getD []
    let (pos, user) := files.foldl (lsFile bufPtr bufLen) (0, user)
    (.ok pos, if pos < bufLen then store user (bufPtr + pos) [0] else user)

/-! ## The listing -/

/-- The line of a file. -/
def listingLine (file : File) : List Byte :=
  pathBytes file.name ++ pathBytes [' ', '('] ++ pathBytes (Nat.toDigits 10 file.data.length) ++
    (pathBytes [' ', 'b', 'y', 't', 'e', 's', ')'] ++ [0x0A])

def listing (files : List File) : List Byte := files.flatMap listingLine

/-! ### The digits -/

theorem pathBytes_digitChar : ∀ d < 10, pathBytes [Nat.digitChar d] = [BitVec.ofNat 8 (0x30 + d)] := by decide

theorem lsDigitLoop_zero (left : Nat) : lsDigitLoop left 0 = [] := by
  cases left with
  | zero => rfl
  | succ left => rw [lsDigitLoop, if_pos rfl]

theorem lsDigitLoop_reverse {left value : Nat} (hpos : 0 < value) (hlt : value < 10 ^ left) :
    (lsDigitLoop left value).reverse = pathBytes (Nat.toDigits 10 value) := by
  induction left generalizing value with
  | zero =>
    rw [Nat.pow_zero] at hlt
    omega
  | succ left ih =>
    have hdigit := pathBytes_digitChar (value % 10) (Nat.mod_lt _ (by decide))
    rw [lsDigitLoop, if_neg (by omega), List.reverse_cons]
    by_cases hsmall : value < 10
    · rw [Nat.div_eq_of_lt hsmall, lsDigitLoop_zero, ← hdigit, Nat.mod_eq_of_lt hsmall,
        Nat.toDigits_of_lt_base hsmall]
      rfl
    · have hrest := ih (show 0 < value / 10 by omega) (Nat.div_lt_of_lt_mul (by rwa [Nat.pow_succ'] at hlt))
      have hsplit : Nat.toDigits 10 value = Nat.toDigits 10 (value / 10) ++ [Nat.digitChar (value % 10)] :=
        Nat.toDigits_of_base_le (by decide) (by omega)
      rw [hrest, ← hdigit, hsplit]
      simp only [pathBytes, List.map_append]

theorem lsDigits_reverse {size : Nat} (h : size < usizeMod) :
    (lsDigits size).reverse = pathBytes (Nat.toDigits 10 size) := by
  unfold lsDigits
  split
  next h0 =>
    subst h0
    rfl
  next h0 =>
    have hbound : usizeMod ≤ 10 ^ 20 := by decide
    exact lsDigitLoop_reverse (Nat.pos_of_ne_zero h0) (Nat.lt_of_lt_of_le h hbound)

/-! ### What has been written -/

/-- The position and the memory with `out` written, as far as it fits. -/
def listed (buf bufLen : Nat) (user : Mem) (out : List Byte) : Nat × Mem :=
  (min out.length (bufLen - 1), store user buf (out.take (bufLen - 1)))

section Listed

variable {buf bufLen : Nat} {user : Mem} {out : List Byte}

/-- **One loop more.** If the buffer is full the loop finds it so, whichever loop
filled it. -/
theorem listed_lsPut (bs : List Byte) :
    lsPut buf bufLen bs (listed buf bufLen user out) = listed buf bufLen user (out ++ bs) := by
  induction bs generalizing out with
  | nil => rw [lsPut, List.append_nil]
  | cons b bs ih =>
    rw [listed, lsPut]
    split
    next hfull =>
      have hle : bufLen - 1 ≤ out.length := by omega
      rw [listed, List.take_append_of_le_length hle, List.length_append]
      congr 1
      omega
    next hroom =>
      have hlt : out.length < bufLen - 1 := by omega
      have hone : listed buf bufLen user (out ++ [b]) =
          (min out.length (bufLen - 1) + 1,
            store (store user buf (out.take (bufLen - 1))) (buf + min out.length (bufLen - 1)) [b]) := by
        rw [listed, Nat.min_eq_left (Nat.le_of_lt hlt), List.take_of_length_le (Nat.le_of_lt hlt), store_append,
          List.take_of_length_le (by rw [List.length_append, List.length_singleton]; omega), List.length_append,
          List.length_singleton, Nat.min_eq_left (by omega)]
      rw [← hone, ih, List.append_assoc]
      rfl

theorem listed_lsFile {file : File} (h : file.data.length < usizeMod) :
    lsFile buf bufLen (listed buf bufLen user out) file = listed buf bufLen user (out ++ listingLine file) := by
  unfold lsFile
  dsimp only
  rw [listed_lsPut, listed_lsPut, listed_lsPut, listed_lsPut, lsDigits_reverse h]
  simp only [listingLine, List.append_assoc]

theorem listed_foldl {files : List File} (h : ∀ file ∈ files, file.data.length < usizeMod) :
    files.foldl (lsFile buf bufLen) (listed buf bufLen user out) = listed buf bufLen user (out ++ listing files) := by
  induction files generalizing out with
  | nil =>
    rw [List.foldl_nil, listing, List.flatMap_nil, List.append_nil]
  | cons file files ih =>
    rw [List.foldl_cons, listed_lsFile (h file List.mem_cons_self), ih fun f hf => h f (List.mem_cons_of_mem _ hf),
      List.append_assoc]
    rfl

end Listed

/-- The files there are, none without a filesystem. -/
def filesOf (fs : Option RamFS) : List File := (Vfs.list fs).getD []

/-- **`ls` writes the start of the listing.** For any files and any buffer in user
memory, what is written is the listing up to one byte less than the buffer has, and a
zero after it if there is a buffer at all; it lies in the buffer, nothing else is
changed, and the number of bytes before the zero is returned. A buffer outside user
memory is refused. -/
theorem ls_listing (fs : Option RamFS) (user : Mem) (bufPtr bufLen : Nat)
    (hsize : ∀ file ∈ filesOf fs, file.data.length < usizeMod) :
    (userRangeOk bufPtr bufLen = true →
      let n := min (listing (filesOf fs)).length (max bufLen 1 - 1)
      let written := (listing (filesOf fs)).take n ++ if 0 < bufLen then [0] else []
      ls fs user bufPtr bufLen = (.ok n, store user bufPtr written) ∧ written.length ≤ bufLen) ∧
    (userRangeOk bufPtr bufLen = false → ls fs user bufPtr bufLen = (.error .fault, user)) := by
  have hloop : (filesOf fs).foldl (lsFile bufPtr bufLen) (0, user) = listed bufPtr bufLen user (listing (filesOf fs)) := by
    have hstart : listed bufPtr bufLen user [] = (0, user) := by
      rw [listed, List.take_nil, List.length_nil, Nat.zero_min]
      congr 1
      funext x
      exact store_out (by rw [List.length_nil]; omega)
    rw [← hstart, listed_foldl hsize, List.nil_append]
  refine ⟨fun hr => ?_, fun hr => by rw [ls, if_pos (by rw [hr]; decide)]⟩
  dsimp only
  have hcap : max bufLen 1 - 1 = bufLen - 1 := by omega
  rw [hcap]
  generalize listing (filesOf fs) = out at hloop
  have hlen : (out.take (min out.length (bufLen - 1))).length = min out.length (bufLen - 1) := by
    rw [List.length_take]
    omega
  have htake : out.take (bufLen - 1) = out.take (min out.length (bufLen - 1)) := by
    rw [Nat.min_comm]
    exact List.take_eq_take_min
  have hls : ls fs user bufPtr bufLen = (.ok (min out.length (bufLen - 1)),
      if min out.length (bufLen - 1) < bufLen then
        store (store user bufPtr (out.take (bufLen - 1))) (bufPtr + min out.length (bufLen - 1)) [0]
      else store user bufPtr (out.take (bufLen - 1))) := by
    rw [ls, if_neg (not_not.mpr hr)]
    dsimp only
    rw [show (Vfs.list fs).getD [] = filesOf fs from rfl, hloop]
    rfl
  rw [hls, htake]
  by_cases hpos : 0 < bufLen
  · have happ := store_append user bufPtr (out.take (min out.length (bufLen - 1))) [0]
    rw [hlen] at happ
    rw [if_pos (by omega), if_pos hpos, happ, List.length_append, hlen, List.length_singleton]
    exact ⟨rfl, by omega⟩
  · rw [if_neg (by omega), if_neg hpos, List.append_nil, hlen]
    exact ⟨rfl, by omega⟩

/-- One file of three bytes and a buffer of nine, which cuts its line after `(3 b`. -/
theorem ls_listing_threeBytes :
    (∀ file ∈ filesOf (some ⟨[⟨['a', '.', 'b'], [1, 2, 3]⟩]⟩), file.data.length < usizeMod) ∧
      userRangeOk 4096 9 = true ∧
      ls (some ⟨[⟨['a', '.', 'b'], [1, 2, 3]⟩]⟩) (fun _ => 0xFF) 4096 9 =
        (.ok 8, store (fun _ => 0xFF) 4096 (pathBytes ['a', '.', 'b', ' ', '(', '3', ' ', 'b'] ++ [0])) := by
  have hsize : ∀ file ∈ filesOf (some ⟨[⟨['a', '.', 'b'], [1, 2, 3]⟩]⟩), file.data.length < usizeMod := by decide
  exact ⟨hsize, by decide,
    ((ls_listing (some ⟨[⟨['a', '.', 'b'], [1, 2, 3]⟩]⟩) (fun _ => 0xFF) 4096 9 hsize).1 (by decide)).1⟩

end CoreOS
