/-
What the system calls share: their errors (`syscall/result.rs`) and the copies
from and to user memory (`usercopy.rs`, the struct copies of
`syscall/helpers.rs`).
-/
import CoreOS.Machine

namespace CoreOS

open ByteMem

inductive SysError
  | again
  | badFd
  | child
  | fault
  | invalid
  | noEntry
  | noMem
  | noSys
  | addrFamilyNotSupported
  | access
  | notSeekable
  | notTty
  | range
  | timedOut
  | unsupported
  deriving DecidableEq

/-- The number of an error. -/
def errnoCode : SysError → Nat
  | .badFd => 9
  | .again => 11
  | .child => 10
  | .fault => 14
  | .invalid => 22
  | .noEntry => 2
  | .noMem => 12
  | .noSys => 38
  | .addrFamilyNotSupported => 97
  | .access => 13
  | .notSeekable => 29
  | .notTty => 25
  | .range => 34
  | .timedOut => 110
  | .unsupported => 95

def errno (error : SysError) : Word := -BitVec.ofNat 64 (errnoCode error)

/-- `result::ret`: a result as the word the caller gets. -/
def ret : Except SysError Word → Word
  | .ok value => value
  | .error error => errno error

/-- `USER_TOP`. -/
def userTop : Nat := 0x0000800000000000

/-- `user_range_ok`. A sum that `checked_add` refuses is past `USER_TOP` too. -/
def userRangeOk (ptr len : Nat) : Bool := ptr < userTop && ptr + len ≤ userTop

theorem userRangeOk_iff {ptr len : Nat} : userRangeOk ptr len = true ↔ ptr < userTop ∧ ptr + len ≤ userTop := by
  rw [userRangeOk, Bool.and_eq_true, decide_eq_true_eq, decide_eq_true_eq]

def copyFromUser (user : Mem) (src len : Nat) : Option (List Byte) :=
  if userRangeOk src len then some (load user src len) else none

def copyToUser (user : Mem) (dst : Nat) (bytes : List Byte) : Option Mem :=
  if userRangeOk dst bytes.length then some (store user dst bytes) else none

/-- `copy_struct_from_user::<u32>`. -/
def copyU32FromUser (user : Mem) (ptr : Nat) : Option (BitVec 32) :=
  (copyFromUser user ptr 4).map fun bytes => BitVec.ofNat 32 (ofBytes bytes)

/-- `copy_struct_from_user` of a struct of `n` words. -/
def copyWordsFromUser (user : Mem) (ptr n : Nat) : Option (List Word) :=
  if userRangeOk ptr (8 * n) then some (loadWords user ptr n) else none

/-- `copy_struct_to_user` of a struct of words. -/
def copyWordsToUser (user : Mem) (ptr : Nat) (ws : List Word) : Option Mem :=
  if userRangeOk ptr (8 * ws.length) then some (storeWords user ptr ws) else none

end CoreOS
