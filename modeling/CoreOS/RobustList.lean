/-
The robust list of a thread that ends (`wake_robust_futex` and
`release_robust_list` of `syscall/process.rs`).
-/
import CoreOS.Futex
import CoreOS.Lib.Loop

namespace CoreOS

open ByteMem

/-! ## One word -/

/-- The `u32` at `uaddr`. -/
def futexWord (user : Mem) (uaddr : Nat) : BitVec 32 := BitVec.ofNat 32 (ofBytes (load user uaddr 4))

/-- The word of a lock whose owner died. -/
def diedWord (word : BitVec 32) : BitVec 32 := (word &&& ~~~futexTidMask) ||| futexOwnerDied

theorem diedWord_diedWord (word : BitVec 32) : diedWord (diedWord word) = diedWord word := by
  have hdied : futexOwnerDied &&& ~~~futexTidMask = futexOwnerDied := by decide
  rw [diedWord, diedWord]
  ext i hi
  have hi' := congrArg (fun w : BitVec 32 => w[i]) hdied
  simp only [BitVec.getElem_and, BitVec.getElem_not] at hi'
  simp only [BitVec.getElem_or, BitVec.getElem_and, BitVec.getElem_not]
  cases word[i] <;> cases futexOwnerDied[i] <;> simp_all

variable {user user' : Mem} {uaddr : Nat}

theorem futexWord_congr (h : ∀ x, uaddr ≤ x → x < uaddr + 4 → user x = user' x) :
    futexWord user uaddr = futexWord user' uaddr := by
  rw [futexWord, futexWord, load_congr h]

theorem futexWord_store (user : Mem) (uaddr : Nat) (word : BitVec 32) :
    futexWord (store user uaddr (toBytes 4 word.toNat)) uaddr = word := by
  have hload := load_store user uaddr (toBytes 4 word.toNat)
  rw [toBytes_length] at hload
  apply BitVec.eq_of_toNat_eq
  rw [futexWord, hload, ofBytes_toBytes, BitVec.toNat_ofNat]
  have := word.isLt
  omega

theorem wakeRobustFutex_user (waiters : FutexTable) (user : Mem) (tid : BitVec 32) (hr : userRangeOk uaddr 4 = true) :
    (wakeRobustFutex waiters user uaddr tid).2 =
      if futexWord user uaddr &&& futexTidMask = tid then
        store user uaddr (toBytes 4 (diedWord (futexWord user uaddr)).toNat)
      else user := by
  have hcopy : copyU32FromUser user uaddr = some (futexWord user uaddr) := by
    rw [copyU32FromUser, copyFromUser, if_pos hr]
    rfl
  unfold wakeRobustFutex
  rw [hcopy]
  dsimp only
  by_cases htid : futexWord user uaddr &&& futexTidMask = tid
  · rw [if_neg (not_not.mpr htid), if_pos htid]
    dsimp only
    rw [putU32ToUser, copyToUser, toBytes_length, if_pos hr]
    rfl
  · rw [if_pos htid, if_neg htid]

/-! ## The words looked at so far -/

/-- The low 30 bits are the thread's. -/
def OwnedBy (tid : BitVec 32) (user : Mem) (uaddr : Nat) : Prop := futexWord user uaddr &&& futexTidMask = tid

/-- `user'` is `user` with the owned words among `done` marked. -/
structure Released (tid : BitVec 32) (done : List Nat) (user user' : Mem) : Prop where
  words : ∀ a ∈ done, OwnedBy tid user a → futexWord user' a = diedWord (futexWord user a)
  other : ∀ x, (∀ a ∈ done, OwnedBy tid user a → x < a ∨ a + 4 ≤ x) → user' x = user x

/-- The two words are one, or have no byte in common. -/
def SameOrApart (a b : Nat) : Prop := a = b ∨ a + 4 ≤ b ∨ b + 4 ≤ a

namespace Released

variable {tid : BitVec 32} {done : List Nat} {user user' : Mem} {a : Nat}

theorem nil : Released tid [] user user := ⟨fun _ ha => absurd ha List.not_mem_nil, fun _ _ => rfl⟩

theorem word_same (h : Released tid done user user') (hapart : ∀ b ∈ done, SameOrApart b a)
    (hnew : ¬ (a ∈ done ∧ OwnedBy tid user a)) : futexWord user' a = futexWord user a := by
  refine futexWord_congr fun x h1 h2 => h.other x fun b hb hown => ?_
  rcases hapart b hb with rfl | hba
  · exact absurd ⟨hb, hown⟩ hnew
  · omega

theorem skip (h : Released tid done user user')
    (hword : OwnedBy tid user a → futexWord user' a = diedWord (futexWord user a)) :
    Released tid (done ++ [a]) user user' := by
  refine ⟨fun b hb hown => ?_, fun x hx => h.other x fun b hb => hx b (List.mem_append_left _ hb)⟩
  rcases List.mem_append.mp hb with hb | hb
  · exact h.words b hb hown
  · obtain rfl := List.mem_singleton.mp hb
    exact hword hown

theorem mark (h : Released tid done user user') (hapart : ∀ b ∈ done, SameOrApart b a) (hown : OwnedBy tid user a) :
    Released tid (done ++ [a]) user (store user' a (toBytes 4 (diedWord (futexWord user a)).toNat)) := by
  refine ⟨fun b hb hb' => ?_, fun x hx => ?_⟩
  · by_cases hba : b = a
    · subst hba
      rw [futexWord_store]
    · have hdone : b ∈ done := (List.mem_append.mp hb).resolve_right fun hb => hba (List.mem_singleton.mp hb)
      have hoff := (hapart b hdone).resolve_left hba
      rw [← h.words b hdone hb']
      exact futexWord_congr fun x h1 h2 => store_out (by rw [toBytes_length]; omega)
  · have hout := hx a (List.mem_append_right _ (List.mem_singleton_self a)) hown
    rw [store_out (by rwa [toBytes_length])]
    exact h.other x fun b hb => hx b (List.mem_append_left _ hb)

/-- **One word more.** A word met for the second time is left as it is, or
marked again, which changes nothing. -/
theorem wake (h : Released tid done user user') (waiters : FutexTable) (hr : userRangeOk a 4 = true)
    (hapart : ∀ b ∈ done, SameOrApart b a) :
    Released tid (done ++ [a]) user (wakeRobustFutex waiters user' a tid).2 := by
  rw [wakeRobustFutex_user waiters user' tid hr]
  by_cases hseen : a ∈ done ∧ OwnedBy tid user a
  · have hword := h.words a hseen.1 hseen.2
    split
    · rw [hword, diedWord_diedWord]
      exact h.mark hapart hseen.2
    · exact h.skip fun _ => hword
  · have hword := h.word_same hapart hseen
    rw [hword]
    split
    next hown => exact h.mark hapart hown
    next hown => exact h.skip fun hown' => absurd hown' hown

end Released

/-! ## The walk -/

/-- The local variables of the loop of `release_robust_list`. -/
structure RobustWalk where
  nodePtr : Nat
  seen : Nat
  waiters : FutexTable
  user : Mem

/-- One turn of the loop. It is left by its condition, or where a node cannot be
read. -/
def RobustWalk.turn (head : RobustListHead) (headPtr : Nat) (tid : BitVec 32) (w : RobustWalk) :
    RobustWalk ⊕ (FutexTable × Mem) :=
  if w.nodePtr ≠ 0 ∧ w.nodePtr ≠ headPtr ∧ w.seen < robustListLimit then
    let woken := wakeRobustFutex w.waiters w.user (head.futexAddr w.nodePtr) tid
    match copyRobustListFromUser woken.2 w.nodePtr with
    | none => .inr woken
    | some next => .inl ⟨next, w.seen + 1, woken.1, woken.2⟩
  else .inr (w.waiters, w.user)

variable {head : RobustListHead} {headPtr : Nat} {tid : BitVec 32}

/-- The links from `nodePtr` on lead over `nodes` to the head, or to 0. -/
inductive RobustChain (user : Mem) (headPtr : Nat) : Nat → List Nat → Prop
  | done {nodePtr : Nat} (hend : nodePtr = 0 ∨ nodePtr = headPtr) : RobustChain user headPtr nodePtr []
  | node {nodePtr next : Nat} {nodes : List Nat} (hnode : ¬ (nodePtr = 0 ∨ nodePtr = headPtr))
      (hnext : copyRobustListFromUser user nodePtr = some next) (hrest : RobustChain user headPtr next nodes) :
      RobustChain user headPtr nodePtr (nodePtr :: nodes)

/-- Where the word of a node is, as an integer. -/
def RobustListHead.wordAt (head : RobustListHead) (node : Nat) : Int := node + head.futexOffset

def RobustListHead.word (head : RobustListHead) (node : Nat) : Nat := (head.wordAt node).toNat

/-- The nodes whose words are looked at: those of the list, then the pending
one. -/
def RobustListHead.lookedAt (head : RobustListHead) (nodes : List Nat) : List Nat :=
  nodes ++ if head.listOpPending = 0 then [] else [head.listOpPending]

/-- A robust list as user code is to keep it. -/
structure RobustListOK (user : Mem) (headPtr : Nat) (head : RobustListHead) (nodes : List Nat) : Prop where
  chain : RobustChain user headPtr head.next nodes
  short : nodes.length ≤ robustListLimit
  inRange : ∀ node ∈ head.lookedAt nodes, 0 ≤ head.wordAt node ∧ userRangeOk (head.word node) 4 = true
  apart : ∀ node ∈ head.lookedAt nodes, ∀ node' ∈ head.lookedAt nodes,
    SameOrApart (head.word node) (head.word node')
  offLinks : ∀ node ∈ head.lookedAt nodes, ∀ link ∈ nodes,
    head.word node + 4 ≤ link ∨ link + 8 ≤ head.word node

theorem RobustListHead.futexAddr_eq {node : Nat} (hpos : 0 ≤ head.wordAt node)
    (hr : userRangeOk (head.word node) 4 = true) : head.futexAddr node = head.word node := by
  have hlt := (userRangeOk_iff.mp hr).1
  have htop : userTop < usizeMod := by decide
  unfold futexAddr
  unfold word wordAt at *
  split
  · rw [saturatingAdd]
    omega
  · omega

theorem copyRobustListFromUser_congr {ptr : Nat} (h : ∀ x, ptr ≤ x → x < ptr + 8 → user x = user' x) :
    copyRobustListFromUser user ptr = copyRobustListFromUser user' ptr := by
  rw [copyRobustListFromUser, copyRobustListFromUser, copyFromUser, copyFromUser, load_congr h]

theorem Released.robustListLoop {left nodePtr : Nat} {nodes done : List Nat} (waiters : FutexTable)
    (hchain : RobustChain user headPtr nodePtr nodes) (hleft : nodes.length ≤ left)
    (h : Released tid (done.map head.word) user user')
    (hrange : ∀ node ∈ nodes, 0 ≤ head.wordAt node ∧ userRangeOk (head.word node) 4 = true)
    (hapart : ∀ node ∈ done ++ nodes, ∀ node' ∈ nodes, SameOrApart (head.word node) (head.word node'))
    (hoff : ∀ node ∈ done ++ nodes, ∀ link ∈ nodes, head.word node + 4 ≤ link ∨ link + 8 ≤ head.word node) :
    Released tid ((done ++ nodes).map head.word) user
      (robustListLoop head headPtr tid left nodePtr waiters user').2 := by
  induction hchain generalizing left done user' waiters with
  | done hend =>
    rw [List.append_nil]
    cases left with
    | zero => exact h
    | succ left =>
      rw [CoreOS.robustListLoop, if_pos hend]
      exact h
  | @node nodePtr next nodes hnode hnext hrest ih =>
    obtain ⟨left, rfl⟩ : ∃ l, left = l + 1 := ⟨left - 1, by rw [List.length_cons] at hleft; omega⟩
    obtain ⟨hpos, hr⟩ := hrange nodePtr List.mem_cons_self
    have happ : done ++ nodePtr :: nodes = (done ++ [nodePtr]) ++ nodes := by rw [List.append_assoc]; rfl
    have hone := h.wake waiters hr fun b hb => by
      obtain ⟨node, hnode, rfl⟩ := List.mem_map.mp hb
      exact hapart node (List.mem_append_left _ hnode) nodePtr List.mem_cons_self
    have hmap : (done ++ [nodePtr]).map head.word = done.map head.word ++ [head.word nodePtr] := List.map_append
    rw [← hmap, ← RobustListHead.futexAddr_eq hpos hr] at hone
    rw [CoreOS.robustListLoop, if_neg hnode]
    dsimp only
    have hlink : copyRobustListFromUser (wakeRobustFutex waiters user' (head.futexAddr nodePtr) tid).2 nodePtr =
        some next := by
      rw [← hnext]
      refine copyRobustListFromUser_congr fun x h1 h2 => hone.other x fun b hb _ => ?_
      obtain ⟨node, hmem, rfl⟩ := List.mem_map.mp hb
      have := hoff node (by rw [happ]; exact List.mem_append_left _ hmem) nodePtr List.mem_cons_self
      omega
    rw [hlink, happ]
    rw [happ] at hapart hoff
    exact ih _ (Nat.le_of_succ_le_succ hleft) hone (fun node hmem => hrange node (List.mem_cons_of_mem _ hmem))
      (fun node hmem node' hmem' => hapart node hmem node' (List.mem_cons_of_mem _ hmem'))
      fun node hmem link hlink => hoff node hmem link (List.mem_cons_of_mem _ hlink)

theorem Released.releaseRobustList {thread : Thread} {nodes : List Nat} (waiters : FutexTable)
    (hset : thread.robustListHead ≠ 0) (hlen : thread.robustListLen = robustListHeadSize)
    (hhead : copyRobustListHeadFromUser user thread.robustListHead = some head)
    (hok : RobustListOK user thread.robustListHead head nodes) :
    Released (BitVec.ofNat 32 thread.tid) ((head.lookedAt nodes).map head.word) user
      (releaseRobustList (some thread) waiters user).2 := by
  have hmem : ∀ node ∈ [] ++ nodes, node ∈ head.lookedAt nodes := fun _ h => List.mem_append_left _ h
  have hnil : Released (BitVec.ofNat 32 thread.tid) (([] : List Nat).map head.word) user user := .nil
  have hloop := hnil.robustListLoop waiters hok.chain hok.short (fun node h => hok.inRange node (hmem node h))
    (fun node h node' h' => hok.apart node (hmem node h) node' (hmem node' h'))
    fun node h link hlink => hok.offLinks node (hmem node h) link hlink
  rw [List.nil_append] at hloop
  unfold CoreOS.releaseRobustList
  dsimp only
  rw [if_neg (by tauto), hhead]
  dsimp only
  by_cases hpending : head.listOpPending = 0
  · rw [if_neg (not_not.mpr hpending), RobustListHead.lookedAt, if_pos hpending, List.append_nil]
    exact hloop
  · have hlooked : head.lookedAt nodes = nodes ++ [head.listOpPending] := by
      rw [RobustListHead.lookedAt, if_neg hpending]
    have hlast : head.listOpPending ∈ head.lookedAt nodes := by simp [hlooked]
    obtain ⟨hpos, hr⟩ := hok.inRange _ hlast
    rw [if_pos hpending, RobustListHead.futexAddr_eq hpos hr, hlooked, List.map_append]
    refine hloop.wake _ hr fun b hb => ?_
    obtain ⟨node, hnode, rfl⟩ := List.mem_map.mp hb
    exact hok.apart node (hmem node hnode) _ hlast

end CoreOS
