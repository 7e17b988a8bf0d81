/-
The first stack frame of a program (`build_initial_stack` of `proc/exec.rs`), read
back as a program reads it.
-/
import CoreOS.Exec
import CoreOS.MmapPages

namespace CoreOS

open ByteMem

/-! ## The memory of a program -/

/-- The memory as a program sees it, `0` where there is no page. -/
def Phys.userMem (s : Phys) (pml4 : Nat) : Mem := fun x => if x < userTop then (userByte s pml4 x).getD 0 else 0

/-- There are pages for the addresses from `lo` to `hi`. -/
def Readable (s : Phys) (pml4 lo hi : Nat) : Prop := ∀ x, lo ≤ x → x < hi → (userByte s pml4 x).isSome = true

/-- `bytes` were stored at `a` in the memory of the program. -/
structure Wrote (t t' : Phys) (root a : Nat) (bytes : List Byte) : Prop where
  step : SpaceStep t t' root
  mem : t'.userMem (root * pageSize) = store (t.userMem (root * pageSize)) a bytes
  readable : ∀ x < userTop, (userByte t (root * pageSize) x).isSome = true →
    (userByte t' (root * pageSize) x).isSome = true

section Push

variable {t t' : Phys} {root lo hi : Nat}

theorem Wrote.readable_range {a : Nat} {bytes : List Byte} (h : Wrote t t' root a bytes) (hhi : hi ≤ userTop)
    (hr : Readable t (root * pageSize) lo hi) : Readable t' (root * pageSize) lo hi :=
  fun x h1 h2 => h.readable x (Nat.lt_of_lt_of_le h2 hhi) (hr x h1 h2)

theorem Wrote.page {a : Nat} {e : Word} {bytes : List Byte} (h : UserSpace t root) (ha : a < userTop)
    (he : pageEntry t.mem root (pageNo a) = some e) (hle : a % pageSize + bytes.length ≤ pageSize) :
    Wrote t (t.setMem (store t.mem (leafFrame e * pageSize + a % pageSize) bytes)) root a bytes := by
  have hbyte : ∀ x < userTop, userByte (t.setMem (store t.mem (leafFrame e * pageSize + a % pageSize) bytes))
      (root * pageSize) x =
        if a ≤ x ∧ x < a + bytes.length then bytes[x - a]? else userByte t (root * pageSize) x := by
    intro x hx
    have hbase : pageBase a < userTop := by unfold pageBase; omega
    have hpage : pageNo x = pageNo a ↔ _ := pageNo_pageBase a ▸ pageNo_eq_iff hx hbase (pageBase_aligned a)
    have hiff : (pageNo x = pageNo a ∧ a % pageSize ≤ x % pageSize ∧ x % pageSize < a % pageSize + bytes.length) ↔
        (a ≤ x ∧ x < a + bytes.length) := by
      rw [hpage]
      unfold pageBase pageSize at *
      omega
    rw [userByte_store h (pageNo_user ha) he hle hx]
    by_cases hin : a ≤ x ∧ x < a + bytes.length
    · have hpg := hiff.mpr hin
      have hidx : x % pageSize - a % pageSize = x - a := by
        have := hpage.mp hpg.1
        unfold pageBase pageSize at *
        omega
      rw [if_pos hpg, if_pos hin, hidx]
    · rw [if_neg hin, if_neg (mt hiff.mp hin)]
  refine ⟨h.storeStep (pageNo_user ha) he hle, ?_, fun x hx hsome => ?_⟩
  · funext x
    unfold Phys.userMem
    by_cases hx : x < userTop
    · rw [if_pos hx, hbyte x hx]
      by_cases hin : a ≤ x ∧ x < a + bytes.length
      · have hlt : x - a < bytes.length := by omega
        rw [if_pos hin, store, if_pos hin.1, List.getD_eq_getElem?_getD, List.getElem?_eq_getElem hlt]
        rfl
      · rw [if_neg hin, store_out (by omega), if_pos hx]
    · have hend : a + bytes.length ≤ userTop := by
        have htop : userTop % pageSize = 0 := by decide
        unfold pageSize at *
        omega
      rw [if_neg hx, store_out (by omega), if_neg hx]
  · rw [hbyte x hx]
    split
    next hin => rw [List.getElem?_eq_getElem (by omega)]; rfl
    · exact hsome

theorem Wrote.append {t'' : Phys} {a : Nat} {xs ys : List Byte} (h1 : Wrote t t' root a xs)
    (h2 : Wrote t' t'' root (a + xs.length) ys) : Wrote t t'' root a (xs ++ ys) where
  step := h1.step.trans h2.step
  mem := by rw [h2.mem, h1.mem, store_append]
  readable x hx hsome := h2.readable x hx (h1.readable x hx hsome)

theorem Wrote.nil {a : Nat} (h : UserSpace t root) : Wrote t t root a [] where
  step := .refl h
  mem := by funext x; rw [store_out (by simp only [List.length_nil]; omega)]
  readable _ _ hsome := hsome

/-- **`write_user_bytes`**, chunk by chunk: the bytes are one block for the program,
whichever pages they fall on. -/
theorem writeUserBytes_wrote (mem : Mem) : ∀ (fuel : Nat) {a : Nat} {bytes : List Byte} {t : Phys}, bytes.length ≤ fuel →
    UserSpace t root → a + bytes.length ≤ userTop → Readable t (root * pageSize) a (a + bytes.length) →
    ∃ t', Phys.writeUserBytes (root * pageSize) fuel a bytes (t.withUpper root mem) = (true, t'.withUpper root mem) ∧
      Wrote t t' root a bytes
  | 0, a, bytes, t, hfuel, h, _, _ => by
    obtain rfl : bytes = [] := List.eq_nil_of_length_eq_zero (Nat.le_zero.mp hfuel)
    exact ⟨t, rfl, .nil h⟩
  | fuel + 1, a, bytes, t, hfuel, h, htop, hr => by
    unfold Phys.writeUserBytes
    split
    next hnil => exact ⟨t, rfl, hnil ▸ .nil h⟩
    next hne =>
      have hpos : 0 < bytes.length := List.length_pos_iff.mpr hne
      have ha : a < userTop := by omega
      have hsome := hr a (Nat.le_refl a) (by omega)
      rw [h.userByte ha, Option.isSome_map] at hsome
      obtain ⟨e, he⟩ := Option.isSome_iff_exists.mp hsome
      rw [translatePage_withUpper h.wf (pageNo_user ha), h.translatePage (pageNo_user ha), he, Option.map_some]
      dsimp only
      have hmod : a % pageSize < pageSize := Nat.mod_lt _ (by decide)
      generalize hchunk : min (pageSize - a % pageSize) bytes.length = chunk
      have htake : (bytes.take chunk).length = chunk := by rw [List.length_take]; omega
      have hnext : wrappingAdd a chunk = a + chunk := by
        apply wrappingAdd_of_lt
        unfold userTop at htop
        unfold usizeMod
        omega
      have hle : a % pageSize + (bytes.take chunk).length ≤ pageSize := by omega
      have hroot : leafFrame e ≠ root := fun heq =>
        h.noTable _ e [] (pageNo_user ha) he (by simp) (by rw [tableAt, Radix.walk_nil, heq])
      have hone := Wrote.page h ha he hle
      have hdrop : a + chunk + (bytes.drop chunk).length = a + bytes.length := by rw [List.length_drop]; omega
      obtain ⟨t', hrest, hwrote⟩ := writeUserBytes_wrote mem fuel (show (bytes.drop chunk).length ≤ fuel by
        rw [List.length_drop]; omega) hone.step.space (hdrop ▸ htop)
        (hone.readable_range (hdrop ▸ htop) fun x h1 h2 => hr x (by omega) (by omega))
      rw [hnext, store_withUpper hroot hle]
      refine ⟨t', hrest, ?_⟩
      have happ := hone.append (show Wrote _ t' root (a + (bytes.take chunk).length) _ by rw [htake]; exact hwrote)
      rwa [List.take_append_drop] at happ

theorem pushUserBytes_wrote (mem : Mem) {sp dst : Nat} {bytes : List Byte} {align : Nat} (h : UserSpace t root)
    (hr : Readable t (root * pageSize) lo hi) (hhi : hi ≤ userTop) (hsp : sp ≤ hi) (hlen : bytes.length ≤ sp)
    (hdst : sp - bytes.length - (sp - bytes.length) % align = dst) (hlo : lo ≤ dst) :
    ∃ t', Phys.pushUserBytes (root * pageSize) sp bytes align (t.withUpper root mem) = (some dst, t'.withUpper root mem) ∧
      Wrote t t' root dst bytes := by
  have hroom : Readable t (root * pageSize) dst (dst + bytes.length) := fun x h1 h2 => hr x (by omega) (by omega)
  obtain ⟨t', hwrite, hwrote⟩ := writeUserBytes_wrote mem bytes.length (Nat.le_refl _) h (by omega) hroom
  refine ⟨t', ?_, hwrote⟩
  unfold Phys.pushUserBytes
  rw [if_neg (by omega), hdst]
  dsimp only
  rw [hwrite]

/-- Words pushed are found below the old stack pointer, the last one first. -/
structure WroteWords (t t' : Phys) (root sp : Nat) (ws : List Word) : Prop where
  step : SpaceStep t t' root
  words : loadWords (t'.userMem (root * pageSize)) (sp - 8 * ws.length) ws.length = ws.reverse
  other : ∀ x, x < sp - 8 * ws.length ∨ sp ≤ x → t'.userMem (root * pageSize) x = t.userMem (root * pageSize) x
  readable : ∀ x < userTop, (userByte t (root * pageSize) x).isSome = true →
    (userByte t' (root * pageSize) x).isSome = true

theorem pushUserWords_wrote (mem : Mem) (ws : List Word) {sp : Nat} (h : UserSpace t root) (hr : Readable t (root * pageSize) lo hi)
    (hhi : hi ≤ userTop) (hsp : sp ≤ hi) (halign : sp % 8 = 0) (hlo : lo + 8 * ws.length ≤ sp) :
    ∃ t', Phys.pushUserWords (root * pageSize) ws sp (t.withUpper root mem) =
        (some (sp - 8 * ws.length), t'.withUpper root mem) ∧ WroteWords t t' root sp ws := by
  induction ws generalizing sp t with
  | nil => exact ⟨t, rfl, .refl h, rfl, fun _ _ => rfl, fun _ _ hx => hx⟩
  | cons w ws ih =>
    rw [List.length_cons, Nat.mul_add] at hlo
    have hdst : sp - (toBytes 8 w.toNat).length - (sp - (toBytes 8 w.toNat).length) % 8 = sp - 8 := by
      rw [toBytes_length]
      omega
    obtain ⟨t1, hpush, hone⟩ := pushUserBytes_wrote mem h hr hhi hsp (by rw [toBytes_length]; omega) hdst (by omega)
    obtain ⟨t', hrest, hwords⟩ := ih hone.step.space (hone.readable_range hhi hr) (show sp - 8 ≤ hi by omega) (by omega)
      (by omega)
    have hlow : sp - 8 - 8 * ws.length = sp - 8 * (ws.length + 1) := by omega
    refine ⟨t', ?_, hone.step.trans hwords.step, ?_, fun x hx => ?_,
      fun x hx hsome => hwords.readable x hx (hone.readable x hx hsome)⟩
    · rw [Phys.pushUserWords, Phys.pushUserU64, hpush, List.length_cons, ← hlow]
      exact hrest
    · have hlast : loadWord (t'.userMem (root * pageSize)) (sp - 8) = w := by
        rw [loadWord_congr fun x h1 _ => hwords.other x (.inr h1), hone.mem]
        exact loadWord_storeWord
      have hplace : sp - 8 - 8 * ws.length + 8 * ws.length = sp - 8 := by omega
      rw [List.length_cons, loadWords_succ, ← hlow, hwords.words, hplace, hlast, List.reverse_cons]
    · rw [List.length_cons] at hx
      rw [hwords.other x (by omega), hone.mem, store_out (by rw [toBytes_length]; omega)]

end Push

/-! ## The startup layout -/

/-- What a program finds at its start, by the startup layout of System V. -/
structure Startup where
  argc : Word
  argv : List Word
  envp : List Word
  auxv : List AuxEntry

/-- The auxiliary vector, up to its `AT_NULL` and with it. -/
def readAuxv : List Word → Option (List AuxEntry)
  | key :: value :: rest => if key = atNull then some [⟨key, value⟩] else (readAuxv rest).map (⟨key, value⟩ :: ·)
  | _ => none

/-- The words from the stack pointer upwards: the number of arguments, so many
arguments and a null word, the environment up to a null word, and the auxiliary
vector. -/
def readStartup : List Word → Option Startup
  | [] => none
  | argc :: rest =>
    let env := rest.drop (argc.toNat + 1)
    let envp := env.takeWhile (· ≠ 0)
    if rest[argc.toNat]? = some 0 then
      (readAuxv (env.drop (envp.length + 1))).map fun auxv => ⟨argc, rest.take argc.toNat, envp, auxv⟩
    else none

theorem readStartup_oneArg (arg : Word) (ws : List Word) :
    readStartup (1 :: arg :: 0 :: 0 :: ws) = (readAuxv ws).map fun auxv => ⟨1, [arg], [], auxv⟩ := by
  simp [readStartup]

theorem readAuxv_append {es : List AuxEntry} (hes : ∀ e ∈ es, e.key ≠ atNull) (value : Word) (rest : List Word) :
    readAuxv (es.flatMap (fun e => [e.key, e.value]) ++ atNull :: value :: rest) = some (es ++ [⟨atNull, value⟩]) := by
  induction es with
  | nil => rw [List.flatMap_nil, List.nil_append, readAuxv, if_pos rfl, List.nil_append]
  | cons e es ih =>
    have hrest := ih fun e he => hes e (List.mem_cons_of_mem _ he)
    rw [List.flatMap_cons, List.append_assoc, List.cons_append, List.cons_append, List.nil_append, readAuxv,
      if_neg (hes e List.mem_cons_self), hrest]
    rfl

namespace Phys

theorem stackWords_reverse (aux : List AuxEntry) (execfnPtr : Nat) :
    (stackWords aux execfnPtr).reverse =
      1 :: BitVec.ofNat 64 execfnPtr :: 0 :: 0 :: aux.flatMap fun e => [e.key, e.value] := by
  simp [stackWords, List.reverse_flatMap, Function.comp_def]

theorem stackWords_length (image : LoadedImage) (process : Option Process) (randomPtr execfnPtr : Nat) :
    (stackWords (auxv image process randomPtr execfnPtr) execfnPtr).length = 30 := rfl

theorem readStartup_stackWords (image : LoadedImage) (process : Option Process) (randomPtr execfnPtr : Nat)
    (rest : List Word) :
    readStartup ((stackWords (auxv image process randomPtr execfnPtr) execfnPtr).reverse ++ rest) =
      some ⟨1, [BitVec.ofNat 64 execfnPtr], [], auxv image process randomPtr execfnPtr⟩ := by
  obtain ⟨es, hes, hkeys⟩ : ∃ es, auxv image process randomPtr execfnPtr = es ++ [⟨atNull, 0⟩] ∧
      ∀ e ∈ es, e.key ≠ atNull := by
    refine ⟨(auxv image process randomPtr execfnPtr).take 12, rfl, ?_⟩
    simp only [auxv, List.take_succ_cons, List.take_zero, List.forall_mem_cons]
    exact ⟨by decide, by decide, by decide, by decide, by decide, by decide, by decide, by decide, by decide, by decide,
      by decide, by decide, fun e he => by cases he⟩
  have haux : readAuxv ((es ++ [(⟨atNull, 0⟩ : AuxEntry)]).flatMap (fun e => [e.key, e.value]) ++ rest) =
      some (es ++ [⟨atNull, 0⟩]) := by
    rw [List.flatMap_append, List.append_assoc]
    exact readAuxv_append hkeys 0 rest
  rw [stackWords_reverse, hes]
  simp only [List.cons_append]
  rw [readStartup_oneArg, haux]
  rfl

end Phys

/-! ## The frame as a whole -/

/-- The lowest address of the stack. -/
def userStackBase : Nat := userStackTop - userStackPages * pageSize

/-- What a program of this name finds from `sp` on: the startup layout with its one
argument at `argv0`, which is its path, and with the random bytes at `random`. -/
structure StackDecodes (s : Phys) (pml4 sp argv0 random : Nat) (name : List Char) (image : LoadedImage)
    (process : Option Process) : Prop where
  aligned : sp % 16 = 0
  base : userStackBase ≤ sp
  readable : Readable s pml4 sp userStackTop
  startup : readStartup (loadWords (s.userMem pml4) sp ((userStackTop - sp) / 8)) =
    some ⟨1, [BitVec.ofNat 64 argv0], [], Phys.auxv image process random argv0⟩
  path : load (s.userMem pml4) argv0 (min name.length 64 + 2) =
    0x2F :: (name.take 64).map (fun ch => BitVec.ofNat 8 ch.toNat) ++ [0]
  bytes : load (s.userMem pml4) random 16 = Phys.randomBytes
  -- the words, the random bytes and the path lie one above the other
  randomAbove : sp + 8 * (4 + 2 * (Phys.auxv image process random argv0).length) ≤ random
  pathAbove : random + 16 ≤ argv0
  pathEnd : argv0 + (min name.length 64 + 2) = userStackTop

theorem execfn_length (name : List Char) : (Phys.execfn name).length = min name.length 64 + 2 := by
  simp only [Phys.execfn, List.length_append, List.length_cons, List.length_map, List.length_take, List.length_nil]
  unfold exePathMax
  omega

theorem load_of_store {m m' : Mem} {a : Nat} {bytes : List Byte}
    (h : ∀ x, a ≤ x → x < a + bytes.length → m' x = store m a bytes x) : load m' a bytes.length = bytes := by
  rw [load_congr h, load_store]

theorem UserSpace.initialStack {t : Phys} {root : Nat} (mem : Mem) (h : UserSpace t root) (name : List Char) (image : LoadedImage)
    (process : Option Process) (hr : Readable t (root * pageSize) userStackBase userStackTop) :
    ∃ sp argv0 random t', (t.withUpper root mem).buildInitialStack (root * pageSize) userStackTop name image process =
        (some sp, t'.withUpper root mem) ∧
      SpaceStep t t' root ∧ StackDecodes t' (root * pageSize) sp argv0 random name image process := by
  have hhi : userStackTop ≤ userTop := by decide
  have hbase : userStackBase = 0x7FFF0000 := by decide
  have htop : userStackTop = 0x80000000 := rfl
  have hlen := execfn_length name
  generalize hn : min name.length 64 + 2 = n at hlen
  have hn66 : n ≤ 66 := by omega
  -- the path
  generalize hargv : userStackTop - n = argv0
  have hdst1 : userStackTop - (Phys.execfn name).length - (userStackTop - (Phys.execfn name).length) % 1 = argv0 := by omega
  obtain ⟨t1, hpush1, hw1⟩ := pushUserBytes_wrote mem h hr hhi (Nat.le_refl _) (by omega) hdst1 (by omega)
  have hr1 := hw1.readable_range hhi hr
  -- the random bytes
  have hlen2 : Phys.randomBytes.length = 16 := rfl
  generalize hrandom : argv0 - 16 - (argv0 - 16) % 16 = random
  have hdst2 : argv0 - Phys.randomBytes.length - (argv0 - Phys.randomBytes.length) % 16 = random := by omega
  obtain ⟨t2, hpush2, hw2⟩ := pushUserBytes_wrote mem hw1.step.space hr1 hhi (by omega) (by omega) hdst2 (by omega)
  have hr2 := hw2.readable_range hhi hr1
  -- the words
  have hlen3 := Phys.stackWords_length image process random argv0
  obtain ⟨t3, hpush3, hw3⟩ := pushUserWords_wrote mem (Phys.stackWords (Phys.auxv image process random argv0) argv0)
    hw2.step.space hr2 hhi (show random ≤ userStackTop by omega) (by omega) (by omega)
  have hwords := hw3.words
  have hother := hw3.other
  rw [hlen3] at hpush3 hwords hother
  have hsp : (random - 8 * 30) % 16 = 0 := by omega
  refine ⟨random - 8 * 30, argv0, random, t3, ?_, hw1.step.trans (hw2.step.trans hw3.step), ?_⟩
  · unfold Phys.buildInitialStack Phys.pushBelowPath Phys.pushVectors
    rw [hpush1]
    dsimp only
    rw [hpush2]
    dsimp only
    rw [hpush3]
    dsimp only
    rw [hsp, Nat.sub_zero]
  · refine ⟨hsp, by omega, fun x h1 h2 => hw3.readable x (by omega) (hr2 x (by omega) h2), ?_, ?_, ?_, ?_, by omega, by omega⟩
    · obtain ⟨k, hk⟩ : ∃ k, (userStackTop - (random - 8 * 30)) / 8 = 30 + k :=
        ⟨(userStackTop - (random - 8 * 30)) / 8 - 30, by omega⟩
      rw [hk, loadWords_add, hwords, Phys.readStartup_stackWords]
    · rw [hn]
      have hload : load (t3.userMem (root * pageSize)) argv0 (Phys.execfn name).length = Phys.execfn name :=
        load_of_store fun x h1 h2 => by rw [hother x (by omega), hw2.mem, store_out (by omega), hw1.mem]
      rwa [hlen] at hload
    · have hload : load (t3.userMem (root * pageSize)) random Phys.randomBytes.length = Phys.randomBytes :=
        load_of_store fun x h1 h2 => by rw [hother x (by omega), hw2.mem]
      exact hload
    · have haux : (Phys.auxv image process random argv0).length = 13 := rfl
      rw [haux]
      omega

/-! ## With the kernel's half -/

section Upper

variable {s : Phys} {root : Nat}

theorem UserSpace.userMem_withUpper {t : Phys} {mem : Mem} (h : UserSpace t root) :
    (t.withUpper root mem).userMem (root * pageSize) = t.userMem (root * pageSize) := by
  funext x
  unfold Phys.userMem
  split
  next hx => rw [userByte_withUpper h hx]
  · rfl

theorem UserHalf.initialStack (h : UserHalf s root) (name : List Char) (image : LoadedImage) (process : Option Process)
    (hr : Readable s (root * pageSize) userStackBase userStackTop) :
    ∃ sp argv0 random s', s.buildInitialStack (root * pageSize) userStackTop name image process = (some sp, s') ∧
      StackDecodes s' (root * pageSize) sp argv0 random name image process := by
  have hlt : ∀ {x}, x < userStackTop → x < userTop := fun hx => Nat.lt_of_lt_of_le hx (by decide)
  have hlow : Readable (s.lowerHalf root) (root * pageSize) userStackBase userStackTop := fun x h1 h2 => by
    rw [← h.userByte (hlt h2)]
    exact hr x h1 h2
  obtain ⟨sp, argv0, random, t', hbuild, hstep, hdec⟩ := UserSpace.initialStack s.mem h name image process hlow
  rw [s.lowerHalf_withUpper] at hbuild
  have hmem : (t'.withUpper root s.mem).userMem (root * pageSize) = _ := hstep.space.userMem_withUpper
  refine ⟨sp, argv0, random, t'.withUpper root s.mem, hbuild, ?_⟩
  refine ⟨hdec.aligned, hdec.base, fun x h1 h2 => ?_, ?_, ?_, ?_, hdec.randomAbove, hdec.pathAbove, hdec.pathEnd⟩
  · rw [userByte_withUpper hstep.space (hlt h2)]
    exact hdec.readable x h1 h2
  · rw [hmem]
    exact hdec.startup
  · rw [hmem]
    exact hdec.path
  · rw [hmem]
    exact hdec.bytes

theorem UserHalf.mapUserStack {s' : Phys} (h : UserHalf s root)
    (hm : s.mapUserStack (root * pageSize) = some (none, s')) :
    UserHalf s' root ∧ Readable s' (root * pageSize) userStackBase userStackTop := by
  have halign : (userStackTop - userStackPages * pageSize) % pageSize = 0 := by decide
  have hend : userStackTop - userStackPages * pageSize + userStackPages * pageSize = userStackTop := by decide
  have htop : userStackTop ≤ userTop := by decide
  obtain ⟨-, -, -, -, hrange⟩ := h.mapPages halign (hend ▸ htop) hm
  refine ⟨hrange.half, fun x h1 h2 => ?_⟩
  rw [hrange.byte x (Nat.lt_of_lt_of_le h2 htop), Option.getD_none, if_pos ⟨h1, hend.symm ▸ h2⟩]
  rfl

end Upper

/-- **The initial stack decodes to what was meant.** In an address space whose lower
half is a tree of its own, with the sixteen pages of the stack mapped: for any name,
image and credentials `build_initial_stack` succeeds with a stack pointer that is a
multiple of 16. Read upwards from it the stack is the startup layout with one
argument, which is the path of the program, an empty environment and the auxiliary
vector; the random bytes lie between the words and the path. -/
theorem initial_stack_decodes (s : Phys) (root : Nat) (name : List Char) (image : LoadedImage)
    (process : Option Process) (h : UserHalf s root)
    (hr : Readable s (root * pageSize) userStackBase userStackTop) :
    ∃ sp argv0 random s', s.buildInitialStack (root * pageSize) userStackTop name image process = (some sp, s') ∧
      StackDecodes s' (root * pageSize) sp argv0 random name image process :=
  h.initialStack name image process hr

/-- An empty address space with a stack, and a program of a name of 70 characters. -/
theorem initial_stack_decodes_emptyTree : ∃ s, UserHalf s 1 ∧ Readable s (1 * pageSize) userStackBase userStackTop ∧
    ∃ sp argv0 random s',
      s.buildInitialStack (1 * pageSize) userStackTop (List.replicate 70 'n') ⟨0x400000, 0x400040, 56, 2⟩ none =
        (some sp, s') ∧
      StackDecodes s' (1 * pageSize) sp argv0 random (List.replicate 70 'n') ⟨0x400000, 0x400040, 56, 2⟩ none := by
  have hcard : 4 * userStackPages ≤ emptyTree.avail.card := by rw [emptyTree_avail]; decide
  obtain ⟨o, s, hm, ho⟩ := Phys.mapPages_returns (1 * pageSize) (userStackTop - userStackPages * pageSize)
    { writable := true, user := true, executable := false } none userStackPages 0 emptyTree (.inr hcard)
  rw [ho hcard] at hm
  obtain ⟨hhalf, hr⟩ := emptyTree_userHalf.mapUserStack hm
  exact ⟨s, hhalf, hr, initial_stack_decodes s 1 _ _ none hhalf hr⟩

end CoreOS
