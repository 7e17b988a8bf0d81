/-
Byte-addressed memory: blocks of bytes stored, filled and copied, and
little-endian words laid over them.
-/
import Mathlib.Data.List.GetD
import Mathlib.Tactic.Ring

namespace ByteMem

abbrev Byte := BitVec 8

abbrev Word := BitVec 64

abbrev Mem := Nat → Byte

/-- The `n` bytes from `a`. -/
def load (m : Mem) (a n : Nat) : List Byte := (List.range n).map fun i => m (a + i)

/-- `bs` written from `a` on. -/
def store (m : Mem) (a : Nat) (bs : List Byte) : Mem := fun x =>
  if a ≤ x then bs.getD (x - a) (m x) else m x

/-- `n` bytes from `a` set to `b`. -/
def fill (m : Mem) (a n : Nat) (b : Byte) : Mem := fun x => if a ≤ x ∧ x < a + n then b else m x

/-- `n` bytes copied from `src` to `dst`. -/
def copy (m : Mem) (dst src n : Nat) : Mem := fun x =>
  if dst ≤ x ∧ x < dst + n then m (src + (x - dst)) else m x

variable {m : Mem} {a n : Nat}

theorem load_congr {m' : Mem} (h : ∀ x, a ≤ x → x < a + n → m x = m' x) :
    load m a n = load m' a n := by
  simp only [load, List.map_inj_left, List.mem_range]
  intro i hi
  exact h (a + i) (by omega) (by omega)

variable {x : Nat}

theorem store_out {bs : List Byte} (h : x < a ∨ a + bs.length ≤ x) :
    store m a bs x = m x := by
  simp only [store]
  split
  · rw [List.getD_eq_getElem?_getD, List.getElem?_eq_none (by omega)]
    rfl
  · rfl

theorem store_nil (m : Mem) (a : Nat) : store m a [] = m := by
  funext x
  exact store_out (by simp; omega)

theorem load_store (m : Mem) (a : Nat) (bs : List Byte) : load (store m a bs) a bs.length = bs := by
  apply List.ext_getElem (by simp [load])
  intro i h1 h2
  simp [load, store, h2]

theorem store_append (m : Mem) (a : Nat) (xs ys : List Byte) :
    store (store m a xs) (a + xs.length) ys = store m a (xs ++ ys) := by
  funext x
  simp only [store]
  by_cases h₁ : a + xs.length ≤ x
  · have hout : xs.getD (x - a) (m x) = m x := by
      rw [List.getD_eq_getElem?_getD, List.getElem?_eq_none (by omega)]
      rfl
    rw [if_pos h₁, if_pos (by omega), if_pos (by omega), hout, List.getD_append_right _ _ _ _ (by omega)]
    congr 1
    omega
  · rw [if_neg h₁]
    by_cases h₂ : a ≤ x
    · rw [if_pos h₂, if_pos h₂, List.getD_append _ _ _ _ (by omega)]
    · rw [if_neg h₂, if_neg h₂]

theorem fill_in {b : Byte} (h₁ : a ≤ x) (h₂ : x < a + n) : fill m a n b x = b := by
  simp [fill, h₁, h₂]

theorem fill_out {b : Byte} (h : x < a ∨ a + n ≤ x) : fill m a n b x = m x := by
  simp only [fill]
  split
  · omega
  · rfl

theorem copy_in {dst src i : Nat} (h : i < n) : copy m dst src n (dst + i) = m (src + i) := by
  simp [copy, h]

theorem copy_out {dst src : Nat} (h : x < dst ∨ dst + n ≤ x) : copy m dst src n x = m x := by
  simp only [copy]
  split
  · omega
  · rfl

/-! ## Little-endian words -/

/-- The low `n` bytes of `v`, lowest first. -/
def toBytes : Nat → Nat → List Byte
  | 0, _ => []
  | n + 1, v => BitVec.ofNat 8 v :: toBytes n (v / 256)

/-- The number a little-endian byte string denotes. -/
def ofBytes : List Byte → Nat
  | [] => 0
  | b :: bs => b.toNat + 256 * ofBytes bs

@[simp] theorem toBytes_length : ∀ {n v : Nat}, (toBytes n v).length = n
  | 0, _ => rfl
  | n + 1, _ => by simp [toBytes, toBytes_length (n := n)]

theorem ofBytes_toBytes : ∀ {n v : Nat}, ofBytes (toBytes n v) = v % 256 ^ n
  | 0, v => by simp [toBytes, ofBytes, Nat.mod_one]
  | n + 1, v => by
    simp only [toBytes, ofBytes, BitVec.toNat_ofNat, ofBytes_toBytes (n := n)]
    rw [pow_succ' 256 n, Nat.mod_mul]

theorem ofBytes_lt : ∀ bs : List Byte, ofBytes bs < 256 ^ bs.length
  | [] => Nat.one_pos
  | b :: bs => by
    have hb := b.isLt
    have hbs := ofBytes_lt bs
    rw [ofBytes, List.length_cons, pow_succ' 256 bs.length]
    omega

theorem ofBytes_replicate_zero : ∀ {n : Nat}, ofBytes (List.replicate n 0) = 0
  | 0 => rfl
  | n + 1 => by
    simp only [List.replicate_succ, ofBytes, ofBytes_replicate_zero (n := n)]
    rfl

/-- The 64-bit word at `a`. -/
def loadWord (m : Mem) (a : Nat) : Word := BitVec.ofNat 64 (ofBytes (load m a 8))

/-- `w` written at `a`. -/
def storeWord (m : Mem) (a : Nat) (w : Word) : Mem := store m a (toBytes 8 w.toNat)

theorem loadWord_congr {m' : Mem} (h : ∀ x, a ≤ x → x < a + 8 → m x = m' x) :
    loadWord m a = loadWord m' a := by
  simp only [loadWord, load_congr h]

variable {w : Word}

theorem storeWord_out (h : x < a ∨ a + 8 ≤ x) : storeWord m a w x = m x :=
  store_out (by simpa using h)

@[simp] theorem loadWord_storeWord : loadWord (storeWord m a w) a = w := by
  have h : load (storeWord m a w) a 8 = toBytes 8 w.toNat := by
    have := load_store m a (toBytes 8 w.toNat)
    rwa [toBytes_length] at this
  apply BitVec.eq_of_toNat_eq
  simp only [loadWord, h, ofBytes_toBytes, BitVec.toNat_ofNat]
  have := w.isLt
  omega

theorem loadWord_storeWord_other {b : Nat} (h : a + 8 ≤ b ∨ b + 8 ≤ a) :
    loadWord (storeWord m a w) b = loadWord m b :=
  loadWord_congr fun x h₁ h₂ => storeWord_out (by omega)

theorem loadWord_zero (h : ∀ x, a ≤ x → x < a + 8 → m x = 0) : loadWord m a = 0 := by
  have hl : load m a 8 = List.replicate 8 0 := by
    apply List.ext_getElem (by simp [load])
    intro i h1 h2
    simp only [List.length_replicate] at h2
    simp only [load, List.getElem_map, List.getElem_range, List.getElem_replicate]
    exact h (a + i) (by omega) (by omega)
  rw [loadWord, hl, ofBytes_replicate_zero]
  rfl

/-! ## Two memories in one -/

section Overlay

variable {P : Nat → Prop} [DecidablePred P] {k m : Mem} {a n : Nat}

/-- `m` with the bytes at the addresses in `P` as in `k`. -/
def overlay (P : Nat → Prop) [DecidablePred P] (k m : Mem) : Mem := fun x => if P x then k x else m x

theorem overlay_in {x : Nat} (h : P x) : overlay P k m x = k x := if_pos h

theorem overlay_out {x : Nat} (h : ¬ P x) : overlay P k m x = m x := if_neg h

theorem loadWord_overlay (h : ∀ x, P x → x < a ∨ a + 8 ≤ x) : loadWord (overlay P k m) a = loadWord m a :=
  loadWord_congr fun x h₁ h₂ => overlay_out fun hx => by have := h x hx; omega

theorem store_overlay {bs : List Byte} (h : ∀ x, P x → x < a ∨ a + bs.length ≤ x) :
    store (overlay P k m) a bs = overlay P k (store m a bs) := by
  funext x
  by_cases hx : P x
  · rw [store_out (h x hx), overlay_in hx, overlay_in hx]
  · rw [overlay_out hx, store, store, overlay_out hx]

theorem fill_overlay {b : Byte} (h : ∀ x, P x → x < a ∨ a + n ≤ x) :
    fill (overlay P k m) a n b = overlay P k (fill m a n b) := by
  funext x
  by_cases hx : P x
  · rw [fill_out (h x hx), overlay_in hx, overlay_in hx]
  · rw [overlay_out hx, fill, fill, overlay_out hx]

end Overlay

/-! ## Runs of words -/

/-- The `n` words from `a` on. -/
def loadWords (m : Mem) (a : Nat) : Nat → List Word
  | 0 => []
  | n + 1 => loadWord m a :: loadWords m (a + 8) n

/-- The words `ws` written from `a` on. -/
def storeWords (m : Mem) (a : Nat) : List Word → Mem
  | [] => m
  | w :: ws => storeWords (storeWord m a w) (a + 8) ws

theorem loadWords_congr {m m' : Mem} : ∀ {n a : Nat}, (∀ x, a ≤ x → x < a + 8 * n → m x = m' x) →
    loadWords m a n = loadWords m' a n
  | 0, _, _ => rfl
  | n + 1, a, h => by
    rw [loadWords, loadWords, loadWord_congr fun x h₁ h₂ => h x h₁ (by omega),
      loadWords_congr fun x h₁ h₂ => h x (by omega) (by omega)]

theorem loadWords_shift {m m' : Mem} : ∀ {n a b : Nat}, (∀ i < 8 * n, m (a + i) = m' (b + i)) →
    loadWords m a n = loadWords m' b n
  | 0, _, _, _ => rfl
  | n + 1, a, b, h => by
    have hhead : load m a 8 = load m' b 8 :=
      List.map_congr_left fun i hi => h i (by rw [List.mem_range] at hi; omega)
    have hrest : loadWords m (a + 8) n = loadWords m' (b + 8) n := by
      refine loadWords_shift fun i hi => ?_
      rw [Nat.add_assoc, Nat.add_assoc]
      exact h (8 + i) (by omega)
    rw [loadWords, loadWords, loadWord, loadWord, hhead, hrest]

theorem loadWords_succ {m : Mem} : ∀ {n a : Nat}, loadWords m a (n + 1) = loadWords m a n ++ [loadWord m (a + 8 * n)]
  | 0, _ => rfl
  | n + 1, a => by
    rw [loadWords, loadWords_succ, loadWords, List.cons_append, Nat.add_assoc, Nat.mul_add, Nat.add_comm 8]

theorem loadWords_add (a n k : Nat) :
    loadWords m a (n + k) = loadWords m a n ++ loadWords m (a + 8 * n) k := by
  induction n generalizing a with
  | zero => rw [Nat.zero_add, Nat.mul_zero, Nat.add_zero, loadWords, List.nil_append]
  | succ n ih =>
    rw [Nat.add_right_comm, loadWords, ih, loadWords, List.cons_append, Nat.mul_add, Nat.add_assoc, Nat.add_comm 8]

theorem loadWords_getElem? : ∀ {n a i : Nat}, i < n → (loadWords m a n)[i]? = some (loadWord m (a + 8 * i))
  | n + 1, a, 0, _ => rfl
  | n + 1, a, i + 1, h => by
    rw [loadWords, List.getElem?_cons_succ, loadWords_getElem? (Nat.lt_of_succ_lt_succ h),
      show a + 8 + 8 * i = a + 8 * (i + 1) by omega]

theorem loadWords_storeWord {m : Mem} {w : Word} : ∀ {n a i : Nat}, i < n →
    loadWords (storeWord m (a + 8 * i) w) a n = (loadWords m a n).set i w
  | n + 1, a, 0, _ => by
    have hrest : loadWords (storeWord m a w) (a + 8) n = loadWords m (a + 8) n :=
      loadWords_congr fun x h₁ _ => storeWord_out (.inr h₁)
    rw [Nat.mul_zero, Nat.add_zero, loadWords, loadWords, loadWord_storeWord, hrest, List.set_cons_zero]
  | n + 1, a, i + 1, h => by
    have hrest := loadWords_storeWord (m := m) (w := w) (a := a + 8) (Nat.lt_of_succ_lt_succ h)
    rw [loadWords, loadWords, loadWord_storeWord_other (by omega), List.set_cons_succ, ← hrest,
      show a + 8 * (i + 1) = a + 8 + 8 * i by omega]

theorem storeWords_out : ∀ {ws : List Word} {m : Mem} {a x : Nat}, x < a ∨ a + 8 * ws.length ≤ x →
    storeWords m a ws x = m x
  | [], _, _, _, _ => rfl
  | w :: ws, m, a, x, h => by
    rw [List.length_cons] at h
    rw [storeWords, storeWords_out (by omega), storeWord_out (by omega)]

theorem loadWords_storeWords : ∀ {ws : List Word} {m : Mem} {a : Nat}, loadWords (storeWords m a ws) a ws.length = ws
  | [], _, _ => rfl
  | w :: ws, m, a => by
    have hhead : loadWord (storeWords (storeWord m a w) (a + 8) ws) a = w := by
      rw [loadWord_congr fun x _ h₂ => storeWords_out (.inl (by omega)), loadWord_storeWord]
    rw [List.length_cons, loadWords, storeWords, hhead, loadWords_storeWords]

end ByteMem
