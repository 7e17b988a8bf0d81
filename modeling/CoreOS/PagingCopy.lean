/-
Copies of page tables. `EntryCopy` says that an entry, with all that lies below
it, is a private copy of another, made of a given set of frames; a table is
copied when its entries are, from disjoint sets (`RowCopy`). Followed down a
path this gives the pages of the copy, and that no frame of it is reached twice.
-/
import CoreOS.PagingTree

namespace CoreOS

open ByteMem Radix

/-! ## Entries -/

/-- The entry for the copy at frame `g` of what `e` points to. -/
def copyEntry (g : Nat) (e : Word) : Word := BitVec.ofNat 64 (g * pageSize) ||| (e &&& ~~~pteAddrMask)

variable {g : Nat} {e : Word}

theorem copyEntry_bit {i : Nat} (hi : i < 64) : (copyEntry g e).getLsbD i =
    ((g * pageSize).testBit i || (e.getLsbD i && !decide (12 ≤ i ∧ i < 52))) := by
  unfold copyEntry
  rw [BitVec.getLsbD_or, BitVec.getLsbD_and, BitVec.getLsbD_not, addrMask_bit hi, BitVec.getLsbD_ofNat]
  simp [hi]

theorem frame_lt_pow (hg : g < maxFrames) : g * pageSize < 2 ^ 52 := by
  unfold maxFrames pageSize at *
  omega

theorem copyEntry_flags (e : Word) (hg : g < maxFrames) :
    copyEntry g e &&& ~~~pteAddrMask = e &&& ~~~pteAddrMask := by
  apply BitVec.eq_of_getLsbD_eq
  intro i hi
  rw [BitVec.getLsbD_and, BitVec.getLsbD_and, BitVec.getLsbD_not, addrMask_bit hi, copyEntry_bit hi]
  by_cases hin : 12 ≤ i ∧ i < 52
  · simp [hin]
  · have : (g * pageSize).testBit i = false := by
      by_cases h12 : i < 12
      · exact testBit_frame h12
      · exact testBit_high (frame_lt_pow hg) (by omega)
    simp [hin, this]

theorem copyEntry_masked (e : Word) (hg : g < maxFrames) :
    (copyEntry g e &&& pteAddrMask).toNat = g * pageSize := by
  refine masked_eq (frame_lt_pow hg) (by simp) fun i h1 h₂ => ?_
  rw [copyEntry_bit (by omega)]
  simp [h1, h₂]

theorem copyEntry_low {i : Nat} (e : Word) (hi : i < 12) : (copyEntry g e).getLsbD i = e.getLsbD i := by
  rw [copyEntry_bit (by omega), testBit_frame hi]
  simp [show ¬ 12 ≤ i by omega]

theorem copyEntry_present (g : Nat) (e : Word) : has (copyEntry g e) ptePresent = has e ptePresent := by
  rw [has_present, has_present, copyEntry_low e (by decide)]

theorem copyEntry_huge (g : Nat) (e : Word) : has (copyEntry g e) pteHuge = has e pteHuge := by
  rw [has_huge, has_huge, copyEntry_low e (by decide)]

theorem copyEntry_frameOf (hg : g < maxFrames) (he : frameOf e < maxFrames) :
    frameOf (copyEntry g e) = g := by
  refine frameOf_of_lt (hg.trans (by decide)) fun i h1 h₂ => ?_
  rw [copyEntry_bit h₂]
  by_cases h52 : i < 52
  · simp [h1, h52]
  · have : e.getLsbD i = false := by
      rw [← BitVec.testBit_toNat]
      refine testBit_high ?_ (by omega)
      unfold frameOf maxFrames pageSize at he
      omega
    simp [this]

/-! ## Copies -/

/-- The first `m` entries of a row are copied, each from frames of its own. -/
def RowCopy (entry : Word → Word → Finset Nat → Prop) (m : Nat) (r r' : Fin 512 → Word) (S : Finset Nat) : Prop :=
  ∃ part : Fin 512 → Finset Nat, (∀ i j, i ≠ j → Disjoint (part i) (part j)) ∧ (∀ f, f ∈ S ↔ ∃ i, f ∈ part i) ∧
    (∀ i : Fin 512, m ≤ i → part i = ∅) ∧ ∀ i : Fin 512, i < m → entry (r i) (r' i) (part i)

/-- Entry `e'`, in memory `mem`, is a copy of entry `e`, in memory `m0`, made of
the frames `S`; `n` levels of tables are below it. -/
def EntryCopy (m0 mem : Mem) : Nat → Word → Word → Finset Nat → Prop
  | 0, e, e', S =>
    if has e ptePresent then
      ∃ g, g < maxFrames ∧ S = {g} ∧ e' = copyEntry g e ∧
        ∀ k < pageSize, mem (g * pageSize + k) = m0 ((e &&& pteAddrMask).toNat + k)
    else e' = 0 ∧ S = ∅
  | n + 1, e, e', S =>
    if ¬ has e ptePresent then e' = 0 ∧ S = ∅
    -- a 2 MiB page is shared
    else if n = 0 ∧ has e pteHuge then e' = e ∧ S = ∅
    else
      ∃ g below, g < maxFrames ∧ frameOf e < maxFrames ∧ g ∉ below ∧ S = insert g below ∧ e' = copyEntry g e ∧
        RowCopy (EntryCopy m0 mem n) 512 (tables m0 (frameOf e)) (tables mem g) below

variable {S : Finset Nat}

theorem RowCopy.mono {E E' : Word → Word → Finset Nat → Prop} {m : Nat} {r r' r'' : Fin 512 → Word}
    (h : RowCopy E m r r' S) (hE : ∀ i e e' P, P ⊆ S → r' i = e' → E e e' P → E' e (r'' i) P) :
    RowCopy E' m r r'' S := by
  obtain ⟨part, hd, hS, hnone, he⟩ := h
  exact ⟨part, hd, hS, hnone, fun i hi => hE i _ _ _ (fun f hf => (hS f).mpr ⟨i, hf⟩) rfl (he i hi)⟩

variable {m0 mem : Mem}

theorem EntryCopy.frame {mem' : Mem} : ∀ {n : Nat} {e e' : Word} {S : Finset Nat}, EntryCopy m0 mem n e e' S →
    (∀ x, x / pageSize ∈ S → mem' x = mem x) → EntryCopy m0 mem' n e e' S
  | 0, e, e', S, h, hm => by
    simp only [EntryCopy] at h ⊢
    split
    · next hp =>
      rw [if_pos hp] at h
      obtain ⟨g, hg, rfl, he', hk⟩ := h
      refine ⟨g, hg, rfl, he', fun k hlt => ?_⟩
      rw [hm _ (by simp; unfold pageSize at *; omega), hk k hlt]
    · next hp =>
      rw [if_neg hp] at h
      exact h
  | n + 1, e, e', S, h, hm => by
    simp only [EntryCopy] at h ⊢
    split
    · next hp =>
      rw [if_pos hp] at h
      exact h
    · next hp =>
      rw [if_neg hp] at h
      split
      · next hh =>
        rw [if_pos hh] at h
        exact h
      · next hh =>
        rw [if_neg hh] at h
        obtain ⟨g, below, hg, hf, hnot, rfl, he', hrow⟩ := h
        refine ⟨g, below, hg, hf, hnot, rfl, he', ?_⟩
        have hT : tables mem' g = tables mem g := by
          refine tables_congr fun x h1 h₂ => hm x ?_
          rw [show x / pageSize = g by unfold pageSize at *; omega]
          exact Finset.mem_insert_self g below
        rw [hT]
        refine hrow.mono fun i e e' P hP _ hE => ?_
        subst e'
        exact hE.frame fun x hx => hm x (Finset.mem_insert_of_mem (hP hx))

/-! ## The frames of a copy -/

/-- Like `tableChild`, with the pages of the page tables as a last level. -/
def frameChild (d : Nat) (e : Word) : Option Nat :=
  if d = 3 then (if has e ptePresent then some ((e &&& pteAddrMask).toNat / pageSize) else none) else tableChild d e

/-- The frame, of a table or of a 4 KiB page, at the end of a path. -/
def frameAt (mem : Mem) (root : Nat) (p : List (Fin 512)) : Option Nat := walk frameChild (tables mem) 0 root p

/-- The frame at the end of a path that starts with an entry. -/
def frameVia (mem : Mem) (d : Nat) (e : Word) (p : List (Fin 512)) : Option Nat :=
  (frameChild d e).bind fun g => walk frameChild (tables mem) (d + 1) g p

/-- What is reached through the entry in `n` steps is in `S` and is reached
once. -/
def Private (mem : Mem) (d n : Nat) (e : Word) (S : Finset Nat) : Prop :=
  ∀ p f, p.length ≤ n → frameVia mem d e p = some f →
    f ∈ S ∧ ∀ q, q.length ≤ n → frameVia mem d e q = some f → p = q

variable {d : Nat}

theorem RowCopy.once {E : Word → Word → Finset Nat → Prop} {r : Fin 512 → Word} {m n b : Nat}
    (h : RowCopy E m r (tables mem b) S) (hE : ∀ e e' P, E e e' P → Private mem d n e' P) {i j : Fin 512}
    {p q : List (Fin 512)} {f : Nat} (hi : i.val < m) (hp : p.length ≤ n)
    (hf : walk frameChild (tables mem) d b (i :: p) = some f) :
    f ∈ S ∧ (j.val < m → q.length ≤ n → walk frameChild (tables mem) d b (j :: q) = some f → i = j ∧ p = q) := by
  obtain ⟨part, hd, hS, -, he⟩ := h
  obtain ⟨hmem, hone⟩ := hE _ _ _ (he i hi) p f hp hf
  refine ⟨(hS f).mpr ⟨i, hmem⟩, fun hj hq hf' => ?_⟩
  obtain ⟨hmem', -⟩ := hE _ _ _ (he j hj) q f hq hf'
  have hij : i = j := by
    by_contra hne
    exact Finset.disjoint_left.mp (hd i j hne) hmem hmem'
  subst hij
  exact ⟨rfl, hone q hq hf'⟩

theorem frameVia_zero {p : List (Fin 512)} : frameVia mem d 0 p = none := by
  unfold frameVia frameChild
  rw [tableChild_zero, has_zero]
  simp

/-- **The frames of a copied entry** are its own and are reached once. -/
theorem EntryCopy.isPrivate : ∀ {n d : Nat} {e e' : Word} {S : Finset Nat}, d + n = 3 →
    EntryCopy m0 mem n e e' S → Private mem d n e' S
  | 0, d, e, e', S, hd, h => by
    intro p f hp hf
    have hnil : ∀ {q : List (Fin 512)}, q.length ≤ 0 → q = [] := fun h => List.length_eq_zero_iff.mp (Nat.le_zero.mp h)
    simp only [EntryCopy] at h
    split at h
    · next hpres =>
      obtain ⟨g, hg, rfl, rfl, -⟩ := h
      rw [hnil hp] at hf ⊢
      refine ⟨?_, fun q hq _ => (hnil hq).symm⟩
      rw [frameVia, frameChild, if_pos (by omega), copyEntry_present, if_pos hpres, copyEntry_masked e hg,
        Phys.frame_div] at hf
      simpa using hf.symm
    · rw [h.1, frameVia_zero] at hf
      cases hf
  | n + 1, d, e, e', S, hd, h => by
    intro p f hp hf
    simp only [EntryCopy] at h
    split at h
    · rw [h.1, frameVia_zero] at hf
      cases hf
    · next hpres =>
      split at h
      · next hh =>
        -- a shared 2 MiB page leads nowhere
        rw [h.1, frameVia, frameChild, if_neg (by omega), tableChild, if_neg (by simp [hh.2]; omega)] at hf
        cases hf
      · next hh =>
        obtain ⟨g, below, hg, hframe, hnot, rfl, rfl, hrow⟩ := h
        have hchild : frameChild d (copyEntry g e) = some g := by
          rw [frameChild, if_neg (by omega), tableChild, copyEntry_present, copyEntry_huge,
            copyEntry_frameOf hg hframe, if_pos]
          refine ⟨by simpa using hpres, fun h2 => hh ⟨by omega, h2.2⟩⟩
        have hvia : ∀ q, frameVia mem d (copyEntry g e) q = walk frameChild (tables mem) (d + 1) g q := by
          intro q
          rw [frameVia, hchild, Option.bind_some]
        have hone := fun {i j : Fin 512} {p q : List (Fin 512)} {f : Nat} =>
          hrow.once (fun _ _ _ hE => hE.isPrivate (d := d + 1) (by omega)) (i := i) (j := j) (p := p) (q := q) (f := f)
            i.isLt
        rw [hvia] at hf
        cases p with
        | nil =>
          have hfg : f = g := (Option.some.inj hf).symm
          subst hfg
          refine ⟨Finset.mem_insert_self f below, fun q hq hf' => ?_⟩
          rw [hvia] at hf'
          cases q with
          | nil => rfl
          | cons j q => exact absurd (hone (j := j) (q := q) (by simpa using hq) hf').1 hnot
        | cons i p =>
          have hmem := (hone (j := i) (q := p) (by simpa using hp) hf).1
          refine ⟨Finset.mem_insert_of_mem hmem, fun q hq hf' => ?_⟩
          rw [hvia] at hf'
          cases q with
          | nil =>
            rw [← Option.some.inj hf'] at hmem
            exact absurd hmem hnot
          | cons j q =>
            obtain ⟨hij, hpq⟩ := (hone (by simpa using hp) hf).2 j.isLt (by simpa using hq) hf'
            rw [hij, hpq]

/-! ## The pages of a copy -/

theorem EntryCopy.child {n : Nat} {e' : Word} (hd : d + (n + 1) = 3) (h : EntryCopy m0 mem (n + 1) e e' S) :
    (tableChild d e = none ∧ tableChild d e' = none) ∨
    ∃ a b below, tableChild d e = some a ∧ tableChild d e' = some b ∧
      RowCopy (EntryCopy m0 mem n) 512 (tables m0 a) (tables mem b) below := by
  simp only [EntryCopy] at h
  split at h
  · next hpres =>
    rw [h.1, tableChild_zero, tableChild, if_neg fun hc => hpres hc.1]
    exact .inl ⟨rfl, rfl⟩
  · next hpres =>
    split at h
    · next hh =>
      rw [h.1, tableChild, if_neg (by simp [hh.2]; omega)]
      exact .inl ⟨rfl, rfl⟩
    · next hh =>
      obtain ⟨g, below, hg, hframe, -, -, rfl, hrow⟩ := h
      have hc : has e ptePresent = true ∧ ¬ (d = 2 ∧ has e pteHuge = true) :=
        ⟨by simpa using hpres, fun h2 => hh ⟨by omega, h2.2⟩⟩
      refine .inr ⟨frameOf e, g, below, ?_, ?_, hrow⟩
      · rw [tableChild, if_pos hc]
      · rw [tableChild, copyEntry_present, copyEntry_huge, copyEntry_frameOf hg hframe, if_pos hc]

/-- **Down a path** a tree and its copy stay together. -/
theorem RowCopy.descend : ∀ {p : List (Fin 512)} {n d m a b : Nat} {S : Finset Nat}, d + n = 3 →
    p.length ≤ n → (∀ i ∈ p.head?, i.val < m) → RowCopy (EntryCopy m0 mem n) m (tables m0 a) (tables mem b) S →
    (walk tableChild (tables m0) d a p = none ∧ walk tableChild (tables mem) d b p = none) ∨
    ∃ a' b' below, walk tableChild (tables m0) d a p = some a' ∧ walk tableChild (tables mem) d b p = some b' ∧
      RowCopy (EntryCopy m0 mem (n - p.length)) (if p = [] then m else 512) (tables m0 a') (tables mem b') below
  | [], n, d, m, a, b, S, _, _, _, h => .inr ⟨a, b, S, rfl, rfl, h⟩
  | i :: p, 0, d, m, a, b, S, _, hp, _, _ => by simp at hp
  | i :: p, n + 1, d, m, a, b, S, hd, hp, hi, h => by
    obtain ⟨part, -, -, -, he⟩ := h
    simp only [walk_cons]
    rcases (he i (hi i rfl)).child hd with ⟨h1, h₂⟩ | ⟨a', b', below, h1, h₂, hrow⟩
    · rw [h1, h₂]
      exact .inl ⟨rfl, rfl⟩
    · rw [h1, h₂, Option.bind_some, Option.bind_some]
      rcases RowCopy.descend (p := p) (d := d + 1) (by omega) (by simpa using hp) (fun j _ => j.isLt) hrow with
        hnone | ⟨a2, b2, below2, ha, hb, hrow2⟩
      · exact .inl hnone
      · refine .inr ⟨a2, b2, below2, ha, hb, ?_⟩
        rw [show n + 1 - (i :: p).length = n - p.length by simp, if_neg (by simp)]
        simpa using hrow2

/-- A page of the lower half of the address space. -/
def PageNo.User (v : PageNo) : Prop := (dirIndex v 3).val < 256

instance {v : PageNo} : Decidable v.User := inferInstanceAs (Decidable (_ < _))

section Root

variable {m0 mem : Mem} {src new : Nat} {S : Finset Nat} {v : PageNo}

theorem RowCopy.pageEntry (h : RowCopy (EntryCopy m0 mem 3) 256 (tables m0 src) (tables mem new) S) (hv : v.User) :
    (CoreOS.pageEntry m0 src v = none ∧ CoreOS.pageEntry mem new v = none) ∨
    ∃ e g, CoreOS.pageEntry m0 src v = some e ∧ CoreOS.pageEntry mem new v = some (copyEntry g e) ∧ g < maxFrames ∧
      ∀ k < pageSize, mem (g * pageSize + k) = m0 ((e &&& pteAddrMask).toNat + k) := by
  unfold CoreOS.pageEntry
  rcases h.descend (p := dirPath v) (d := 0) rfl (by simp [dirPath]) (by simpa [dirPath, PageNo.User] using hv) with
    ⟨h1, h₂⟩ | ⟨a, b, below, h1, h₂, hrow⟩
  · left
    rw [show tableAt m0 src (dirPath v) = none from h1, show tableAt mem new (dirPath v) = none from h₂]
    exact ⟨rfl, rfl⟩
  · rw [show tableAt m0 src (dirPath v) = some a from h1, show tableAt mem new (dirPath v) = some b from h₂]
    obtain ⟨part, -, -, -, he⟩ := hrow
    have hentry := he (dirIndex v 0) (by simp [dirPath])
    rw [show 3 - (dirPath v).length = 0 from rfl] at hentry
    simp only [EntryCopy] at hentry
    simp only [Option.bind_some]
    split at hentry
    · next hp =>
      obtain ⟨g, hg, -, he', hk⟩ := hentry
      refine .inr ⟨_, g, if_pos hp, ?_, hg, hk⟩
      rw [he', copyEntry_present, if_pos hp]
    · next hp =>
      refine .inl ⟨if_neg hp, ?_⟩
      rw [hentry.1, has_zero]
      rfl

theorem RowCopy.hugeEntry (h : RowCopy (EntryCopy m0 mem 3) 256 (tables m0 src) (tables mem new) S) (hv : v.User) :
    CoreOS.hugeEntry mem new v = CoreOS.hugeEntry m0 src v := by
  unfold CoreOS.hugeEntry
  rcases h.descend (p := [dirIndex v 3, dirIndex v 2]) (d := 0) rfl (by simp) (by simpa [PageNo.User] using hv) with
    ⟨h1, h₂⟩ | ⟨a, b, below, h1, h₂, hrow⟩
  · rw [show tableAt m0 src [dirIndex v 3, dirIndex v 2] = none from h1,
      show tableAt mem new [dirIndex v 3, dirIndex v 2] = none from h₂, Option.bind_none, Option.bind_none]
  · rw [show tableAt m0 src [dirIndex v 3, dirIndex v 2] = some a from h1,
      show tableAt mem new [dirIndex v 3, dirIndex v 2] = some b from h₂]
    obtain ⟨part, -, -, -, he⟩ := hrow
    have hentry := he (dirIndex v 1) (by simp)
    rw [show 3 - [dirIndex v 3, dirIndex v 2].length = 0 + 1 from rfl] at hentry
    simp only [EntryCopy] at hentry
    simp only [Option.bind_some]
    split at hentry
    · next hp =>
      rw [hentry.1, if_neg (by rw [has_zero]; nofun), if_neg fun hc => hp hc.1]
    · next hp =>
      split at hentry
      · rw [hentry.1]
      · next hh =>
        obtain ⟨g, below, -, -, -, -, he', -⟩ := hentry
        rw [he', copyEntry_present, copyEntry_huge, if_neg fun hc => hh ⟨trivial, hc.2⟩,
          if_neg fun hc => hh ⟨trivial, hc.2⟩]

end Root

end CoreOS
