/-
What loading a file does to an address space. The pages that the loader maps and
those it copies to come from the file. As long as it adds no page to the kernel's
half and copies to none of its pages, it does what the count of frames says.
-/
import CoreOS.ElfPanic
import CoreOS.PageRanges

namespace CoreOS

open ByteMem

/-! ## The count for a file -/

namespace Supply

/-- With the pages of the kernel's half. -/
def beside (x : Supply) (kernel : PageNo → Bool) : Supply :=
  { x with page := fun v => if v.User then x.page v else kernel v }

theorem beside_free {x : Supply} {kernel : PageNo → Bool} : (x.beside kernel).free = x.free := rfl

theorem beside_page {x : Supply} {kernel : PageNo → Bool} {v : PageNo} (hv : v.User) :
    (x.beside kernel).page v = x.page v := if_pos hv

/-- A page is written to when it is there. -/
def touch (x : Supply) (v : PageNo) : Option (Option Supply) := some (if x.page v then some x else none)

theorem run_touch (x : Supply) (vs : List PageNo) : run touch vs x = some (if vs.all x.page then some x else none) := by
  induction vs with
  | nil => rfl
  | cons v vs ih =>
    rw [run, touch, List.all_cons]
    cases hv : x.page v with
    | false => rfl
    | true => exact ih

theorem give_beside {x : Supply} {kernel : PageNo → Bool} {v : PageNo} (hv : v.User) :
    (x.beside kernel).give v = (x.give v).map (Option.map (·.beside kernel)) := by
  have hpage : (fun w => (x.beside kernel).page w || decide (w = v)) =
      fun w => if w.User then x.page w || decide (w = v) else kernel w := by
    funext w
    unfold beside
    dsimp only
    split
    · rfl
    next hw => rw [decide_eq_false fun (heq : w = v) => hw (heq ▸ hv), Bool.or_false]
  unfold give
  rw [hpage, apply_ite (Option.map _), apply_ite (Option.map _)]
  rfl

end Supply

/-- The pages that the copying loop goes through when it is at `page` with `copied` of
`len` bytes done. -/
def copyPages (vaddr len : Nat) : Nat → Nat → Nat → List PageNo
  | 0, _, _ => []
  | fuel + 1, copied, page =>
    if copied < len then
      let pageOff := if page = pageBase vaddr then vaddr % pageSize else 0
      pageNo page :: copyPages vaddr len fuel (copied + min (len - copied) (pageSize - pageOff)) (wrappingAdd page pageSize)
    else []

namespace ProgramHeader

variable (p : ProgramHeader)

def mapped : List PageNo := pageRange p.pageStart 0 p.pages

def copied : List PageNo := copyPages p.vaddr p.filesz p.filesz 0 p.pageStart

/-- A segment takes a frame for each page that is missing, and fails where a page to
copy to is not there. -/
def supply (x : Supply) : Option (Option Supply) :=
  Supply.andThen (Supply.run Supply.touch p.copied) (Supply.run Supply.want p.mapped x)

/-- The pages the loader adds and those it copies to are in the lower half. A page of
the kernel's half is no matter, when its tables are apart from those of the lower half:
where it is there or no frame is left for it, and where it is not there for the copy. -/
structure InUser (apart : Prop) (x : Supply) : Prop where
  maps : Supply.Along (fun x v => v.User ∨ apart ∧ (x.page v = true ∨ x.free = 0)) Supply.want p.mapped x
  copies : ∀ y, Supply.run Supply.want p.mapped x = some (some y) →
    Supply.Along (fun y v => v.User ∨ apart ∧ y.page v = false) Supply.touch p.copied y

end ProgramHeader

/-- What the loop over the headers does from header `i` on, for those that can be read:
it loads a segment, or gives up. -/
def ElfHeader.steps (h : ElfHeader) (data : List Byte) : Nat → Nat → List (Option ProgramHeader)
  | _, 0 => []
  | i, n + 1 =>
    if data.length < h.phEnd i then [none]
    else
      match h.programHeader data i with
      | none => []
      | some p =>
        if ¬ p.Loads then h.steps data (i + 1) n
        else if ¬ p.InFile data then [none]
        else some p :: h.steps data (i + 1) n

def fileSteps (data : List Byte) : List (Option ProgramHeader) :=
  match validateHeader data with
  | some (.ok h) => h.steps data 0 h.phnum
  | _ => [none]

def Supply.segment (x : Supply) : Option ProgramHeader → Option (Option Supply)
  | none => some none
  | some p => p.supply x

/-- Every segment that the loader comes to stays in the lower half. -/
structure SegmentsInUser (apart : Prop) (data : List Byte) (x : Supply) : Prop where
  along : Supply.Along (fun x o => ∀ p, o = some p → p.InUser apart x) Supply.segment (fileSteps data) x

/-- `some none` when the loader fails and `none` when there is no frame for a table. -/
def loadSupply (data : List Byte) (x : Supply) : Option (Option Supply) := Supply.run Supply.segment (fileSteps data) x

/-! ## The lower half and the kernel's -/

section Loops

variable {t t' : Phys} {root : Nat} {mem : Mem} {kernel : PageNo → Bool} {apart : Prop}

/-- Whatever is done in the lower half, the pages of the kernel's half are these. -/
def KernelPages (t : Phys) (root : Nat) (mem : Mem) (kernel : PageNo → Bool) : Prop :=
  ∀ t', SpaceStep t t' root → ∀ v : PageNo, ¬ v.User → (pageMap (t'.withUpper root mem).mem root v).isSome = kernel v

/-- A lower half, with the kernel's half beside it. -/
structure Halves (t : Phys) (root : Nat) (mem : Mem) (kernel : PageNo → Bool) (apart : Prop) : Prop where
  space : UserSpace t root
  kernel : apart → KernelPages t root mem kernel

theorem Halves.step (h : Halves t root mem kernel apart) (hstep : SpaceStep t t' root) : Halves t' root mem kernel apart :=
  ⟨hstep.space, fun ha _ hstep' => h.kernel ha _ (hstep.trans hstep')⟩

theorem Halves.translatePage {virt : Nat} (h : Halves t root mem kernel apart) (hv : (pageNo virt).User ∨ apart) :
    ((t.supply root).beside kernel).page (pageNo virt) =
      ((t.withUpper root mem).translatePage (root * pageSize) virt).isSome := by
  unfold Supply.beside
  dsimp only
  by_cases huser : (pageNo virt).User
  · rw [if_pos huser, translatePage_withUpper h.space.wf huser, h.space.translatePage huser, Option.isSome_map]
    rfl
  · rw [if_neg huser, translatePage_map, Option.isSome_map]
    exact (h.kernel (hv.resolve_left huser) t (.refl h.space) _ huser).symm

variable {α β : Type}

/-- What a part of the loader does, and what the count says it does: it panics, fails,
or succeeds with the lower half as `view` says. -/
inductive Loading (t : Phys) (root : Nat) (mem : Mem) (kernel : PageNo → Bool) (view : α → Phys → Prop) :
    Option (Except ElfError α × Phys) → Option (Option Supply) → Prop
  | panics : Loading t root mem kernel view none none
  | fails {e : ElfError} {t' : Phys} (hstep : SpaceStep t t' root) :
      Loading t root mem kernel view (some (.error e, t'.withUpper root mem)) (some none)
  | ends {a : α} {t' : Phys} (hstep : SpaceStep t t' root) (hview : view a t') :
      Loading t root mem kernel view (some (.ok a, t'.withUpper root mem)) (some (some ((t'.supply root).beside kernel)))

/-- The loader goes on only after what succeeded. -/
def andLoad (f : α → Phys → Option (Except ElfError β × Phys)) :
    Option (Except ElfError α × Phys) → Option (Except ElfError β × Phys)
  | none => none
  | some (.error e, s) => some (.error e, s)
  | some (.ok a, s) => f a s

namespace Loading

variable {view : α → Phys → Prop} {view' : β → Phys → Prop} {r : Option (Except ElfError α × Phys)}
  {x : Option (Option Supply)}

theorem after {t1 : Phys} {old : α → Phys → Prop} (h : Loading t1 root mem kernel old r x) (hstep : SpaceStep t t1 root)
    (hview : ∀ a t', old a t' → view a t') : Loading t root mem kernel view r x := by
  cases h with
  | panics => exact .panics
  | fails h => exact .fails (hstep.trans h)
  | ends h hv => exact .ends (hstep.trans h) (hview _ _ hv)

theorem andThen {f : α → Phys → Option (Except ElfError β × Phys)} {g : Supply → Option (Option Supply)}
    (h : Loading t root mem kernel view r x) (hnext : ∀ a t', x = some (some ((t'.supply root).beside kernel)) →
      SpaceStep t t' root → view a t' →
        Loading t' root mem kernel view' (f a (t'.withUpper root mem)) (g ((t'.supply root).beside kernel))) :
    Loading t root mem kernel view' (andLoad f r) (Supply.andThen g x) := by
  cases h with
  | panics => exact .panics
  | fails h => exact .fails h
  | ends h hv => exact (hnext _ _ rfl h hv).after h fun _ _ hv => hv

theorem map {f : α → Phys → Option (Except ElfError β × Phys)} (h : Loading t root mem kernel view r x)
    (hnext : ∀ a t', x = some (some ((t'.supply root).beside kernel)) → SpaceStep t t' root → view a t' →
      ∃ b, f a (t'.withUpper root mem) = some (.ok b, t'.withUpper root mem) ∧ view' b t') :
    Loading t root mem kernel view' (andLoad f r) x := by
  cases h with
  | panics => exact .panics
  | fails h => exact .fails h
  | ends h hv =>
    obtain ⟨b, hb, hv'⟩ := hnext _ _ rfl h hv
    rw [andLoad, hb]
    exact .ends h hv'

theorem ended {y : Supply} (h : Loading t root mem kernel view r (some (some y))) :
    ∃ a t', r = some (.ok a, t'.withUpper root mem) ∧ SpaceStep t t' root ∧ view a t' := by
  cases h with
  | ends hstep hview => exact ⟨_, _, rfl, hstep, hview⟩

theorem step {e : Except ElfError α} {s : Phys} (h : Loading t root mem kernel view r x) (hr : r = some (e, s)) :
    ∃ t', s = t'.withUpper root mem ∧ SpaceStep t t' root := by
  cases h with
  | panics => cases hr
  | fails hstep =>
    cases hr
    exact ⟨_, rfl, hstep⟩
  | ends hstep =>
    cases hr
    exact ⟨_, rfl, hstep⟩

end Loading

/-! ## Mapping -/

variable {page n : Nat}

theorem pageRange_succ (page n : Nat) :
    pageRange page 0 (n + 1) = pageNo page :: pageRange (wrappingAdd page pageSize) 0 n := by
  unfold pageRange
  rw [List.range'_succ, List.map_cons, Nat.zero_mul, Nat.add_zero, Nat.zero_add, List.range'_eq_map_range,
    List.range'_eq_map_range, List.map_map, List.map_map]
  refine congrArg _ (List.map_congr_left fun j _ => ?_)
  dsimp only [Function.comp_apply]
  unfold pageNo wrappingAdd usizeMod pageSize
  apply Fin.ext
  dsimp only
  omega

theorem userByte_isSome {a : Nat} (h : UserSpace t root) (ha : a < userTop) :
    (userByte t (root * pageSize) a).isSome = (t.supply root).page (pageNo a) := by
  rw [h.userByte ha, Option.isSome_map]
  rfl

/-- **The mapping loop**: the pages of the range that are missing are zeros
afterwards, and the rest is as before. -/
theorem mapSegment_loading (h : Halves t root mem kernel apart)
    (hin : Supply.Along (fun x v => v.User ∨ apart ∧ (x.page v = true ∨ x.free = 0)) Supply.want (pageRange page 0 n)
      ((t.supply root).beside kernel)) :
    Loading t root mem kernel (fun _ t' => ∀ a < userTop, userByte t' (root * pageSize) a =
        if pageNo a ∈ pageRange page 0 n then some ((userByte t (root * pageSize) a).getD 0)
        else userByte t (root * pageSize) a)
      (Phys.mapSegment (root * pageSize) n page (t.withUpper root mem))
      (Supply.run Supply.want (pageRange page 0 n) ((t.supply root).beside kernel)) := by
  induction n generalizing page t with
  | zero => exact .ends (.refl h.space) fun a _ => rfl
  | succ n ih =>
    rw [pageRange_succ] at hin ⊢
    obtain ⟨hfirst, hrest⟩ := hin
    have hthere := h.translatePage (hfirst.imp id And.left)
    rw [Supply.run]
    cases htr : (t.withUpper root mem).translatePage (root * pageSize) page with
    | some frame =>
      rw [htr, Option.isSome_some] at hthere
      have hwant : ((t.supply root).beside kernel).want (pageNo page) = some (some _) := if_pos hthere
      rw [Phys.mapSegment_there n htr, hwant]
      refine (ih h (hrest _ hwant)).after (.refl h.space) fun _ t' hview a ha => (hview a ha).trans ?_
      by_cases hp : pageNo a = pageNo page
      · -- the page was there
        have hsome := userByte_isSome h.space ha
        rw [← hp, Supply.beside_page (pageNo_user ha)] at hthere
        rw [hthere] at hsome
        obtain ⟨b, hb⟩ := Option.isSome_iff_exists.mp hsome
        rw [hb, Option.getD_some, ite_self, ite_self]
      · exact if_congr (by simp [hp]) rfl rfl
    | none =>
      rw [htr, Option.isSome_none] at hthere
      have hwant : ((t.supply root).beside kernel).want (pageNo page) = ((t.supply root).beside kernel).give (pageNo page) :=
        if_neg (by rw [hthere]; decide)
      have hused : t.pmm.isFree root = false := (h.space.wf.table [] root (by simp) rfl).2
      have halU : (t.withUpper root mem).allocFrame = _ := allocFrame_withUpper hused
      rw [hwant]
      rcases t.allocFrame_cases with ⟨g, t1, hal, ht⟩ | ⟨hal, hnone⟩
      · have hv : (pageNo page).User := by
          have hfree : (t.supply root).free = t1.avail.card + 1 := supply_free.trans ht.avail_card.symm
          have hne : ((t.supply root).beside kernel).free ≠ 0 := by
            rw [Supply.beside_free]
            omega
          refine hfirst.resolve_right fun hkernel => hkernel.2.elim (fun hp => ?_) hne
          rw [hthere] at hp
          cases hp
        have hnew := h.space.give_new hv Phys.segmentFlags hal ht
        rw [hal] at halU
        rw [Phys.mapSegment_new n htr halU ht.addr_ne_zero, mapPageIn_withUpper (h.space.wf.keeps ht.keeps) hv,
          Supply.give_beside hv, hnew]
        have hnext := hrest
        rw [hwant, Supply.give_beside hv, hnew] at hnext
        cases hmap : t1.mapPageIn (root * pageSize) page (g * pageSize) Phys.segmentFlags with
        | none => exact .panics
        | some t2 =>
          obtain ⟨e, hpage, hlow⟩ := h.space.newPage hv hal ht.addr_ne_zero hmap
          have hstep := hpage.step h.space
          rw [hmap] at hnext
          rw [Option.map_some, Option.bind_some, fill_withUpper (ht.ne hused)]
          refine (ih (h.step hstep) (hnext _ rfl)).after hstep fun _ t' hview a ha => (hview a ha).trans ?_
          rw [hpage.userByte h.space ha]
          by_cases hp : pageNo a = pageNo page
          · have hsome := userByte_isSome h.space ha
            rw [← hp, Supply.beside_page (pageNo_user ha)] at hthere
            rw [hthere, Option.isSome_eq_false_iff, Option.isNone_iff_eq_none] at hsome
            rw [if_pos hp, hsome, if_pos (List.mem_cons.mpr (.inl hp)), Option.getD_some, ite_self]
            rfl
          · rw [if_neg hp]
            exact if_congr (by simp [hp]) rfl rfl
      · rw [hal] at halU
        have hgive : ((t.supply root).beside kernel).give (pageNo page) = some none := by
          refine if_pos ?_
          rw [Supply.beside_free, supply_free, Phys.avail_eq_empty hnone, Finset.card_empty]
        rw [Phys.mapSegment_oom n htr halU, hgive]
        exact .fails (.refl h.space)

/-! ## Copying -/

/-- Where the copying loop is: at the page of the next byte, at its start unless
nothing is copied yet. -/
def CopyAt (vaddr len copied curPage : Nat) : Prop :=
  copied < len → curPage = pageBase (vaddr + copied) ∧ (copied = 0 ∨ (vaddr + copied) % pageSize = 0)

variable {vaddr len copied curPage : Nat} {src : List Byte}

theorem CopyAt.pageOff (h : CopyAt vaddr len copied curPage) (hlt : copied < len) :
    (if curPage = pageBase vaddr then vaddr % pageSize else 0) = (vaddr + copied) % pageSize := by
  obtain ⟨rfl, hzero⟩ := h hlt
  unfold pageBase pageSize at *
  split <;> omega

theorem CopyAt.next (h : CopyAt vaddr len copied curPage) (hlt : copied < len) (htop : vaddr + len ≤ userTop) :
    CopyAt vaddr len (copied + min (len - copied) (pageSize - (vaddr + copied) % pageSize))
      (wrappingAdd curPage pageSize) := by
  obtain ⟨rfl, -⟩ := h hlt
  intro hmore
  have hnext : wrappingAdd (pageBase (vaddr + copied)) pageSize = pageBase (vaddr + copied) + pageSize := by
    refine wrappingAdd_of_lt ?_
    unfold pageBase pageSize userTop usizeMod at *
    omega
  rw [hnext]
  unfold pageBase pageSize at *
  omega

/-- A round of the copying loop, for the program. -/
theorem CopyAt.userByte {e : Word} {a off chunk : Nat} (h : CopyAt vaddr src.length copied curPage)
    (hlt : copied < src.length) (htop : vaddr + src.length ≤ userTop) (hmod : (vaddr + copied) % pageSize = off)
    (hchunk : min (src.length - copied) (pageSize - off) = chunk) (hspace : UserSpace t root)
    (he : pageEntry t.mem root (pageNo curPage) = some e) (ha : a < userTop) :
    CoreOS.userByte (t.setMem (store t.mem (leafFrame e * pageSize + off) ((src.drop copied).take chunk)))
        (root * pageSize) a =
      if vaddr + copied ≤ a ∧ a < vaddr + copied + chunk then src[a - vaddr]? else CoreOS.userByte t (root * pageSize) a := by
  obtain ⟨rfl, -⟩ := h hlt
  have hp : pageBase (vaddr + copied) < userTop := by unfold pageBase; omega
  have hoff : off < pageSize := hmod ▸ Nat.mod_lt _ (by decide)
  have hstart : pageBase (vaddr + copied) + off = vaddr + copied := hmod ▸ Nat.sub_add_cancel (Nat.mod_le _ _)
  have hlen : ((src.drop copied).take chunk).length = chunk := by
    rw [List.length_take, List.length_drop]
    omega
  rw [userByte_store hspace (pageNo_user hp) he (by omega) ha, hlen]
  have hiff : (pageNo a = pageNo (pageBase (vaddr + copied)) ∧ off ≤ a % pageSize ∧ a % pageSize < off + chunk) ↔
      vaddr + copied ≤ a ∧ a < vaddr + copied + chunk := by
    rw [pageNo_eq_iff ha hp (pageBase_aligned _)]
    unfold pageSize at *
    omega
  refine ite_congr (propext hiff) (fun hin => ?_) fun _ => rfl
  have hidx : copied + (a % pageSize - off) = a - vaddr := by
    have := hiff.mpr hin
    rw [pageNo_eq_iff ha hp (pageBase_aligned _)] at this
    unfold pageSize at *
    omega
  rw [List.getElem?_take_of_lt (by have := hiff.mpr hin; omega), List.getElem?_drop, hidx]

/-- **The copying loop** stops early only where there is no page. Below `userTop` the
bytes of `src` not copied yet are at their addresses afterwards, and the rest is as
before. -/
theorem copySegment_loading {fuel : Nat} (h : Halves t root mem kernel apart)
    (hin : Supply.Along (fun y v => v.User ∨ apart ∧ y.page v = false) Supply.touch
      (copyPages vaddr src.length fuel copied curPage) ((t.supply root).beside kernel)) :
    Loading t root mem kernel (fun _ t' => vaddr + src.length ≤ userTop → CopyAt vaddr src.length copied curPage →
        src.length ≤ copied + fuel → ∀ a < userTop, userByte t' (root * pageSize) a =
          if vaddr + copied ≤ a ∧ a < vaddr + src.length then src[a - vaddr]? else userByte t (root * pageSize) a)
      (some (Phys.copySegment (root * pageSize) vaddr src fuel copied curPage (t.withUpper root mem)))
      (Supply.run Supply.touch (copyPages vaddr src.length fuel copied curPage) ((t.supply root).beside kernel)) := by
  induction fuel generalizing copied curPage t with
  | zero => exact .ends (.refl h.space) fun _ _ hfuel a _ => by rw [if_neg (by omega)]
  | succ fuel ih =>
    unfold copyPages at hin ⊢
    unfold Phys.copySegment
    by_cases hlt : copied < src.length
    · rw [if_pos hlt] at hin ⊢
      rw [if_pos hlt]
      dsimp only at hin ⊢
      generalize hoff : (if curPage = pageBase vaddr then vaddr % pageSize else 0) = off at hin ⊢
      generalize hchunk : min (src.length - copied) (pageSize - off) = chunk at hin ⊢
      obtain ⟨hfirst, hrest⟩ := hin
      have hthere := h.translatePage (hfirst.imp id And.left)
      rw [Supply.run]
      cases htr : (t.withUpper root mem).translatePage (root * pageSize) curPage with
      | none =>
        rw [htr, Option.isSome_none] at hthere
        rw [Supply.touch, hthere]
        exact .fails (.refl h.space)
      | some frame =>
        rw [htr, Option.isSome_some] at hthere
        have hv : (pageNo curPage).User := hfirst.resolve_right fun hk => by
          rw [hthere] at hk
          cases hk.2
        have htouch : ((t.supply root).beside kernel).touch (pageNo curPage) = some (some _) :=
          congrArg some (if_pos hthere)
        rw [translatePage_withUpper h.space.wf hv, h.space.translatePage hv] at htr
        obtain ⟨e, he, rfl⟩ := Option.map_eq_some_iff.mp htr
        have hoffLt : off < pageSize := by
          rw [← hoff]
          split
          · exact Nat.mod_lt _ (by decide)
          · decide
        have hle : off + ((src.drop copied).take chunk).length ≤ pageSize := by
          rw [List.length_take]
          omega
        have hne : leafFrame e ≠ root := fun heq => h.space.noTable _ e [] hv he (by simp) (heq ▸ rfl)
        have hstep := h.space.storeStep hv he hle
        have hsupply := supply_setMem (h.space.storePage hv he hle).2.1
        have hnext := ih (h.step hstep) (by rw [hsupply]; exact hrest _ htouch)
        rw [hsupply] at hnext
        rw [htouch]
        dsimp only
        rw [store_withUpper hne hle]
        refine hnext.after hstep fun _ t' hview htop hat hfuel a ha => ?_
        rw [hat.pageOff hlt] at hoff
        have hat' := hat.next hlt htop
        rw [hoff, hchunk] at hat'
        rw [hview htop hat' (by omega) a ha, hat.userByte hlt htop hoff hchunk h.space he ha]
        by_cases hin : vaddr + copied ≤ a ∧ a < vaddr + copied + chunk
        · rw [if_neg (by omega), if_pos hin, if_pos (by omega)]
        · rw [if_neg hin]
          exact if_congr (by omega) rfl rfl
    · rw [if_neg hlt, if_neg hlt]
      exact .ends (.refl h.space) fun _ _ _ a _ => by rw [if_neg (by omega)]

/-! ## Segments -/

/-- The segment ends below `userTop`, in memory and as far as it is copied. -/
def ProgramHeader.Below (p : ProgramHeader) : Prop := p.vaddr + max p.memsz p.filesz ≤ userTop

variable {data : List Byte} {p : ProgramHeader}

namespace ProgramHeader

/-- The byte a program sees at `a` once the segment is loaded, `b` being the one it
saw before: the file's where it has one, a zero on a page that was not there. -/
def loaded (p : ProgramHeader) (data : List Byte) (a : Nat) (b : Option Byte) : Option Byte :=
  if p.vaddr ≤ a ∧ a < p.vaddr + p.filesz then data[p.offset + (a - p.vaddr)]?
  else if p.pageStart ≤ a ∧ a < p.pageStart + p.pages * pageSize then some (b.getD 0)
  else b

theorem Below.pages (h : p.Below) : p.pageStart + p.pages * pageSize ≤ userTop ∧ p.pageStart ≤ p.vaddr ∧
    p.vaddr < p.pageStart + pageSize ∧ p.vaddr + p.memsz ≤ p.pageStart + p.pages * pageSize := by
  have hmem : p.vaddr + p.memsz ≤ userTop := by unfold Below at h; omega
  unfold ProgramHeader.pages pageStart pageEnd roundPage pageBase wrappingAdd
  unfold userTop usizeMod pageSize at *
  omega

theorem Below.mem_mapped {a : Nat} (h : p.Below) (ha : a < userTop) :
    pageNo a ∈ p.mapped ↔ p.pageStart ≤ a ∧ a < p.pageStart + p.pages * pageSize := by
  have htop := h.pages.1
  have halign : p.pageStart % pageSize = 0 := pageBase_aligned p.vaddr
  unfold mapped pageRange
  rw [List.mem_map]
  constructor
  · rintro ⟨j, hj, hpage⟩
    rw [List.mem_range'_1] at hj
    have hlt : p.pageStart + j * pageSize < userTop := by
      unfold pageSize at *
      omega
    have hin := (pageNo_eq_iff ha hlt (by rw [Nat.add_mul_mod_self_right, halign])).mp hpage.symm
    unfold pageSize at *
    omega
  · intro hin
    refine ⟨(a - p.pageStart) / pageSize, ?_, ?_⟩
    · rw [List.mem_range'_1]
      unfold pageSize at *
      omega
    · refine ((pageNo_eq_iff ha ?_ ?_).mpr ?_).symm
      all_goals
        unfold pageSize at *
        omega

theorem InFile.slice (h : p.InFile data) :
    slice data p.offset (wrappingAdd p.offset p.filesz) = some ((data.drop p.offset).take p.filesz) := by
  rw [wrappingAdd_of_lt h.1]
  unfold CoreOS.slice
  rw [if_pos ⟨Nat.le_add_right .., h.2⟩, Nat.add_sub_cancel_left]

end ProgramHeader

/-- **Loading a segment.** -/
theorem loadSegment_loading (h : Halves t root mem kernel apart) (hfile : p.InFile data)
    (hin : p.InUser apart ((t.supply root).beside kernel)) :
    Loading t root mem kernel (fun _ t' => p.Below → ∀ a < userTop, userByte t' (root * pageSize) a =
        p.loaded data a (userByte t (root * pageSize) a))
      (Phys.loadSegment (root * pageSize) data p (t.withUpper root mem)) (p.supply ((t.supply root).beside kernel)) := by
  have hlen : ((data.drop p.offset).take p.filesz).length = p.filesz := by
    have := hfile.2
    rw [List.length_take, List.length_drop]
    omega
  generalize hsrc : (data.drop p.offset).take p.filesz = src at hlen
  have hdef : Phys.loadSegment (root * pageSize) data p (t.withUpper root mem) = andLoad (fun _ s =>
      if p.filesz = 0 then some (.ok (), s)
      else andLoad (fun _ s => some (if (s.translatePage (root * pageSize) p.pageStart).isSome then .ok ()
        else .error .oomLoadingSegment, s)) (some (Phys.copySegment (root * pageSize) p.vaddr src src.length 0 p.pageStart s)))
      (Phys.mapSegment (root * pageSize) p.pages p.pageStart (t.withUpper root mem)) := by
    unfold Phys.loadSegment
    rw [hfile.slice, hsrc]
    rcases Phys.mapSegment (root * pageSize) p.pages p.pageStart (t.withUpper root mem) with - | ⟨- | -, s⟩
    · rfl
    · rfl
    · dsimp only [andLoad]
      rcases Phys.copySegment (root * pageSize) p.vaddr src src.length 0 p.pageStart s with ⟨- | -, s'⟩
      · rfl
      · dsimp only
        cases s'.translatePage (root * pageSize) p.pageStart <;> rfl
  rw [hdef]
  refine (mapSegment_loading h hin.maps).andThen fun _ t1 hx hstep hview1 => ?_
  have hcopies := hin.copies _ hx
  unfold ProgramHeader.copied at hcopies ⊢
  by_cases hzero : p.filesz = 0
  · rw [if_pos hzero, hzero]
    refine .ends (.refl hstep.space) fun hb a ha => ?_
    rw [ProgramHeader.loaded, if_neg (by omega), hview1 a ha]
    exact if_congr (hb.mem_mapped ha) rfl rfl
  · rw [if_neg hzero, ← hlen]
    rw [← hlen] at hcopies
    refine (copySegment_loading (h.step hstep) hcopies).map fun _ t2 hx2 hstep2 hview2 => ⟨(), ?_, fun hb a ha => ?_⟩
    · -- the first page is one that was copied to
      obtain ⟨n, hn⟩ := Nat.exists_eq_succ_of_ne_zero hzero
      rw [hlen, hn, copyPages, if_pos (Nat.succ_pos n)] at hcopies hx2
      dsimp only at hcopies hx2
      rw [Supply.run_touch, Option.some_inj, Option.ite_none_right_eq_some, Option.some_inj] at hx2
      have hpage : ((t2.supply root).beside kernel).page (pageNo p.pageStart) = true := by
        rw [← hx2.2]
        exact (List.all_eq_true.mp hx2.1) _ List.mem_cons_self
      rw [((h.step hstep).step hstep2).translatePage (hcopies.1.imp id And.left)] at hpage
      rw [if_pos hpage]
    · have hat : CopyAt p.vaddr src.length 0 p.pageStart := fun _ => ⟨rfl, .inl rfl⟩
      have htop : p.vaddr + src.length ≤ userTop := by
        unfold ProgramHeader.Below at hb
        omega
      rw [hview2 htop hat (by omega) a ha, hview1 a ha, hlen, Nat.add_zero, ProgramHeader.loaded]
      refine ite_congr rfl (fun hin => ?_) fun _ => if_congr (hb.mem_mapped ha) rfl rfl
      rw [← hsrc, List.getElem?_take_of_lt (by omega), List.getElem?_drop]

/-! ## All segments -/

/-- The byte a program sees at `a` once the segments are loaded one after the other. -/
def loadedAll (data : List Byte) (ps : List ProgramHeader) (a : Nat) (b : Option Byte) : Option Byte :=
  ps.foldl (fun b p => p.loaded data a b) b

/-- `phdr_vaddr` after the segments. -/
def phdrAfter (phoff : Nat) (ps : List ProgramHeader) (phdr : Nat) : Nat :=
  ps.foldl (fun phdr p => if phdr = 0 ∧ p.HoldsHeaders phoff then p.phdrAt phoff else phdr) phdr

/-- What a program sees of the segments, when they are all below `userTop`. -/
def SeesSegments (t t' : Phys) (root : Nat) (data : List Byte) (ps : List ProgramHeader) : Prop :=
  (∀ p ∈ ps, p.Below) → ∀ a < userTop,
    userByte t' (root * pageSize) a = loadedAll data ps a (userByte t (root * pageSize) a)

variable {hd : ElfHeader}

/-- **The loop over the headers** loads the segments one after the other. -/
theorem loadSegments_loading (hc : hd.Checked) (hp : ¬ hd.Panics data) (hlen : data.length ≤ isizeMax) {i phdr : Nat}
    (hr : hd.Reached data i) (h : Halves t root mem kernel apart)
    (hin : Supply.Along (fun x o => ∀ p, o = some p → p.InUser apart x) Supply.segment (hd.steps data i n)
      ((t.supply root).beside kernel)) :
    Loading t root mem kernel (fun x t' => x = phdrAfter hd.phoff (hd.segmentsFrom data i n) phdr ∧
        SeesSegments t t' root data (hd.segmentsFrom data i n))
      (Phys.loadSegments (root * pageSize) data hd n i phdr (t.withUpper root mem))
      (Supply.run Supply.segment (hd.steps data i n) ((t.supply root).beside kernel)) := by
  induction n generalizing i phdr t with
  | zero => exact .ends (.refl h.space) ⟨rfl, fun _ _ _ => rfl⟩
  | succ n ih =>
    unfold ElfHeader.steps at hin ⊢
    unfold Phys.loadSegments
    by_cases hend : data.length < hd.phEnd i
    · rw [if_pos hend, if_pos hend]
      exact .fails (.refl h.space)
    obtain ⟨⟨p, hph⟩, hr'⟩ := hr.step hc hp hlen (by omega)
    rw [if_neg hend, hph] at hin
    rw [if_neg hend, if_neg hend, hph, ElfHeader.segmentsFrom_succ hph]
    dsimp only at hin ⊢
    by_cases hload : p.Loads
    · rw [if_neg (not_not.mpr hload)] at hin
      rw [if_neg (not_not.mpr hload), if_neg (not_not.mpr hload), if_pos hload]
      by_cases hfile : p.InFile data
      · rw [if_neg (not_not.mpr hfile)] at hin
        rw [if_neg (not_not.mpr hfile), if_neg (not_not.mpr hfile), Supply.run]
        obtain ⟨hfirst, hrest⟩ := hin
        have hnext : Loading t root mem kernel (fun x t' => x = phdrAfter hd.phoff (p :: hd.segmentsFrom data (i + 1) n) phdr ∧
            SeesSegments t t' root data (p :: hd.segmentsFrom data (i + 1) n))
            (andLoad (fun _ => Phys.loadSegments (root * pageSize) data hd n (i + 1) (phdrAfter hd.phoff [p] phdr))
              (Phys.loadSegment (root * pageSize) data p (t.withUpper root mem)))
            (Supply.andThen (Supply.run Supply.segment (hd.steps data (i + 1) n))
              (p.supply ((t.supply root).beside kernel))) := by
          refine (loadSegment_loading h hfile (hfirst p rfl)).andThen fun _ t1 hx hstep hview => ?_
          refine (ih hr' (h.step hstep) (hrest _ hx)).after (.refl hstep.space) fun x t' hlater => ⟨hlater.1, ?_⟩
          intro hb a ha
          rw [hlater.2 (fun q hq => hb q (List.mem_cons_of_mem p hq)) a ha, hview (hb p List.mem_cons_self) a ha]
          rfl
        revert hnext
        rcases Phys.loadSegment (root * pageSize) data p (t.withUpper root mem) with - | ⟨- | -, s⟩ <;> exact id
      · rw [if_pos hfile, if_pos hfile]
        exact .fails (.refl h.space)
    · rw [if_pos hload] at hin
      rw [if_pos hload, if_pos hload, if_neg hload]
      exact ih hr' h hin

/-- What the loader returns for a file that it loads. -/
def ElfHeader.image (hd : ElfHeader) (data : List Byte) : LoadedImage :=
  ⟨hd.entry, phdrAfter hd.phoff (hd.segments data) 0, hd.phentsize, hd.phnum⟩

/-- **Loading a file.** -/
theorem loadInto_loading (hlen : data.length ≤ isizeMax) (hp : ¬ HeadersPanic data) (h : Halves t root mem kernel apart)
    (hin : SegmentsInUser apart data ((t.supply root).beside kernel)) :
    Loading t root mem kernel (fun image t' => ∀ hd, validateHeader data = some (.ok hd) →
        image = hd.image data ∧ SeesSegments t t' root data (hd.segments data))
      ((t.withUpper root mem).loadInto (root * pageSize) data) (loadSupply data ((t.supply root).beside kernel)) := by
  have hin := hin.along
  unfold loadSupply
  unfold fileSteps at hin ⊢
  rcases validateHeader_cases data with ⟨e, he⟩ | ⟨hd, hh, hc⟩
  · unfold Phys.loadInto
    rw [he]
    exact .fails (.refl h.space)
  · have hdef : (t.withUpper root mem).loadInto (root * pageSize) data =
        andLoad (fun phdr s => some (.ok ⟨hd.entry, phdr, hd.phentsize, hd.phnum⟩, s))
          (Phys.loadSegments (root * pageSize) data hd hd.phnum 0 0 (t.withUpper root mem)) := by
      unfold Phys.loadInto
      rw [hh]
      dsimp only
      rcases Phys.loadSegments (root * pageSize) data hd hd.phnum 0 0 (t.withUpper root mem) with - | ⟨- | -, s⟩ <;> rfl
    rw [hdef]
    rw [hh] at hin ⊢
    refine (loadSegments_loading hc (fun hp' => hp ⟨hd, hh, hp'⟩) hlen (.inl rfl) h hin).map fun phdr t' _ _ hview =>
      ⟨_, rfl, fun hd' hh' => ?_⟩
    cases hh'
    exact ⟨by rw [hview.1]; rfl, hview.2⟩

end Loops

end CoreOS
