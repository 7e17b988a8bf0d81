/-
The lower half of an address space on its own: the root table without the upper
half of its entries. What the kernel does with pages below `userTop` it does to
an address space whose upper half is empty, which is a tree of its own tables,
whatever the kernel's are. Results about it carry over
(`translatePage_withUpper`, `mapPageIn_withUpper`), with the upper half put back.
-/
import CoreOS.UserSpace
import CoreOS.RootEntries

namespace CoreOS

open ByteMem Radix

/-! ## The upper half put back -/

/-- The addresses of the upper half of the table in frame `root`. -/
def InUpper (root x : Nat) : Prop := root * pageSize + 2048 ≤ x ∧ x < root * pageSize + pageSize

instance {root : Nat} : DecidablePred (InUpper root) := fun _ => inferInstanceAs (Decidable (_ ∧ _))

/-- The lower half of `t`, with the upper half of the root table as in `mem`. -/
def Phys.withUpper (t : Phys) (root : Nat) (mem : Mem) : Phys := t.setMem (overlay (InUpper root) mem t.mem)

section Upper

variable {t : Phys} {root f : Nat} {mem : Mem} {i : Fin 512} {v : PageNo}

theorem withUpper_in {x : Nat} (h : InUpper root x) : (t.withUpper root mem).mem x = mem x := overlay_in h

theorem withUpper_out {x : Nat} (h : ¬ InUpper root x) : (t.withUpper root mem).mem x = t.mem x := overlay_out h

/-- Memory without the upper half of the root table. -/
def Phys.lowerHalf (s : Phys) (root : Nat) : Phys := s.withUpper root fun _ => 0

theorem Phys.lowerHalf_withUpper (s : Phys) (root : Nat) : (s.lowerHalf root).withUpper root s.mem = s := by
  refine congrArg (Phys.mk s.pmm) (funext fun x => ?_)
  by_cases hx : InUpper root x
  · exact withUpper_in hx
  · exact (withUpper_out hx).trans (withUpper_out hx)

theorem withUpper_eq : t.withUpper root mem = t.withEntries root (256 ≤ ·) mem := by
  refine congrArg (Phys.mk t.pmm) (funext fun x => ?_)
  have hiff : InUpper root x ↔ InEntries root (256 ≤ ·) x := by
    unfold InUpper InEntries pageSize
    omega
  by_cases hx : InUpper root x
  · rw [overlay_in hx, overlay_in (hiff.mp hx)]
  · rw [overlay_out hx, overlay_out (hiff.not.mp hx)]

theorem tables_withUpper (h : f ≠ root ∨ i.val < 256) : tables (t.withUpper root mem).mem f i = tables t.mem f i := by
  rw [withUpper_eq]
  exact tables_withEntries (h.imp_right Nat.not_le.mpr)

theorem writeEntry_withUpper {w : Word} (h : f ≠ root ∨ i.val < 256) :
    (t.withUpper root mem).setMem (writeEntry (t.withUpper root mem).mem (f * pageSize) i w) =
      (t.setMem (writeEntry t.mem (f * pageSize) i w)).withUpper root mem := by
  rw [withUpper_eq, withUpper_eq]
  exact writeEntry_withEntries (h.imp_right Nat.not_le.mpr)

theorem fill_withUpper (h : f ≠ root) :
    (t.withUpper root mem).setMem (fill (t.withUpper root mem).mem (f * pageSize) pageSize 0) =
      (t.setMem (fill t.mem (f * pageSize) pageSize 0)).withUpper root mem := by
  refine congrArg (Phys.mk t.pmm) (fill_overlay fun x hx => ?_)
  unfold InUpper pageSize at *
  omega

theorem store_withUpper {off : Nat} {bytes : List Byte} (h : f ≠ root) (hle : off + bytes.length ≤ pageSize) :
    (t.withUpper root mem).setMem (store (t.withUpper root mem).mem (f * pageSize + off) bytes) =
      (t.setMem (store t.mem (f * pageSize + off) bytes)).withUpper root mem := by
  refine congrArg (Phys.mk t.pmm) (store_overlay fun x hx => ?_)
  unfold InUpper pageSize at *
  omega

theorem allocFrame_withUpper (h : t.pmm.isFree root = false) :
    (t.withUpper root mem).allocFrame = (t.allocFrame.1, t.allocFrame.2.withUpper root mem) := by
  rw [withUpper_eq, withUpper_eq]
  exact allocFrame_withEntries h

theorem tableAt_withUpper {p : List (Fin 512)} (hw : WellFormed t root) (hi : i.val < 256) (hp : p.length ≤ 3) :
    tableAt (t.withUpper root mem).mem root (i :: p) = tableAt t.mem root (i :: p) := by
  rw [withUpper_eq]
  exact tableAt_withEntries hw (Nat.not_le.mpr hi) hp

theorem hugeEntry_withUpper (hw : WellFormed t root) (hv : v.User) :
    hugeEntry (t.withUpper root mem).mem root v = hugeEntry t.mem root v := by
  rw [withUpper_eq]
  exact hugeEntry_withEntries hw (Nat.not_le.mpr hv)

theorem pageEntry_withUpper (hw : WellFormed t root) (hv : v.User) :
    pageEntry (t.withUpper root mem).mem root v = pageEntry t.mem root v := by
  rw [withUpper_eq]
  exact pageEntry_withEntries hw (Nat.not_le.mpr hv)

theorem pageMap_withUpper (hw : WellFormed t root) (hv : v.User) :
    pageMap (t.withUpper root mem).mem root v = pageMap t.mem root v := by
  rw [withUpper_eq]
  exact pageMap_withEntries hw (Nat.not_le.mpr hv)

theorem translatePage_withUpper {virt : Nat} (hw : WellFormed t root) (hv : (pageNo virt).User) :
    (t.withUpper root mem).translatePage (root * pageSize) virt = t.translatePage (root * pageSize) virt := by
  rw [withUpper_eq]
  exact translatePage_withEntries hw (Nat.not_le.mpr hv)

theorem mapPageIn_withUpper {virt phys : Nat} {flags : MapFlags} (hw : WellFormed t root) (hv : (pageNo virt).User) :
    (t.withUpper root mem).mapPageIn (root * pageSize) virt phys flags =
      (t.mapPageIn (root * pageSize) virt phys flags).map fun t => t.withUpper root mem := by
  simp only [withUpper_eq]
  exact mapPageIn_withEntries hw (Nat.not_le.mpr hv)

theorem ptePtr_withUpper {virt : Nat} (hw : WellFormed t root) (hv : (pageNo virt).User) :
    (t.withUpper root mem).ptePtr (root * pageSize) virt = t.ptePtr (root * pageSize) virt := by
  rw [ptePtr_eq, ptePtr_eq]
  unfold dirPath
  rw [tableAt_withUpper hw hv (by simp)]

theorem freeFrame_withUpper {a : Nat} : (t.withUpper root mem).freeFrame a = (t.freeFrame a).withUpper root mem := by
  unfold Phys.freeFrame
  rw [show (t.withUpper root mem).pmm = t.pmm from rfl]
  dsimp only
  split
  · rfl
  · split <;> rfl

theorem unmapFree_withUpper {virt : Nat} (hw : WellFormed t root) (hv : (pageNo virt).User) :
    (t.withUpper root mem).unmapFree (root * pageSize) virt = (t.unmapFree (root * pageSize) virt).withUpper root mem := by
  unfold Phys.unmapFree Phys.unmapPageIn
  rw [ptePtr_withUpper hw hv, ptePtr_eq]
  generalize hp : dirPath (pageNo virt) = path
  cases hpt : tableAt t.mem root path with
  | none => rfl
  | some pt =>
    have hne : pt ≠ root := hw.ne_root (by rw [← hp]; simp [dirPath]) (by rw [← hp]; simp [dirPath]) hpt
    have hload : loadWord (t.withUpper root mem).mem (pt * pageSize + dirIndex (pageNo virt) 0 * 8) =
      loadWord t.mem (pt * pageSize + dirIndex (pageNo virt) 0 * 8) := tables_withUpper (.inl hne)
    have hstore : (t.withUpper root mem).setMem (storeWord (t.withUpper root mem).mem
        (pt * pageSize + dirIndex (pageNo virt) 0 * 8) 0) =
        (t.setMem (storeWord t.mem (pt * pageSize + dirIndex (pageNo virt) 0 * 8) 0)).withUpper root mem :=
      writeEntry_withUpper (.inl hne)
    rw [Option.map_some]
    dsimp only
    rw [hload, hstore]
    by_cases hpresent : has (loadWord t.mem (pt * pageSize + dirIndex (pageNo virt) 0 * 8)) ptePresent = true
    · rw [if_neg (not_not.mpr hpresent), if_neg (not_not.mpr hpresent)]
      exact freeFrame_withUpper
    · rw [if_pos hpresent, if_pos hpresent]

/-! ## Address spaces without their upper half -/

theorem withUpper_withUpper {mem' : Mem} : (t.withUpper root mem).withUpper root mem' = t.withUpper root mem' := by
  refine congrArg (Phys.mk t.pmm) (funext fun x => ?_)
  by_cases hx : InUpper root x
  · exact (withUpper_in hx).trans (withUpper_in hx).symm
  · exact (withUpper_out hx).trans ((withUpper_out hx).trans (withUpper_out hx).symm)

theorem tables_lowerHalf_upper (hi : 256 ≤ i.val) : tables (t.lowerHalf root).mem root i = 0 := by
  have hlt := i.isLt
  refine loadWord_zero fun x h1 h2 => withUpper_in ?_
  unfold InUpper pageSize at *
  omega

theorem tableAt_of_lowerHalf {p : List (Fin 512)} (hw : WellFormed t root) (hp : p.length ≤ 4)
    (hf : tableAt (t.lowerHalf root).mem root p = some f) : tableAt t.mem root p = some f := by
  cases p with
  | nil =>
    rw [tableAt, walk_nil] at hf ⊢
    exact hf
  | cons i p =>
    rw [List.length_cons] at hp
    by_cases hi : i.val < 256
    · exact (tableAt_withUpper hw hi (by omega)).symm.trans hf
    · rw [tableAt, walk_cons, tables_lowerHalf_upper (by omega), tableChild_zero] at hf
      cases hf

theorem UserSpace.lowerHalf (h : UserSpace t root) : UserSpace (t.lowerHalf root) root := by
  have hpage : ∀ {v}, v.User → pageEntry (t.lowerHalf root).mem root v = pageEntry t.mem root v :=
    pageEntry_withUpper h.wf
  refine ⟨⟨fun p q f hp hq hf hf' => ?_, fun p f hp hf => ?_, fun p f i hp hf => ?_⟩, fun v hv => ?_, fun v e hv he => ?_,
    fun v e q hv he hq hqt => ?_, fun v w e e' hv hw he he' => ?_⟩
  · exact h.wf.once p q f hp hq (tableAt_of_lowerHalf h.wf (by omega) hf) (tableAt_of_lowerHalf h.wf (by omega) hf')
  · exact h.wf.table p f hp (tableAt_of_lowerHalf h.wf (by omega) hf)
  · by_cases hi : f ≠ root ∨ i.val < 256
    · rw [show tables (t.lowerHalf root).mem f i = _ from tables_withUpper hi]
      exact h.wf.nonleaf p f i hp (tableAt_of_lowerHalf h.wf (by omega) hf)
    · rw [not_or, not_not, Nat.not_lt] at hi
      exact .inl (hi.1 ▸ tables_lowerHalf_upper hi.2)
  · exact (hugeEntry_withUpper h.wf hv).trans (h.small v hv)
  · exact h.used v e hv ((hpage hv).symm.trans he)
  · exact h.noTable v e q hv ((hpage hv).symm.trans he) hq (tableAt_of_lowerHalf h.wf (by omega) hqt)
  · exact h.own v w e e' hv hw ((hpage hv).symm.trans he) ((hpage hw).symm.trans he')

/-- The lower half of an address space is a tree of tables and pages of its own.
Nothing is said about the upper half. -/
def UserHalf (s : Phys) (root : Nat) : Prop := UserSpace (s.lowerHalf root) root

theorem UserSpace.userHalf (h : UserSpace t root) : UserHalf (t.withUpper root mem) root := by
  unfold UserHalf Phys.lowerHalf
  rw [withUpper_withUpper]
  exact h.lowerHalf

end Upper

theorem emptyTree_userHalf : UserHalf emptyTree 1 := emptyTree_userSpace.lowerHalf

end CoreOS
