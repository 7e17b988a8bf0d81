/-
Straight-line machine code on sixteen registers: moves, loads and stores, pushes
and pops. Memory is reached through a map of addresses (`Layout.place`), and
variables that the code names are kept apart from it.
-/
import CoreOS.Lib.Memory

namespace Straight

open ByteMem

inductive Reg
  | rax | rbx | rcx | rdx | rsi | rdi | rbp | rsp | r8 | r9 | r10 | r11 | r12 | r13 | r14 | r15
  deriving DecidableEq

/-- Instructions over variables named by `V`. -/
inductive Instr (V : Type)
  | push (r : Reg)
  | pop (r : Reg)
  /-- The return address goes to the variable that stands for the instruction pointer. -/
  | popVar (v : V)
  | mov (dst src : Reg)
  | movImm (dst : Reg) (w : Word)
  /-- A 32-bit move, which clears the upper half. -/
  | mov32 (dst src : Reg)
  | shr (r : Reg) (n : Nat)
  | add (r : Reg) (w : Word)
  | load (dst base : Reg) (off : Nat)
  | store (base : Reg) (off : Nat) (src : Reg)
  | lea (dst : Reg) (v : V)
  | loadVar (dst : Reg) (v : V)
  | storeVar (v : V) (src : Reg)
  | setVar (v : V) (w : Word)
  | orVar (v : V) (w : Word)
  /-- `edx:eax` to a variable. -/
  | wrmsr (v : V)

/-- Where the byte at an address is in memory, and where the variables are. -/
structure Layout (V : Type) where
  place : Nat → Nat
  addr : V → Word

structure State (V : Type) where
  regs : Reg → Word
  vars : V → Word
  mem : Mem

namespace State

variable {V : Type}

@[simps -fullyApplied] def set (s : State V) (r : Reg) (w : Word) : State V := { s with regs := Function.update s.regs r w }

@[simps -fullyApplied] def setVar [DecidableEq V] (s : State V) (v : V) (w : Word) : State V := { s with vars := Function.update s.vars v w }

end State

/-- The `n` bytes from `a` on lie in memory one after the other. -/
def Layout.Linear {V : Type} (L : Layout V) (a n : Nat) : Prop := ∀ i < n, L.place (a + i) = L.place a + i

theorem Layout.Linear.sub {V : Type} {L : Layout V} {a n d m : Nat} (h : L.Linear a n) (hle : d + m ≤ n) :
    L.Linear (a + d) m := by
  intro i hi
  rw [Nat.add_assoc, h (d + i) (by omega), h d (by omega), Nat.add_assoc]

section Exec

variable {V : Type} [DecidableEq V] (L : Layout V)

def exec (s : State V) : Instr V → State V
  | .push r =>
    { s.set .rsp (s.regs .rsp - 8) with mem := storeWord s.mem (L.place (s.regs .rsp - 8).toNat) (s.regs r) }
  | .pop r => (s.set .rsp (s.regs .rsp + 8)).set r (loadWord s.mem (L.place (s.regs .rsp).toNat))
  | .popVar v => (s.set .rsp (s.regs .rsp + 8)).setVar v (loadWord s.mem (L.place (s.regs .rsp).toNat))
  | .mov dst src => s.set dst (s.regs src)
  | .movImm dst w => s.set dst w
  | .mov32 dst src => s.set dst (s.regs src &&& 0xFFFFFFFF)
  | .shr r n => s.set r (s.regs r >>> n)
  | .add r w => s.set r (s.regs r + w)
  | .load dst base off => s.set dst (loadWord s.mem (L.place (s.regs base + BitVec.ofNat 64 off).toNat))
  | .store base off src =>
    { s with mem := storeWord s.mem (L.place (s.regs base + BitVec.ofNat 64 off).toNat) (s.regs src) }
  | .lea dst v => s.set dst (L.addr v)
  | .loadVar dst v => s.set dst (s.vars v)
  | .storeVar v src => s.setVar v (s.regs src)
  | .setVar v w => s.setVar v w
  | .orVar v w => s.setVar v (s.vars v ||| w)
  | .wrmsr v => s.setVar v (s.regs .rdx <<< 32 ||| s.regs .rax &&& 0xFFFFFFFF)

def run (s : State V) (is : List (Instr V)) : State V := is.foldl (exec L) s

variable {L}

variable {s : State V}

@[simp] theorem run_nil : run L s [] = s := rfl

@[simp] theorem run_cons {i : Instr V} {is : List (Instr V)} : run L s (i :: is) = run L (exec L s i) is := rfl

theorem run_append {is js : List (Instr V)} : run L s (is ++ js) = run L (run L s is) js :=
  List.foldl_append

/-! ## Pushes -/

/-- What pushing `rs` leaves: the stack pointer at `low`, and above it the
registers, the last one first. -/
structure Pushed (L : Layout V) (s : State V) (rs : List Reg) (low : Nat) (t : State V) : Prop where
  regs : t.regs = Function.update s.regs .rsp (BitVec.ofNat 64 low)
  vars : t.vars = s.vars
  words : loadWords t.mem (L.place low) rs.length = rs.reverse.map s.regs
  out : ∀ x, x < L.place low ∨ L.place low + 8 * rs.length ≤ x → t.mem x = s.mem x

theorem run_pushes : ∀ (rs : List Reg) (s : State V) {low : Nat}, Reg.rsp ∉ rs →
    low + 8 * rs.length = (s.regs .rsp).toNat → L.Linear low (8 * rs.length) →
    Pushed L s rs low (run L s (rs.map .push))
  | [], s, low, _, hlow, _ => by
    have hsp : BitVec.ofNat 64 low = s.regs .rsp := by
      rw [show low = (s.regs .rsp).toNat by simpa using hlow, BitVec.ofNat_toNat, BitVec.setWidth_eq]
    exact ⟨by rw [hsp, Function.update_eq_self]; rfl, rfl, rfl, fun _ _ => rfl⟩
  | r :: rs, s, low, hrs, hlow, hlin => by
    rw [List.length_cons, Nat.mul_add] at hlow hlin
    have hsp : (s.regs .rsp - 8).toNat = low + 8 * rs.length := by
      rw [BitVec.toNat_sub_of_le (by rw [BitVec.le_def]; simp; omega)]
      simp
      omega
    rw [List.map_cons, run_cons]
    have hmem : (exec L s (.push r)).mem = storeWord s.mem (L.place low + 8 * rs.length) (s.regs r) := by
      rw [← hlin (8 * rs.length) (by omega), ← hsp]
      rfl
    have ih := run_pushes rs (exec L s (.push r)) (fun h => hrs (List.mem_cons_of_mem r h))
      (show low + 8 * rs.length = (s.regs .rsp - 8).toNat from hsp.symm) fun i hi => hlin i (by omega)
    refine ⟨?_, ih.vars, ?_, fun x hx => ?_⟩
    · rw [ih.regs]
      exact Function.update_idem ..
    · have hlast : loadWord (run L (exec L s (.push r)) (rs.map .push)).mem (L.place low + 8 * rs.length) = s.regs r := by
        rw [loadWord_congr fun x h1 _ => ih.out x (.inr h1), hmem, loadWord_storeWord]
      have hsame : rs.map (exec L s (.push r)).regs = rs.map s.regs :=
        List.map_congr_left fun q hq =>
          Function.update_of_ne (a := q) (fun h : q = .rsp => hrs (List.mem_cons_of_mem r (h ▸ hq))) ..
      rw [List.length_cons, loadWords_succ, ih.words, hlast, List.map_reverse, hsame, ← List.map_reverse,
        List.reverse_cons, List.map_append]
      rfl
    · rw [List.length_cons] at hx
      rw [ih.out x (by omega), hmem, storeWord_out (by omega)]

/-! ## Pops -/

/-- What popping `rs` leaves. -/
structure Popped (L : Layout V) (s : State V) (rs : List Reg) (t : State V) : Prop where
  rsp : t.regs .rsp = s.regs .rsp + BitVec.ofNat 64 (8 * rs.length)
  vars : t.vars = s.vars
  mem : t.mem = s.mem
  words : rs.map t.regs = loadWords s.mem (L.place (s.regs .rsp).toNat) rs.length
  other : ∀ r, r ≠ .rsp → r ∉ rs → t.regs r = s.regs r

theorem run_pops : ∀ (rs : List Reg) (s : State V), Reg.rsp ∉ rs → rs.Nodup →
    (s.regs .rsp).toNat + 8 * rs.length < 2 ^ 64 → L.Linear (s.regs .rsp).toNat (8 * rs.length) →
    Popped L s rs (run L s (rs.map .pop))
  | [], s, _, _, _, _ => ⟨by simp, rfl, rfl, rfl, fun _ _ _ => rfl⟩
  | r :: rs, s, hrs, hnd, hlt, hlin => by
    rw [List.length_cons, Nat.mul_add] at hlt hlin
    rw [List.mem_cons, not_or] at hrs
    obtain ⟨hr, hnd⟩ := List.nodup_cons.mp hnd
    rw [List.map_cons, run_cons]
    have hsp : (exec L s (.pop r)).regs .rsp = s.regs .rsp + 8 := by
      simp [exec, hrs.1]
    have hspNat : ((exec L s (.pop r)).regs .rsp).toNat = (s.regs .rsp).toNat + 8 := by
      rw [hsp, BitVec.toNat_add_of_lt (by simp; omega)]
      rfl
    have hlin' : L.Linear ((exec L s (.pop r)).regs .rsp).toNat (8 * rs.length) := by
      rw [hspNat]
      exact hlin.sub (by omega)
    have ih := run_pops rs (exec L s (.pop r)) hrs.2 hnd (by omega) hlin'
    refine ⟨?_, ih.vars, ih.mem, ?_, fun q hq hqrs => ?_⟩
    · rw [ih.rsp, hsp, List.length_cons, BitVec.add_assoc, Nat.mul_add, Nat.add_comm (8 * rs.length), BitVec.ofNat_add]
      rfl
    · have hfirst : (run L (exec L s (.pop r)) (rs.map .pop)).regs r =
          loadWord s.mem (L.place (s.regs .rsp).toNat) := by
        rw [ih.other r (fun h => hrs.1 h.symm) hr]
        simp [exec]
      have hrest : loadWords s.mem (L.place ((s.regs .rsp).toNat + 8)) rs.length =
          loadWords s.mem (L.place (s.regs .rsp).toNat + 8) rs.length := by
        cases rs with
        | nil => rfl
        | cons q rs => rw [hlin 8 (by rw [List.length_cons]; omega)]
      rw [List.map_cons, hfirst, ih.words, hspNat]
      exact congrArg _ hrest
    · rw [List.mem_cons, not_or] at hqrs
      rw [ih.other q hq hqrs.2]
      simp [exec, hq, hqrs.1]

end Exec

end Straight
