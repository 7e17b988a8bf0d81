/-
Sleeping (`syscall/time.rs`, `sleep_yield` in `hw/pit.rs`).
-/
import CoreOS.Futex

namespace CoreOS

open ByteMem

/-- `copy_struct_to_user` of a `Timespec`. -/
def copyTimeSpecToUser (user : Mem) (ptr : Nat) (ts : TimeSpec) : Option Mem :=
  copyToUser user ptr (toBytes 8 (BitVec.ofInt 64 ts.tvSec).toNat ++ toBytes 8 (BitVec.ofInt 64 ts.tvNsec).toNat)

/-- A request that is accepted. -/
def TimeSpec.Valid (ts : TimeSpec) : Prop := 0 ≤ ts.tvSec ∧ 0 ≤ ts.tvNsec ∧ ts.tvNsec < 1000000000

instance {ts : TimeSpec} : Decidable ts.Valid := inferInstanceAs (Decidable (_ ∧ _))

/-- A time in nanoseconds, as the 128-bit sums have it. -/
def TimeSpec.ns (ts : TimeSpec) : Int := ts.tvSec * 1000000000 + ts.tvNsec

/-- `TICKS` after `t` ticks. -/
def tickCounter (t : Nat) : Nat := t % usizeMod

/-- The time that a counter of `ticks` stands for. -/
def clockTime (ticks : Nat) : TimeSpec := ⟨toI64 (ticks / 100), toI64 (ticks % 100 * 10000000)⟩

/-- The clocks there are, realtime and monotonic. -/
def clockOk (clockid : Nat) : Bool := clockid = 0 || clockid = 1

/-! ## The calls -/

/-- The loop of `sleep_yield`: the time of the look at which it ends, `none` while
it sleeps. -/
def sleepLoop (start waitTicks : Nat) : Nat → List Nat → Option Nat
  | _, [] => none
  | t, gap :: gaps =>
    if wrappingSub (tickCounter (t + gap)) start < waitTicks then sleepLoop start waitTicks (t + gap) gaps
    else some (t + gap)

def sleepYield (waitTicks t : Nat) : List Nat → Option Nat
  | [] => none
  | gap :: gaps => sleepLoop (tickCounter (t + gap)) waitTicks (t + gap) gaps

/-- A call that is over: its result, the caller's memory, and when it was. -/
structure Woken where
  result : Except SysError Nat
  user : Mem
  ticks : Nat

/-- The end of a sleep: no time remains. -/
def noneRemains (user : Mem) (remPtr t : Nat) : Woken :=
  if remPtr ≠ 0 then
    match copyTimeSpecToUser user remPtr ⟨0, 0⟩ with
    | some user => ⟨.ok 0, user, t⟩
    | none => ⟨.error .fault, user, t⟩
  else ⟨.ok 0, user, t⟩

def sleepTimespec (user : Mem) (t : Nat) (gaps : List Nat) (req : TimeSpec) (remPtr : Nat) : Option Woken :=
  if ¬ req.Valid then some ⟨.error .invalid, user, t⟩
  else (sleepYield req.ticks t gaps).map (noneRemains user remPtr)

/-- `nanosleep_impl`. -/
def nanosleep (user : Mem) (t : Nat) (gaps : List Nat) (reqPtr remPtr : Nat) : Option Woken :=
  match copyTimeSpecFromUser user reqPtr with
  | none => some ⟨.error .fault, user, t⟩
  | some req => sleepTimespec user t gaps req remPtr

/-- What `clock_nanosleep_impl` does with an absolute time, `ticks` being its look
at the counter. -/
def sleepUntil (user : Mem) (t : Nat) (gaps : List Nat) (req : TimeSpec) (remPtr ticks : Nat) : Option Woken :=
  let now := clockTime ticks
  if req.ns ≤ now.ns then some (noneRemains user remPtr t)
  else
    let deltaNs := ((req.ns - now.ns) % 2 ^ 64).toNat
    sleepTimespec user t gaps ⟨toI64 (deltaNs / 1000000000), toI64 (deltaNs % 1000000000)⟩ remPtr

/-- `clock_nanosleep_impl`. -/
def clockNanosleep (user : Mem) (t : Nat) (gaps : List Nat) (clockid flags reqPtr remPtr : Nat) : Option Woken :=
  if ¬ clockOk clockid then some ⟨.error .invalid, user, t⟩
  else if flags = 0 then nanosleep user t gaps reqPtr remPtr
  else if ¬ flags = 1 then some ⟨.error .invalid, user, t⟩
  else
    match copyTimeSpecFromUser user reqPtr with
    | none => some ⟨.error .fault, user, t⟩
    | some req =>
      if ¬ req.Valid then some ⟨.error .invalid, user, t⟩
      else
        match gaps with
        | [] => none
        | gap :: gaps => sleepUntil user (t + gap) gaps req remPtr (tickCounter (t + gap))

/-! ## The counter and the loop -/

variable {t : Nat}

theorem wrappingSub_tickCounter {t0 : Nat} (h : t0 ≤ t) :
    wrappingSub (tickCounter t) (tickCounter t0) = (t - t0) % usizeMod := by
  unfold wrappingSub tickCounter usizeMod
  omega

theorem clockTime_ns {c : Nat} (hc : c < usizeMod) : (clockTime c).ns = c * 10000000 := by
  unfold usizeMod at hc
  rw [TimeSpec.ns, clockTime, toI64_of_lt (by omega), toI64_of_lt (by omega)]
  dsimp only
  omega

variable {waitTicks : Nat} {gaps : List Nat}

theorem sleepLoop_late {t0 : Nat} {t' : Nat} (ht : t0 ≤ t) (h : sleepLoop (tickCounter t0) waitTicks t gaps = some t') :
    t0 + waitTicks ≤ t' := by
  induction gaps generalizing t with
  | nil => cases h
  | cons gap gaps ih =>
    have hnext : t0 ≤ t + gap := by omega
    rw [sleepLoop, wrappingSub_tickCounter hnext] at h
    split at h
    · exact ih hnext h
    next hdone =>
      cases h
      have hmod := Nat.mod_le (t + gap - t0) usizeMod
      omega

theorem sleepYield_late {t' : Nat} (h : sleepYield waitTicks t gaps = some t') :
    t + waitTicks ≤ t' := by
  cases gaps with
  | nil => cases h
  | cons gap gaps =>
    have hlate := sleepLoop_late (Nat.le_refl _) h
    omega

theorem sleepYield_exact (t : Nat) (hw : waitTicks < usizeMod) :
    sleepYield waitTicks t [0, waitTicks] = some (t + waitTicks) := by
  have hsub : wrappingSub (tickCounter (t + waitTicks)) (tickCounter t) = waitTicks := by
    rw [wrappingSub_tickCounter (Nat.le_add_right _ _), Nat.add_sub_cancel_left, Nat.mod_eq_of_lt hw]
  simp only [sleepYield, sleepLoop, Nat.add_zero, hsub, Nat.lt_irrefl, if_false]

theorem ticks_noneRemains (user : Mem) (remPtr t : Nat) : (noneRemains user remPtr t).ticks = t := by
  unfold noneRemains
  split
  · split <;> rfl
  · rfl

/-- A place for the remaining time that is accepted. -/
def RemOk (remPtr : Nat) : Prop := remPtr = 0 ∨ userRangeOk remPtr 16 = true

variable {user : Mem} {remPtr : Nat}

theorem noneRemains_ok (h : RemOk remPtr) : (noneRemains user remPtr t).result = .ok 0 := by
  unfold noneRemains
  split
  next hz =>
    have hok := h.resolve_left hz
    have hcopy : copyTimeSpecToUser user remPtr ⟨0, 0⟩ = some _ := if_pos hok
    rw [hcopy]
  · rfl

variable {req : TimeSpec}

theorem TimeSpec.ticks_eq (hv : req.Valid) (hns : req.ns ≤ u64Max) :
    req.ticks = divCeil req.ns.toNat 10000000 := by
  obtain ⟨hs, hn, -⟩ := hv
  unfold TimeSpec.ticks
  unfold TimeSpec.ns at *
  unfold u64Max at *
  dsimp only
  congr 1
  omega

variable {r : Woken}

theorem sleepTimespec_after (h : sleepTimespec user t gaps req remPtr = some r) : t ≤ r.ticks := by
  unfold sleepTimespec at h
  split at h
  · cases h
    exact Nat.le_refl t
  · obtain ⟨t', ht', rfl⟩ := Option.map_eq_some_iff.mp h
    have hlate := sleepYield_late ht'
    rw [ticks_noneRemains]
    omega

theorem sleepUntil_after {ticks : Nat} (h : sleepUntil user t gaps req remPtr ticks = some r) : t ≤ r.ticks := by
  unfold sleepUntil at h
  dsimp only at h
  split at h
  · cases h
    rw [ticks_noneRemains]
  · exact sleepTimespec_after h

/-! ## Relative sleeps -/

/-- **A relative sleep is never too short.** -/
theorem sleepTimespec_late (h : sleepTimespec user t gaps req remPtr = some r) (hok : r.result = .ok 0)
    (hns : req.ns ≤ u64Max) :
    req.ns ≤ (r.ticks - t : Nat) * 10000000 := by
  unfold sleepTimespec at h
  split at h
  · cases h
    cases hok
  next hv =>
    obtain ⟨t', ht', rfl⟩ := Option.map_eq_some_iff.mp h
    have hlate := sleepYield_late ht'
    rw [TimeSpec.ticks_eq (not_not.mp hv) hns] at hlate
    rw [ticks_noneRemains]
    unfold divCeil at hlate
    omega

/-! ## Absolute sleeps -/

/-- The ticks that a call at `t` sleeps for, the time ahead cast to 64 bits. -/
def aheadTicks (req : TimeSpec) (t : Nat) : Nat := divCeil ((req.ns - t * 10000000) % 2 ^ 64).toNat 10000000

section

variable {user : Mem} {req : TimeSpec} {remPtr t : Nat}

theorem sleepUntil_eq (gaps : List Nat) (ht : t < usizeMod) :
    sleepUntil user t gaps req remPtr (tickCounter t) =
      if req.ns ≤ t * 10000000 then some (noneRemains user remPtr t)
      else (sleepYield (aheadTicks req t) t gaps).map (noneRemains user remPtr) := by
  have hcount : tickCounter t = t := Nat.mod_eq_of_lt ht
  unfold sleepUntil
  dsimp only
  rw [hcount, clockTime_ns ht]
  split
  · rfl
  · unfold aheadTicks
    generalize hd : ((req.ns - t * 10000000) % 2 ^ 64).toNat = d
    have hlt : d < 2 ^ 64 := by omega
    have hrel : (⟨toI64 (d / 1000000000), toI64 (d % 1000000000)⟩ : TimeSpec) =
        ⟨(d / 1000000000 : Nat), (d % 1000000000 : Nat)⟩ := by
      rw [toI64_of_lt (by omega), toI64_of_lt (by omega)]
    have hv : (⟨(d / 1000000000 : Nat), (d % 1000000000 : Nat)⟩ : TimeSpec).Valid := by
      unfold TimeSpec.Valid
      dsimp only
      omega
    have hns : (⟨(d / 1000000000 : Nat), (d % 1000000000 : Nat)⟩ : TimeSpec).ns = d := by
      unfold TimeSpec.ns
      dsimp only
      omega
    have hmax : (⟨(d / 1000000000 : Nat), (d % 1000000000 : Nat)⟩ : TimeSpec).ns ≤ u64Max := by
      rw [hns]
      unfold u64Max
      omega
    rw [hrel, sleepTimespec, if_neg (not_not.mpr hv), TimeSpec.ticks_eq hv hmax, hns, Int.toNat_natCast]

theorem sleepUntil_late {gap : Nat} {gaps : List Nat} {r : Woken}
    (hfits : req.ns < t * 10000000 + 2 ^ 64 ∨ usizeMod ≤ t + aheadTicks req t) (hlt : r.ticks < usizeMod)
    (h : sleepUntil user (t + gap) gaps req remPtr (tickCounter (t + gap)) = some r) :
    req.ns ≤ r.ticks * 10000000 := by
  rw [sleepUntil_eq gaps (Nat.lt_of_le_of_lt (sleepUntil_after h) hlt)] at h
  split at h
  next hnow =>
    cases h
    rwa [ticks_noneRemains]
  next hlater =>
    obtain ⟨t', ht', rfl⟩ := Option.map_eq_some_iff.mp h
    rw [ticks_noneRemains] at hlt ⊢
    have hlate := sleepYield_late ht'
    unfold aheadTicks divCeil at *
    rcases hfits with hfits | hover
    · have hmod : (req.ns - ((t + gap : Nat) : Int) * 10000000) % 2 ^ 64 = req.ns - ((t + gap : Nat) : Int) * 10000000 :=
        Int.emod_eq_of_lt (by omega) (by omega)
      rw [hmod] at hlate
      omega
    · unfold usizeMod at *
      omega

end

/-- **Sleeps that end early.** A relative sleep of at most `2^64 - 1` nanoseconds,
by `nanosleep` or by `clock_nanosleep`, never does. An absolute one, as long as the
counter does not overflow, never does exactly when the time ahead is below `2^64`
nanoseconds, or the counter would overflow first. -/
theorem sleeps_not_early_iff (user : Mem) (t reqPtr remPtr clockid : Nat) (req : TimeSpec)
    (hreq : copyTimeSpecFromUser user reqPtr = some req) :
    (req.ns ≤ u64Max → ∀ gaps r,
      (nanosleep user t gaps reqPtr remPtr = some r ∨ clockNanosleep user t gaps clockid 0 reqPtr remPtr = some r) →
      r.result = .ok 0 → req.ns ≤ (r.ticks - t : Nat) * 10000000) ∧
    (t < usizeMod → clockOk clockid = true → req.Valid → RemOk remPtr →
      ((∀ gaps r, clockNanosleep user t gaps clockid 1 reqPtr remPtr = some r → r.result = .ok 0 → r.ticks < usizeMod →
          req.ns ≤ (clockTime (tickCounter r.ticks)).ns) ↔
        req.ns < t * 10000000 + 2 ^ 64 ∨ usizeMod ≤ t + aheadTicks req t)) := by
  constructor
  · intro hns gaps r h hok
    have hsleep : sleepTimespec user t gaps req remPtr = some r := by
      rcases h with h | h
      · rwa [nanosleep, hreq] at h
      · rw [clockNanosleep] at h
        split at h
        · cases h
          cases hok
        · rwa [if_pos rfl, nanosleep, hreq] at h
    exact sleepTimespec_late hsleep hok hns
  · intro ht hclock hv hrem
    have hcall : ∀ gap gaps, clockNanosleep user t (gap :: gaps) clockid 1 reqPtr remPtr =
        sleepUntil user (t + gap) gaps req remPtr (tickCounter (t + gap)) := by
      intro gap gaps
      rw [clockNanosleep, if_neg (not_not.mpr hclock), if_neg (by decide), if_neg (by decide), hreq]
      exact if_neg (not_not.mpr hv)
    constructor
    · intro h
      by_contra hbad
      obtain ⟨hlong, hfits⟩ := not_or.mp hbad
      have hahead : aheadTicks req t < usizeMod := by
        unfold usizeMod at *
        omega
      -- the ticks arrive while it sleeps, and it looks right after them
      have hearly := hcall 0 [0, aheadTicks req t]
      rw [Nat.add_zero, sleepUntil_eq _ ht, if_neg (by omega), sleepYield_exact t hahead, Option.map_some] at hearly
      have hlt : (noneRemains user remPtr (t + aheadTicks req t)).ticks < usizeMod := by
        rw [ticks_noneRemains]
        omega
      have hle := h _ _ hearly (noneRemains_ok hrem) hlt
      rw [ticks_noneRemains, tickCounter, Nat.mod_eq_of_lt (by omega), clockTime_ns (by omega)] at hle
      unfold aheadTicks divCeil at hle
      omega
    · intro hfits gaps r h hok hlt
      rw [tickCounter, Nat.mod_eq_of_lt hlt, clockTime_ns hlt]
      cases gaps with
      | nil =>
        rw [clockNanosleep, if_neg (not_not.mpr hclock), if_neg (by decide), if_neg (by decide), hreq] at h
        simp only [hv, not_true_eq_false, if_false] at h
        cases h
      | cons gap gaps =>
        rw [hcall] at h
        exact sleepUntil_late hfits hlt h

/-- A request of `sec` seconds at address `0x1000`. -/
def secondsAsked (sec : Word) : Mem := storeWords (fun _ => 0) 0x1000 [sec, 0]

theorem sleeps_not_early_iff_oneSecond :
    ∃ r, clockNanosleep (secondsAsked 1) 7 [0, 0, 200] 1 1 0x1000 0 = some r ∧
      1000000000 ≤ (clockTime (tickCounter r.ticks)).ns := by
  have hrun : (clockNanosleep (secondsAsked 1) 7 [0, 0, 200] 1 1 0x1000 0).map
      (fun r => (r.result.toOption, r.ticks)) = some (some 0, 207) := by
    decide +kernel
  obtain ⟨r, hr, he⟩ := Option.map_eq_some_iff.mp hrun
  have hok : r.result = .ok 0 := by
    have hval : r.result.toOption = some 0 := congrArg Prod.fst he
    cases hres : r.result with
    | error e =>
      rw [hres] at hval
      cases hval
    | ok v =>
      rw [hres] at hval
      rw [Option.some.inj hval]
  have hticks : r.ticks = 207 := congrArg Prod.snd he
  exact ⟨r, hr, ((sleeps_not_early_iff (secondsAsked 1) 7 0x1000 0 1 ⟨1, 0⟩ rfl).2 (by decide) rfl (by decide)
    (.inl rfl)).mpr (.inl (by decide)) _ r hr hok (by rw [hticks]; decide)⟩

/-- **An absolute sleep that ends early.** At tick 0 the caller asks to sleep until
second 18446744074, and is woken with success after 30 ticks. -/
theorem sleep_ends_early :
    ∃ r, clockNanosleep (secondsAsked 18446744074) 0 [0, 0, 30] 1 1 0x1000 0 = some r ∧ r.result.toOption = some 0 ∧
      (clockTime (tickCounter r.ticks)).ns = 300000000 := by
  have hrun : (clockNanosleep (secondsAsked 18446744074) 0 [0, 0, 30] 1 1 0x1000 0).map
      (fun r => (r.result.toOption, (clockTime (tickCounter r.ticks)).ns)) = some (some 0, 300000000) := by
    decide +kernel
  obtain ⟨r, hr, he⟩ := Option.map_eq_some_iff.mp hrun
  obtain ⟨hok, hns⟩ := Prod.mk.inj he
  exact ⟨r, hr, hok, hns⟩

end CoreOS
