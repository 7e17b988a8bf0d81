/-
The start of a signal handler, where it goes wrong. `deliver_pending_signal`
clears the pending bit first and looks for room for the handler's frame after
that, and its caller drops the error: a handler without a restorer or without
room on its stack means a signal that is neither pending nor acted on any more
(`pending_signal_kept_iff`).
-/
import CoreOS.RecordFrame

namespace CoreOS

open ByteMem

/-! ## Room for a handler -/

/-- A handler has a restorer, and below the stack pointer it starts at there is
room for its frame in user space. -/
def HandlerRoom (t : Thread) (action : SigAction) (frame : SyscallFrame) : Prop :=
  action.restorer ≠ 0 ∧ ∃ userRsp onAltstack, handlerStack t action frame = .ok (userRsp, onAltstack) ∧
    8 + 8 * SyscallFrame.wordCount ≤ userRsp ∧ userRsp ≤ userTop

theorem copyWordsToUser_of_range {user : Mem} {ptr : Nat} {ws : List Word} (hlt : ptr < userTop)
    (hle : ptr + 8 * ws.length ≤ userTop) : copyWordsToUser user ptr ws = some (storeWords user ptr ws) :=
  if_pos (userRangeOk_iff.mpr ⟨hlt, hle⟩)

variable {c : UserContext} {t : Thread} {action : SigAction}

theorem HandlerRoom.starts (h : HandlerRoom t action c.frame) (sig : Nat) :
    ∃ c', startHandler c t action sig = (.ok (), c') := by
  obtain ⟨hrestorer, userRsp, onAltstack, hstack, hle, htop⟩ := h
  have hsize : 8 + 8 * SyscallFrame.wordCount = 128 := rfl
  have hlength : c.frame.words.length = 15 := rfl
  rw [hsize] at hle
  unfold startHandler
  rw [if_neg hrestorer, hstack, hsize]
  dsimp only
  rw [if_neg (by omega), if_neg (not_not.mpr (userRangeOk_iff.mpr (by omega))),
    copyWordsToUser_of_range (by omega) (by rw [List.length_singleton]; omega)]
  dsimp only
  rw [copyWordsToUser_of_range (by omega) (by show _ + 8 * c.frame.words.length ≤ _; omega)]
  exact ⟨_, rfl⟩

variable {c' : UserContext} {sig : Nat}

theorem HandlerRoom.of_started (h : startHandler c t action sig = (.ok (), c')) : HandlerRoom t action c.frame := by
  unfold startHandler at h
  split at h
  · cases h
  next hrestorer =>
  split at h
  · cases h
  next userRsp onAltstack hstack =>
  dsimp only at h
  split at h
  · cases h
  next hge =>
  split at h
  · cases h
  next hrange =>
  have hend := (userRangeOk_iff.mp (not_not.mp hrange)).2
  exact ⟨hrestorer, userRsp, onAltstack, hstack, by omega, by omega⟩

/-- The signal that the end of a call would deliver finds room for its handler,
if it has one. -/
def UserContext.HandlerFits (c : UserContext) : Prop :=
  ∀ t p sig td, c.kernel.currentThread = some t → c.kernel.processes t.groupSlot = some p →
    t.inSignalHandler = false → chooseSignal p t = some (sig, td) → (p.sigHandlers sig).handler ≠ 0 →
    HandlerRoom t (p.sigHandlers sig) c.frame

theorem handlerRoom_taken {frame : SyscallFrame} {td : Bool} :
    HandlerRoom (t.taken sig td) action frame ↔ HandlerRoom t action frame := by
  cases td <;> rfl

theorem handlerFits_iff {d : Delivery} (h : deliverPendingSignal c = (d, c')) :
    c.HandlerFits ↔ ∀ sig td e, d ≠ .failed sig td e := by
  constructor
  · rintro hfits sig td e rfl
    rcases deliverPendingSignal_cases h with ⟨-, hnone⟩ | ⟨t, p, sig', td', ht, hp, hin, hchoose, hcase⟩
    · rcases hnone with hd | hd <;> cases hd
    · rcases hcase with ⟨hd, -⟩ | ⟨hd, -⟩ | ⟨hd, -⟩ | ⟨e', hd, hhandler, hstart⟩
      · cases hd
      · cases hd
      · cases hd
      · have hroom : HandlerRoom (t.taken sig' td') (p.sigHandlers sig') c.frame :=
          handlerRoom_taken.mpr (hfits t p sig' td' ht hp hin hchoose hhandler)
        obtain ⟨c'', hok⟩ := hroom.starts (c := { c with kernel := takeSignal c.kernel p t sig' td' }) sig'
        cases hok.symm.trans hstart
  · intro hd t p sig td ht hp hin hchoose hhandler
    have hprocess : c.kernel.currentProcess = some p := by
      rw [Kernel.currentProcess, ht]
      exact hp
    unfold deliverPendingSignal at h
    rw [ht, hprocess] at h
    dsimp only at h
    rw [if_neg (by rw [hin]; exact Bool.false_ne_true), hchoose] at h
    dsimp only at h
    rw [if_neg hhandler] at h
    split at h
    next c'' hstart =>
      have hroom : HandlerRoom (t.taken sig td) (p.sigHandlers sig) c.frame :=
        .of_started (c := { c with kernel := takeSignal c.kernel p t sig td }) hstart
      exact handlerRoom_taken.mp hroom
    next e c'' hstart =>
      cases h
      exact absurd rfl (hd sig td e)

/-! ## What is pending -/

/-- A signal is pending at the current thread, or at its process. -/
def UserContext.pending (c : UserContext) (sig : Nat) (threadDirected : Bool) : Bool :=
  if threadDirected then c.kernel.currentThread.any fun t => sigsetContains t.sigPending sig
  else c.kernel.currentProcess.any fun p => sigsetContains p.sigPending sig

/-- The handler was started, or the default action taken. -/
def Delivery.ActedOn (d : Delivery) (sig : Nat) (threadDirected : Bool) : Prop :=
  d = .handled sig threadDirected ∨ d = .ignored sig threadDirected ∨ d = .terminated sig threadDirected

variable {p : Process}

theorem pending_eq (ht : c.kernel.currentThread = some t) (hp : c.kernel.processes t.groupSlot = some p) (sig : Nat)
    (td : Bool) :
    c.pending sig td = sigsetContains (if td then t.sigPending else p.sigPending) sig := by
  have hprocess : c.kernel.currentProcess = some p := by
    rw [Kernel.currentProcess, ht]
    exact hp
  unfold UserContext.pending
  rw [ht, hprocess]
  cases td <;> rfl

/-- The process of the current thread after a signal is taken. -/
def Process.taken (p : Process) (sig : Nat) (threadDirected : Bool) : Process :=
  if threadDirected then p else { p with sigPending := sigsetRemove p.sigPending sig }

theorem takeSignal_process {k : Kernel} (hp : k.processes t.groupSlot = some p) (sig : Nat) (td : Bool) :
    (takeSignal k p t sig td).processes (t.taken sig td).groupSlot = some (p.taken sig td) := by
  cases td with
  | true => exact hp
  | false => exact Function.update_self ..

theorem takeSignal_pending {td : Bool} (hsig : 0 < sig) (ht : c.kernel.currentThread = some t)
    (hp : c.kernel.processes t.groupSlot = some p) {a : Nat} (ha : 0 < a) (place : Bool) :
    ({ c with kernel := takeSignal c.kernel p t sig td } : UserContext).pending a place = true ↔
      ¬ (a = sig ∧ place = td) ∧ c.pending a place = true := by
  rw [pending_eq ht hp,
    pending_eq (c := { c with kernel := takeSignal c.kernel p t sig td }) (takeSignal_spec ht p sig td).1
      (takeSignal_process hp sig td)]
  cases td <;> cases place <;> simp [Thread.taken, Process.taken, sigsetContains_remove hsig ha]

theorem pending_setThread {t' : Thread} (ht : c.kernel.currentThread = some t)
    (hc : c'.kernel = c.kernel.setThread c.kernel.current (some t')) (hg : t'.groupSlot = t.groupSlot)
    (he : t'.sigPending = t.sigPending) : c'.pending = c.pending := by
  have hthread : c.kernel.threads c.kernel.current = some t := ht
  funext sig td
  cases td <;> simp [UserContext.pending, Kernel.currentProcess, Kernel.currentThread, hc, hthread, hg, he]

theorem startHandler_pending {r : Except SysError Unit} (ht : c.kernel.currentThread = some t)
    (h : startHandler c t action sig = (r, c')) : c'.pending = c.pending := by
  cases r with
  | ok u =>
    obtain ⟨_, _, onAltstack, -, hkernel, -⟩ := startHandler_ok h
    exact pending_setThread ht hkernel rfl rfl
  | error e =>
    rcases (startHandler_error h).2 with hkernel | ⟨onAltstack, hkernel⟩
    · unfold UserContext.pending
      rw [hkernel]
    · exact pending_setThread ht hkernel rfl rfl

/-- No pending bit is lost: threads keep theirs, and processes may get more. -/
structure PendingGrows (k k' : Kernel) : Prop where
  current : k'.current = k.current
  threads : ∀ {x t}, k.threads x = some t →
    ∃ t', k'.threads x = some t' ∧ t'.groupSlot = t.groupSlot ∧ t'.sigPending = t.sigPending
  processes : ∀ {x p}, k.processes x = some p → ∃ p', k'.processes x = some p' ∧
    ∀ sig, 0 < sig → sigsetContains p.sigPending sig = true → sigsetContains p'.sigPending sig = true

namespace PendingGrows

variable {k k' k'' : Kernel}

theorem refl (k : Kernel) : PendingGrows k k :=
  ⟨rfl, fun {_ t} ht => ⟨t, ht, rfl, rfl⟩, fun {_ p} hp => ⟨p, hp, fun _ _ h => h⟩⟩

theorem trans (h1 : PendingGrows k k') (h2 : PendingGrows k' k'') : PendingGrows k k'' := by
  refine ⟨h2.current.trans h1.current, fun ht => ?_, fun hp => ?_⟩
  · obtain ⟨t', ht', hg', he'⟩ := h1.threads ht
    obtain ⟨t'', ht'', hg'', he''⟩ := h2.threads ht'
    exact ⟨t'', ht'', hg''.trans hg', he''.trans he'⟩
  · obtain ⟨p', hp', hsub'⟩ := h1.processes hp
    obtain ⟨p'', hp'', hsub''⟩ := h2.processes hp'
    exact ⟨p'', hp'', fun sig hsig h => hsub'' sig hsig (hsub' sig hsig h)⟩

theorem foldl {f : Kernel → Slot → Kernel} (hf : ∀ k a, PendingGrows k (f k a)) :
    ∀ {as : List Slot} {k : Kernel}, PendingGrows k (as.foldl f k)
  | [], k => .refl k
  | a :: _, k => (hf k a).trans (PendingGrows.foldl hf)

theorem of_tables (hc : k'.current = k.current) (ht : k'.threads = k.threads) (hp : k'.processes = k.processes) :
    PendingGrows k k' :=
  ⟨hc, fun {_ t} h => ⟨t, ht ▸ h, rfl, rfl⟩, fun {_ p} h => ⟨p, hp ▸ h, fun _ _ h => h⟩⟩

theorem setThread {c : Slot} {t t' : Thread} (ht : k.threads c = some t) (hg : t'.groupSlot = t.groupSlot)
    (he : t'.sigPending = t.sigPending) : PendingGrows k (k.setThread c (some t')) := by
  refine ⟨rfl, fun {x u} hu => ?_, fun {_ p} hp => ⟨p, hp, fun _ _ h => h⟩⟩
  by_cases hx : x = c
  · subst hx
    cases ht.symm.trans hu
    exact ⟨t', Function.update_self .., hg, he⟩
  · exact ⟨u, (Function.update_of_ne hx ..).trans hu, rfl, rfl⟩

theorem setProcess {g : Slot} {p p' : Process} (hp : k.processes g = some p)
    (hsub : ∀ sig, 0 < sig → sigsetContains p.sigPending sig = true → sigsetContains p'.sigPending sig = true) :
    PendingGrows k (k.setProcess g (some p')) := by
  refine ⟨rfl, fun {_ t} ht => ⟨t, ht, rfl, rfl⟩, fun {x q} hq => ?_⟩
  by_cases hx : x = g
  · subst hx
    cases hp.symm.trans hq
    exact ⟨p', Function.update_self .., hsub⟩
  · exact ⟨q, (Function.update_of_ne hx ..).trans hq, fun _ _ h => h⟩

theorem killTask (c : Slot) : PendingGrows k (k.killTask c) :=
  .of_tables (k.killTask_kills c).current Kernel.killTask_tables.1 Kernel.killTask_tables.2

theorem notifyParentExit (parentPid : Nat) : PendingGrows k (CoreOS.notifyParentExit k parentPid) := by
  unfold CoreOS.notifyParentExit CoreOS.queueSignal
  split
  · exact .refl k
  · split
    · split
      next p hp => exact .setProcess hp fun sig hsig h => (sigsetContains_add (by decide) hsig).mpr (.inr h)
      · exact .refl k
    · exact .refl k

theorem terminateThread (g x : Slot) : PendingGrows k (CoreOS.terminateThread g k x) := by
  unfold CoreOS.terminateThread
  split
  · exact .refl k
  next t ht =>
    split
    · exact .refl k
    · have hz : PendingGrows k (k.setThread x (some { t with state := .zombie })) := .setThread ht rfl rfl
      exact hz.trans (.killTask x)

theorem terminateProcessGroup (g : Slot) (sig : Nat) : PendingGrows k (CoreOS.terminateProcessGroup k g sig) := by
  unfold CoreOS.terminateProcessGroup
  refine .trans (.trans ?_ (.foldl fun _ x => .terminateThread g x)) (.notifyParentExit _)
  cases hp : k.processes g with
  | none => exact .refl k
  | some p => exact .setProcess hp fun _ _ h => h

theorem pending {c c' : UserContext} (h : PendingGrows c.kernel c'.kernel) {sig : Nat} (hsig : 0 < sig) {td : Bool}
    (hpending : c.pending sig td = true) : c'.pending sig td = true := by
  have hcurrent : ∀ {t}, c.kernel.currentThread = some t →
      ∃ t', c'.kernel.currentThread = some t' ∧ t'.groupSlot = t.groupSlot ∧ t'.sigPending = t.sigPending := by
    intro t ht
    rw [Kernel.currentThread, h.current]
    exact h.threads ht
  cases td with
  | true =>
    obtain ⟨t, ht, hset⟩ := (Option.any_eq_true ..).mp hpending
    obtain ⟨t', ht', -, he⟩ := hcurrent ht
    exact (Option.any_eq_true ..).mpr ⟨t', ht', by rw [he]; exact hset⟩
  | false =>
    obtain ⟨p, hp, hset⟩ := (Option.any_eq_true ..).mp hpending
    obtain ⟨t, ht, hp⟩ := Option.bind_eq_some_iff.mp hp
    obtain ⟨t', ht', hg, -⟩ := hcurrent ht
    obtain ⟨p', hp', hsub⟩ := h.processes hp
    refine (Option.any_eq_true ..).mpr ⟨p', ?_, hsub sig hsig hset⟩
    rw [Kernel.currentProcess, ht', Option.bind_some, hg, hp']

end PendingGrows

theorem deliver_pending {d : Delivery} (h : deliverPendingSignal c = (d, c')) :
    (c' = c ∧ (d = .nothing ∨ d = .noThread)) ∨
    ∃ sig td, 0 < sig ∧ c.pending sig td = true ∧
      (∀ a place, 0 < a → ¬ (a = sig ∧ place = td) → c.pending a place = true → c'.pending a place = true) ∧
      (d.ActedOn sig td ∨ ∃ e, d = .failed sig td e ∧ c'.pending sig td = false) := by
  rcases deliverPendingSignal_cases h with hnone | ⟨t, p, sig, td, ht, hp, -, hchoose, hcase⟩
  · exact .inl hnone
  · obtain ⟨hsig, -, hset⟩ := chooseSignal_spec hchoose
    have htaken := (takeSignal_spec ht p sig td).1
    have hothers : ∀ a place, 0 < a → ¬ (a = sig ∧ place = td) → c.pending a place = true →
        ({ c with kernel := takeSignal c.kernel p t sig td } : UserContext).pending a place = true :=
      fun a place ha hne hbefore => (takeSignal_pending hsig ht hp ha place).mpr ⟨hne, hbefore⟩
    have hcleared : ({ c with kernel := takeSignal c.kernel p t sig td } : UserContext).pending sig td = false := by
      rw [Bool.eq_false_iff]
      exact fun hstill => ((takeSignal_pending hsig ht hp hsig td).mp hstill).1 ⟨rfl, rfl⟩
    refine .inr ⟨sig, td, hsig, (pending_eq ht hp sig td).trans hset, ?_⟩
    rcases hcase with ⟨rfl, -, -, rfl⟩ | ⟨rfl, -, rfl⟩ | ⟨rfl, -, hstart⟩ | ⟨e, rfl, -, hstart⟩
    · exact ⟨hothers, .inl (.inr (.inl rfl))⟩
    · refine ⟨fun a place ha hne hbefore => ?_, .inl (.inr (.inr rfl))⟩
      have hgrows : PendingGrows (takeSignal c.kernel p t sig td)
          (terminateProcessGroup (takeSignal c.kernel p t sig td) t.groupSlot sig) := .terminateProcessGroup t.groupSlot sig
      have hafter := hothers a place ha hne hbefore
      exact PendingGrows.pending (c := { c with kernel := takeSignal c.kernel p t sig td }) hgrows ha hafter
    · rw [startHandler_pending htaken hstart]
      exact ⟨hothers, .inl (.inl rfl)⟩
    · rw [startHandler_pending htaken hstart]
      exact ⟨hothers, .inr ⟨e, rfl, hcleared⟩⟩

/-- **No signal is dropped where its handler fits.** A delivery that reports an
error leaves everything as it was exactly when there is room for the handler of
the signal it comes to; and exactly then a pending bit is cleared only for a
handler that was started or a default action that was taken. -/
theorem pending_signal_kept_iff (c : UserContext) :
    ((∀ e, (deliverPendingSignal c).1.result = .error e → (deliverPendingSignal c).2 = c) ↔ c.HandlerFits) ∧
      ((∀ sig td, 0 < sig → c.pending sig td = true → (deliverPendingSignal c).2.pending sig td = false →
        (deliverPendingSignal c).1.ActedOn sig td) ↔ c.HandlerFits) := by
  cases hd : deliverPendingSignal c with | mk d c' =>
  rw [handlerFits_iff hd]
  dsimp only
  rcases deliver_pending hd with ⟨rfl, hnone⟩ | ⟨sig, td, hsig, hbefore, hothers, hend⟩
  · have hnot : ∀ sig td e, d ≠ .failed sig td e := by
      rintro sig td e rfl
      rcases hnone with hd | hd <;> cases hd
    refine ⟨⟨fun _ => hnot, fun _ _ _ => rfl⟩, ⟨fun _ => hnot, fun _ sig td _ hset hclear => ?_⟩⟩
    rw [hset] at hclear
    cases hclear
  · rcases hend with hacted | ⟨e, rfl, hcleared⟩
    · have hnot : ∀ sig td e, d ≠ .failed sig td e := by
        rintro sig td e rfl
        rcases hacted with hd | hd | hd <;> cases hd
      refine ⟨⟨fun _ => hnot, fun _ e he => ?_⟩, ⟨fun _ => hnot, fun _ a place ha hset hclear => ?_⟩⟩
      · rcases hacted with rfl | rfl | rfl <;> cases he
      · by_cases hsame : a = sig ∧ place = td
        · rw [hsame.1, hsame.2]
          exact hacted
        · rw [hothers a place ha hsame hset] at hclear
          cases hclear
    · refine ⟨⟨fun hkept => ?_, fun hnot => absurd rfl (hnot sig td e)⟩,
        ⟨fun hkept => ?_, fun hnot => absurd rfl (hnot sig td e)⟩⟩
      · rw [hkept e rfl, hbefore] at hcleared
        cases hcleared
      · rcases hkept sig td hsig hbefore hcleared with hd | hd | hd <;> cases hd

/-- A thread with signal 10 pending, which its process handles on an alternate
stack too small for the frame. -/
def smallAltstack : UserContext :=
  { caughtSignal with
    kernel := caughtSignal.kernel.setThread 0
      (some { Thread.newLeader 1 0 0 0 with sigPending := sigsetAdd .empty 10, sigAltstack := ⟨0x10, 0, 0x10⟩ }) }

/-- The signal is gone without its handler, and the thread believes to be on the
alternate stack. -/
theorem pending_signal_dropped :
    smallAltstack.pending 10 true = true ∧ (deliverPendingSignal smallAltstack).1 = .failed 10 true .fault ∧
      (deliverPendingSignal smallAltstack).2.pending 10 true = false ∧
      (deliverPendingSignal smallAltstack).2.kernel.currentThread.map Thread.onAltstack = some true := by
  decide +kernel

end CoreOS
