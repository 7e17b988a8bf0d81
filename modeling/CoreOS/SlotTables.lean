/-
What ties the task, thread and process tables together (`SlotsOK`), and what
the operations that create, end and switch tasks do to them.
-/
import Mathlib.Data.Fintype.Card
import CoreOS.FdRefs

namespace CoreOS

open ByteMem
open Function (update update_self update_of_ne)
open Option (map_some bind_eq_bind bind_eq_some_iff map_eq_some_iff)

/-! ## The invariant of the three tables -/

namespace Kernel

/-- The threads of group `g` that have not exited, by slot. -/
def runningIn (k : Kernel) (g : Slot) : Finset Slot :=
  Finset.univ.filter fun s => ∃ t ∈ k.threads s, t.groupSlot = g ∧ t.state = .running

variable {k : Kernel} {g : Slot}

theorem mem_runningIn {s : Slot} :
    s ∈ k.runningIn g ↔ ∃ t, k.threads s = some t ∧ t.groupSlot = g ∧ t.state = .running := by
  simp [runningIn]

theorem runningIn_congr {k' : Kernel}
    (h : ∀ s t, t.groupSlot = g → t.state = .running → (k'.threads s = some t ↔ k.threads s = some t)) :
    k'.runningIn g = k.runningIn g := by
  ext s
  simp only [mem_runningIn]
  constructor
  · rintro ⟨t, ht, hg, hr⟩
    exact ⟨t, (h s t hg hr).mp ht, hg, hr⟩
  · rintro ⟨t, ht, hg, hr⟩
    exact ⟨t, (h s t hg hr).mpr ht, hg, hr⟩

end Kernel

/-- A process record is led by the thread record of its own slot; a thread that
has not exited has a task that is not dead and a process that is not a zombie;
and a process counts its threads. -/
structure SlotsOK (k : Kernel) : Prop where
  leader : ∀ {s p}, k.processes s = some p → ∃ t, k.threads s = some t ∧ t.groupSlot = s
  taskSlot : ∀ {s t}, k.threads s = some t → t.taskSlot = s
  task : ∀ {s t}, k.threads s = some t → t.state = .running → ∃ task, k.tasks s = some task ∧ task.state ≠ .dead
  process : ∀ {s t}, k.threads s = some t → t.state = .running →
    ∃ p, k.processes t.groupSlot = some p ∧ p.state = .running
  count : ∀ {g p}, k.processes g = some p → p.state = .running → p.threadCount = (k.runningIn g).card

/-- What the invariant reads of a process record. -/
def Process.life (p : Process) : Nat × ProcessState × Nat := (p.pid, p.state, p.threadCount)

/-- The process records are the same in all that matters here. -/
def SameLives (k k' : Kernel) : Prop := ∀ s, (k'.processes s).map Process.life = (k.processes s).map Process.life

variable {k k' : Kernel} {s : Slot} {p : Process}

theorem SameLives.fwd (h : SameLives k k') (hp : k.processes s = some p) :
    ∃ p', k'.processes s = some p' ∧ p'.life = p.life := by
  have := h s
  rw [hp, map_some] at this
  exact map_eq_some_iff.mp this

variable {p' : Process}

theorem SameLives.bwd (h : SameLives k k') (hp : k'.processes s = some p') :
    ∃ p, k.processes s = some p ∧ p'.life = p.life := by
  have := h s
  rw [hp, map_some] at this
  obtain ⟨p, hp, he⟩ := map_eq_some_iff.mp this.symm
  exact ⟨p, hp, he.symm⟩

theorem life_pid (h : p'.life = p.life) : p'.pid = p.pid := congrArg Prod.fst h

theorem life_state (h : p'.life = p.life) : p'.state = p.state := congrArg (·.2.1) h

theorem life_count (h : p'.life = p.life) : p'.threadCount = p.threadCount :=
  congrArg (·.2.2) h

/-- A thread of group `g` has exited. -/
def zombify (g : Slot) (t : Thread) : Thread := if t.groupSlot = g then { t with state := .zombie } else t

variable {g : Slot} {t : Thread}

theorem zombify_groupSlot : (zombify g t).groupSlot = t.groupSlot := by
  unfold zombify
  split <;> rfl

theorem zombify_taskSlot : (zombify g t).taskSlot = t.taskSlot := by
  unfold zombify
  split <;> rfl

theorem zombify_none {o : Option Thread} (h : ∀ t, o = some t → t.groupSlot ≠ g) : o.map (zombify g) = o := by
  cases o with
  | none => rfl
  | some t => rw [map_some, zombify, if_neg (h t rfl)]

namespace SlotsOK

variable {k k' : Kernel}

theorem congr (h : SlotsOK k) (hth : k'.threads = k.threads) (hpr : SameLives k k')
    (hta : ∀ {s t task}, k.threads s = some t → t.state = .running → k.tasks s = some task → task.state ≠ .dead →
      ∃ task', k'.tasks s = some task' ∧ task'.state ≠ .dead) : SlotsOK k' := by
  have hrun : ∀ g, k'.runningIn g = k.runningIn g := fun g => Kernel.runningIn_congr fun s t _ _ => by rw [hth]
  refine ⟨fun {s p} hp => ?_, fun {s t} ht => ?_, fun {s t} ht hr => ?_, fun {s t} ht hr => ?_, fun {g p} hp hs => ?_⟩
  · obtain ⟨p0, hp0, -⟩ := hpr.bwd hp
    rw [hth]
    exact h.leader hp0
  · exact h.taskSlot (hth ▸ ht)
  · obtain ⟨task, htask, hd⟩ := h.task (hth ▸ ht) hr
    exact hta (hth ▸ ht) hr htask hd
  · obtain ⟨p, hp, hs⟩ := h.process (hth ▸ ht) hr
    obtain ⟨p', hp', hl⟩ := hpr.fwd hp
    exact ⟨p', hp', (life_state hl).trans hs⟩
  · obtain ⟨p0, hp0, hl⟩ := hpr.bwd hp
    rw [life_count hl, hrun]
    exact h.count hp0 ((life_state hl).symm.trans hs)

variable {t : Thread}

variable {s : Slot}

theorem not_running_of_free (h : SlotsOK k) (hfree : k.tasks s = none) (ht : k.threads s = some t) :
    t.state ≠ .running := by
  intro hr
  obtain ⟨task, htask, -⟩ := h.task ht hr
  rw [hfree] at htask
  cases htask

variable {g : Slot} {p : Process}

theorem not_running_of_zombie (h : SlotsOK k) (hp : k.processes g = some p) (hz : p.state = .zombie)
    (ht : k.threads s = some t) (hg : t.groupSlot = g) :
    t.state ≠ .running := by
  intro hr
  obtain ⟨p', hp', hs⟩ := h.process ht hr
  rw [hg, hp] at hp'
  cases hp'
  rw [hz] at hs
  cases hs

variable {slot : Slot}

/-- A task started in a free slot, with the record of its process: `slot`'s own for a new
process. -/
theorem newTask (h : SlotsOK k) (hnone : k.processes slot = none)
    (hidle : ∀ t, k.threads slot = some t → t.state ≠ .running)
    (htask : ∃ task, k.tasks slot = some task ∧ task.state ≠ .dead) (hg : g = slot ∨ (k.processes g).isSome)
    (hp : p.state = .running ∧ p.threadCount = (k.runningIn g).card + 1)
    (ht : t.groupSlot = g ∧ t.taskSlot = slot ∧ t.state = .running)
    (hpr : k'.processes = update k.processes g (some p))
    (hth : k'.threads = update k.threads slot (some t)) (hta : k'.tasks = k.tasks) : SlotsOK k' := by
  have hprself : k'.processes g = some p := by rw [hpr, update_self]
  have hprne : ∀ {s}, s ≠ g → k'.processes s = k.processes s := fun hs => by rw [hpr, update_of_ne hs]
  have hthself : k'.threads slot = some t := by rw [hth, update_self]
  have hthne : ∀ {s}, s ≠ slot → k'.threads s = k.threads s := fun hs => by rw [hth, update_of_ne hs]
  refine ⟨fun {s q} hq => ?_, fun {s u} hu => ?_, fun {s u} hu hr => ?_, fun {s u} hu hr => ?_, fun {x q} hq hs => ?_⟩
  · by_cases hs : s = slot
    · subst hs
      by_cases hsg : s = g
      · exact ⟨t, hthself, ht.1.trans hsg.symm⟩
      · rw [hprne hsg, hnone] at hq
        cases hq
    · rw [hthne hs]
      by_cases hsg : s = g
      · obtain ⟨q', hq'⟩ := Option.isSome_iff_exists.mp (hg.resolve_left fun he => hs (hsg.trans he))
        exact h.leader (hsg ▸ hq')
      · exact h.leader (hprne hsg ▸ hq)
  · by_cases hs : s = slot
    · subst hs
      cases hthself.symm.trans hu
      exact ht.2.1
    · exact h.taskSlot (hthne hs ▸ hu)
  · rw [hta]
    by_cases hs : s = slot
    · subst hs
      exact htask
    · exact h.task (hthne hs ▸ hu) hr
  · by_cases hug : u.groupSlot = g
    · rw [hug]
      exact ⟨p, hprself, hp.1⟩
    · have hs : s ≠ slot := by
        rintro rfl
        cases hthself.symm.trans hu
        exact hug ht.1
      rw [hprne hug]
      exact h.process (hthne hs ▸ hu) hr
  · by_cases hx : x = g
    · subst hx
      cases hprself.symm.trans hq
      have hnot : slot ∉ k.runningIn x := by
        rw [Kernel.mem_runningIn]
        rintro ⟨u, hu, -, hr⟩
        exact hidle u hu hr
      have : k'.runningIn x = insert slot (k.runningIn x) := by
        ext s
        rw [Finset.mem_insert, Kernel.mem_runningIn, Kernel.mem_runningIn]
        by_cases hs : s = slot
        · subst hs
          exact ⟨fun _ => .inl rfl, fun _ => ⟨t, hthself, ht.1, ht.2.2⟩⟩
        · rw [hthne hs]
          exact ⟨.inr, fun h => h.resolve_left hs⟩
      rw [this, Finset.card_insert_of_notMem hnot, hp.2]
    · have : k'.runningIn x = k.runningIn x := by
        refine Kernel.runningIn_congr fun s u hug hr => ?_
        by_cases hs : s = slot
        · subst hs
          constructor
          · intro hu
            cases hthself.symm.trans hu
            exact absurd (hug.symm.trans ht.1) hx
          · intro hu
            exact absurd hr (hidle u hu)
        · rw [hthne hs]
      rw [this]
      exact h.count (hprne hx ▸ hq) hs

theorem newProcess (h : SlotsOK k) (hnone : k.processes slot = none)
    (hidle : ∀ t, k.threads slot = some t → t.state ≠ .running)
    (htask : ∃ task, k.tasks slot = some task ∧ task.state ≠ .dead) (hp : p.state = .running ∧ p.threadCount = 1)
    (ht : t.groupSlot = slot ∧ t.taskSlot = slot ∧ t.state = .running)
    (hpr : k'.processes = update k.processes slot (some p))
    (hth : k'.threads = update k.threads slot (some t)) (hta : k'.tasks = k.tasks) : SlotsOK k' := by
  have hempty : k.runningIn slot = ∅ := by
    refine Finset.eq_empty_of_forall_notMem fun s hs => ?_
    obtain ⟨u, hu, hug, hr⟩ := Kernel.mem_runningIn.mp hs
    obtain ⟨q, hq, -⟩ := h.process hu hr
    rw [hug, hnone] at hq
    cases hq
  exact h.newTask hnone hidle htask (.inl rfl) ⟨hp.1, by rw [hp.2, hempty, Finset.card_empty]⟩ ht hpr hth hta

theorem newThread (h : SlotsOK k) (hnone : k.processes slot = none)
    (hidle : ∀ t, k.threads slot = some t → t.state ≠ .running)
    (htask : ∃ task, k.tasks slot = some task ∧ task.state ≠ .dead) (hp : k.processes g = some p)
    (hps : p.state = .running) (ht : t.groupSlot = g ∧ t.taskSlot = slot ∧ t.state = .running)
    (hpr : k'.processes = update k.processes g (some { p with threadCount := p.threadCount + 1 }))
    (hth : k'.threads = update k.threads slot (some t)) (hta : k'.tasks = k.tasks) : SlotsOK k' :=
  h.newTask (p := { p with threadCount := p.threadCount + 1 }) hnone hidle htask (.inr (by rw [hp]; rfl))
    ⟨hps, congrArg (· + 1) (h.count hp hps)⟩ ht hpr hth hta

variable {c : Slot}

theorem forget (h : SlotsOK k) (ht : k.threads c = some t) (hg : t.groupSlot ≠ c) (hidle : t.state ≠ .running)
    (hth : k'.threads = update k.threads c none) (hpr : k'.processes = k.processes) (hta : k'.tasks = k.tasks) :
    SlotsOK k' := by
  have hold : ∀ {s u}, k'.threads s = some u → s ≠ c ∧ k.threads s = some u := by
    intro s u hu
    by_cases hs : s = c
    · subst hs
      rw [hth, update_self] at hu
      cases hu
    · rw [hth, update_of_ne hs] at hu
      exact ⟨hs, hu⟩
  refine ⟨fun {s q} hq => ?_, fun hu => h.taskSlot (hold hu).2, fun hu hr => ?_, fun hu hr => ?_, fun {g q} hq hs => ?_⟩
  · obtain ⟨u, hu, hug⟩ := h.leader (hpr ▸ hq)
    refine ⟨u, ?_, hug⟩
    rw [hth, update_of_ne, hu]
    rintro rfl
    cases ht.symm.trans hu
    exact hg hug
  · rw [hta]
    exact h.task (hold hu).2 hr
  · rw [hpr]
    exact h.process (hold hu).2 hr
  · have : k'.runningIn g = k.runningIn g := by
      refine Kernel.runningIn_congr fun s u _ hr => ⟨fun hu => (hold hu).2, fun hu => ?_⟩
      rw [hth, update_of_ne, hu]
      rintro rfl
      cases ht.symm.trans hu
      exact hidle hr
    rw [this]
    exact h.count (hpr ▸ hq) hs

theorem reap (h : SlotsOK k) (hp : k.processes slot = some p) (hz : p.state = .zombie)
    (hpr : k'.processes = update k.processes slot none)
    (hth : k'.threads = update k.threads slot none) (hta : k'.tasks = k.tasks) : SlotsOK k' := by
  have hold : ∀ {s u}, k'.threads s = some u → s ≠ slot ∧ k.threads s = some u := by
    intro s u hu
    by_cases hs : s = slot
    · subst hs
      rw [hth, update_self] at hu
      cases hu
    · rw [hth, update_of_ne hs] at hu
      exact ⟨hs, hu⟩
  have holdp : ∀ {s q}, k'.processes s = some q → s ≠ slot ∧ k.processes s = some q := by
    intro s q hq
    by_cases hs : s = slot
    · subst hs
      rw [hpr, update_self] at hq
      cases hq
    · rw [hpr, update_of_ne hs] at hq
      exact ⟨hs, hq⟩
  obtain ⟨t, ht, htg⟩ := h.leader hp
  refine ⟨fun {s q} hq => ?_, fun hu => h.taskSlot (hold hu).2, fun hu hr => ?_, fun {s u} hu hr => ?_,
    fun {g q} hq hs => ?_⟩
  · rw [hth, update_of_ne (holdp hq).1]
    exact h.leader (holdp hq).2
  · rw [hta]
    exact h.task (hold hu).2 hr
  · have hg : u.groupSlot ≠ slot := fun hg => h.not_running_of_zombie hp hz (hold hu).2 hg hr
    rw [hpr, update_of_ne hg]
    exact h.process (hold hu).2 hr
  · have : k'.runningIn g = k.runningIn g := by
      refine Kernel.runningIn_congr fun s u hug _ => ⟨fun hu => (hold hu).2, fun hu => ?_⟩
      rw [hth, update_of_ne, hu]
      rintro rfl
      cases ht.symm.trans hu
      exact (holdp hq).1 (hug.symm.trans htg)
    rw [this]
    exact h.count (holdp hq).2 hs

variable {p' : Process}

theorem exitOne (h : SlotsOK k) (ht : k.threads c = some t) (hr : t.state = .running)
    (hp : k.processes t.groupSlot = some p) (hth : k'.threads = update k.threads c (some { t with state := .zombie }))
    (hpr : k'.processes = update k.processes t.groupSlot (some p')) (hcount : p'.threadCount = p.threadCount - 1)
    (hlast : p'.state = .zombie → p.threadCount - 1 = 0)
    (hta : ∀ {s task}, s ≠ c → k.tasks s = some task → task.state ≠ .dead → ∃ task', k'.tasks s = some task' ∧ task'.state ≠ .dead) :
    
    SlotsOK k' := by
  have hps : p.state = .running := by
    obtain ⟨q, hq, hs⟩ := h.process ht hr
    cases hp.symm.trans hq
    exact hs
  have hthself : k'.threads c = some { t with state := .zombie } := by rw [hth, update_self]
  have hthne : ∀ {s}, s ≠ c → k'.threads s = k.threads s := fun hs => by rw [hth, update_of_ne hs]
  have hprself : k'.processes t.groupSlot = some p' := by rw [hpr, update_self]
  have hprne : ∀ {s}, s ≠ t.groupSlot → k'.processes s = k.processes s := fun hs => by
    rw [hpr, update_of_ne hs]
  have hne : ∀ {s u}, k'.threads s = some u → u.state = .running → s ≠ c := by
    rintro s u hu hur rfl
    cases hthself.symm.trans hu
    cases hur
  have hrun : k'.runningIn t.groupSlot = (k.runningIn t.groupSlot).erase c := by
    ext s
    rw [Finset.mem_erase, Kernel.mem_runningIn, Kernel.mem_runningIn]
    constructor
    · rintro ⟨u, hu, hug, hur⟩
      exact ⟨hne hu hur, u, hthne (hne hu hur) ▸ hu, hug, hur⟩
    · rintro ⟨hs, u, hu, hug, hur⟩
      exact ⟨u, (hthne hs).trans hu, hug, hur⟩
  have hmem : c ∈ k.runningIn t.groupSlot := Kernel.mem_runningIn.mpr ⟨t, ht, rfl, hr⟩
  have hcard : (k'.runningIn t.groupSlot).card = p.threadCount - 1 := by
    rw [hrun, Finset.card_erase_of_mem hmem, h.count hp hps]
  refine ⟨fun {s q} hq => ?_, fun {s u} hu => ?_, fun {s u} hu hur => ?_, fun {s u} hu hur => ?_, fun {g q} hq hs => ?_⟩
  · have hlead : ∃ u, k.threads s = some u ∧ u.groupSlot = s := by
      by_cases hg : s = t.groupSlot
      · subst hg
        exact h.leader hp
      · exact h.leader (hprne hg ▸ hq)
    obtain ⟨u, hu, hug⟩ := hlead
    by_cases hs : s = c
    · subst hs
      cases ht.symm.trans hu
      exact ⟨_, hthself, hug⟩
    · exact ⟨u, (hthne hs).trans hu, hug⟩
  · by_cases hs : s = c
    · subst hs
      cases hthself.symm.trans hu
      have hslot := h.taskSlot ht
      exact hslot
    · exact h.taskSlot (hthne hs ▸ hu)
  · obtain ⟨task, htask, hd⟩ := h.task (hthne (hne hu hur) ▸ hu) hur
    exact hta (hne hu hur) htask hd
  · obtain ⟨q, hq, hqs⟩ := h.process (hthne (hne hu hur) ▸ hu) hur
    by_cases hg : u.groupSlot = t.groupSlot
    · -- a sibling is still running, so this was not the last thread
      rw [hg]
      refine ⟨p', hprself, ?_⟩
      cases hz : p'.state with
      | running => rfl
      | zombie =>
        have hin : s ∈ k'.runningIn t.groupSlot := Kernel.mem_runningIn.mpr ⟨u, hu, hg, hur⟩
        have := Finset.card_pos.mpr ⟨s, hin⟩
        have := hlast hz
        omega
    · exact ⟨q, (hprne hg).trans hq, hqs⟩
  · by_cases hg : g = t.groupSlot
    · subst hg
      cases hprself.symm.trans hq
      rw [hcount, hcard]
    · have : k'.runningIn g = k.runningIn g := by
        refine Kernel.runningIn_congr fun s u hug hur => ?_
        by_cases hsc : s = c
        · subst hsc
          constructor
          · intro hu
            exact absurd rfl (hne hu hur)
          · intro hu
            cases ht.symm.trans hu
            exact absurd hug.symm hg
        · rw [hthne hsc]
      rw [this]
      exact h.count (hprne hg ▸ hq) hs

theorem exitAll (h : SlotsOK k) (hsome : (k.processes g).isSome)
    (hth : ∀ s, k'.threads s = (k.threads s).map (zombify g)) (hpr : k'.processes = update k.processes g (some p'))
    (hz : p'.state = .zombie)
    (hta : ∀ {s t task}, k.threads s = some t → t.groupSlot ≠ g → k.tasks s = some task → task.state ≠ .dead → ∃ task', k'.tasks s = some task' ∧ task'.state ≠ .dead) :
    
    SlotsOK k' := by
  have hprself : k'.processes g = some p' := by rw [hpr, update_self]
  have hprne : ∀ {s}, s ≠ g → k'.processes s = k.processes s := fun hs => by rw [hpr, update_of_ne hs]
  -- a thread that is running now was running before, in another group
  have hold : ∀ {s u}, k'.threads s = some u → u.state = .running → k.threads s = some u ∧ u.groupSlot ≠ g := by
    intro s u hu hur
    rw [hth] at hu
    obtain ⟨t, ht, rfl⟩ := map_eq_some_iff.mp hu
    unfold zombify at *
    split at hur
    · cases hur
    next hg => exact ⟨by rw [ht, if_neg hg], by rwa [if_neg hg]⟩
  refine ⟨fun {s q} hq => ?_, fun {s u} hu => ?_, fun {s u} hu hur => ?_, fun {s u} hu hur => ?_, fun {x q} hq hs => ?_⟩
  · have hlead : ∃ u, k.threads s = some u ∧ u.groupSlot = s := by
      by_cases hg : s = g
      · subst hg
        obtain ⟨p, hp⟩ := Option.isSome_iff_exists.mp hsome
        exact h.leader hp
      · exact h.leader (hprne hg ▸ hq)
    obtain ⟨u, hu, hug⟩ := hlead
    exact ⟨zombify g u, by rw [hth, hu, map_some], zombify_groupSlot.trans hug⟩
  · rw [hth] at hu
    obtain ⟨t, ht, rfl⟩ := map_eq_some_iff.mp hu
    rw [zombify_taskSlot]
    exact h.taskSlot ht
  · obtain ⟨task, htask, hd⟩ := h.task (hold hu hur).1 hur
    exact hta (hold hu hur).1 (hold hu hur).2 htask hd
  · rw [hprne (hold hu hur).2]
    exact h.process (hold hu hur).1 hur
  · have hx : x ≠ g := by
      rintro rfl
      cases hprself.symm.trans hq
      rw [hz] at hs
      cases hs
    have : k'.runningIn x = k.runningIn x := by
      refine Kernel.runningIn_congr fun s u hug hur => ⟨fun hu => (hold hu hur).1, fun hu => ?_⟩
      rw [hth, hu, map_some, zombify, if_neg]
      exact fun hg => hx (hug.symm.trans hg)
    rw [this]
    exact h.count (hprne hx ▸ hq) hs

end SlotsOK

/-! ## What the operations do to the tables -/

namespace Kernel

variable {k k' : Kernel}

variable {slot : Slot}

theorem freeTaskSlot_spec (h : k.freeTaskSlot = some slot) : k.tasks slot = none := by
  simpa using List.find?_some h

/-- A new task: its slot was free, and its task is ready there. -/
structure Spawned (k : Kernel) (slot : Slot) (k' : Kernel) : Prop where
  free : k.freeTaskSlot = some slot
  tasks : ∃ task, k'.tasks = update k.tasks slot (some task) ∧ task.state = .ready
  threads : k'.threads = k.threads
  processes : k'.processes = k.processes
  current : k'.current = k.current
  nextPid : k'.nextPid = k.nextPid
  openFiles : k'.openFiles = k.openFiles

theorem spawnTask_spec {pml4 : Nat} {layout : Mem → Nat → Mem × Nat} (h : k.spawnTask pml4 layout = some (slot, k')) :
    Spawned k slot k' := by
  unfold spawnTask at h
  split at h
  · cases h
  next s hs =>
    dsimp only at h
    split at h
    · cases h
    · cases h
      exact ⟨hs, ⟨_, rfl, rfl⟩, rfl, rfl, rfl, rfl, rfl⟩

theorem Spawned.task_self (h : Spawned k slot k') :
    ∃ task, k'.tasks slot = some task ∧ task.state ≠ .dead := by
  obtain ⟨task, htasks, hready⟩ := h.tasks
  refine ⟨task, by rw [htasks, update_self], ?_⟩
  rw [hready]
  nofun

theorem Spawned.slotsOK (h : Spawned k slot k') (hk : SlotsOK k) : SlotsOK k' := by
  obtain ⟨task, htasks, -⟩ := h.tasks
  refine hk.congr h.threads (fun s => by rw [h.processes]) fun {s _ task'} _ _ ht hd => ?_
  refine ⟨task', ?_, hd⟩
  rw [htasks, update_of_ne, ht]
  rintro rfl
  rw [freeTaskSlot_spec h.free] at ht
  cases ht

theorem Spawned.idle (h : Spawned k slot k') (hk : SlotsOK k) {t : Thread} (ht : k'.threads slot = some t) :
    t.state ≠ .running :=
  hk.not_running_of_free (freeTaskSlot_spec h.free) (h.threads ▸ ht)

/-! ### Exits -/

variable {c : Slot}

theorem killTask_tasks_ne {s : Slot} (hs : s ≠ c) : (k.killTask c).tasks s = k.tasks s := by
  unfold killTask
  split
  · simp [hs]
  · rfl

theorem killTask_dead {task : Task} (h : (k.killTask c).tasks c = some task) : task.state = .dead := by
  unfold killTask at h
  split at h
  · rw [setTask_tasks, update_self] at h
    cases h
    rfl
  next hn =>
    rw [hn] at h
    cases h

theorem killTask_tables :
    (k.killTask c).threads = k.threads ∧ (k.killTask c).processes = k.processes := by
  unfold killTask
  split <;> exact ⟨rfl, rfl⟩

/-- One round of a loop that ends the threads of group `g`: the thread in the
round's slot becomes a zombie and its task is killed, except in the slot that
is spared. -/
structure GroupRound (g : Slot) (spared : Slot → Prop) (f : Kernel → Slot → Kernel) : Prop where
  threads : ∀ k a, (f k a).threads = update k.threads a ((k.threads a).map (zombify g))
  processes : ∀ k a, (f k a).processes = k.processes
  other : ∀ {k a s}, s ≠ a → (f k a).tasks s = k.tasks s
  kept : ∀ {k a}, (∀ t, k.threads a = some t → t.groupSlot ≠ g) → (f k a).tasks a = k.tasks a
  killed : ∀ {k a t task}, k.threads a = some t → t.groupSlot = g → ¬ spared a → (f k a).tasks a = some task →
    task.state = .dead

variable {g : Slot} {spared : Slot → Prop} {f : Kernel → Slot → Kernel}

theorem GroupRound.of_eq [DecidablePred spared]
    (hout : ∀ {k a}, (∀ t, k.threads a = some t → t.groupSlot ≠ g) → f k a = k)
    (hin : ∀ {k a t}, k.threads a = some t → t.groupSlot = g → f k a = if spared a then k.setThread a (some { t with state := .zombie }) else (k.setThread a (some { t with state := .zombie })).killTask a) :
    GroupRound g spared f := by
  have hcases : ∀ (k : Kernel) (a : Slot), (f k a = k ∧ (∀ t, k.threads a = some t → t.groupSlot ≠ g)) ∨
      ∃ t, k.threads a = some t ∧ t.groupSlot = g ∧ f k a =
        if spared a then k.setThread a (some { t with state := .zombie })
        else (k.setThread a (some { t with state := .zombie })).killTask a := by
    intro k a
    by_cases hno : ∀ t, k.threads a = some t → t.groupSlot ≠ g
    · exact .inl ⟨hout hno, hno⟩
    · obtain ⟨t, hno⟩ := not_forall.mp hno
      obtain ⟨ht, hg⟩ := Classical.not_imp.mp hno
      exact .inr ⟨t, ht, not_not.mp hg, hin ht (not_not.mp hg)⟩
  constructor
  case threads =>
    intro k a
    rcases hcases k a with ⟨he, hno⟩ | ⟨t, ht, hg, he⟩
    · have hz : (k.threads a).map (zombify g) = k.threads a := zombify_none hno
      rw [he, hz, Function.update_eq_self]
    · have hz : (k.threads a).map (zombify g) = some { t with state := .zombie } := by
        rw [ht, map_some, zombify, if_pos hg]
      rw [he, hz]
      split
      · rfl
      · rw [killTask_tables.1, setThread_threads]
  case processes =>
    intro k a
    rcases hcases k a with ⟨he, -⟩ | ⟨t, -, -, he⟩
    · rw [he]
    · rw [he]
      split
      · rfl
      · rw [killTask_tables.2, setThread_processes]
  case other =>
    intro k a s hs
    rcases hcases k a with ⟨he, -⟩ | ⟨t, -, -, he⟩
    · rw [he]
    · rw [he]
      split
      · rfl
      · rw [killTask_tasks_ne hs, setThread_tasks]
  case kept =>
    intro k a hno
    rcases hcases k a with ⟨he, -⟩ | ⟨t, ht, hg, -⟩
    · rw [he]
    · exact absurd hg (hno t ht)
  case killed =>
    intro k a u task hu hg hc htask
    rcases hcases k a with ⟨-, hno⟩ | ⟨t, -, -, he⟩
    · exact absurd hg (hno u hu)
    · rw [he, if_neg hc] at htask
      exact killTask_dead htask

theorem exitGroupThread_round (g c : Slot) : GroupRound g (· = c) (exitGroupThread g c) := by
  refine .of_eq (fun {k a} hno => ?_) fun {k a t} ht hg => ?_
  · unfold exitGroupThread
    split
    · rfl
    next t ht => rw [if_pos (hno t ht)]
  · simp only [exitGroupThread, ht, hg, ne_eq, not_true, if_false, ite_not]

variable {ss : List Slot}

theorem GroupRound.loop (hf : GroupRound g spared f) (hnd : ss.Nodup) :
    (∀ s, (ss.foldl f k).threads s = if s ∈ ss then (k.threads s).map (zombify g) else k.threads s) ∧
      (∀ s, (∀ t, k.threads s = some t → t.groupSlot ≠ g) → (ss.foldl f k).tasks s = k.tasks s) ∧
      (∀ s ∈ ss, ∀ t task, k.threads s = some t → t.groupSlot = g → ¬ spared s →
        (ss.foldl f k).tasks s = some task → task.state = .dead) ∧
      (∀ s, s ∉ ss → (ss.foldl f k).tasks s = k.tasks s) ∧
      (ss.foldl f k).processes = k.processes := by
  induction ss generalizing k with
  | nil => exact ⟨fun s => by simp, fun _ _ => rfl, nofun, fun _ _ => rfl, rfl⟩
  | cons a ss ih =>
    obtain ⟨ha, hnd⟩ := List.nodup_cons.mp hnd
    obtain ⟨h1, h2, h3, h4, h5⟩ := ih (k := f k a) hnd
    have hthreads : ∀ {s}, s ≠ a → (f k a).threads s = k.threads s := fun hs => by
      rw [hf.threads, update_of_ne hs]
    refine ⟨fun s => ?_, fun s hs => ?_, fun s hmem t task ht hg hsp htask => ?_, fun s hs => ?_,
      h5.trans (hf.processes k a)⟩
    · rw [List.foldl_cons, h1, hf.threads]
      by_cases hsa : s = a
      · subst hsa
        simp [ha]
      · simp [hsa]
    · have hround : (f k a).tasks s = k.tasks s := by
        by_cases hsa : s = a
        · subst hsa
          exact hf.kept hs
        · exact hf.other hsa
      rw [List.foldl_cons, h2 s, hround]
      intro t ht
      by_cases hsa : s = a
      · subst hsa
        rw [hf.threads, update_self] at ht
        obtain ⟨u, hu, rfl⟩ := map_eq_some_iff.mp ht
        rw [zombify_groupSlot]
        exact hs u hu
      · rw [hthreads hsa] at ht
        exact hs t ht
    · rw [List.foldl_cons] at htask
      by_cases hsa : s = a
      · subst hsa
        rw [h4 s ha] at htask
        exact hf.killed ht hg hsp htask
      · have hin : s ∈ ss := (List.mem_cons.mp hmem).resolve_left hsa
        exact h3 s hin t task (by rw [hthreads hsa, ht]) hg hsp htask
    · rw [List.mem_cons, not_or] at hs
      rw [List.foldl_cons, h4 s hs.2, hf.other hs.1]

theorem exitGroup_current :
    (ss.foldl (exitGroupThread g c) k).current = k.current := by
  have hstep : ∀ {k : Kernel} {a : Slot}, (k.exitGroupThread g c a).current = k.current := by
    intro k a
    unfold exitGroupThread killTask
    split
    · rfl
    · split
      · rfl
      · dsimp only
        split
        · split <;> rfl
        · rfl
  induction ss generalizing k with
  | nil => rfl
  | cons a ss ih => exact ih.trans hstep

theorem exitThread_processes (k : Kernel) (code : Int) (wholeGroup : Bool) :
    (k.exitThread code wholeGroup).2.processes = k.processes ∨
    ∃ t p state exitCode threadCount, k.currentThread = some t ∧ k.processes t.groupSlot = some p ∧
      (k.exitThread code wholeGroup).2.processes =
        update k.processes t.groupSlot (some { p with state, exitCode, threadCount }) := by
  unfold exitThread
  split
  · exact .inl rfl
  next t ht =>
  dsimp only
  split
  · exact .inl rfl
  next p hp =>
    right
    split
    · refine ⟨t, p, .zombie, code, 0, ht, hp, ?_⟩
      exact ((exitGroupThread_round _ _).loop (List.nodup_finRange _)).2.2.2.2
    · split
      · exact ⟨t, p, .zombie, code, 0, ht, hp, rfl⟩
      · exact ⟨t, p, p.state, p.exitCode, p.threadCount - 1, ht, hp, rfl⟩

end Kernel

/-! ### Notifying the parent -/

theorem sameLives_queueSignal {sig : Nat} : SameLives k (queueSignal k s sig) := by
  intro x
  unfold queueSignal
  split
  next p hp =>
    by_cases hx : x = s
    · subst hx
      simp [hp, Process.life]
    · simp [hx]
  · rfl

theorem sameLives_notifyParentExit {parentPid : Nat} : SameLives k (notifyParentExit k parentPid) := by
  unfold notifyParentExit
  split
  · exact fun _ => rfl
  · split
    · exact sameLives_queueSignal
    · exact fun _ => rfl

theorem notifyParentExit_tables (k : Kernel) (parentPid : Nat) :
    (notifyParentExit k parentPid).threads = k.threads ∧ (notifyParentExit k parentPid).tasks = k.tasks ∧
      (notifyParentExit k parentPid).current = k.current := by
  unfold notifyParentExit queueSignal
  split
  · exact ⟨rfl, rfl, rfl⟩
  · split
    · split <;> exact ⟨rfl, rfl, rfl⟩
    · exact ⟨rfl, rfl, rfl⟩

/-! ### Switching -/

namespace Kernel

variable {k k' : Kernel}

theorem leaveTask_spec (hk : SlotsOK k) :
    SlotsOK k.leaveTask.2 ∧ k.leaveTask.2.processes = k.processes ∧
      ∀ {s t}, k.threads s = some t → t.state = .running → k.leaveTask.2.threads s = some t := by
  unfold leaveTask
  split
  · exact ⟨hk, rfl, fun ht _ => ht⟩
  next task htask =>
    split
    next hd =>
      -- the dead task's thread has exited
      have hidle : ∀ {t}, k.threads k.current = some t → t.state ≠ .running := by
        intro t ht hr
        obtain ⟨task', htask', hd'⟩ := hk.task ht hr
        cases htask.symm.trans htask'
        exact hd' hd
      have hreaped : SlotsOK (k.taskSlotReaped k.current) ∧ (k.taskSlotReaped k.current).processes = k.processes ∧
          (k.taskSlotReaped k.current).tasks = k.tasks ∧
          ∀ {s t}, k.threads s = some t → t.state = .running → (k.taskSlotReaped k.current).threads s = some t := by
        unfold taskSlotReaped
        split
        next t ht =>
          split
          next hg =>
            refine ⟨hk.forget ht hg (hidle ht) rfl rfl rfl, rfl, rfl, fun {s u} hu hr => ?_⟩
            rw [setThread_threads, update_of_ne, hu]
            rintro rfl
            exact hidle hu hr
          · exact ⟨hk, rfl, rfl, fun ht _ => ht⟩
        · exact ⟨hk, rfl, rfl, fun ht _ => ht⟩
      obtain ⟨h1, h2, h3, h4⟩ := hreaped
      refine ⟨h1.congr rfl (fun _ => rfl) fun {s _ task'} _ _ ht hd' => ⟨task', ?_, hd'⟩, h2, h4⟩
      rw [setTask_tasks, update_of_ne, ht]
      rintro rfl
      rw [h3, htask] at ht
      cases ht
      exact hd' hd
    next hd =>
      refine ⟨hk.congr rfl (fun _ => rfl) fun {s _ task'} _ _ ht hd' => ?_, rfl, fun ht _ => ht⟩
      by_cases hs : s = k.current
      · subst hs
        refine ⟨_, update_self .., ?_⟩
        dsimp only
        split
        · nofun
        · exact hd
      · exact ⟨task', (update_of_ne hs ..).trans ht, hd'⟩

theorem nextTaskSwitch_spec {sw : SwitchTo} (hk : SlotsOK k) (h : k.nextTaskSwitch = some (sw, k')) :
    SlotsOK k' ∧ k'.processes = k.processes ∧
      ∀ {s t}, k.threads s = some t → t.state = .running → k'.threads s = some t := by
  simp only [nextTaskSwitch, bind_eq_bind, bind_eq_some_iff, Option.some.injEq, Prod.mk.injEq] at h
  obtain ⟨next, -, task, htask, -, rfl⟩ := h
  obtain ⟨h1, h2, h3⟩ := leaveTask_spec hk
  refine ⟨h1.congr rfl (fun _ => rfl) fun {s _ task'} _ _ ht hd => ?_, h2, h3⟩
  by_cases hs : s = next
  · subst hs
    exact ⟨_, update_self .., nofun⟩
  · exact ⟨task', (update_of_ne hs ..).trans ht, hd⟩

end Kernel

variable {sw : Kernel.SwitchTo}

theorem nextTaskSwitch_tables (h : k.nextTaskSwitch = some (sw, k')) :
    k'.processes = k.processes ∧ ∀ {x t}, k'.threads x = some t → k.threads x = some t := by
  have hreaped : ∀ {c : Slot}, (k.taskSlotReaped c).processes = k.processes ∧
      ∀ {x t}, (k.taskSlotReaped c).threads x = some t → k.threads x = some t := by
    intro c
    unfold Kernel.taskSlotReaped
    split
    · split
      · refine ⟨rfl, fun {x t} ht => ?_⟩
        by_cases hx : x = c
        · simp [hx] at ht
        · simpa [hx] using ht
      · exact ⟨rfl, id⟩
    · exact ⟨rfl, id⟩
  have hleft : k.leaveTask.2.processes = k.processes ∧
      ∀ {x t}, k.leaveTask.2.threads x = some t → k.threads x = some t := by
    unfold Kernel.leaveTask
    split
    · exact ⟨rfl, id⟩
    · split
      · exact hreaped
      · exact ⟨rfl, id⟩
  simp only [Kernel.nextTaskSwitch, bind_eq_bind, bind_eq_some_iff, Option.some.injEq,
    Prod.mk.injEq] at h
  obtain ⟨next, -, task, -, -, rfl⟩ := h
  exact hleft

theorem nextTaskSwitch_tasks (h : k.nextTaskSwitch = some (sw, k')) :
    (∃ t, k.tasks k'.current = some t ∧ t.state ≠ .dead) ∧
      ∀ {x t'}, k'.tasks x = some t' → ∃ t, k.tasks x = some t ∧ (t.state = .dead → t'.state = .dead) := by
  simp only [Kernel.nextTaskSwitch, bind_eq_bind, bind_eq_some_iff, Option.some.injEq,
    Prod.mk.injEq] at h
  obtain ⟨next, hfind, task, -, -, rfl⟩ := h
  obtain ⟨u, hu, hready, -⟩ : ∃ u, k.tasks next = some u ∧ u.state = .ready ∧ u.rspValid = true := by
    simpa [Kernel.schedulable, Option.any_eq_true] using List.find?_some hfind
  have hlive : u.state ≠ .dead := by
    rw [hready]
    nofun
  have hreaped : (k.taskSlotReaped k.current).tasks = k.tasks := by
    unfold Kernel.taskSlotReaped
    split
    · split <;> rfl
    · rfl
  have hleft : ∀ {x t'}, k.leaveTask.2.tasks x = some t' →
      ∃ t, k.tasks x = some t ∧ (t.state = .dead → t'.state = .dead) := by
    intro x t' ht'
    unfold Kernel.leaveTask at ht'
    split at ht'
    · exact ⟨t', ht', id⟩
    next o ho =>
      by_cases hx : x = k.current
      · subst hx
        refine ⟨o, ho, fun hd => ?_⟩
        rw [if_pos hd, Kernel.setTask_tasks, update_self] at ht'
        cases ht'
      · split at ht'
        · rw [Kernel.setTask_tasks, update_of_ne hx, hreaped] at ht'
          exact ⟨t', ht', id⟩
        · rw [Kernel.setTask_tasks, update_of_ne hx] at ht'
          exact ⟨t', ht', id⟩
  refine ⟨⟨u, hu, hlive⟩, fun {x t'} ht' => ?_⟩
  by_cases hx : x = next
  · exact ⟨u, hx ▸ hu, fun hd => absurd hd hlive⟩
  · rw [Kernel.setTask_tasks, update_of_ne hx] at ht'
    exact hleft ht'

variable {slot : Slot}

theorem reapSlot_spec {code : Int} (h : reapSlot k slot = some (code, k')) :
    ∃ p, k.processes slot = some p ∧ p.state = .zombie ∧ code = p.exitCode ∧
      k'.processes = update k.processes slot none ∧ k'.threads = update k.threads slot none ∧
      k'.tasks = k.tasks ∧ k'.current = k.current := by
  unfold reapSlot at h
  split at h
  next p hp =>
    split at h
    next hz =>
      have hsame : SameProcesses k (releaseFds k p.fds) := .foldl fun _ t => .release t
      cases h
      exact ⟨p, hp, hz, rfl, by rw [Kernel.setThread_processes, Kernel.setProcess_processes, hsame.processes],
        by rw [Kernel.setThread_threads, Kernel.setProcess_threads, hsame.threads], hsame.tasks, hsame.current⟩
    · cases h
  · cases h

/-! ### Creating processes and threads -/

theorem forkCurrent_spec {pid : Nat} (h : forkCurrent k slot = some (pid, k')) :
    ∃ parent pt, k.currentProcess = some parent ∧ k.currentThread = some pt ∧ pid = k.nextPid ∧
      k'.processes = update k.processes slot (some (parent.forkFrom pid)) ∧
      k'.threads = update k.threads slot
        (some (.newGroupMember pid pt.tid slot slot 0 pt.fsBase pt.sigMask)) ∧
      k'.tasks = k.tasks ∧ k'.current = k.current := by
  simp only [forkCurrent, bind_eq_bind, bind_eq_some_iff, Option.some.injEq, Prod.mk.injEq] at h
  obtain ⟨parent, hparent, pt, hpt, rfl, rfl⟩ := h
  have hsame : SameProcesses k.bumpPid ((fdList parent.fds).foldl forkRetain k.bumpPid) :=
    .foldl fun _ t => .forkRetain t
  refine ⟨parent, pt, hparent, hpt, rfl, ?_, ?_, hsame.tasks, hsame.current⟩
  · rw [Kernel.setThread_processes, Kernel.setProcess_processes, hsame.processes]
    rfl
  · rw [Kernel.setThread_threads, Kernel.setProcess_threads, hsame.threads]
    rfl

variable {c b : Nat}

theorem spawnThreadInGroup_spec {tid : Nat} (h : k.spawnThreadInGroup slot c b = some (tid, k')) :
    ∃ pt p, k.currentThread = some pt ∧ k.processes pt.groupSlot = some p ∧ tid = k.nextPid ∧
      k'.processes = update k.processes pt.groupSlot (some { p with threadCount := p.threadCount + 1 }) ∧
      k'.threads = update k.threads slot
        (some (.newGroupMember tid pt.tid pt.groupSlot slot c b pt.sigMask)) ∧
      k'.tasks = k.tasks ∧ k'.current = k.current ∧ k'.openFiles = k.openFiles := by
  simp only [Kernel.spawnThreadInGroup, bind_eq_bind, bind_eq_some_iff, Option.some.injEq,
    Prod.mk.injEq] at h
  obtain ⟨pt, hpt, p, hp, rfl, rfl⟩ := h
  exact ⟨pt, p, hpt, hp, rfl, rfl, rfl, rfl, rfl, rfl⟩

variable {frame : Nat}

theorem forkTask_cases {pml4 : Nat} {pid : Option Nat} (h : forkTask k frame pml4 = some (pid, k')) :
    (pid = none ∧ k' = k) ∨
    ∃ slot k1 parent pt, pid = some k.nextPid ∧ Kernel.Spawned k slot k1 ∧ k.currentProcess = some parent ∧
      k.currentThread = some pt ∧
      k'.processes = update k1.processes slot (some (parent.forkFrom k.nextPid)) ∧
      k'.threads = update k1.threads slot
        (some (.newGroupMember k.nextPid pt.tid slot slot 0 pt.fsBase pt.sigMask)) ∧
      k'.tasks = k1.tasks ∧ k'.current = k.current := by
  unfold forkTask at h
  split at h
  · cases h
    exact .inl ⟨rfl, rfl⟩
  next slot k1 hsp =>
    obtain ⟨⟨pid', k2⟩, hf, he⟩ := map_eq_some_iff.mp h
    cases he
    have sp := Kernel.spawnTask_spec hsp
    obtain ⟨parent, pt, hparent, hpt, rfl, hpr, hth, hta, hcur⟩ := forkCurrent_spec hf
    rw [Kernel.currentThread, sp.threads, sp.current] at hpt
    have hsame : k1.currentProcess = k.currentProcess := by
      simp only [Kernel.currentProcess, Kernel.currentThread, sp.threads, sp.current, sp.processes]
    rw [sp.nextPid] at hpr hth ⊢
    exact .inr ⟨slot, k1, parent, pt, rfl, sp, hsame ▸ hparent, hpt, hpr, hth, hta, hcur.trans sp.current⟩

theorem execTask_cases (k : Kernel) (entry stackTop : Word) (pml4 : Nat) (name : List Char) :
    execTask k entry stackTop pml4 name = (none, k) ∨
    ∃ slot k1 k', execTask k entry stackTop pml4 name = (some k.nextPid, k') ∧ Kernel.Spawned k slot k1 ∧
      k'.processes = update k1.processes slot (some (.newLeader k.nextPid k.currentPid name)) ∧
      k'.threads = update k1.threads slot (some (.newLeader k.nextPid k.currentPid slot slot)) ∧
      k'.tasks = k1.tasks ∧ k'.current = k.current ∧ k'.openFiles = k.openFiles := by
  unfold execTask
  split
  · exact .inl rfl
  next slot k1 hsp =>
    have sp := Kernel.spawnTask_spec hsp
    have hpid : k1.currentPid = k.currentPid := by
      simp only [Kernel.currentPid, Kernel.currentProcess, Kernel.currentThread, sp.threads, sp.current, sp.processes]
    rw [← hpid, ← sp.nextPid]
    exact .inr ⟨slot, k1, _, rfl, sp, rfl, rfl, rfl, sp.current, sp.openFiles⟩

theorem cloneThread_cases {tid : Option Nat} (h : cloneThread k frame c b = some (tid, k')) :
    (tid = none ∧ k' = k) ∨
    ∃ slot k1 pt p, tid = some k.nextPid ∧ Kernel.Spawned k slot k1 ∧ k.currentThread = some pt ∧
      k.processes pt.groupSlot = some p ∧
      k'.processes = update k1.processes pt.groupSlot (some { p with threadCount := p.threadCount + 1 }) ∧
      k'.threads = update k1.threads slot
        (some (.newGroupMember k.nextPid pt.tid pt.groupSlot slot c b pt.sigMask)) ∧
      k'.tasks = k1.tasks ∧ k'.current = k.current ∧ k'.openFiles = k.openFiles := by
  unfold cloneThread at h
  split at h
  · cases h
    exact .inl ⟨rfl, rfl⟩
  next slot k1 hsp =>
    obtain ⟨⟨tid', k2⟩, hf, he⟩ := map_eq_some_iff.mp h
    cases he
    have sp := Kernel.spawnTask_spec hsp
    obtain ⟨pt, p, hpt, hp, rfl, hpr, hth, hta, hcur, hof⟩ := spawnThreadInGroup_spec hf
    rw [Kernel.currentThread, sp.threads, sp.current] at hpt
    rw [sp.processes] at hp
    rw [sp.nextPid] at hth ⊢
    exact .inr ⟨slot, k1, pt, p, rfl, sp, hpt, hp, hpr, hth, hta, hcur.trans sp.current, hof.trans sp.openFiles⟩

/-! ### Ending threads and processes -/

/-- The tables after the end of an exit: the parent is notified or not, and
the task in slot `c` is killed. -/
structure Ended (k1 : Kernel) (c : Slot) (k' : Kernel) : Prop where
  threads : k'.threads = k1.threads
  processes : SameLives k1 k'
  tasks : ∀ {s}, s ≠ c → k'.tasks s = k1.tasks s
  killed : ∀ {task}, k'.tasks c = some task → task.state = .dead

theorem ended_killTask (k1 : Kernel) (parentPid : Nat) :
    Ended k1 k1.current ((notifyParentExit k1 parentPid).killTask (notifyParentExit k1 parentPid).current) := by
  obtain ⟨hth, hta, hc⟩ := notifyParentExit_tables k1 parentPid
  refine ⟨Kernel.killTask_tables.1.trans hth, fun s => ?_, fun hs => ?_, fun htask => ?_⟩
  · rw [Kernel.killTask_tables.2]
    exact sameLives_notifyParentExit s
  · rw [hc, Kernel.killTask_tasks_ne hs, hta]
  · rw [hc] at htask
    exact Kernel.killTask_dead htask

variable {k1 : Kernel}

theorem ended_kill_only : Ended k1 k1.current (k1.killTask k1.current) :=
  ⟨Kernel.killTask_tables.1, fun s => by rw [Kernel.killTask_tables.2], fun hs => Kernel.killTask_tasks_ne hs,
    Kernel.killTask_dead⟩

theorem Ended.slotsOK {c : Slot} (h : Ended k1 c k') (hk : SlotsOK k1)
    (hc : ∀ t, k1.threads c = some t → t.state ≠ .running) : SlotsOK k' := by
  refine hk.congr h.threads h.processes fun {s t task} ht hr htask hd => ⟨task, ?_, hd⟩
  rw [h.tasks, htask]
  rintro rfl
  exact hc t ht hr

theorem exitThread_one (code : Int) (ht : k.threads k.current = some t) (hp : k.processes t.groupSlot = some p)
    (hps : p.state = .running) :
    ∃ p', (k.exitThread code false).2.threads = update k.threads k.current (some { t with state := .zombie }) ∧
      (k.exitThread code false).2.processes = update k.processes t.groupSlot (some p') ∧
      (k.exitThread code false).2.tasks = k.tasks ∧ (k.exitThread code false).2.current = k.current ∧
      p'.pid = p.pid ∧ p'.threadCount = p.threadCount - 1 ∧ (p'.state = .zombie → p.threadCount - 1 = 0) := by
  have hcur : k.currentThread = some t := ht
  by_cases hlast : p.threadCount - 1 = 0
  · simp only [Kernel.exitThread, hcur, Kernel.setThread_processes, hp, Bool.false_eq_true, if_false, hlast, if_true]
    exact ⟨_, rfl, rfl, rfl, rfl, rfl, rfl, fun _ => trivial⟩
  · simp only [Kernel.exitThread, hcur, Kernel.setThread_processes, hp, Bool.false_eq_true, if_false, hlast]
    refine ⟨_, rfl, rfl, rfl, rfl, rfl, rfl, fun hz => ?_⟩
    dsimp only at hz
    rw [hps] at hz
    cases hz

theorem syscallExit_spec (code : Int) (ht : k.threads k.current = some t) (hp : k.processes t.groupSlot = some p)
    (hps : p.state = .running) :
    ∃ k1 p', k1.threads = update k.threads k.current (some { t with state := .zombie }) ∧
      k1.processes = update k.processes t.groupSlot (some p') ∧ k1.tasks = k.tasks ∧
      p'.pid = p.pid ∧ p'.threadCount = p.threadCount - 1 ∧ (p'.state = .zombie → p.threadCount - 1 = 0) ∧
      Ended k1 k.current (syscallExit k code) := by
  obtain ⟨p', hth, hpr, hta, hc, hpid, hcount, hlast⟩ := exitThread_one code ht hp hps
  refine ⟨(k.exitThread code false).2, p', hth, hpr, hta, hpid, hcount, hlast, ?_⟩
  unfold syscallExit
  generalize k.exitThread code false = x at hc
  obtain ⟨groupDead, k1⟩ := x
  dsimp only at hc ⊢
  rw [← hc]
  split
  · exact ended_killTask k1 _
  · exact ended_kill_only

theorem syscallExitGroup_spec (code : Int) (ht : k.threads k.current = some t) (hp : k.processes t.groupSlot = some p) :
    ∃ k1 p', (∀ s, k1.threads s = (k.threads s).map (zombify t.groupSlot)) ∧
      k1.processes = update k.processes t.groupSlot (some p') ∧
      (∀ {s}, (∀ u, k.threads s = some u → u.groupSlot ≠ t.groupSlot) → k1.tasks s = k.tasks s) ∧
      (∀ {s u task}, k.threads s = some u → u.groupSlot = t.groupSlot → s ≠ t.taskSlot → k1.tasks s = some task →
        task.state = .dead) ∧
      p'.pid = p.pid ∧ p'.state = .zombie ∧ Ended k1 k.current (syscallExitGroup k code) := by
  have hcur : k.currentThread = some t := ht
  let k0 := (k.setThread k.current (some { t with state := .zombie })).setProcess t.groupSlot
    (some { p with state := .zombie, exitCode := code, threadCount := 0 })
  obtain ⟨hth, hta, hkilled, -, hpr⟩ := (Kernel.exitGroupThread_round t.groupSlot t.taskSlot).loop (k := k0)
    (List.nodup_finRange maxTasks)
  have hth0 : ∀ s, k0.threads s = if s = k.current then some { t with state := .zombie } else k.threads s := by
    intro s
    simp [k0, Function.update_apply]
  refine ⟨_, _, fun s => ?_, hpr, fun {s} hs => ?_, fun {s u task} hu hg hs htask => ?_, rfl, rfl, ?_⟩
  · rw [hth, if_pos (List.mem_finRange s), hth0]
    split
    next hs => subst hs; rw [ht]; simp [zombify]
    · rfl
  · refine hta s fun u hu => ?_
    rw [hth0] at hu
    split at hu
    next hs => subst hs; exact absurd rfl (hs t ht)
    · exact hs u hu
  · obtain ⟨w, hw, hwg⟩ : ∃ w, k0.threads s = some w ∧ w.groupSlot = t.groupSlot := by
      rw [hth0]
      split
      · exact ⟨_, rfl, rfl⟩
      · exact ⟨u, hu, hg⟩
    exact hkilled s (List.mem_finRange s) w task hw hwg hs htask
  · have hc : ((List.finRange maxTasks).foldl (Kernel.exitGroupThread t.groupSlot t.taskSlot) k0).current =
        k.current := Kernel.exitGroup_current
    simp only [syscallExitGroup, Kernel.exitThread, hcur, Kernel.setThread_processes, hp, if_true]
    have hend := ended_killTask ((List.finRange maxTasks).foldl
      (Kernel.exitGroupThread t.groupSlot t.taskSlot) k0) k.currentPpid
    rwa [hc] at hend

end CoreOS
