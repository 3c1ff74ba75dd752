import Simplos.Kernel.Invariant

/-!
# Saved stack pointers over whole runs

A saved stack pointer passes through `task_sp`, `prev_task_sp`, `next_task_sp` and the `task_sp_adr`
of a slot. `Saved` records, next to the run, where the context of each slot's occupant was last
saved; the invariant `SavedInv` says that a READY slot holds exactly that address, and a round hands
it to the switch unchanged.
-/

namespace Simplos
set_option autoImplicit false
open Lib (bind_eq_ok)

/-- For each slot the stack pointer at which the context of its current occupant was last saved;
`none` while the occupant has never been switched away from. -/
abbrev Saved := Byte → Option Word

/-- The record after the action `a` of the active task of `os`, which leaves `os'`. -/
def Saved.after (saved : Saved) (os os' : Os) : Action → Saved
  | .spawn _ _ sp =>
    Function.update (Function.update saved (indexOfCurrentTask os'.kernel) none) (indexOfCurrentTask os.kernel) (some sp)
  | .setPriority _ => saved
  | .yield sw => Function.update saved (indexOfCurrentTask os.kernel) (some sw.sp)
  | .kill _ => Function.update saved (indexOfCurrentTask os.kernel) none

/-- A step of the system with the record kept next to it. -/
def recordedStep (b : Build) (s : Os × Saved) (a : Action) : Exec (Os × Saved) := do
  let os ← s.1.step b a
  return (os, s.2.after s.1 os a)

/-- The record when a boot has switched to its first task: `run_idle_fn` was saved in `spawn`. -/
def bootSaved (idleSp : Word) : Saved := Function.update (fun _ => none) (slotIndex 0) (some idleSp)

/-- The states of a run with their record. -/
def Recorded (os : Os) (saved : Saved) : Prop :=
  ∃ mainSp idleSp sw start actions, boot .atmega2560 mainSp idleSp sw = .ok start ∧
    Lib.run (recordedStep .atmega2560) (start, bootSaved idleSp) actions = .ok (os, saved)

/-- The switch that led to `os` loaded the recorded stack pointer of the active slot. It lies in the
block of that slot, and the next switch goes to the scheduler. -/
structure Resumed (os : Os) (saved : Saved) (slot : Fin tasksMax) : Prop where
  active : os.kernel.schedule.activeTaskBlock = slotIndex slot
  sp : saved (slotIndex slot) = some os.taskSp
  low : ∃ low, taskSpRangeLow .atmega2560 (slotIndex slot) = .ok low ∧ low ≤ os.taskSp
  high : ∃ high, taskSpRangeHigh .atmega2560 (slotIndex slot) = .ok high ∧ os.taskSp ≤ high
  noneScheduled : os.nextTaskSp = 0
  following : ∀ sp, (os.contextSwtich sp).taskSp = os.schedulerTaskSp

/-- A READY slot holds the recorded stack pointer of its occupant. -/
def SavedInv (k : Kernel) (saved : Saved) : Prop :=
  ∀ i, k.status i = .ready → saved (slotIndex i) = some (k.tasks i).taskSpAdr

/-! ## One change at a time -/

section Changes

variable {k : Kernel} {saved : Saved}

theorem saved_update (saved : Saved) (slot i : Fin tasksMax) (sp : Option Word) :
    Function.update saved (slotIndex slot) sp (slotIndex i) = if i = slot then sp else saved (slotIndex i) := by
  by_cases here : i = slot
  · simp [here]
  · have other : slotIndex i ≠ slotIndex slot := fun h => here (slotIndex_inj.mp h)
    simp [here, other]

/-- Changing one slot together with its record. -/
theorem SavedInv.modify (inv : SavedInv k saved) (slot : Fin tasksMax) (sp : Option Word)
    {f : SimplosTask → SimplosTask} (kept : (f (k.tasks slot)).status = .ready → sp = some (f (k.tasks slot)).taskSpAdr) :
    SavedInv (k.modifyTask slot f) (Function.update saved (slotIndex slot) sp) := by
  intro i ready
  rw [saved_update]
  by_cases here : i = slot
  · subst here
    rw [Kernel.status, modifyTask_self] at ready
    rw [if_pos rfl, modifyTask_self]
    exact kept ready
  · rw [Kernel.status, modifyTask_of_ne k slot f here] at ready
    rw [if_neg here, modifyTask_of_ne k slot f here]
    exact inv i ready

/-- Changing a slot without touching its record. -/
theorem SavedInv.modify_same (inv : SavedInv k saved) (slot : Fin tasksMax) {f : SimplosTask → SimplosTask}
    (kept : (f (k.tasks slot)).status = .ready → saved (slotIndex slot) = some (f (k.tasks slot)).taskSpAdr) :
    SavedInv (k.modifyTask slot f) saved := by
  have both := inv.modify slot (saved (slotIndex slot)) kept
  rwa [Function.update_eq_self] at both

/-- The record of a slot that is not READY may be anything. -/
theorem SavedInv.record (inv : SavedInv k saved) {slot : Fin tasksMax} (sp : Option Word)
    (busy : k.status slot ≠ .ready) : SavedInv k (Function.update saved (slotIndex slot) sp) := by
  intro i ready
  have other : i ≠ slot := fun same => busy (same ▸ ready)
  rw [saved_update, if_neg other]
  exact inv i ready

end Changes

/-! ## A round -/

/-- `handle_previous_task` moves the stack pointer saved by the switch into the slot that ran. -/
theorem SavedInv.save {os : Os} {saved : Saved} {prev : Fin tasksMax} (inv : SavedInv os.kernel saved)
    (recorded : os.kernel.status prev = .running → saved (slotIndex prev) = some os.prevTaskSp) :
    SavedInv (savePrevious prev os).kernel saved := by
  unfold savePrevious
  split
  · exact inv.modify_same prev nofun
  · rename_i running
    exact inv.modify_same prev fun _ => recorded running
  · exact inv

/-- A round leaves in `next_task_sp` the recorded stack pointer of the slot it selected. -/
theorem RoundInv.hands_over {mem : DataMemory} {os os' : Os} {scheduler : Option (Fin tasksMax)}
    {prev : Fin tasksMax} {saved : Saved} (inv : RoundInv os.kernel scheduler prev) (saves : SavedInv os.kernel saved)
    (recorded : os.kernel.status prev = .running → saved (slotIndex prev) = some os.prevTaskSp)
    (h : schedulerRound .atmega2560 mem os = .ok os') :
    ∃ next, os'.kernel.schedule.activeTaskBlock = slotIndex next ∧ saved (slotIndex next) = some os'.nextTaskSp ∧
      blockLow next ≤ os'.nextTaskSp ∧ os'.nextTaskSp ≤ blockHigh next ∧ SavedInv os'.kernel saved := by
  obtain ⟨entry, next, selection, low, high, rfl⟩ := inv.round_ok h
  have after := saves.save recorded
  refine ⟨next, rfl, after next selection.ready, low, high, ?_⟩
  have advanced : SavedInv ((savePrevious prev os).kernel.withQueue
      (savePrevious prev os).kernel.schedule.queue.advance) saved := by
    intro i ready
    rw [status_withAdvance] at ready
    rw [withQueue_tasks, advance_tasks]
    exact after i ready
  exact advanced.modify_same next (f := fun t => { t with status := .running }) nofun

/-- The round after a switch away from a task, and the switch that ends it. -/
theorem RoundInv.resumes {mem : DataMemory} {sp : Word} {os os' : Os} {scheduler : Option (Fin tasksMax)}
    {prev : Fin tasksMax} {saved : Saved} (inv : RoundInv os.kernel scheduler prev) (saves : SavedInv os.kernel saved)
    (recorded : os.kernel.status prev = .running → saved (slotIndex prev) = some os.prevTaskSp)
    (h : schedulerRound .atmega2560 mem os = .ok os') :
    (∃ next, Resumed (os'.contextSwtich sp) saved next) ∧ SavedInv (os'.contextSwtich sp).kernel saved := by
  obtain ⟨next, active, held, low, high, after⟩ := inv.hands_over saves recorded h
  have nonzero : os'.nextTaskSp ≠ 0 := by
    intro zero
    rw [zero] at low
    exact blockLow_ne_zero next (by bv_omega)
  have loaded : (os'.contextSwtich sp).taskSp = os'.nextTaskSp := if_neg nonzero
  refine ⟨⟨next, active, by rw [held, loaded], ⟨_, taskSpRangeLow_slot _ next, by rwa [loaded]⟩,
    ⟨_, taskSpRangeHigh_slot _ next, by rwa [loaded]⟩, rfl, fun _ => rfl⟩, after⟩

/-! ## A run -/

/-- A spawn saves its parent and gives the new slot an occupant that was never saved. -/
theorem SavedInv.spawn {name : ProgmemString} {priority : Byte} {sp pid : Word} {os os' : Os} {saved : Saved}
    (saves : SavedInv os.kernel saved) (h : spawnTask .atmega2560 name priority sp os = .ok (pid, os')) :
    SavedInv os'.kernel (saved.after os os' (.spawn name priority sp)) := by
  obtain ⟨new, old, high, -, active, -, -, kernel, -⟩ := spawnTask_ok h
  have created := saves.modify new none (f := fun t => { t with
    priority := priority, status := .running, taskSpAdr := high, pid := os.kernel.pidCnt, name := name }) nofun
  have parent := created.modify old (some sp)
    (f := fun t => { t with status := .ready, taskSpAdr := sp }) fun _ => rfl
  simp only [Saved.after, indexOfCurrentTask, kernel, active]
  exact parent

/-- A switch away from a task resumes the recorded stack pointer of the slot it leads to. -/
theorem RoundInv.switch_resumes {sw : Switch} {os os' : Os} {scheduler : Option (Fin tasksMax)}
    {prev : Fin tasksMax} {saved : Saved} (inv : RoundInv os.kernel scheduler prev) (none : os.nextTaskSp = 0)
    (saves : SavedInv os.kernel saved)
    (recorded : os.kernel.status prev = .running → saved (slotIndex prev) = some sw.sp)
    (h : os.switchAway .atmega2560 sw = .ok os') :
    (∃ next, Resumed os' saved next) ∧ SavedInv os'.kernel saved := by
  rw [Os.switchAway, if_pos none, bind_eq_ok] at h
  obtain ⟨done, round, last⟩ := h
  obtain rfl := pure_eq_ok.mp last
  have atRound : RoundInv (os.contextSwtich sw.sp).kernel scheduler prev := inv
  exact atRound.resumes saves recorded round

theorem SavedInv.yield {sw : Switch} {os os' : Os} {saved : Saved} {scheduler : Option (Fin tasksMax)}
    {current : Fin tasksMax} (inv : UserInv os scheduler current) (saves : SavedInv os.kernel saved)
    (h : os.step .atmega2560 (.yield sw) = .ok os') :
    (∃ next, Resumed os' (saved.after os os' (.yield sw)) next) ∧
      SavedInv os'.kernel (saved.after os os' (.yield sw)) := by
  simp only [Saved.after, indexOfCurrentTask, inv.active]
  have running : os.kernel.status current = .running := (inv.kernel.status.running current).mpr rfl
  refine inv.yielding.switch_resumes inv.noneScheduled (saves.record (some sw.sp) ?_) (fun _ => ?_) h
  · simp [running]
  · simp

theorem SavedInv.kill {sw : Switch} {os os' : Os} {saved : Saved} {scheduler : Option (Fin tasksMax)}
    {current : Fin tasksMax} (inv : UserInv os scheduler current) (saves : SavedInv os.kernel saved)
    (h : os.step .atmega2560 (.kill sw) = .ok os') :
    (∃ next, Resumed os' (saved.after os os' (.kill sw)) next) ∧
      SavedInv os'.kernel (saved.after os os' (.kill sw)) := by
  obtain ⟨k, killed, rest⟩ := bind_eq_ok.mp h
  have ended : RoundInv { os with kernel := k : Os }.kernel scheduler current := inv.killed killed
  obtain ⟨slot, active, rfl⟩ := killCurrentTask_ok killed
  obtain rfl : slot = current := slotIndex_inj.mp (active.symm.trans inv.active)
  simp only [Saved.after, indexOfCurrentTask, inv.active]
  have emptied := saves.modify slot none
    (f := fun t => { t with status := .empty, taskSpAdr := blockHigh slot, name := some "" }) nofun
  refine ended.switch_resumes inv.noneScheduled emptied (fun running => ?_) rest
  have status := congrFun (status_modifyTask os.kernel slot
    fun t => { t with status := .empty, taskSpAdr := blockHigh slot, name := some "" }) slot
  rw [Function.update_self] at status
  exact absurd (status.symm.trans running) nofun

/-- **One action keeps every READY slot's stack pointer as recorded.** -/
theorem SavedInv.step {os os' : Os} {saved : Saved} {scheduler : Option (Fin tasksMax)} {current : Fin tasksMax}
    {a : Action} (inv : UserInv os scheduler current) (saves : SavedInv os.kernel saved)
    (h : os.step .atmega2560 a = .ok os') : SavedInv os'.kernel (saved.after os os' a) := by
  cases a with
  | spawn name priority sp =>
    obtain ⟨⟨pid, after⟩, spawned, last⟩ := bind_eq_ok.mp h
    obtain rfl := pure_eq_ok.mp last
    exact saves.spawn spawned
  | setPriority priority =>
    obtain ⟨k, set, last⟩ := bind_eq_ok.mp h
    obtain rfl := pure_eq_ok.mp last
    obtain ⟨slot, -, rfl⟩ := setPriority_ok set
    exact saves.modify_same slot (f := fun t => { t with priority := priority }) fun ready => saves slot ready
  | yield sw => exact (SavedInv.yield inv saves h).2
  | kill sw => exact (SavedInv.kill inv saves h).2

/-- After `main` no slot is READY. -/
theorem bootMain_saved {sp : Word} {os : Os} (h : bootMain .atmega2560 sp = .ok os) :
    SavedInv os.kernel fun _ => none := by
  obtain ⟨created, make, kernel, -⟩ := bootMain_ok h
  obtain ⟨slot, high, -, -, -, rfl⟩ := createSimplosTask_ok make
  have initial : SavedInv initialKernel fun _ => none := fun _ => nofun
  rw [kernel]
  exact initial.modify_same slot (f := fun t => { t with
    priority := 0, status := .running, taskSpAdr := high, pid := initialKernel.pidCnt, name := some "idle task" }) nofun

/-- The first round of a boot. -/
theorem boot_saved {mainSp idleSp : Word} {sw : Switch} {os : Os}
    (h : boot .atmega2560 mainSp idleSp sw = .ok os) :
    (∃ next, Resumed os (bootSaved idleSp) next) ∧ SavedInv os.kernel (bootSaved idleSp) := by
  obtain ⟨main, spawned, entered, done, pid, booted, spawn, enter, round, rfl⟩ := boot_ok h
  obtain ⟨scheduler, inv⟩ := booting_inv booted spawn enter
  have saved : SavedInv spawned.kernel (bootSaved idleSp) := by
    have spawnSaved := (bootMain_saved booted).spawn spawn
    have record : Saved.after (fun _ => none) main spawned (.spawn (some "OS scheduler") 0 idleSp) =
        bootSaved idleSp := by
      simp only [Saved.after, bootSaved, indexOfCurrentTask, (bootMain_inv booted).active]
      rw [Function.update_eq_self_iff.mpr rfl]
    rwa [record] at spawnSaved
  obtain ⟨slot, -, rfl⟩ := enterScheduler_ok enter
  have entered := saved.modify_same slot (f := fun t => { t with status := .scheduler }) nofun
  refine inv.resumes entered (fun running => ?_) round
  have isScheduler := inv.kernel.elim (fun k => k.status.scheduler) fun k => k.status.scheduler
  exact absurd (((isScheduler scheduler).mpr rfl).symm.trans running) nofun

/-- Everything known about a recorded state. -/
theorem Recorded.inv {os : Os} {saved : Saved} (recorded : Recorded os saved) :
    (∃ scheduler current, UserInv os (some scheduler) current) ∧ SavedInv os.kernel saved := by
  obtain ⟨mainSp, idleSp, sw, start, actions, booted, run⟩ := recorded
  obtain ⟨scheduler, current, inv⟩ := boot_inv booted
  have kept := Lib.run_invariant
    (fun s : Os × Saved => (∃ current, UserInv s.1 (some scheduler) current) ∧ SavedInv s.1.kernel s.2)
    (fun s a s' before step => by
      obtain ⟨⟨current, inv⟩, saves⟩ := before
      obtain ⟨os', done, last⟩ := bind_eq_ok.mp step
      obtain rfl := pure_eq_ok.mp last
      exact ⟨inv.step done, saves.step inv done⟩)
    ⟨⟨current, inv⟩, (boot_saved booted).2⟩ run
  exact ⟨⟨scheduler, kept.1⟩, kept.2⟩

/-- **No stack pointer is lost, swapped or reused.** Every switch from the scheduler to a task, the
one that ends a boot and those that end a round, loads the stack pointer at which the context of that
slot's occupant was last saved. -/
theorem switches_resume_saved_context :
    (∀ mainSp idleSp sw os, boot .atmega2560 mainSp idleSp sw = .ok os →
      ∃ slot, Resumed os (bootSaved idleSp) slot) ∧
    ∀ os saved, Recorded os saved → ∀ a sw os', a = .yield sw ∨ a = .kill sw →
      os.step .atmega2560 a = .ok os' → ∃ slot, Resumed os' (saved.after os os' a) slot := by
  refine ⟨fun mainSp idleSp sw os booted => (boot_saved booted).1, fun os saved recorded a sw os' isSwitch step => ?_⟩
  obtain ⟨⟨scheduler, current, inv⟩, saves⟩ := recorded.inv
  rcases isSwitch with rfl | rfl
  · exact (SavedInv.yield inv saves step).1
  · exact (SavedInv.kill inv saves step).1

theorem switches_resume_saved_context_of_idle :
    ∃ os os' slot slot', boot .atmega2560 0x1FF0 0x5A0 bootSwitch = .ok os ∧ Resumed os (bootSaved 0x5A0) slot ∧
      os.step .atmega2560 (.yield { bootSwitch with sp := 0x590 }) = .ok os' ∧
      Resumed os' ((bootSaved 0x5A0).after os os' (.yield { bootSwitch with sp := 0x590 })) slot' := by
  have both : ∃ os', (boot .atmega2560 0x1FF0 0x5A0 bootSwitch >>= fun os =>
      os.step .atmega2560 (.yield { bootSwitch with sp := 0x590 })) = .ok os' := Lib.ok_of_isOk (by decide +kernel)
  obtain ⟨os', both⟩ := both
  obtain ⟨os, booted, step⟩ := bind_eq_ok.mp both
  obtain ⟨slot, first⟩ := switches_resume_saved_context.1 _ _ _ os booted
  have recorded : Recorded os (bootSaved 0x5A0) := ⟨0x1FF0, 0x5A0, bootSwitch, os, [], booted, rfl⟩
  obtain ⟨slot', second⟩ := switches_resume_saved_context.2 os _ recorded _ _ os' (.inl rfl) step
  exact ⟨os, os', slot, slot', booted, first, step, second⟩

end Simplos
