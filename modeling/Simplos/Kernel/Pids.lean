import Simplos.Kernel.Invariant

/-!
# Pids over whole runs

Pids come from a 16-bit counter. `Created` records the tasks a run has created, with the pid each was
given and whether it has ended. `PidInv` relates that record to the pids the slots hold; it holds for
runs of any length, and as long as the counter has not wrapped it makes a pid identify its task.
-/

namespace Simplos
set_option autoImplicit false
open Lib (bind_eq_ok ok_bind)

/-- A task created in the run. -/
structure Created where
  pid : Word
  slot : Byte
  ended : Bool
deriving DecidableEq

/-- The record when the task in `slot` ends. -/
def Created.endIn (slot : Byte) (c : Created) : Created :=
  if c.slot = slot then { c with ended := true } else c

/-- A step of the system that also records the tasks it creates and ends. -/
def pidStep (b : Build) (s : Os × List Created) : Action → Exec (Os × List Created)
  | .spawn name priority sp => do
    let (pid, os) ← spawnTask b name priority sp s.1
    return (os, s.2 ++ [{ pid := pid, slot := indexOfCurrentTask os.kernel, ended := false }])
  | .kill sw => do
    let os ← s.1.step b (.kill sw)
    return (os, s.2.map (Created.endIn (indexOfCurrentTask s.1.kernel)))
  | a => do return (← s.1.step b a, s.2)

/-- `boot` with the record of the two tasks it creates. -/
def pidBoot (b : Build) (mainSp idleSp : Word) (sw : Switch) : Exec (Os × List Created) := do
  let main ← bootMain b mainSp
  let idle ← derefTask (indexOfCurrentTask main.kernel)
  let (pid, spawned) ← spawnTask b (some "OS scheduler") 0 idleSp main
  let os ← startScheduler b sw spawned
  return (os, [{ pid := (main.kernel.tasks idle).pid, slot := indexOfCurrentTask main.kernel, ended := false },
    { pid := pid, slot := indexOfCurrentTask spawned.kernel, ended := false }])

/-- The states of a run with the tasks it created. -/
def PidReachable (os : Os) (created : List Created) : Prop :=
  ∃ mainSp idleSp sw start actions, pidBoot .atmega2560 mainSp idleSp sw = .ok start ∧
    Lib.run (pidStep .atmega2560) start actions = .ok (os, created)

/-- A pid identifies one task: no two tasks that exist share one, and `task_status` of a created
task is EMPTY exactly when the task has ended. -/
structure PidsIdentify (k : Kernel) (created : List Created) : Prop where
  distinct : ∀ i i', k.status i ≠ .empty → k.status i' ≠ .empty → (k.tasks i).pid = (k.tasks i').pid → i = i'
  status : ∀ c ∈ created, taskStatus c.pid k = .empty ↔ c.ended = true

/-! ## The invariant -/

/-- The `j`-th task got pid `j` modulo 2¹⁶. A task that has not ended sits in its slot under its
pid; an empty slot holds the pid of a task that ended, or 0 if it was never used. -/
structure PidInv (k : Kernel) (created : List Created) : Prop where
  count : k.pidCnt = BitVec.ofNat 16 created.length
  numbered : ∀ (j : Nat) c, created[j]? = some c → c.pid = BitVec.ofNat 16 j
  idle : ∃ c, created[0]? = some c ∧ c.slot = slotIndex 0
  live : ∀ c ∈ created, c.ended = false → ∃ i, c.slot = slotIndex i ∧ k.status i ≠ .empty ∧ (k.tasks i).pid = c.pid
  occupied : ∀ i, k.status i ≠ .empty → ∃ c ∈ created, c.ended = false ∧ c.slot = slotIndex i ∧ (k.tasks i).pid = c.pid
  vacated : ∀ i, k.status i = .empty →
    (∃ c ∈ created, c.ended = true ∧ (k.tasks i).pid = c.pid) ∨ ((k.tasks i).pid = 0 ∧ i ≠ 0)

/-- `k'` has the same tasks in the same slots as `k`. -/
structure SameOccupants (k k' : Kernel) : Prop where
  pidCnt : k'.pidCnt = k.pidCnt
  pid : ∀ i, (k'.tasks i).pid = (k.tasks i).pid
  vacant : ∀ i, k'.status i = .empty ↔ k.status i = .empty

/-- Kernels with the same task table and the same counter. -/
theorem SameOccupants.of_tasks {k k' : Kernel} (tasks : k'.tasks = k.tasks) (pidCnt : k'.pidCnt = k.pidCnt) :
    SameOccupants k k' := by
  refine ⟨pidCnt, fun i => by rw [tasks], fun i => ?_⟩
  unfold Kernel.status
  rw [tasks]

theorem SameOccupants.trans {k k' k'' : Kernel} (first : SameOccupants k k') (second : SameOccupants k' k'') :
    SameOccupants k k'' :=
  ⟨second.pidCnt.trans first.pidCnt, fun i => (second.pid i).trans (first.pid i),
    fun i => (second.vacant i).trans (first.vacant i)⟩

theorem SameOccupants.modify (k : Kernel) (slot : Fin tasksMax) {f : SimplosTask → SimplosTask}
    (pid : (f (k.tasks slot)).pid = (k.tasks slot).pid)
    (vacant : (f (k.tasks slot)).status = .empty ↔ (k.tasks slot).status = .empty) :
    SameOccupants k (k.modifyTask slot f) := by
  refine ⟨rfl, fun i => ?_, fun i => ?_⟩ <;> by_cases here : i = slot
  · subst here
    rw [modifyTask_self, pid]
  · rw [modifyTask_of_ne k slot f here]
  · subst here
    rw [Kernel.status, modifyTask_self, vacant]
    rfl
  · rw [Kernel.status, modifyTask_of_ne k slot f here]
    rfl

theorem PidInv.congr {k k' : Kernel} {created : List Created} (inv : PidInv k created)
    (same : SameOccupants k k') : PidInv k' created where
  count := same.pidCnt.trans inv.count
  numbered := inv.numbered
  idle := inv.idle
  live c member alive := by
    obtain ⟨i, slot, busy, pid⟩ := inv.live c member alive
    exact ⟨i, slot, (same.vacant i).not.mpr busy, (same.pid i).trans pid⟩
  occupied i busy := by
    obtain ⟨c, member, alive, slot, pid⟩ := inv.occupied i ((same.vacant i).not.mp busy)
    exact ⟨c, member, alive, slot, (same.pid i).trans pid⟩
  vacated i vacant := by
    rcases inv.vacated i ((same.vacant i).mp vacant) with ⟨c, member, ended, pid⟩ | ⟨pid, other⟩
    · exact .inl ⟨c, member, ended, (same.pid i).trans pid⟩
    · exact .inr ⟨(same.pid i).trans pid, other⟩

/-! ## What the operations do to it -/

/-- Creating a task in an empty slot. -/
theorem PidInv.create {k : Kernel} {created : List Created} (inv : PidInv k created) {slot : Fin tasksMax}
    (vacant : k.status slot = .empty) {f : SimplosTask → SimplosTask}
    (pid : (f (k.tasks slot)).pid = k.pidCnt) (busy : (f (k.tasks slot)).status ≠ .empty) :
    PidInv { k.modifyTask slot f with pidCnt := k.pidCnt + 1 }
      (created ++ [{ pid := k.pidCnt, slot := slotIndex slot, ended := false }]) := by
  have here : ({ k.modifyTask slot f with pidCnt := k.pidCnt + 1 } : Kernel).tasks slot = f (k.tasks slot) :=
    modifyTask_self k slot f
  have elsewhere : ∀ i, i ≠ slot →
      ({ k.modifyTask slot f with pidCnt := k.pidCnt + 1 } : Kernel).tasks i = k.tasks i :=
    fun i other => modifyTask_of_ne k slot f other
  constructor
  case count => simp [inv.count, BitVec.ofNat_add]
  case numbered =>
    intro j c entry
    rcases Nat.lt_trichotomy j created.length with less | rfl | greater
    · rw [List.getElem?_append_left less] at entry
      exact inv.numbered j c entry
    · simp only [List.getElem?_concat_length, Option.some.injEq] at entry
      rw [← entry, inv.count]
    · rw [List.getElem?_eq_none (by simp; omega)] at entry
      cases entry
  case idle =>
    obtain ⟨c, first, atZero⟩ := inv.idle
    obtain ⟨nonempty, -⟩ := List.getElem?_eq_some_iff.mp first
    exact ⟨c, by rw [List.getElem?_append_left nonempty, first], atZero⟩
  case live =>
    intro c member alive
    rcases List.mem_append.mp member with old | new
    · obtain ⟨i, atSlot, occupied, same⟩ := inv.live c old alive
      have other : i ≠ slot := fun h => occupied (h ▸ vacant)
      exact ⟨i, atSlot, by rwa [Kernel.status, elsewhere i other], by rwa [elsewhere i other]⟩
    · obtain rfl := List.mem_singleton.mp new
      exact ⟨slot, rfl, by rwa [Kernel.status, here], by rw [here, pid]⟩
  case occupied =>
    intro i occupied
    by_cases same : i = slot
    · subst same
      exact ⟨_, List.mem_append_right _ (List.mem_singleton.mpr rfl), rfl, rfl, by rw [here, pid]⟩
    · rw [Kernel.status, elsewhere i same] at occupied
      obtain ⟨c, member, alive, atSlot, equal⟩ := inv.occupied i occupied
      exact ⟨c, List.mem_append_left _ member, alive, atSlot, by rwa [elsewhere i same]⟩
  case vacated =>
    intro i empty
    have other : i ≠ slot := by
      rintro rfl
      rw [Kernel.status, here] at empty
      exact busy empty
    rw [Kernel.status, elsewhere i other] at empty
    rw [elsewhere i other]
    rcases inv.vacated i empty with ⟨c, member, ended, equal⟩ | unused
    · exact .inl ⟨c, List.mem_append_left _ member, ended, equal⟩
    · exact .inr unused

theorem getElem?_map_endIn {slot : Byte} {created : List Created} {j : Nat} {c : Created}
    (entry : (created.map (Created.endIn slot))[j]? = some c) :
    ∃ c', created[j]? = some c' ∧ c = c'.endIn slot := by
  rw [List.getElem?_map, Option.map_eq_some_iff] at entry
  obtain ⟨c', entry, rfl⟩ := entry
  exact ⟨c', entry, rfl⟩

theorem endIn_pid (slot : Byte) (c : Created) : (c.endIn slot).pid = c.pid := by
  unfold Created.endIn
  split <;> rfl

theorem endIn_slot (slot : Byte) (c : Created) : (c.endIn slot).slot = c.slot := by
  unfold Created.endIn
  split <;> rfl

theorem endIn_alive {slot : Byte} {c : Created} (alive : (c.endIn slot).ended = false) :
    c.slot ≠ slot ∧ c.endIn slot = c := by
  unfold Created.endIn at alive ⊢
  split at alive
  · cases alive
  · rename_i other
    exact ⟨other, if_neg other⟩

/-- Ending the task of a slot. -/
theorem PidInv.kill {k : Kernel} {created : List Created} (inv : PidInv k created) {slot : Fin tasksMax}
    (busy : k.status slot ≠ .empty) {f : SimplosTask → SimplosTask}
    (pid : (f (k.tasks slot)).pid = (k.tasks slot).pid) (vacant : (f (k.tasks slot)).status = .empty) :
    PidInv (k.modifyTask slot f) (created.map (Created.endIn (slotIndex slot))) := by
  constructor
  case count => simpa using inv.count
  case numbered =>
    intro j c entry
    obtain ⟨c', original, rfl⟩ := getElem?_map_endIn entry
    rw [endIn_pid]
    exact inv.numbered j c' original
  case idle =>
    obtain ⟨c, first, atZero⟩ := inv.idle
    exact ⟨c.endIn (slotIndex slot), by rw [List.getElem?_map, first]; rfl, by rw [endIn_slot, atZero]⟩
  case live =>
    intro c member alive
    obtain ⟨c', original, rfl⟩ := List.mem_map.mp member
    obtain ⟨elsewhere, same⟩ := endIn_alive alive
    rw [same] at alive ⊢
    obtain ⟨i, atSlot, occupied, equal⟩ := inv.live c' original alive
    have other : i ≠ slot := by
      rintro rfl
      exact elsewhere atSlot
    exact ⟨i, atSlot, by rwa [Kernel.status, modifyTask_of_ne k slot f other], by rwa [modifyTask_of_ne k slot f other]⟩
  case occupied =>
    intro i occupied
    have other : i ≠ slot := by
      rintro rfl
      rw [Kernel.status, modifyTask_self] at occupied
      exact occupied vacant
    rw [Kernel.status, modifyTask_of_ne k slot f other] at occupied
    obtain ⟨c, member, alive, atSlot, equal⟩ := inv.occupied i occupied
    have elsewhere : c.slot ≠ slotIndex slot := fun h => other (slotIndex_inj.mp (atSlot.symm.trans h))
    have kept : c.endIn (slotIndex slot) = c := if_neg elsewhere
    exact ⟨c, List.mem_map.mpr ⟨c, member, kept⟩, alive, atSlot, by rwa [modifyTask_of_ne k slot f other]⟩
  case vacated =>
    intro i empty
    by_cases same : i = slot
    · subst same
      obtain ⟨c, member, -, atSlot, equal⟩ := inv.occupied i busy
      refine .inl ⟨c.endIn (slotIndex i), List.mem_map_of_mem member, ?_, ?_⟩
      · rw [Created.endIn, if_pos atSlot]
      · rw [modifyTask_self, pid, endIn_pid, equal]
    · rw [Kernel.status, modifyTask_of_ne k slot f same] at empty
      rw [modifyTask_of_ne k slot f same]
      rcases inv.vacated i empty with ⟨c, member, ended, equal⟩ | unused
      · refine .inl ⟨c.endIn (slotIndex slot), List.mem_map_of_mem member, ?_, by rw [endIn_pid, equal]⟩
        unfold Created.endIn
        split
        · rfl
        · exact ended
      · exact .inr unused

/-! ## The rest of the system creates and ends no task -/

theorem savePrevious_occupants (prev : Fin tasksMax) (os : Os) :
    SameOccupants os.kernel (savePrevious prev os).kernel := by
  unfold savePrevious
  split
  · rename_i isScheduler
    exact .modify os.kernel prev rfl (by simp [isScheduler])
  · rename_i running
    exact .modify os.kernel prev rfl (by simp [running])
  · exact .of_tasks rfl rfl

theorem selected_occupants {os : Os} {next : Fin tasksMax} (ready : os.kernel.status next = .ready) :
    SameOccupants os.kernel (os.selected next).kernel := by
  have advanced : SameOccupants os.kernel (os.kernel.withQueue os.kernel.schedule.queue.advance) := by
    refine ⟨rfl, fun i => ?_, fun i => ?_⟩
    · rw [withQueue_tasks, advance_tasks]
    · rw [status_withAdvance]
  have status : ((os.kernel.withQueue os.kernel.schedule.queue.advance).tasks next).status = .ready := by
    rw [withQueue_tasks, advance_tasks]
    exact ready
  have marked := SameOccupants.modify (os.kernel.withQueue os.kernel.schedule.queue.advance) next
    (f := fun t => { t with status := .running }) rfl (by simp [status])
  exact (advanced.trans marked).trans (.of_tasks rfl rfl)

theorem RoundInv.round_occupants {mem : DataMemory} {os os' : Os} {scheduler : Option (Fin tasksMax)}
    {prev : Fin tasksMax} (inv : RoundInv os.kernel scheduler prev)
    (h : schedulerRound .atmega2560 mem os = .ok os') : SameOccupants os.kernel os'.kernel := by
  obtain ⟨entry, next, selection, -, -, rfl⟩ := inv.round_ok h
  exact (savePrevious_occupants prev os).trans (selected_occupants selection.ready)

theorem RoundInv.switch_occupants {sw : Switch} {os os' : Os} {scheduler : Option (Fin tasksMax)}
    {prev : Fin tasksMax} (inv : RoundInv os.kernel scheduler prev) (none : os.nextTaskSp = 0)
    (h : os.switchAway .atmega2560 sw = .ok os') : SameOccupants os.kernel os'.kernel := by
  rw [Os.switchAway, if_pos none, bind_eq_ok] at h
  obtain ⟨done, round, last⟩ := h
  obtain rfl := pure_eq_ok.mp last
  have atRound : RoundInv (os.contextSwtich sw.sp).kernel scheduler prev := inv
  have same := atRound.round_occupants round
  exact same

/-- What a spawn does after the creation leaves every slot occupied as it was. -/
theorem spawned_occupants (k : Kernel) (name : ProgmemString) (priority : Byte) (sp high : Word)
    {new old : Fin tasksMax} (apart : old ≠ new) (running : k.status old = .running) :
    SameOccupants { k.modifyTask new fun t => { t with
        priority := priority, status := .running, taskSpAdr := high, pid := k.pidCnt, name := name } with
      pidCnt := k.pidCnt + 1 } (k.spawned name priority sp high new old) := by
  have parent := congrArg SimplosTask.status (modifyTask_of_ne k new (fun t => { t with
    priority := priority, status := .running, taskSpAdr := high, pid := k.pidCnt, name := name }) apart)
  have occupied : (k.tasks old).status = .running := running
  have stopped := SameOccupants.modify { k.modifyTask new fun t => { t with
      priority := priority, status := .running, taskSpAdr := high, pid := k.pidCnt, name := name } with
    pidCnt := k.pidCnt + 1 } old (f := fun t => { t with status := .ready, taskSpAdr := sp }) rfl
    ⟨nofun, fun vacant => absurd (parent.symm.trans vacant) (by simp [occupied])⟩
  exact stopped.trans (.of_tasks rfl rfl)

theorem PidInv.spawn {name : ProgmemString} {priority : Byte} {sp pid : Word} {os os' : Os}
    {scheduler : Option (Fin tasksMax)} {current : Fin tasksMax} {created : List Created}
    (user : UserInv os scheduler current) (inv : PidInv os.kernel created)
    (h : spawnTask .atmega2560 name priority sp os = .ok (pid, os')) :
    PidInv os'.kernel
      (created ++ [{ pid := pid, slot := indexOfCurrentTask os'.kernel, ended := false }]) := by
  obtain ⟨new, old, high, first, active, -, rfl, kernel, -⟩ := spawnTask_ok h
  obtain rfl : old = current := slotIndex_inj.mp (active.symm.trans user.active)
  have running : os.kernel.status old = .running := (user.kernel.status.running old).mpr rfl
  have empty : os.kernel.status new = .empty := firstEmpty_some first
  have apart : old ≠ new := fun same => by simp [same, empty] at running
  have made := inv.create empty (f := fun t => { t with
    priority := priority, status := .running, taskSpAdr := high, pid := os.kernel.pidCnt, name := name }) rfl nofun
  rw [kernel]
  exact made.congr (spawned_occupants os.kernel name priority sp high apart running)

theorem PidInv.step {os : Os} {s : Os × List Created} {scheduler : Option (Fin tasksMax)} {current : Fin tasksMax}
    {created : List Created} {a : Action} (user : UserInv os scheduler current) (inv : PidInv os.kernel created)
    (h : pidStep .atmega2560 (os, created) a = .ok s) :
    os.step .atmega2560 a = .ok s.1 ∧ PidInv s.1.kernel s.2 := by
  cases a with
  | spawn name priority sp =>
    obtain ⟨⟨pid, os'⟩, spawned, last⟩ := bind_eq_ok.mp h
    obtain rfl := pure_eq_ok.mp last
    exact ⟨bind_eq_ok.mpr ⟨_, spawned, rfl⟩, inv.spawn user spawned⟩
  | setPriority priority =>
    obtain ⟨os', done, last⟩ := bind_eq_ok.mp h
    obtain rfl := pure_eq_ok.mp last
    obtain ⟨k, set, last⟩ := bind_eq_ok.mp done
    obtain rfl := pure_eq_ok.mp last
    obtain ⟨slot, -, rfl⟩ := setPriority_ok set
    exact ⟨done, inv.congr (.modify os.kernel slot rfl .rfl)⟩
  | yield sw =>
    obtain ⟨os', done, last⟩ := bind_eq_ok.mp h
    obtain rfl := pure_eq_ok.mp last
    exact ⟨done, inv.congr (user.yielding.switch_occupants user.noneScheduled done)⟩
  | kill sw =>
    obtain ⟨os', done, last⟩ := bind_eq_ok.mp h
    obtain rfl := pure_eq_ok.mp last
    obtain ⟨k, killed, rest⟩ := bind_eq_ok.mp done
    have ended : RoundInv { os with kernel := k : Os }.kernel scheduler current := user.killed killed
    obtain ⟨slot, active, rfl⟩ := killCurrentTask_ok killed
    obtain rfl : slot = current := slotIndex_inj.mp (active.symm.trans user.active)
    have busy : os.kernel.status slot ≠ .empty := by
      rw [(user.kernel.status.running slot).mpr rfl]
      exact nofun
    have gone := inv.kill busy
      (f := fun t => { t with status := .empty, taskSpAdr := blockHigh slot, name := some "" }) rfl rfl
    have same := ended.switch_occupants user.noneScheduled rest
    rw [← active] at gone
    refine ⟨done, PidInv.congr (PidInv.congr gone ?_) same⟩
    exact .of_tasks rfl rfl

/-! ## A run -/

/-- `main` creates the first task, in slot 0. -/
theorem bootMain_pids {sp : Word} {os : Os} (h : bootMain .atmega2560 sp = .ok os) :
    PidInv os.kernel [{ pid := (os.kernel.tasks 0).pid, slot := slotIndex 0, ended := false }] := by
  obtain ⟨created, make, kernel, -⟩ := bootMain_ok h
  obtain ⟨slot, high, -, index, -, rfl⟩ := createSimplosTask_ok make
  obtain rfl : 0 = slot := slotIndex_inj.mp index
  have here : os.kernel.tasks 0 = { initialKernel.tasks 0 with
      priority := 0, status := .running, taskSpAdr := high, pid := 0, name := some "idle task" } := by
    rw [kernel]
    rfl
  have elsewhere : ∀ i, i ≠ 0 → os.kernel.tasks i = initialKernel.tasks i := by
    intro i other
    rw [kernel]
    exact modifyTask_of_ne initialKernel 0 (fun t => { t with
      priority := 0, status := .running, taskSpAdr := high, pid := 0, name := some "idle task" }) other
  constructor
  case count =>
    rw [kernel]
    rfl
  case numbered =>
    intro j c entry
    obtain ⟨below, rfl⟩ := List.getElem?_eq_some_iff.mp entry
    obtain rfl : j = 0 := by simpa using below
    exact congrArg SimplosTask.pid here
  case idle => exact ⟨_, rfl, rfl⟩
  case live =>
    intro c member _
    obtain rfl := List.mem_singleton.mp member
    have started : os.kernel.status 0 = .running := by rw [Kernel.status, here]
    exact ⟨0, rfl, started.trans_ne (by decide), rfl⟩
  case occupied =>
    intro i occupied
    by_cases same : i = 0
    · subst same
      exact ⟨_, List.mem_singleton.mpr rfl, rfl, rfl, rfl⟩
    · rw [Kernel.status, elsewhere i same] at occupied
      exact absurd rfl occupied
  case vacated =>
    intro i empty
    have other : i ≠ 0 := by
      rintro rfl
      rw [Kernel.status, here] at empty
      cases empty
    exact .inr ⟨by rw [elsewhere i other]; rfl, other⟩

theorem pidBoot_inv {mainSp idleSp : Word} {sw : Switch} {s : Os × List Created}
    (h : pidBoot .atmega2560 mainSp idleSp sw = .ok s) :
    (∃ scheduler current, UserInv s.1 (some scheduler) current) ∧ PidInv s.1.kernel s.2 := by
  simp only [pidBoot, bind_eq_ok] at h
  obtain ⟨main, booted, idle, atIdle, ⟨pid, spawned⟩, spawn, os, start, last⟩ := h
  obtain rfl := pure_eq_ok.mp last
  have user := bootMain_inv booted
  obtain rfl : idle = 0 := slotIndex_inj.mp ((eq_slotIndex_of_deref atIdle).symm.trans user.active)
  have first := bootMain_pids booted
  rw [← user.active] at first
  have second := first.spawn user spawn
  obtain ⟨slot, entered, done, running, kernel, inv, round, rfl⟩ := startScheduler_ok booted spawn start
  obtain ⟨next, active, resumed⟩ := inv.round round
  refine ⟨⟨slot, next, active, resumed, rfl⟩, ?_⟩
  have marked := SameOccupants.modify spawned.kernel slot (f := fun t => { t with status := .scheduler }) rfl
    (by simp [running])
  rw [← kernel] at marked
  have same := inv.round_occupants round
  exact second.congr (marked.trans same)

theorem PidReachable.inv {os : Os} {created : List Created} (reached : PidReachable os created) :
    (∃ scheduler current, UserInv os (some scheduler) current) ∧ PidInv os.kernel created := by
  obtain ⟨mainSp, idleSp, sw, start, actions, booted, run⟩ := reached
  exact Lib.run_invariant (fun s : Os × List Created =>
      (∃ scheduler current, UserInv s.1 (some scheduler) current) ∧ PidInv s.1.kernel s.2)
    (fun s a s' before step => by
      obtain ⟨⟨scheduler, current, user⟩, pids⟩ := before
      obtain ⟨done, after⟩ := pids.step user step
      obtain ⟨next, user'⟩ := user.step done
      exact ⟨⟨scheduler, next, user'⟩, after⟩)
    (pidBoot_inv booted) run

/-! ## Look-up by pid -/

/-- While the counter has not wrapped, equal pids mean the same task. -/
theorem PidInv.unique {k : Kernel} {created : List Created} (inv : PidInv k created)
    (fits : created.length ≤ 2 ^ 16) {c c' : Created} (member : c ∈ created) (member' : c' ∈ created)
    (same : c.pid = c'.pid) : c = c' := by
  obtain ⟨j, bound, rfl⟩ := List.mem_iff_getElem.mp member
  obtain ⟨j', bound', rfl⟩ := List.mem_iff_getElem.mp member'
  rw [inv.numbered j _ (List.getElem?_eq_getElem bound), inv.numbered j' _ (List.getElem?_eq_getElem bound')] at same
  have numbers := congrArg BitVec.toNat same
  rw [BitVec.toNat_ofNat, BitVec.toNat_ofNat, Nat.mod_eq_of_lt (by omega), Nat.mod_eq_of_lt (by omega)] at numbers
  subst numbers
  rfl

theorem PidInv.distinct {k : Kernel} {created : List Created} (inv : PidInv k created)
    (fits : created.length ≤ 2 ^ 16) {i i' : Fin tasksMax} (busy : k.status i ≠ .empty)
    (busy' : k.status i' ≠ .empty) (same : (k.tasks i).pid = (k.tasks i').pid) : i = i' := by
  obtain ⟨c, member, -, slot, pid⟩ := inv.occupied i busy
  obtain ⟨c', member', -, slot', pid'⟩ := inv.occupied i' busy'
  obtain rfl := inv.unique fits member member' (pid.symm.trans (same.trans pid'))
  exact slotIndex_inj.mp (slot.symm.trans slot')

theorem getTask_some {pid : Word} {k : Kernel} {i : Fin tasksMax} (h : getTask pid k = some i) :
    (k.tasks i).pid = pid ∧ ∀ j, j < i → (k.tasks j).pid ≠ pid := by
  obtain ⟨found, n, bound, rfl, earlier⟩ := List.find?_eq_some_iff_getElem.mp h
  refine ⟨by simpa using found, fun j below => ?_⟩
  have less := Fin.lt_def.mp below
  simpa using earlier j (by simpa using less)

theorem getTask_none {pid : Word} {k : Kernel} (h : getTask pid k = none) (i : Fin tasksMax) : (k.tasks i).pid ≠ pid := by
  simpa using List.find?_eq_none.mp h i (List.mem_finRange i)

/-- `task_status` of a task that has not ended finds the task's own slot. -/
theorem PidInv.status_live {k : Kernel} {created : List Created} (inv : PidInv k created)
    (fits : created.length ≤ 2 ^ 16) {c : Created} (member : c ∈ created) (alive : c.ended = false) :
    taskStatus c.pid k ≠ .empty := by
  obtain ⟨i, slot, busy, pid⟩ := inv.live c member alive
  unfold taskStatus
  cases found : getTask c.pid k with
  | none => exact absurd pid (getTask_none found i)
  | some i' =>
    obtain ⟨pid', earlier⟩ := getTask_some found
    suffices occupied : k.status i' ≠ .empty by exact occupied
    intro vacant
    -- an empty slot holds the pid of another task, or 0, which only the task of slot 0 was given
    rcases inv.vacated i' vacant with ⟨c', member', ended, stale⟩ | ⟨unused, notFirst⟩
    · have same := inv.unique fits member member' (pid'.symm.trans stale)
      rw [same, ended] at alive
      cases alive
    · obtain ⟨first, entry, atZero⟩ := inv.idle
      have zero : first.pid = c.pid := (inv.numbered 0 first entry).trans (unused.symm.trans pid')
      obtain rfl := inv.unique fits (List.mem_of_getElem? entry) member zero
      obtain rfl : 0 = i := slotIndex_inj.mp (atZero.symm.trans slot)
      exact earlier 0 (Fin.pos_iff_ne_zero.mpr notFirst) pid

theorem PidInv.status_ended {k : Kernel} {created : List Created} (inv : PidInv k created)
    (fits : created.length ≤ 2 ^ 16) {c : Created} (member : c ∈ created) (ended : c.ended = true) :
    taskStatus c.pid k = .empty := by
  unfold taskStatus
  cases found : getTask c.pid k with
  | none => rfl
  | some i =>
    by_contra busy
    obtain ⟨c', member', alive, -, pid⟩ := inv.occupied i busy
    have same := inv.unique fits member member' ((getTask_some found).1.symm.trans pid)
    rw [same, alive] at ended
    cases ended

theorem PidInv.identify {k : Kernel} {created : List Created} (inv : PidInv k created)
    (fits : created.length ≤ 2 ^ 16) : PidsIdentify k created where
  distinct _ _ busy busy' same := inv.distinct fits busy busy' same
  status c member := by
    cases ended : c.ended with
    | true => exact iff_of_true (inv.status_ended fits member ended) rfl
    | false => exact iff_of_false (inv.status_live fits member ended) nofun

/-- The creation after the first 2¹⁶ gives out the pid of an earlier task again. -/
theorem PidInv.wrapped_collides {name : ProgmemString} {priority : Byte} {sp pid : Word} {os os' : Os}
    {scheduler : Option (Fin tasksMax)} {current : Fin tasksMax} {created : List Created}
    (user : UserInv os scheduler current) (inv : PidInv os.kernel created) (wrapped : 2 ^ 16 ≤ created.length)
    (h : spawnTask .atmega2560 name priority sp os = .ok (pid, os')) :
    ¬ PidsIdentify os'.kernel
      (created ++ [{ pid := pid, slot := indexOfCurrentTask os'.kernel, ended := false }]) := by
  intro identify
  have after := inv.spawn user h
  have isNew : { pid := pid, slot := indexOfCurrentTask os'.kernel, ended := false } ∈
      created ++ [{ pid := pid, slot := indexOfCurrentTask os'.kernel, ended := false }] :=
    List.mem_append_right _ (List.mem_singleton.mpr rfl)
  have earlier : created.length - 2 ^ 16 < created.length := by omega
  have isOld := List.mem_append_left [({ pid := pid, slot := indexOfCurrentTask os'.kernel, ended := false } : Created)]
    (List.getElem_mem earlier)
  have samePid : created[created.length - 2 ^ 16].pid = pid := by
    obtain ⟨-, -, -, -, -, -, rfl, -⟩ := spawnTask_ok h
    rw [inv.numbered _ _ (List.getElem?_eq_getElem earlier), inv.count]
    refine BitVec.eq_of_toNat_eq ?_
    rw [BitVec.toNat_ofNat, BitVec.toNat_ofNat]
    omega
  have notEmpty := (identify.status _ isNew).not.mpr nofun
  rw [← samePid, identify.status _ isOld, Bool.not_eq_true] at notEmpty
  obtain ⟨i, slot, busy, held⟩ := after.live _ isOld notEmpty
  obtain ⟨i', slot', busy', held'⟩ := after.live _ isNew rfl
  obtain rfl := identify.distinct i i' busy busy' (held.trans (samePid.trans held'.symm))
  -- before the spawn the old task was in this slot, which the spawn found empty
  obtain ⟨i', slot'', busy'', -⟩ := inv.live _ (List.getElem_mem earlier) notEmpty
  obtain rfl := slotIndex_inj.mp (slot.symm.trans slot'')
  obtain ⟨new, old, high, first, -, -, -, kernel, -⟩ := spawnTask_ok h
  have atNew : indexOfCurrentTask os'.kernel = slotIndex new := by rw [kernel]; rfl
  obtain rfl := slotIndex_inj.mp (slot'.symm.trans atNew)
  exact busy'' (firstEmpty_some first)

/-! ## The counter wraps

One task after another is spawned by the idle task and ends. After 2¹⁶ creations the counter is back
at the idle task's pid. -/

/-- The idle task executes and is the only one besides the scheduler. -/
structure IdleOnly (os : Os) : Prop where
  user : UserInv os (some 1) 0
  vacant : ∀ i, i ≠ 0 → i ≠ 1 → os.kernel.status i = .empty
  priority : (os.kernel.tasks 0).priority = 0
  range : os.kernel.taskRamRanges 0 = { low := blockLow 0, high := blockHigh 0 }

theorem spawnTask_succeeds {name : ProgmemString} {priority : Byte} {sp : Word} {os : Os}
    {scheduler : Option (Fin tasksMax)} {current new : Fin tasksMax} (user : UserInv os scheduler current)
    (first : firstEmpty os.kernel.tasks = some new) :
    ∃ pid os', spawnTask .atmega2560 name priority sp os = .ok (pid, os') := by
  have make : ∃ k', createSimplosTask .atmega2560 name priority os.kernel = .ok (slotIndex new, k') := by
    have block : (os.kernel.schedule.queue.tasks new).taskMemoryBlock = slotIndex new := user.kernel.block new
    simp only [createSimplosTask, addToTaskList, first, block, taskSpRangeHigh_slot, ok_bind, pure_bind,
      derefTask_slotIndex]
    exact ⟨_, rfl⟩
  obtain ⟨k', make⟩ := make
  have active : k'.schedule.activeTaskBlock = slotIndex current := by
    obtain ⟨-, -, -, -, -, rfl⟩ := createSimplosTask_ok make
    exact user.active
  simp only [spawnTask, make, ok_bind, derefTask_slotIndex, indexOfCurrentTask, modifyTask_activeTaskBlock,
    withActiveTaskBlock_activeTaskBlock, active]
  exact ⟨_, _, rfl⟩

theorem savePrevious_ended {prev : Fin tasksMax} {os : Os} (ended : os.kernel.status prev = .empty) :
    savePrevious prev os = os := by
  have status : (os.kernel.tasks prev).status = .empty := ended
  simp only [savePrevious, status]

/-- A round after the end of a task succeeds when some task is eligible and the checks hold. -/
theorem schedulerRound_succeeds {mem : DataMemory} {os : Os} {scheduler : Option (Fin tasksMax)}
    {prev : Fin tasksMax} (inv : RoundInv os.kernel scheduler prev) (ended : os.kernel.status prev = .empty)
    (zero : os.kernel.schedule.queue.queuePosition = 0) (some : prioritized os.kernel.tasks ≠ [])
    (sound : ∀ i k, os.kernel.status i = .ready → k.taskRamRanges = os.kernel.taskRamRanges →
      assertTaskPointerIntegrity .atmega2560 mem (os.kernel.tasks i) k = .ok ()) :
    ∃ os', schedulerRound .atmega2560 mem os = .ok os' := by
  have stopped : KernelInv os.kernel scheduler none := by
    have save := inv.save
    rwa [savePrevious_ended ended] at save
  have handled : handlePreviousTask .atmega2560 mem prev os = .ok os := if_pos ended
  have moved : moveQueuePosition .atmega2560 os.kernel =
      .ok (os.kernel.withQueue os.kernel.schedule.queue.advance) := by
    have count : (BitVec.ofNat 8 (prioritized os.kernel.tasks).length == 0) = false := by
      have length := prioritized_count os.kernel.tasks
      refine beq_false_of_ne fun none => some (List.length_eq_zero_iff.mp ?_)
      rw [← length, none]
      rfl
    have passed : fatalIf .atmega2560 false "Error, no tasks avalable to schedule!" = .ok () := rfl
    simp only [moveQueuePosition, if_pos zero, reschedule, prioritizeTasks_eq, ok_bind, Kernel.tasks] at count ⊢
    rw [count, passed, TaskQueue.advance, if_pos zero]
    rfl
  obtain ⟨entry, next, selection⟩ := stopped.advance fun _ => some
  have atEntry := queueSlot_ok.mpr selection.position
  have tasks : (os.kernel.withQueue os.kernel.schedule.queue.advance).tasks = os.kernel.tasks := by
    rw [withQueue_tasks, advance_tasks]
  have ready : (os.kernel.tasks next).status = .ready := selection.ready
  have selected : selectNextTask .atmega2560 os = .ok (slotIndex next, { os with
      kernel := os.kernel.withQueue os.kernel.schedule.queue.advance
      nextTaskSp := (os.kernel.tasks next).taskSpAdr }) := by
    simp only [selectNextTask, moved, ok_bind, withQueue_queue, atEntry, selection.entry, derefTask_slotIndex, tasks]
    rfl
  have checked := sound next ((os.kernel.withQueue os.kernel.schedule.queue.advance).withActiveTaskBlock
    (slotIndex next)) selection.ready rfl
  simp only [schedulerRound, indexOfCurrentTask, inv.active, derefTask_slotIndex, ok_bind, handled, selected,
    withActiveTaskBlock_activeTaskBlock, prepareNextTask]
  have held : ((os.kernel.withQueue os.kernel.schedule.queue.advance).withActiveTaskBlock (slotIndex next)).tasks next =
      os.kernel.tasks next := congrFun tasks next
  rw [held, checked, ok_bind, ready]
  exact ⟨_, rfl⟩

/-- The check passes for a stack pointer of block 0 in the memory of `bootSwitch`. -/
theorem idle_checked {task : SimplosTask} {k : Kernel} (sp : task.taskSpAdr = 0x5A0)
    (block : task.taskMemoryBlock = slotIndex 0) (range : k.taskRamRanges 0 = { low := blockLow 0, high := blockHigh 0 }) :
    assertTaskPointerIntegrity .atmega2560 bootMemory task k = .ok () := by
  have region : memoryRegion task k = .taskRam := by
    have outside : inRegion 0x5A0 registersStart 0 = false ∧ inRegion 0x5A0 canaryStart canaryEnd = false ∧
        inRegion 0x5A0 osStackStart osStackEnd = false := by decide
    have inside : inRegion 0x5A0 taskRamStart taskRamEnd = true := by decide
    simp only [memoryRegion, sp, outside, inside, Bool.false_eq_true, if_false, if_true]
  have canaries : verifyCanaries .atmega2560 bootMemory = .ok () := by decide
  simp only [assertTaskPointerIntegrity, region, memAdrBelongsToTask, block, derefTask_slotIndex, ok_bind, range, sp,
    canaries, taskSpRangeHigh_slot, taskSpRangeLow_slot]
  decide

/-- The kernel after the idle task has spawned a task that ended: the idle task is READY at the
stack pointer `spawn_task` saved. -/
structure IdleWaiting (k : Kernel) : Prop where
  idle : k.status 0 = .ready
  scheduler : k.status 1 = .scheduler
  vacant : ∀ i, i ≠ 0 → i ≠ 1 → k.status i = .empty
  priority : (k.tasks 0).priority = 0
  range : k.taskRamRanges 0 = { low := blockLow 0, high := blockHigh 0 }
  sp : (k.tasks 0).taskSpAdr = 0x5A0
  position : k.schedule.queue.queuePosition = 0

theorem IdleWaiting.only_ready {k : Kernel} (waiting : IdleWaiting k) {i : Fin tasksMax} (ready : k.status i = .ready) :
    i = 0 := by
  by_contra other
  by_cases isScheduler : i = 1
  · rw [isScheduler, waiting.scheduler] at ready
    cases ready
  · rw [waiting.vacant i other isScheduler] at ready
    cases ready

/-- The round after that resumes the idle task. -/
theorem IdleWaiting.resumes {os : Os} (waiting : IdleWaiting os.kernel) (inv : RoundInv os.kernel (some 1) 2)
    (none : os.nextTaskSp = 0) :
    ∃ os', os.switchAway .atmega2560 bootSwitch = .ok os' ∧ IdleOnly os' := by
  have atRound : RoundInv (os.contextSwtich bootSwitch.sp).kernel (some 1) 2 := inv
  have ended : (os.contextSwtich bootSwitch.sp).kernel.status 2 = .empty := waiting.vacant 2 (by decide) (by decide)
  have eligible : (0 : Fin tasksMax) ∈ prioritized os.kernel.tasks := by
    refine mem_prioritized.mpr ⟨decide_eq_true waiting.idle, ?_⟩
    rw [waiting.priority]
    decide
  obtain ⟨done, round⟩ := @schedulerRound_succeeds bootSwitch.mem _ _ _ atRound ended waiting.position
    (List.ne_nil_of_mem eligible) fun i k ready range => by
      obtain rfl := waiting.only_ready ready
      exact idle_checked waiting.sp (inv.kernel.elim (·.block) (·.block) 0) (by rw [range]; exact waiting.range)
  have switched : os.switchAway .atmega2560 bootSwitch = .ok (done.contextSwtich bootSwitch.schedulerSp) := by
    rw [Os.switchAway, if_pos none, round]
    rfl
  obtain ⟨entry, next, selection, -, -, rfl⟩ := atRound.round_ok round
  have same := inv.switch_occupants none switched
  have stopped := atRound.save
  rw [savePrevious_ended ended] at selection switched same stopped
  obtain rfl := waiting.only_ready selection.ready
  have idleTask := selected_task (os.contextSwtich bootSwitch.sp) 0
  refine ⟨_, switched, ⟨rfl, stopped.resumed selection, rfl⟩, fun i notIdle notScheduler => ?_, ?_, waiting.range⟩
  · exact (same.vacant i).mpr (waiting.vacant i notIdle notScheduler)
  · exact (congrArg SimplosTask.priority idleTask).trans waiting.priority

theorem spawned_task (k : Kernel) (name : ProgmemString) (priority : Byte) (sp high : Word) {new old : Fin tasksMax}
    (apart : old ≠ new) : (k.spawned name priority sp high new old).tasks old =
      { k.tasks old with status := .ready, taskSpAdr := sp } := by
  have parent := modifyTask_of_ne k new (fun t => { t with
    priority := priority, status := .running, taskSpAdr := high, pid := k.pidCnt, name := name }) apart
  refine (modifyTask_self (k.modifyTask new fun t => { t with
    priority := priority, status := .running, taskSpAdr := high, pid := k.pidCnt, name := name }) old
    fun t => { t with status := .ready, taskSpAdr := sp }).trans ?_
  rw [parent]

/-- Slot 2 after `kill_current_task`. -/
def endedTask (t : SimplosTask) : SimplosTask :=
  { t with status := .empty, taskSpAdr := blockHigh 2, name := some "" }

/-- The kernel after the idle task has spawned a task in slot 2 that ended. -/
theorem IdleOnly.waiting {os : Os} (idle : IdleOnly os) (name : ProgmemString) (priority : Byte) (high : Word)
    (total : BitVec 32) :
    IdleWaiting (invalidateScheduledQueue { (os.kernel.spawned name priority 0x5A0 high 2 0).modifyTask 2 endedTask with
      endedTaskTimeCounter := total }) := by
  have scheduler : os.kernel.status 1 = .scheduler := (idle.user.kernel.status.scheduler 1).mpr rfl
  have status := status_modifyTask (os.kernel.spawned name priority 0x5A0 high 2 0) 2 endedTask
  have apart : (0 : Fin tasksMax) ≠ 2 := by decide
  have idleTask := modifyTask_of_ne (os.kernel.spawned name priority 0x5A0 high 2 0) 2 endedTask apart
  rw [spawned_status] at status
  rw [spawned_task _ _ _ _ _ apart] at idleTask
  constructor
  case idle => exact (congrFun status 0).trans (by simp)
  case scheduler =>
    refine (congrFun status 1).trans ?_
    rw [Function.update_of_ne (by decide), Function.update_of_ne (by decide), Function.update_of_ne (by decide)]
    exact scheduler
  case vacant =>
    intro i notIdle notScheduler
    refine (congrFun status i).trans ?_
    by_cases atTwo : i = 2
    · simp [atTwo, endedTask]
    · simp [atTwo, notIdle, idle.vacant i notIdle notScheduler]
  case priority => exact (congrArg SimplosTask.priority idleTask).trans idle.priority
  case range => exact idle.range
  case sp => exact congrArg SimplosTask.taskSpAdr idleTask
  case position => rfl

/-- The idle task spawns a task, which ends at once. -/
theorem idle_cycle {os : Os} (idle : IdleOnly os) :
    ∃ pid os' os'', spawnTask .atmega2560 (some "task") 0 0x5A0 os = .ok (pid, os') ∧
      indexOfCurrentTask os'.kernel = slotIndex 2 ∧ os'.step .atmega2560 (.kill bootSwitch) = .ok os'' ∧ IdleOnly os'' := by
  have running : (os.kernel.tasks 0).status = .running := (idle.user.kernel.status.running 0).mpr rfl
  have scheduler : (os.kernel.tasks 1).status = .scheduler := (idle.user.kernel.status.scheduler 1).mpr rfl
  have free : (os.kernel.tasks 2).status = .empty := idle.vacant 2 (by decide) (by decide)
  have first : firstEmpty os.kernel.tasks = some 2 := by
    have slots : List.finRange tasksMax = [0, 1, 2, 3, 4] := by decide
    simp [firstEmpty, slots, running, scheduler, free]
  obtain ⟨pid, os', spawned⟩ : ∃ pid os', spawnTask .atmega2560 (some "task") 0 0x5A0 os = .ok (pid, os') :=
    spawnTask_succeeds idle.user first
  obtain ⟨new, old, high, first', active, -, -, kernel, -, next, -⟩ := spawnTask_ok spawned
  obtain rfl : 2 = new := Option.some.inj (first.symm.trans first')
  obtain rfl : 0 = old := slotIndex_inj.mp (idle.user.active.symm.trans active)
  obtain ⟨new, user⟩ := idle.user.spawn spawned
  have atNew : os'.kernel.schedule.activeTaskBlock = slotIndex 2 := by rw [kernel]; rfl
  obtain rfl : 2 = new := slotIndex_inj.mp (atNew.symm.trans user.active)
  obtain ⟨k, killed⟩ : ∃ k, killCurrentTask .atmega2560 os'.kernel = .ok k := by
    simp only [killCurrentTask, indexOfCurrentTask, atNew, derefTask_slotIndex, taskSpRangeHigh_slot, ok_bind]
    exact ⟨_, rfl⟩
  have ended : RoundInv { os' with kernel := k : Os }.kernel (some 1) 2 := user.killed killed
  obtain ⟨slot, atSlot, rfl⟩ := killCurrentTask_ok killed
  obtain rfl : 2 = slot := slotIndex_inj.mp (atNew.symm.trans atSlot)
  have waiting := idle.waiting (some "task") 0 high (os'.kernel.endedTaskTimeCounter + (os'.kernel.tasks 2).timeCounter)
  rw [← kernel] at waiting
  obtain ⟨os'', switched, after⟩ := waiting.resumes ended (next.trans idle.user.noneScheduled)
  exact ⟨pid, os', os'', spawned, atNew, bind_eq_ok.mpr ⟨_, killed, switched⟩, after⟩

theorem pidBoot_idle : ∃ s, pidBoot .atmega2560 0x1FF0 0x5A0 bootSwitch = .ok s ∧ IdleOnly s.1 ∧ s.2.length = 2 ∧
    ∃ c, s.2[0]? = some c ∧ c.ended = false := by
  have all : ∃ u, (pidBoot .atmega2560 0x1FF0 0x5A0 bootSwitch >>= fun s => fatalIf .atmega2560 (!decide
      (s.1.kernel.schedule.activeTaskBlock = slotIndex 0 ∧ s.1.kernel.status 1 = .scheduler ∧
        (∀ i, i ≠ 0 → i ≠ 1 → s.1.kernel.status i = .empty) ∧ (s.1.kernel.tasks 0).priority = 0 ∧
        s.1.kernel.taskRamRanges 0 = { low := blockLow 0, high := blockHigh 0 } ∧ s.2.length = 2 ∧
        s.2.head?.map Created.ended = some false)) "") = .ok u := Lib.ok_of_isOk (by decide +kernel)
  obtain ⟨⟨⟩, all⟩ := all
  simp only [bind_eq_ok, fatalIf_ok, Bool.not_eq_false', decide_eq_true_eq] at all
  obtain ⟨s, booted, active, isScheduler, vacant, priority, range, length, first⟩ := all
  obtain ⟨⟨scheduler, current, user⟩, -⟩ := pidBoot_inv booted
  obtain rfl : current = 0 := slotIndex_inj.mp (user.active.symm.trans active)
  obtain rfl : scheduler = 1 := Option.some.inj ((user.kernel.status.scheduler 1).mp isScheduler)
  obtain ⟨c, entry, ended⟩ := Option.map_eq_some_iff.mp first
  exact ⟨s, booted, ⟨user, vacant, priority, range⟩, length, c, by rw [← List.head?_eq_getElem?, entry], ended⟩

theorem PidReachable.step {os os' : Os} {created created' : List Created} {a : Action}
    (reached : PidReachable os created) (h : pidStep .atmega2560 (os, created) a = .ok (os', created')) :
    PidReachable os' created' := by
  obtain ⟨mainSp, idleSp, sw, start, actions, booted, run⟩ := reached
  exact ⟨mainSp, idleSp, sw, start, actions ++ [a], booted,
    Lib.run_append_ok.mpr ⟨_, run, Lib.run_cons_ok.mpr ⟨_, h, rfl⟩⟩⟩

/-- The idle task may have spawned any number of tasks, all of which have ended. -/
theorem idle_runs (m : Nat) : ∃ os created, PidReachable os created ∧ IdleOnly os ∧ created.length = m + 2 ∧
    ∃ c, created[0]? = some c ∧ c.ended = false := by
  induction m with
  | zero =>
    obtain ⟨s, booted, idle, length, first⟩ := pidBoot_idle
    exact ⟨s.1, s.2, ⟨_, _, _, s, [], booted, rfl⟩, idle, length, first⟩
  | succ m ih =>
    obtain ⟨os, created, reached, idle, length, c, first, alive⟩ := ih
    obtain ⟨pid, os', os'', spawned, active, killed, after⟩ := idle_cycle idle
    have afterSpawn := reached.step (a := .spawn (some "task") 0 0x5A0) (bind_eq_ok.mpr ⟨_, spawned, rfl⟩)
    have afterKill := afterSpawn.step (a := .kill bootSwitch) (bind_eq_ok.mpr ⟨_, killed, rfl⟩)
    obtain ⟨c', first', atZero⟩ := reached.inv.2.idle
    obtain rfl := Option.some.inj (first.symm.trans first')
    have kept : c.endIn (slotIndex 2) = c := by
      rw [Created.endIn, atZero]
      exact if_neg (by decide)
    refine ⟨os'', _, afterKill, after, by simp [length], c, ?_, alive⟩
    have nonempty : 0 < created.length := by omega
    rw [active, List.getElem?_map, List.getElem?_append_left nonempty, first, Option.map_some, kept]

/-- After 2¹⁶ + 1 creations two tasks that exist share pid 0. -/
theorem pids_repeat_after_wrap :
    ¬ ∀ os created, PidReachable os created → PidsIdentify os.kernel created := by
  intro always
  obtain ⟨os, created, reached, idle, length, -⟩ := idle_runs (2 ^ 16 - 2)
  obtain ⟨pid, os', -, spawned, -⟩ := idle_cycle idle
  have last := reached.step (a := .spawn (some "task") 0 0x5A0) (bind_eq_ok.mpr ⟨_, spawned, rfl⟩)
  exact reached.inv.2.wrapped_collides idle.user (by omega) spawned (always _ _ last)

/-- **A pid identifies one task** in every run that has created at most 2¹⁶ tasks, and every further
creation breaks that. -/
theorem pids_identify_tasks {os : Os} {created : List Created} (reached : PidReachable os created) :
    (created.length ≤ 2 ^ 16 → PidsIdentify os.kernel created) ∧
      (2 ^ 16 ≤ created.length → ∀ name priority sp os' created',
        pidStep .atmega2560 (os, created) (.spawn name priority sp) = .ok (os', created') →
        ¬ PidsIdentify os'.kernel created') := by
  obtain ⟨⟨scheduler, current, user⟩, inv⟩ := reached.inv
  refine ⟨inv.identify, fun wrapped name priority sp os' created' step => ?_⟩
  obtain ⟨⟨pid, after⟩, spawned, last⟩ := bind_eq_ok.mp step
  obtain ⟨rfl, rfl⟩ := Prod.mk.inj (pure_eq_ok.mp last)
  exact inv.wrapped_collides user wrapped spawned

/-- A task that ends and one that is created in its slot have pids of their own. -/
theorem pids_identify_tasks_in_reused_slot : ∃ start s, pidBoot .atmega2560 0x1FF0 0x5A0 bootSwitch = .ok start ∧
    Lib.run (pidStep .atmega2560) start
      [.spawn (some "first") 0 0x5A0, .kill bootSwitch, .spawn (some "second") 0 0x5A0] = .ok s ∧
    s.2.drop 2 = [⟨2, slotIndex 2, true⟩, ⟨3, slotIndex 2, false⟩] ∧ PidsIdentify s.1.kernel s.2 := by
  have all : ∃ u, (pidBoot .atmega2560 0x1FF0 0x5A0 bootSwitch >>= fun start => Lib.run (pidStep .atmega2560) start
      [.spawn (some "first") 0 0x5A0, .kill bootSwitch, .spawn (some "second") 0 0x5A0] >>= fun s =>
      fatalIf .atmega2560 (!decide (s.2.drop 2 = [⟨2, slotIndex 2, true⟩, ⟨3, slotIndex 2, false⟩] ∧
        s.2.length = 4)) "") = .ok u := Lib.ok_of_isOk (by decide +kernel)
  obtain ⟨⟨⟩, all⟩ := all
  simp only [bind_eq_ok, fatalIf_ok, Bool.not_eq_false', decide_eq_true_eq] at all
  obtain ⟨start, booted, s, ran, records, length⟩ := all
  have reached : PidReachable s.1 s.2 := ⟨_, _, _, start, _, booted, ran⟩
  exact ⟨start, s, booted, ran, records, (pids_identify_tasks reached).1 (by rw [length]; decide)⟩

end Simplos
