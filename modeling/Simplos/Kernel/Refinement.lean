import Simplos.Kernel.Creation
import Simplos.Kernel.Cycle
import Simplos.Lib.Pool

/-!
# The kernel serves a pool of tasks

Statuses, the queue of indices and its position are how the kernel stores a pool of tasks (`Lib.Pool`): the slots are
its places, the unconsumed part of the queue is the rest of the current cycle, and `UINT8_MAX` is the priority that no
cycle serves. Every step of the kernel is the step of the pool for the same request, so the schedule of a run depends
on the requests alone, and what holds of every run of the pool holds of the kernel.
-/

namespace Simplos
set_option autoImplicit false
open Lib (bind_eq_ok)

/-- The pool whose places are the slots. -/
abbrev TaskPool : Type := Lib.Pool (Fin tasksMax) Nat

/-- What the running task asks for. -/
def Action.request : Action → Lib.Request Nat
  | .spawn _ priority _ => .create priority.toNat
  | .setPriority priority => .setPriority priority.toNat
  | .yield _ => .yield
  | .kill _ => .finish

/-- What a slot is to the pool. -/
def SimplosTask.place (t : SimplosTask) : Lib.Place Nat :=
  match t.status with
  | .empty => .free
  | .scheduler => .reserved
  | _ => .task t.priority.toNat

/-- The pool `p` is what the kernel `k` stores. -/
structure Represents (k : Kernel) (p : TaskPool) : Prop where
  places : ∀ i, p.places i = (k.tasks i).place
  running : k.schedule.activeTaskBlock = slotIndex p.running
  pending : Unconsumed k.schedule.queue p.pending

/-- A user task executes and the kernel stores the pool `p`. -/
structure Serves (os : Os) (p : TaskPool) : Prop where
  user : ∃ scheduler, UserInv os scheduler p.running
  represents : Represents os.kernel p

/-- The pool when `main` has created the idle task. -/
def mainPool : TaskPool where
  places i := if i = 0 then .task 0 else .free
  running := 0
  pending := []

/-- The pool after a boot: the idle task runs, and slot 1 is the scheduler's. -/
def bootPool : TaskPool where
  places i := if i = 0 then .task 0 else if i = 1 then .reserved else .free
  running := 0
  pending := []

/-! ## Places -/

section Place

variable {t : SimplosTask}

theorem place_free : t.place = .free ↔ t.status = .empty := by
  unfold SimplosTask.place
  cases t.status <;> simp

/-- READY and RUNNING tasks are tasks of the pool. -/
theorem place_ready (ready : t.status = .ready) : t.place = .task t.priority.toNat := by
  rw [SimplosTask.place, ready]

theorem place_running (running : t.status = .running) : t.place = .task t.priority.toNat := by
  rw [SimplosTask.place, running]

theorem place_task {priority : Nat} :
    t.place = .task priority ↔ t.status ≠ .empty ∧ t.status ≠ .scheduler ∧ t.priority.toNat = priority := by
  unfold SimplosTask.place
  cases t.status <;> simp

end Place

/-- Assigning to one slot changes one place. -/
theorem place_modifyTask {k : Kernel} {places : Fin tasksMax → Lib.Place Nat} (held : ∀ i, places i = (k.tasks i).place)
    (slot : Fin tasksMax) (f : SimplosTask → SimplosTask) (i : Fin tasksMax) :
    Function.update places slot (f (k.tasks slot)).place i = ((k.modifyTask slot f).tasks i).place := by
  by_cases here : i = slot
  · subst here
    rw [Function.update_self, modifyTask_self]
  · rw [Function.update_of_ne here, modifyTask_of_ne k slot f here, held]

theorem place_modifyTask_same {k : Kernel} {places : Fin tasksMax → Lib.Place Nat}
    (held : ∀ i, places i = (k.tasks i).place) (slot : Fin tasksMax) {f : SimplosTask → SimplosTask}
    (kept : (f (k.tasks slot)).place = (k.tasks slot).place) (i : Fin tasksMax) :
    places i = ((k.modifyTask slot f).tasks i).place := by
  rw [← place_modifyTask held slot f i, kept, ← held slot, Function.update_eq_self]

theorem unconsumed_empty {q : TaskQueue} (zero : q.queuePosition = 0) : Unconsumed q [] :=
  ⟨congrArg BitVec.toNat zero, nofun⟩

/-! ## A round is a turn -/

/-- With no task running, `prioritize_tasks` writes a cycle, last turn first. -/
theorem cycle_prioritized {k : Kernel} {scheduler : Option (Fin tasksMax)} {p : TaskPool}
    (inv : KernelInv k scheduler none) (held : ∀ i, p.places i = (k.tasks i).place) :
    Lib.Pool.Cycle 255 p.places (prioritized k.tasks).reverse := by
  have ready : ∀ i, i ∈ prioritized k.tasks → p.places i = .task (k.tasks i).priority.toNat := by
    intro i member
    have isReady := of_decide_eq_true (mem_prioritized.mp member).1
    rw [held, place_ready isReady]
  constructor
  case mem =>
    intro i
    rw [List.mem_reverse, mem_prioritized]
    constructor
    · rintro ⟨isReady, ordinary⟩
      refine ⟨(k.tasks i).priority.toNat, ready i (mem_prioritized.mpr ⟨isReady, ordinary⟩), ?_⟩
      bv_omega
    · rintro ⟨priority, task, below⟩
      rw [held, place_task] at task
      obtain ⟨notEmpty, notScheduler, rfl⟩ := task
      have notRunning : (k.tasks i).status ≠ .running := fun running => by
        simpa using (inv.status.running i).mp running
      have awake : (k.tasks i).status ≠ .sleeping := inv.status.awake i
      refine ⟨decide_eq_true ?_, by bv_omega⟩
      cases status : (k.tasks i).status <;> simp_all
  case sorted =>
    rw [List.pairwise_reverse]
    refine (sorted_prioritized k.tasks).imp_of_mem fun {i j} first second before => ?_
    refine ⟨_, _, ready j second, ready i first, ?_⟩
    rcases before with less | ⟨equal, less⟩
    · exact .inl (BitVec.lt_def.mp less)
    · exact .inr ⟨congrArg BitVec.toNat equal.symm, less⟩

theorem savePrevious_places {os : Os} {places : Fin tasksMax → Lib.Place Nat}
    (held : ∀ i, places i = (os.kernel.tasks i).place) (prev i : Fin tasksMax) :
    places i = ((savePrevious prev os).kernel.tasks i).place := by
  unfold savePrevious
  split
  · rename_i isScheduler
    refine place_modifyTask_same held prev ?_ i
    rw [SimplosTask.place, SimplosTask.place, isScheduler]
  · rename_i running
    refine place_modifyTask_same held prev ?_ i
    rw [place_running running]
    rfl
  · exact held i

/-- The kernel after a round that selected `next`. -/
theorem Represents.selected {os : Os} {next : Fin tasksMax} {rest : List (Fin tasksMax)}
    {places : Fin tasksMax → Lib.Place Nat} (held : ∀ i, places i = (os.kernel.tasks i).place)
    (ready : os.kernel.status next = .ready) (left : Unconsumed os.kernel.schedule.queue.advance rest) :
    Represents (os.selected next).kernel { places := places, running := next, pending := rest } := by
  refine ⟨fun i => ?_, rfl, left.position, left.entries⟩
  have isReady : (os.kernel.tasks next).status = .ready := ready
  have advanced : ∀ i, places i = ((os.kernel.withQueue os.kernel.schedule.queue.advance).tasks i).place := by
    intro i
    rw [withQueue_tasks, advance_tasks]
    exact held i
  refine place_modifyTask_same advanced next (f := fun t => { t with status := .running }) ?_ i
  rw [withQueue_tasks, advance_tasks, place_ready isReady]
  rfl

/-- What a selection picks is whose turn it is. -/
theorem Selection.turn {os : Os} {scheduler : Option (Fin tasksMax)} {entry : Fin taskQueueLength} {next : Fin tasksMax}
    {p : TaskPool} (inv : KernelInv os.kernel scheduler none) (held : ∀ i, p.places i = (os.kernel.tasks i).place)
    (pending : Unconsumed os.kernel.schedule.queue p.pending)
    (selection : Selection os.kernel.status os.kernel.schedule.queue.advance entry next) :
    ∃ q, Lib.Pool.Turn 255 p q ∧ q.running = next ∧ Represents (os.selected next).kernel q := by
  have taken : ∀ s r, Consuming os.kernel.schedule.queue.advance s r →
      s = next ∧ Represents (os.selected next).kernel { places := p.places, running := next, pending := r } := by
    intro s r consuming
    have same := slotIndex_inj.mp (selection.entry.symm.trans (consuming.here selection.position))
    exact ⟨same.symm, .selected held selection.ready consuming.rest⟩
  cases remaining : p.pending with
  | cons s r =>
    rw [remaining] at pending
    obtain ⟨rfl, represents⟩ := taken s r pending.advance
    exact ⟨_, .pending remaining, rfl, represents⟩
  | nil =>
    rw [remaining] at pending
    have zero : os.kernel.schedule.queue.queuePosition = 0 := BitVec.eq_of_toNat_eq pending.position
    cases order : (prioritized os.kernel.tasks).reverse with
    | nil =>
      -- with nothing to schedule the position would wrap around to 255
      have none : prioritized os.kernel.schedule.queue.tasks = [] := List.reverse_eq_nil_iff.mp order
      have position := selection.position
      rw [TaskQueue.advance, if_pos zero, none] at position
      have inside := entry.isLt
      rw [← position] at inside
      exact absurd inside (show ¬ 255 < taskQueueLength by decide)
    | cons s r =>
      have cycle := cycle_prioritized inv held
      rw [order] at cycle
      obtain ⟨rfl, represents⟩ := taken s r (advance_consuming zero order)
      exact ⟨_, .cycle remaining cycle, rfl, represents⟩

/-- **A round is a turn** of the pool that the kernel stores at its start. -/
theorem RoundInv.turn {mem : DataMemory} {os os' : Os} {scheduler : Option (Fin tasksMax)} {prev : Fin tasksMax}
    {p : TaskPool} (inv : RoundInv os.kernel scheduler prev) (held : ∀ i, p.places i = (os.kernel.tasks i).place)
    (pending : Unconsumed os.kernel.schedule.queue p.pending) (h : schedulerRound .atmega2560 mem os = .ok os') :
    ∃ q, Lib.Pool.Turn 255 p q ∧ Represents os'.kernel q := by
  obtain ⟨entry, next, selection, -, -, rfl⟩ := inv.round_ok h
  obtain ⟨q, turn, -, represents⟩ := selection.turn inv.save (savePrevious_places held prev) (pending.save prev)
  exact ⟨q, turn, represents⟩

/-- The switch to the scheduler and back is a turn. -/
theorem RoundInv.turn_switch {sw : Switch} {os os' : Os} {scheduler : Option (Fin tasksMax)} {prev : Fin tasksMax}
    {p : TaskPool} (inv : RoundInv os.kernel scheduler prev) (none : os.nextTaskSp = 0)
    (held : ∀ i, p.places i = (os.kernel.tasks i).place) (pending : Unconsumed os.kernel.schedule.queue p.pending)
    (h : os.switchAway .atmega2560 sw = .ok os') : ∃ q, Lib.Pool.Turn 255 p q ∧ Serves os' q := by
  obtain ⟨next, user⟩ := inv.switchAway none h
  rw [Os.switchAway, if_pos none, bind_eq_ok] at h
  obtain ⟨done, round, last⟩ := h
  obtain rfl := pure_eq_ok.mp last
  have atRound : RoundInv (os.contextSwtich sw.sp).kernel scheduler prev := inv
  obtain ⟨q, turn, represents⟩ := atRound.turn held pending round
  obtain rfl : next = q.running := slotIndex_inj.mp (user.active.symm.trans represents.running)
  exact ⟨q, turn, ⟨scheduler, user⟩, represents⟩

/-! ## The requests of a user task -/

theorem Serves.spawn {name : ProgmemString} {priority : Byte} {sp pid : Word} {os os' : Os} {p : TaskPool}
    (serves : Serves os p) (h : spawnTask .atmega2560 name priority sp os = .ok (pid, os')) :
    ∃ q, Lib.Pool.Step 255 p (.create priority.toNat) q ∧ Serves os' q := by
  obtain ⟨scheduler, user⟩ := serves.user
  obtain ⟨next, user'⟩ := user.spawn h
  obtain ⟨new, old, high, first, active, -, -, kernel, -⟩ := spawnTask_ok h
  obtain rfl : old = p.running := slotIndex_inj.mp (active.symm.trans user.active)
  have atNew : os'.kernel.schedule.activeTaskBlock = slotIndex new := by rw [kernel]; rfl
  obtain rfl : next = new := slotIndex_inj.mp (user'.active.symm.trans atNew)
  have lowest := firstEmpty_eq_some first
  have running : (os.kernel.tasks p.running).status = .running := (user.kernel.status.running _).mpr rfl
  have apart : p.running ≠ next := by
    intro same
    have empty := lowest.empty
    simp [← same, running] at empty
  have free : Lib.Pool.FirstFree p.places next := by
    refine ⟨?_, fun i below => ?_⟩
    · rw [serves.represents.places, place_free]
      exact lowest.empty
    · rw [serves.represents.places, Ne, place_free]
      exact lowest.lowest i below
  refine ⟨_, .create priority.toNat free, ⟨scheduler, user'⟩, fun i => ?_, atNew, ?_⟩
  · have created := place_modifyTask serves.represents.places next fun t => { t with
      priority := priority, status := .running, taskSpAdr := high, pid := os.kernel.pidCnt, name := name }
    have parent := place_modifyTask_same created p.running (f := fun t => { t with status := .ready, taskSpAdr := sp })
      (by rw [modifyTask_of_ne _ _ _ apart, place_running running]; rfl) i
    rw [kernel]
    exact parent
  · rw [kernel]
    exact unconsumed_empty rfl

theorem Serves.setPriority {priority : Byte} {os : Os} {k : Kernel} {p : TaskPool} (serves : Serves os p)
    (h : Simplos.setPriority priority os.kernel = .ok k) :
    Serves { os with kernel := k } (p.withPriority priority.toNat) := by
  obtain ⟨scheduler, user⟩ := serves.user
  refine ⟨⟨scheduler, user.setPriority h⟩, ?_⟩
  obtain ⟨slot, active, rfl⟩ := setPriority_ok h
  obtain rfl : slot = p.running := slotIndex_inj.mp (active.symm.trans user.active)
  have running : (os.kernel.tasks p.running).status = .running := (user.kernel.status.running _).mpr rfl
  refine ⟨fun i => ?_, user.active, serves.represents.pending.position, serves.represents.pending.entries⟩
  have placed := place_modifyTask serves.represents.places p.running (fun t => { t with priority := priority }) i
  rwa [place_running (t := { os.kernel.tasks p.running with priority := priority }) running] at placed

/-- The kernel a task leaves behind, before the round that follows. -/
theorem Serves.kill {os : Os} {k : Kernel} {p : TaskPool} (serves : Serves os p)
    (h : killCurrentTask .atmega2560 os.kernel = .ok k) :
    (∀ i, p.ended.places i = (k.tasks i).place) ∧ Unconsumed k.schedule.queue p.ended.pending := by
  obtain ⟨scheduler, user⟩ := serves.user
  obtain ⟨slot, active, rfl⟩ := killCurrentTask_ok h
  obtain rfl : slot = p.running := slotIndex_inj.mp (active.symm.trans user.active)
  refine ⟨fun i => ?_, unconsumed_empty rfl⟩
  exact place_modifyTask serves.represents.places p.running
    (fun t => { t with status := .empty, taskSpAdr := blockHigh p.running, name := some "" }) i

/-- **Every step of the kernel is the step of the pool for the same request.** -/
theorem Serves.step {os os' : Os} {p : TaskPool} {a : Action} (serves : Serves os p)
    (h : os.step .atmega2560 a = .ok os') : ∃ q, Lib.Pool.Step 255 p a.request q ∧ Serves os' q := by
  obtain ⟨scheduler, user⟩ := serves.user
  cases a with
  | spawn name priority sp =>
    obtain ⟨⟨pid, after⟩, spawned, last⟩ := bind_eq_ok.mp h
    obtain rfl := pure_eq_ok.mp last
    exact serves.spawn spawned
  | setPriority priority =>
    obtain ⟨k, set, last⟩ := bind_eq_ok.mp h
    obtain rfl := pure_eq_ok.mp last
    exact ⟨_, .setPriority p priority.toNat, serves.setPriority set⟩
  | yield sw =>
    obtain ⟨q, turn, after⟩ := user.yielding.turn_switch user.noneScheduled serves.represents.places
      serves.represents.pending h
    exact ⟨q, .yield turn, after⟩
  | kill sw =>
    obtain ⟨k, killed, rest⟩ := bind_eq_ok.mp h
    have ended : RoundInv { os with kernel := k : Os }.kernel scheduler p.running := user.killed killed
    obtain ⟨places, pending⟩ := serves.kill killed
    obtain ⟨q, turn, after⟩ := ended.turn_switch user.noneScheduled places pending rest
    exact ⟨q, .finish turn, after⟩

/-! ## A run -/

/-- `main` leaves the idle task as the only one. -/
theorem bootMain_serves {sp : Word} {os : Os} (h : bootMain .atmega2560 sp = .ok os) :
    Serves os mainPool := by
  have user := bootMain_inv h
  obtain ⟨created, make, kernel, -⟩ := bootMain_ok h
  obtain ⟨slot, high, -, index, -, rfl⟩ := createSimplosTask_ok make
  obtain rfl : 0 = slot := slotIndex_inj.mp index
  refine ⟨⟨none, user⟩, fun i => ?_, user.active, ?_⟩
  · have free : ∀ i, (fun _ => .free : Fin tasksMax → Lib.Place Nat) i = (initialKernel.tasks i).place := fun _ => rfl
    have placed := place_modifyTask free 0
      (fun t => { t with
        priority := 0, status := .running, taskSpAdr := high, pid := initialKernel.pidCnt, name := some "idle task" }) i
    rw [kernel]
    exact (Function.update_apply ..).symm.trans placed
  · rw [kernel]
    exact unconsumed_empty rfl

/-- A cycle of the pool after a boot serves the idle task alone. -/
theorem bootPool_cycle : Lib.Pool.Cycle 255 bootPool.places [0] := by
  constructor
  case mem =>
    intro i
    rw [List.mem_singleton]
    constructor
    · rintro rfl
      exact ⟨0, rfl, by decide⟩
    · rintro ⟨priority, task, -⟩
      unfold bootPool at task
      simp only at task
      split at task
      · assumption
      · split at task <;> cases task
  case sorted => exact List.pairwise_singleton ..

theorem mainPool_firstFree : Lib.Pool.FirstFree mainPool.places 1 := by
  refine ⟨rfl, ?_⟩
  unfold mainPool
  decide

theorem boot_serves {mainSp idleSp : Word} {sw : Switch} {os : Os}
    (h : boot .atmega2560 mainSp idleSp sw = .ok os) : Serves os bootPool := by
  obtain ⟨scheduler, current, user⟩ := boot_inv h
  simp only [boot, bind_eq_ok] at h
  obtain ⟨main, booted, ⟨pid, spawned⟩, spawn, start⟩ := h
  obtain ⟨slot, entered, done, running, kernel, inv, round, rfl⟩ := startScheduler_ok booted spawn start
  obtain ⟨p, step, serves⟩ := (bootMain_serves booted).spawn spawn
  obtain rfl := step.unique (.create 0 mainPool_firstFree)
  obtain ⟨_, spawner⟩ := serves.user
  obtain rfl : slot = 1 := Option.some.inj ((spawner.kernel.status.running slot).mp running).symm
  have held : ∀ i, bootPool.places i = (entered.kernel.tasks i).place := by
    intro i
    have placed := place_modifyTask serves.represents.places 1 (fun t => { t with status := .scheduler }) i
    rw [kernel, ← placed]
    have same : ∀ i, bootPool.places i =
        Function.update (Function.update mainPool.places 1 (.task 0)) 1 .reserved i := by decide
    exact same i
  have empty : Unconsumed entered.kernel.schedule.queue bootPool.pending := by
    rw [kernel]
    exact ⟨serves.represents.pending.position, serves.represents.pending.entries⟩
  obtain ⟨q, turn, represents⟩ := inv.turn held empty round
  have first : Lib.Pool.Turn 255 bootPool bootPool := .cycle rfl bootPool_cycle
  obtain rfl := turn.unique first
  obtain rfl : current = bootPool.running := slotIndex_inj.mp (user.active.symm.trans represents.running)
  exact ⟨⟨scheduler, user⟩, represents⟩

/-- Every run serves the requests it makes. -/
theorem Serves.run {actions : List Action} {os os' : Os} {p : TaskPool} (serves : Serves os p)
    (ran : Lib.run (Os.step .atmega2560) os actions = .ok os') :
    ∃ q, Lib.Trace (Lib.Pool.Step 255) p (actions.map Action.request) q ∧ Serves os' q :=
  Lib.Trace.simulate (fun _ _ _ _ serves step => serves.step step) serves (Lib.run_trace.mp ran)

theorem bootPool_sound : bootPool.Sound where
  running := ⟨0, rfl⟩
  tasks _ member := nomatch member
  others := List.not_mem_nil
  once := List.nodup_nil

/-- **The kernel refines the pool.** A run from a boot takes the pool that a boot leaves through the requests of its
actions, and the kernel it ends in stores the pool they lead to. -/
theorem kernel_refines_pool {mainSp idleSp : Word} {sw : Switch} {actions : List Action} {start os : Os}
    (booted : boot .atmega2560 mainSp idleSp sw = .ok start)
    (ran : Lib.run (Os.step .atmega2560) start actions = .ok os) :
    ∃ p, Lib.Trace (Lib.Pool.Step 255) bootPool (actions.map Action.request) p ∧ Represents os.kernel p := by
  obtain ⟨p, trace, serves⟩ := (boot_serves booted).run ran
  exact ⟨p, trace, serves.represents⟩

/-- A boot, a spawn and a yield. -/
theorem kernel_refines_pool_of_spawn :
    ∃ p, Lib.Trace (Lib.Pool.Step 255) bootPool [.create 3, .yield] p ∧ p.running = 2 := by
  have all : ∃ u, (boot .atmega2560 0x1FF0 0x5A0 bootSwitch >>= fun start =>
      Lib.run (Os.step .atmega2560) start
        [.spawn (some "task") 3 0x5A0, .yield { bootSwitch with sp := 0xA00 }] >>= fun os =>
      fatalIf .atmega2560 (!decide (os.kernel.schedule.activeTaskBlock = slotIndex 2)) "") = .ok u :=
    Lib.ok_of_isOk (by decide +kernel)
  obtain ⟨⟨⟩, all⟩ := all
  simp only [bind_eq_ok, fatalIf_ok, Bool.not_eq_false', decide_eq_true_eq] at all
  obtain ⟨start, booted, os, ran, active⟩ := all
  obtain ⟨p, trace, represents⟩ := kernel_refines_pool booted ran
  exact ⟨p, trace, slotIndex_inj.mp (represents.running.symm.trans active)⟩

/-! ## The schedule depends on the requests alone -/

/-- The same slots are occupied, wait and run, at the same priorities, and the same turns are to come. -/
structure SameSchedule (k k' : Kernel) : Prop where
  active : k.schedule.activeTaskBlock = k'.schedule.activeTaskBlock
  status : k.status = k'.status
  priority : ∀ i, k.status i = .ready ∨ k.status i = .running → (k.tasks i).priority = (k'.tasks i).priority
  position : k.schedule.queue.queuePosition = k'.schedule.queue.queuePosition
  entries : ∀ j : Fin taskQueueLength, (j : Nat) < k.schedule.queue.queuePosition.toNat →
    k.schedule.queue.taskIndexQueue j = k'.schedule.queue.taskIndexQueue j

/-- The status of a slot is its place and whether it runs. -/
theorem Serves.status {os : Os} {p : TaskPool} (serves : Serves os p) (i : Fin tasksMax) :
    os.kernel.status i = match p.places i with
      | .free => .empty
      | .reserved => .scheduler
      | .task _ => if i = p.running then .running else .ready := by
  obtain ⟨scheduler, user⟩ := serves.user
  have running := user.kernel.status.running i
  have awake := user.kernel.status.awake i
  rw [Option.some_inj] at running
  unfold Kernel.status at running awake ⊢
  rw [serves.represents.places, SimplosTask.place]
  cases status : (os.kernel.tasks i).status with
  | empty => rfl
  | scheduler => rfl
  | sleeping => exact absurd status awake
  | running => exact (if_pos (running.mp status).symm).symm
  | ready =>
    refine (if_neg fun here => ?_).symm
    rw [running.mpr here.symm] at status
    cases status

/-- A pool determines the schedule of the kernels that store it. -/
theorem Serves.sameSchedule {os os' : Os} {p : TaskPool} (serves : Serves os p) (serves' : Serves os' p) :
    SameSchedule os.kernel os'.kernel where
  active := serves.represents.running.trans serves'.represents.running.symm
  status := funext fun i => (serves.status i).trans (serves'.status i).symm
  priority i task := by
    have status : os'.kernel.status i = os.kernel.status i := (serves'.status i).trans (serves.status i).symm
    have place := (serves.represents.places i).symm.trans (serves'.represents.places i)
    unfold Kernel.status at task status
    apply BitVec.eq_of_toNat_eq
    rcases task with ready | running
    · rw [place_ready ready, place_ready (status.trans ready)] at place
      exact Lib.Place.task.inj place
    · rw [place_running running, place_running (status.trans running)] at place
      exact Lib.Place.task.inj place
  position := by
    apply BitVec.eq_of_toNat_eq
    rw [serves.represents.pending.position, serves'.represents.pending.position]
  entries j below := by
    have bound : (j : Nat) < p.pending.reverse.length := by
      rwa [List.length_reverse, ← serves.represents.pending.position]
    have entry := List.getElem?_eq_getElem bound
    rw [serves.represents.pending.entries j _ entry, serves'.represents.pending.entries j _ entry]

/-- **The schedule of a run depends on its requests alone**: not on the names of the tasks, nor on where their stacks
are, nor on what data memory holds at the switches. -/
theorem schedule_depends_on_requests {mainSp idleSp mainSp' idleSp' : Word} {sw sw' : Switch}
    {actions actions' : List Action} {start start' os os' : Os} (booted : boot .atmega2560 mainSp idleSp sw = .ok start)
    (booted' : boot .atmega2560 mainSp' idleSp' sw' = .ok start')
    (ran : Lib.run (Os.step .atmega2560) start actions = .ok os)
    (ran' : Lib.run (Os.step .atmega2560) start' actions' = .ok os')
    (same : actions.map Action.request = actions'.map Action.request) : SameSchedule os.kernel os'.kernel := by
  obtain ⟨p, trace, serves⟩ := (boot_serves booted).run ran
  obtain ⟨p', trace', serves'⟩ := (boot_serves booted').run ran'
  rw [← same] at trace'
  obtain rfl := Lib.Pool.trace_unique trace trace'
  exact serves.sameSchedule serves'

/-- Two boots with other stacks and another task. -/
theorem schedule_depends_on_requests_of_spawn :
    ∃ start start' os os', boot .atmega2560 0x1FF0 0x5A0 bootSwitch = .ok start ∧
      boot .atmega2560 0x1FE0 0x590 { bootSwitch with sp := 0x7F0 } = .ok start' ∧
      Lib.run (Os.step .atmega2560) start
        [.spawn (some "task") 3 0x5A0, .yield { bootSwitch with sp := 0xA00 }] = .ok os ∧
      Lib.run (Os.step .atmega2560) start'
        [.spawn (some "other") 3 0x580, .yield { bootSwitch with sp := 0xA20 }] = .ok os' ∧
      SameSchedule os.kernel os'.kernel := by
  have first : ∃ os, (boot .atmega2560 0x1FF0 0x5A0 bootSwitch >>= fun start =>
      Lib.run (Os.step .atmega2560) start
        [.spawn (some "task") 3 0x5A0, .yield { bootSwitch with sp := 0xA00 }]) = .ok os :=
    Lib.ok_of_isOk (by decide +kernel)
  have second : ∃ os, (boot .atmega2560 0x1FE0 0x590 { bootSwitch with sp := 0x7F0 } >>= fun start =>
      Lib.run (Os.step .atmega2560) start
        [.spawn (some "other") 3 0x580, .yield { bootSwitch with sp := 0xA20 }]) = .ok os :=
    Lib.ok_of_isOk (by decide +kernel)
  obtain ⟨os, first⟩ := first
  obtain ⟨os', second⟩ := second
  obtain ⟨start, booted, ran⟩ := bind_eq_ok.mp first
  obtain ⟨start', booted', ran'⟩ := bind_eq_ok.mp second
  exact ⟨start, start', os, os', booted, booted', ran, ran',
    schedule_depends_on_requests booted booted' ran ran' rfl⟩

end Simplos
