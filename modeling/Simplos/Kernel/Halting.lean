import Simplos.Kernel.Pids
import Simplos.Kernel.Refinement
import Simplos.Kernel.StackCheck

/-!
# Exactly when a step succeeds

The pool says which requests can be met: a creation needs a free slot, a yield and an end need a task whose turn it is.
Beyond that the kernel only looks at the contexts it saves and resumes. A step of a running system succeeds exactly
when the pool has the step and these checks pass, and it then does what the pool says.
-/

namespace Simplos
set_option autoImplicit false
open Lib (bind_eq_ok ok_bind)

/-- Every block has the range that `init_kernel` recorded for it. -/
def Ranged (k : Kernel) : Prop :=
  ∀ slot, k.taskRamRanges slot = { low := blockLow slot, high := blockHigh slot }

/-- The stack pointer `sp` is in the block of `slot`, with room for one switch and above the OS stack, and the canaries
are intact. -/
structure SpAccepted (mem : DataMemory) (slot : Fin tasksMax) (sp : Word) : Prop where
  room : blockLow slot + numContextSwitchOverheadBytes ≤ sp
  high : sp ≤ blockHigh slot
  above : osStackStart < sp
  canaries : CanariesIntact mem

/-- The three bytes above the saved registers could be a return address. -/
structure PlausibleReturnAddress (mem : DataMemory) (sp : Word) : Prop where
  program : savedTaskPc mem sp &&& 0x00FE0000 = 0
  nonzero : savedTaskPc mem sp ≠ 0

/-- The checks that the step `a` makes on the contexts it saves and resumes, from the pool `p` to the pool `q`. -/
def ContextsPass (os : Os) (p q : TaskPool) : Action → Prop
  | .spawn .. => True
  | .setPriority _ => True
  | .yield sw => SpAccepted sw.mem p.running sw.sp ∧ PlausibleReturnAddress sw.mem sw.sp ∧
      (q.running ≠ p.running → SpAccepted sw.mem q.running (os.kernel.tasks q.running).taskSpAdr)
  | .kill sw => SpAccepted sw.mem q.running (os.kernel.tasks q.running).taskSpAdr

/-! ## The checks -/

theorem verifyCanaries_iff {mem : DataMemory} : verifyCanaries .atmega2560 mem = .ok () ↔ CanariesIntact mem := by
  refine ⟨fun passed a low high => ?_, verifyCanaries_ok⟩
  unfold canaryEnd at low
  unfold canaryStart at high
  have member : 0x204 - a.toNat ∈ List.range (canaryStart.toNat - canaryEnd.toNat + 1) := by
    rw [List.mem_range]
    show 0x204 - a.toNat < 5
    bv_omega
  have each := Lib.forM_ok_iff.mp passed _ member
  have same : canaryStart - BitVec.ofNat 16 (0x204 - a.toNat) = a := by
    unfold canaryStart
    bv_omega
  rw [assert_ok, same] at each
  exact eq_of_beq each

theorem spAccepted_iff (mem : DataMemory) {task : SimplosTask} {kernel : Kernel} {slot : Fin tasksMax}
    (block : task.taskMemoryBlock = slotIndex slot) (ranged : Ranged kernel) :
    assertTaskPointerIntegrity .atmega2560 mem task kernel = .ok () ↔ SpAccepted mem slot task.taskSpAdr := by
  rw [assertTaskPointerIntegrity_ok block (ranged slot), verifyCanaries_iff]
  exact ⟨fun ⟨⟨room, high⟩, above, canaries⟩ => ⟨room, high, above, canaries⟩,
    fun accepted => ⟨⟨accepted.room, accepted.high⟩, accepted.above, accepted.canaries⟩⟩

theorem plausibleReturnAddress_iff {mem : DataMemory} {sp : Word} :
    assertStackPointerPointsToValidReturnAddress .atmega2560 mem sp = .ok () ↔ PlausibleReturnAddress mem sp := by
  unfold assertStackPointerPointsToValidReturnAddress
  simp only [bind_eq_ok, assert_ok, beq_iff_eq, bne_iff_ne]
  exact ⟨fun ⟨_, program, nonzero⟩ => ⟨program, nonzero⟩, fun address => ⟨(), address.program, address.nonzero⟩⟩

/-! ## A round -/

theorem savePrevious_ranges (prev : Fin tasksMax) (os : Os) :
    (savePrevious prev os).kernel.taskRamRanges = os.kernel.taskRamRanges := by
  unfold savePrevious
  split <;> rfl

/-- The context of the task that stopped, if it did not end, passes both checks. -/
structure PreviousPasses (mem : DataMemory) (prev : Fin tasksMax) (os : Os) : Prop where
  sp : os.kernel.status prev ≠ .empty → SpAccepted mem prev ((savePrevious prev os).kernel.tasks prev).taskSpAdr
  pc : os.kernel.status prev ≠ .empty →
    PlausibleReturnAddress mem ((savePrevious prev os).kernel.tasks prev).taskSpAdr

theorem handlePreviousTask_iff {mem : DataMemory} {os : Os} {scheduler : Option (Fin tasksMax)} {prev : Fin tasksMax}
    (inv : RoundInv os.kernel scheduler prev) (ranged : Ranged os.kernel) :
    handlePreviousTask .atmega2560 mem prev os = .ok (savePrevious prev os) ↔ PreviousPasses mem prev os := by
  have ranged' : Ranged (savePrevious prev os).kernel := by
    intro slot
    rw [savePrevious_ranges]
    exact ranged slot
  have checked := spAccepted_iff mem (inv.save.block prev) ranged'
  by_cases empty : (os.kernel.tasks prev).status = .empty
  · have handled : handlePreviousTask .atmega2560 mem prev os = .ok os := if_pos empty
    have same : savePrevious prev os = os := savePrevious_ended empty
    rw [handled, same]
    exact iff_of_true rfl ⟨fun busy => absurd empty busy, fun busy => absurd empty busy⟩
  · rw [handlePreviousTask, if_neg empty]
    simp only [bind_eq_ok]
    constructor
    · rintro ⟨_, integrity, _, valid, -⟩
      exact ⟨fun _ => checked.mp integrity, fun _ => plausibleReturnAddress_iff.mp valid⟩
    · intro passes
      exact ⟨(), checked.mpr (passes.sp empty), (), plausibleReturnAddress_iff.mpr (passes.pc empty), rfl⟩

/-- With a task whose turn it is, the queue can be advanced. -/
theorem turn_supplied {os : Os} {scheduler : Option (Fin tasksMax)} {p q : TaskPool}
    (inv : KernelInv os.kernel scheduler none) (held : ∀ i, p.places i = (os.kernel.tasks i).place)
    (pending : Unconsumed os.kernel.schedule.queue p.pending) (turn : Lib.Pool.Turn 255 p q) :
    os.kernel.schedule.queue.queuePosition = 0 → prioritized os.kernel.tasks ≠ [] := by
  intro zero none
  have length := pending.position
  rw [zero] at length
  cases turn with
  | pending queue =>
    rw [queue] at length
    cases length
  | cycle _ cycle =>
    have same := (cycle_prioritized inv held).unique cycle
    rw [none] at same
    cases same

theorem moveQueuePosition_supplies {k : Kernel}
    (supplied : k.schedule.queue.queuePosition = 0 → prioritized k.tasks ≠ []) :
    moveQueuePosition .atmega2560 k = .ok (k.withQueue k.schedule.queue.advance) := by
  by_cases zero : k.schedule.queue.queuePosition = 0
  · have count : (BitVec.ofNat 8 (prioritized k.tasks).length == 0) = false := by
      refine beq_false_of_ne fun none => supplied zero (List.length_eq_zero_iff.mp ?_)
      rw [← prioritized_count k.tasks, none]
      rfl
    have passed : fatalIf .atmega2560 false "Error, no tasks avalable to schedule!" = .ok () := rfl
    simp only [moveQueuePosition, if_pos zero, reschedule, prioritizeTasks_eq, ok_bind, Kernel.tasks] at count ⊢
    rw [count, passed, TaskQueue.advance, if_pos zero]
    rfl
  · simp only [moveQueuePosition, TaskQueue.advance, if_neg zero]

theorem Selection.selects {os : Os} {entry : Fin taskQueueLength} {next : Fin tasksMax}
    (selection : Selection os.kernel.status os.kernel.schedule.queue.advance entry next)
    (supplied : os.kernel.schedule.queue.queuePosition = 0 → prioritized os.kernel.tasks ≠ []) :
    selectNextTask .atmega2560 os = .ok (slotIndex next, { os with
      kernel := os.kernel.withQueue os.kernel.schedule.queue.advance
      nextTaskSp := (os.kernel.tasks next).taskSpAdr }) := by
  have atEntry := queueSlot_ok.mpr selection.position
  have tasks : (os.kernel.withQueue os.kernel.schedule.queue.advance).tasks = os.kernel.tasks := by
    rw [withQueue_tasks, advance_tasks]
  simp only [selectNextTask, moveQueuePosition_supplies supplied, ok_bind, withQueue_queue, atEntry, selection.entry,
    derefTask_slotIndex, tasks]
  rfl

/-- **A round succeeds exactly when it is some task's turn and the checked contexts pass.** -/
theorem RoundInv.round_iff {mem : DataMemory} {os : Os} {scheduler : Option (Fin tasksMax)} {prev : Fin tasksMax}
    {p : TaskPool} (inv : RoundInv os.kernel scheduler prev) (ranged : Ranged os.kernel)
    (held : ∀ i, p.places i = (os.kernel.tasks i).place) (pending : Unconsumed os.kernel.schedule.queue p.pending) :
    (∃ os', schedulerRound .atmega2560 mem os = .ok os') ↔ PreviousPasses mem prev os ∧ ∃ q, Lib.Pool.Turn 255 p q ∧
      SpAccepted mem q.running ((savePrevious prev os).kernel.tasks q.running).taskSpAdr := by
  have held' := savePrevious_places held prev
  have queue := pending.save prev
  have ranged' : ∀ next, Ranged (((savePrevious prev os).kernel.withQueue
      (savePrevious prev os).kernel.schedule.queue.advance).withActiveTaskBlock (slotIndex next)) := by
    intro next slot
    exact (congrFun (savePrevious_ranges prev os) slot).trans (ranged slot)
  have resumes : ∀ next, (((savePrevious prev os).kernel.withQueue
      (savePrevious prev os).kernel.schedule.queue.advance).withActiveTaskBlock (slotIndex next)).tasks next =
      (savePrevious prev os).kernel.tasks next := by
    intro next
    exact congrFun (advance_tasks (savePrevious prev os).kernel.schedule.queue) next
  have checked := fun next => spAccepted_iff mem (inv.save.block next) (ranged' next)
  constructor
  · rintro ⟨os', round⟩
    obtain ⟨prev', next, saved, selected, atPrev, handled, chosen, prepared⟩ := schedulerRound_ok round
    obtain rfl : prev' = prev := slotIndex_inj.mp (atPrev.symm.trans inv.active)
    obtain ⟨rfl, -⟩ := handlePreviousTask_ok handled
    obtain ⟨entry, next', index, selection, rfl⟩ := inv.save.select chosen
    obtain rfl : next = next' := slotIndex_inj.mp index
    obtain ⟨q, turn, rfl, -⟩ := selection.turn inv.save held' queue
    obtain ⟨integrity, -⟩ := prepareNextTask_ok prepared
    rw [resumes] at integrity
    exact ⟨(handlePreviousTask_iff inv ranged).mp handled, q, turn, (checked q.running).mp integrity⟩
  · rintro ⟨passes, q, turn, accepted⟩
    have handled := (handlePreviousTask_iff inv ranged).mpr passes
    have supplied := turn_supplied inv.save held' queue turn
    obtain ⟨entry, next, selection⟩ := inv.save.advance supplied
    obtain ⟨q', turn', rfl, -⟩ := selection.turn inv.save held' queue
    obtain rfl := turn.unique turn'
    have ready : ((savePrevious prev os).kernel.tasks q.running).status = .ready := selection.ready
    have integrity := (checked q.running).mpr accepted
    simp only [schedulerRound, indexOfCurrentTask, inv.active, derefTask_slotIndex, ok_bind, handled,
      selection.selects supplied, withActiveTaskBlock_activeTaskBlock, prepareNextTask]
    rw [resumes, integrity, ok_bind, ready]
    exact ⟨_, rfl⟩

/-! ## The actions of a user task -/

theorem RoundInv.switch_iff (sw : Switch) {os : Os} {scheduler : Option (Fin tasksMax)} {prev : Fin tasksMax}
    {p : TaskPool} (inv : RoundInv os.kernel scheduler prev) (none : os.nextTaskSp = 0) (ranged : Ranged os.kernel)
    (held : ∀ i, p.places i = (os.kernel.tasks i).place) (pending : Unconsumed os.kernel.schedule.queue p.pending) :
    (∃ os', os.switchAway .atmega2560 sw = .ok os') ↔
      PreviousPasses sw.mem prev (os.contextSwtich sw.sp) ∧ ∃ q, Lib.Pool.Turn 255 p q ∧ SpAccepted sw.mem q.running
        ((savePrevious prev (os.contextSwtich sw.sp)).kernel.tasks q.running).taskSpAdr := by
  have atRound : RoundInv (os.contextSwtich sw.sp).kernel scheduler prev := inv
  rw [← atRound.round_iff ranged held pending, Os.switchAway, if_pos none]
  constructor
  · rintro ⟨os', switched⟩
    obtain ⟨done, round, -⟩ := bind_eq_ok.mp switched
    exact ⟨done, round⟩
  · rintro ⟨done, round⟩
    exact ⟨_, bind_eq_ok.mpr ⟨done, round, rfl⟩⟩

/-- The stack pointers that the scheduler finds after a switch away from a running task. -/
theorem saved_sp {os : Os} {prev : Fin tasksMax} (sp : Word) (running : os.kernel.status prev = .running)
    (i : Fin tasksMax) : ((savePrevious prev (os.contextSwtich sp)).kernel.tasks i).taskSpAdr =
      if i = prev then sp else (os.kernel.tasks i).taskSpAdr := by
  have status : ((os.contextSwtich sp).kernel.tasks prev).status = .running := running
  simp only [savePrevious, status]
  by_cases here : i = prev
  · subst here
    rw [modifyTask_self, if_pos rfl]
    rfl
  · rw [modifyTask_of_ne _ _ _ here, if_neg here]
    rfl

theorem Serves.yield_iff {sw : Switch} {os : Os} {p : TaskPool} (serves : Serves os p) (ranged : Ranged os.kernel) :
    (∃ os', os.step .atmega2560 (.yield sw) = .ok os') ↔
      ∃ q, Lib.Pool.Step 255 p .yield q ∧ ContextsPass os p q (.yield sw) := by
  obtain ⟨scheduler, user⟩ := serves.user
  have running : os.kernel.status p.running = .running := (user.kernel.status.running _).mpr rfl
  have busy : (os.contextSwtich sw.sp).kernel.status p.running ≠ .empty := running.trans_ne nofun
  have saved := saved_sp sw.sp running
  refine (user.yielding.switch_iff sw user.noneScheduled ranged serves.represents.places
    serves.represents.pending).trans ?_
  constructor
  · rintro ⟨passes, q, turn, resumed⟩
    have sp := passes.sp busy
    have pc := passes.pc busy
    rw [saved, if_pos rfl] at sp pc
    refine ⟨q, .yield turn, sp, pc, fun other => ?_⟩
    rwa [saved, if_neg other] at resumed
  · rintro ⟨q, step, sp, pc, others⟩
    cases step with
    | yield turn =>
      refine ⟨⟨fun _ => ?_, fun _ => ?_⟩, q, turn, ?_⟩
      · rwa [saved, if_pos rfl]
      · rwa [saved, if_pos rfl]
      · rw [saved]
        split
        · rename_i same
          rw [same]
          exact sp
        · rename_i other
          exact others other

theorem Serves.kill_iff {sw : Switch} {os : Os} {p : TaskPool} (serves : Serves os p) (ranged : Ranged os.kernel) :
    (∃ os', os.step .atmega2560 (.kill sw) = .ok os') ↔
      ∃ q, Lib.Pool.Step 255 p .finish q ∧ ContextsPass os p q (.kill sw) := by
  obtain ⟨scheduler, user⟩ := serves.user
  obtain ⟨k, killed⟩ : ∃ k, killCurrentTask .atmega2560 os.kernel = .ok k := by
    simp only [killCurrentTask, indexOfCurrentTask, user.active, derefTask_slotIndex, taskSpRangeHigh_slot, ok_bind]
    exact ⟨_, rfl⟩
  have ended : RoundInv { os with kernel := k : Os }.kernel scheduler p.running := user.killed killed
  obtain ⟨places, pending⟩ := serves.kill killed
  obtain ⟨slot, active, kernel⟩ := killCurrentTask_ok killed
  obtain rfl : slot = p.running := slotIndex_inj.mp (active.symm.trans user.active)
  have ranged' : Ranged k := by
    rw [kernel]
    exact ranged
  have empty : k.status p.running = .empty := by
    rw [kernel]
    exact congrArg SimplosTask.status (modifyTask_self os.kernel p.running
      fun t => { t with status := .empty, taskSpAdr := blockHigh p.running, name := some "" })
  have others : ∀ i, i ≠ p.running → k.tasks i = os.kernel.tasks i := by
    intro i other
    rw [kernel]
    exact modifyTask_of_ne os.kernel p.running
      (fun t => { t with status := .empty, taskSpAdr := blockHigh p.running, name := some "" }) other
  have stays : ∀ sp, savePrevious p.running ({ os with kernel := k : Os }.contextSwtich sp) =
      { os with kernel := k : Os }.contextSwtich sp := fun sp => savePrevious_ended empty
  have succeeds := ended.switch_iff sw user.noneScheduled ranged' places pending
  have step : os.step .atmega2560 (.kill sw) = { os with kernel := k : Os }.switchAway .atmega2560 sw := by
    rw [Os.step, killed, ok_bind]
  rw [step, succeeds, stays]
  constructor
  · rintro ⟨-, q, turn, resumed⟩
    refine ⟨q, .finish turn, ?_⟩
    rwa [ContextsPass, ← others q.running turn.running_ne]
  · rintro ⟨q, step, resumed⟩
    cases step with
    | finish turn =>
      refine ⟨⟨fun busy => absurd empty busy, fun busy => absurd empty busy⟩, q, turn, ?_⟩
      rwa [ContextsPass, ← others q.running turn.running_ne] at resumed

theorem Serves.spawn_iff {name : ProgmemString} {priority : Byte} {sp : Word} {os : Os} {p : TaskPool}
    (serves : Serves os p) : (∃ os', os.step .atmega2560 (.spawn name priority sp) = .ok os') ↔
      ∃ q, Lib.Pool.Step 255 p (.create priority.toNat) q ∧ ContextsPass os p q (.spawn name priority sp) := by
  obtain ⟨scheduler, user⟩ := serves.user
  constructor
  · rintro ⟨os', step⟩
    obtain ⟨⟨pid, after⟩, spawned, -⟩ := bind_eq_ok.mp step
    obtain ⟨q, step, -⟩ := serves.spawn spawned
    exact ⟨q, step, trivial⟩
  · rintro ⟨q, step, -⟩
    cases step with
    | @create t _ free =>
      have empty : (os.kernel.tasks t).status = .empty := by
        rw [← place_free, ← serves.represents.places]
        exact free.free
      obtain ⟨slot, lowest⟩ := exists_lowestEmpty ⟨t, empty⟩
      have created : ∃ pid after, spawnTask .atmega2560 name priority sp os = .ok (pid, after) :=
        spawnTask_succeeds user lowest.firstEmpty
      obtain ⟨pid, after, spawned⟩ := created
      exact ⟨after, bind_eq_ok.mpr ⟨_, spawned, rfl⟩⟩

/-- **A step succeeds exactly when the pool has it and the checked contexts pass.** -/
theorem Serves.step_iff {os : Os} {p : TaskPool} (serves : Serves os p) (ranged : Ranged os.kernel) (a : Action) :
    (∃ os', os.step .atmega2560 a = .ok os') ↔ ∃ q, Lib.Pool.Step 255 p a.request q ∧ ContextsPass os p q a := by
  cases a with
  | spawn name priority sp => exact serves.spawn_iff
  | setPriority priority =>
    obtain ⟨scheduler, user⟩ := serves.user
    refine iff_of_true ?_ ⟨_, .setPriority p priority.toNat, trivial⟩
    simp only [Os.step, Simplos.setPriority, indexOfCurrentTask, user.active, derefTask_slotIndex, ok_bind]
    exact ⟨_, rfl⟩
  | yield sw => exact serves.yield_iff ranged
  | kill sw => exact serves.kill_iff ranged

/-! ## A run keeps the ranges -/

theorem switchAway_ranges {sw : Switch} {os os' : Os} {scheduler : Option (Fin tasksMax)} {prev : Fin tasksMax}
    (inv : RoundInv os.kernel scheduler prev) (none : os.nextTaskSp = 0) (h : os.switchAway .atmega2560 sw = .ok os') :
    os'.kernel.taskRamRanges = os.kernel.taskRamRanges := by
  rw [Os.switchAway, if_pos none, bind_eq_ok] at h
  obtain ⟨done, round, last⟩ := h
  obtain rfl := pure_eq_ok.mp last
  have atRound : RoundInv (os.contextSwtich sw.sp).kernel scheduler prev := inv
  obtain ⟨entry, next, -, -, -, rfl⟩ := atRound.round_ok round
  exact savePrevious_ranges prev (os.contextSwtich sw.sp)

theorem UserInv.step_ranges {os os' : Os} {scheduler : Option (Fin tasksMax)} {current : Fin tasksMax} {a : Action}
    (user : UserInv os scheduler current) (h : os.step .atmega2560 a = .ok os') :
    os'.kernel.taskRamRanges = os.kernel.taskRamRanges := by
  cases a with
  | spawn name priority sp =>
    obtain ⟨⟨pid, after⟩, spawned, last⟩ := bind_eq_ok.mp h
    obtain rfl := pure_eq_ok.mp last
    obtain ⟨new, old, high, -, -, -, -, kernel, -⟩ := spawnTask_ok spawned
    rw [kernel]
    rfl
  | setPriority priority =>
    obtain ⟨k, set, last⟩ := bind_eq_ok.mp h
    obtain rfl := pure_eq_ok.mp last
    obtain ⟨slot, -, rfl⟩ := setPriority_ok set
    rfl
  | yield sw => exact switchAway_ranges user.yielding user.noneScheduled h
  | kill sw =>
    obtain ⟨k, killed, rest⟩ := bind_eq_ok.mp h
    have ended : RoundInv { os with kernel := k : Os }.kernel scheduler current := user.killed killed
    refine (switchAway_ranges ended user.noneScheduled rest).trans ?_
    obtain ⟨slot, -, rfl⟩ := killCurrentTask_ok killed
    rfl

theorem boot_ranged {mainSp idleSp : Word} {sw : Switch} {os : Os}
    (h : boot .atmega2560 mainSp idleSp sw = .ok os) : Ranged os.kernel := by
  simp only [boot, bind_eq_ok] at h
  obtain ⟨main, booted, ⟨pid, spawned⟩, spawn, start⟩ := h
  obtain ⟨slot, entered, done, -, kernel, inv, round, rfl⟩ := startScheduler_ok booted spawn start
  obtain ⟨entry, next, -, -, -, rfl⟩ := inv.round_ok round
  obtain ⟨new, old, high, -, -, -, -, spawnedKernel, -⟩ := spawnTask_ok spawn
  obtain ⟨created, make, mainKernel, -⟩ := bootMain_ok booted
  obtain ⟨slot', high', -, -, -, rfl⟩ := createSimplosTask_ok make
  intro slot
  have entering : entered.kernel.taskRamRanges = initialKernel.taskRamRanges := by
    rw [kernel, modifyTask_taskRamRanges, spawnedKernel]
    show main.kernel.taskRamRanges = _
    rw [mainKernel]
    rfl
  exact congrFun ((savePrevious_ranges _ entered).trans entering) slot

theorem Serves.run_ranged {actions : List Action} {os os' : Os} {p : TaskPool} (serves : Serves os p)
    (ranged : Ranged os.kernel) (ran : Lib.run (Os.step .atmega2560) os actions = .ok os') : Ranged os'.kernel := by
  have kept := Lib.run_invariant (fun os => (∃ p, Serves os p) ∧ Ranged os.kernel)
    (fun s a s' before step => by
      obtain ⟨⟨p, serves⟩, ranged⟩ := before
      obtain ⟨scheduler, user⟩ := serves.user
      obtain ⟨q, -, after⟩ := serves.step step
      exact ⟨⟨q, after⟩, fun slot => (congrFun (user.step_ranges step) slot).trans (ranged slot)⟩)
    ⟨⟨p, serves⟩, ranged⟩ ran
  exact kept.2

theorem Reachable.serves {os : Os} (reached : Reachable os) : ∃ p, Serves os p ∧ p.Sound ∧ Ranged os.kernel := by
  obtain ⟨mainSp, idleSp, sw, start, actions, booted, ran⟩ := reached
  have serves := boot_serves booted
  obtain ⟨p, trace, after⟩ := serves.run ran
  have sound := trace.invariant Lib.Pool.Sound (fun _ _ _ sound step => step.sound sound) bootPool_sound
  exact ⟨p, after, sound, serves.run_ranged (boot_ranged booted) ran⟩

/-- **When the system goes on.** In every state of a run the kernel stores a pool, and an action succeeds exactly when
the pool has a step for its request and the contexts it saves and resumes pass the checks. -/
theorem step_succeeds_iff {os : Os} (reached : Reachable os) :
    ∃ p, Represents os.kernel p ∧ ∀ a, (∃ os', os.step .atmega2560 a = .ok os') ↔
      ∃ q, Lib.Pool.Step 255 p a.request q ∧ ContextsPass os p q a := by
  obtain ⟨p, serves, -, ranged⟩ := reached.serves
  exact ⟨p, serves.represents, serves.step_iff ranged⟩

theorem step_succeeds_iff_after_boot : ∃ os p, boot .atmega2560 0x1FF0 0x5A0 bootSwitch = .ok os ∧
    Represents os.kernel p ∧ ∀ a, (∃ os', os.step .atmega2560 a = .ok os') ↔
      ∃ q, Lib.Pool.Step 255 p a.request q ∧ ContextsPass os p q a := by
  obtain ⟨os, booted⟩ := boot_succeeds
  obtain ⟨p, represents, succeeds⟩ := step_succeeds_iff (boot_reachable booted)
  exact ⟨os, p, booted, represents, succeeds⟩

end Simplos
