import Simplos.Lib.Ledger
import Simplos.Kernel.Pids

/-!
# Execution time over whole runs

The active task's `time_counter` is charged; `kill_current_task` adds it to
`ended_task_time_counter`. A ledger records what was really charged, one account per task created,
held by the task's slot. Neither `kill_current_task` nor `add_to_task_list` resets a `time_counter`,
so the two agree only as long as every task is created in a slot whose counter is zero.
-/

namespace Simplos
set_option autoImplicit false
open Lib (bind_eq_ok ok_bind)

/-- One account per task created in the run; it is closed when the task ends. -/
abbrev TaskLedger := Lib.Ledger (Fin tasksMax) Nat

/-- An action of the system, or ticks charged to the active task. -/
inductive TimedAction where
  | act (a : Action)
  | charge (ticks : Nat)

/-- `time_counter += ticks` for the active task. -/
def chargeActive (ticks : Nat) (kernel : Kernel) : Exec Kernel := do
  let current ← derefTask (indexOfCurrentTask kernel)
  return kernel.modifyTask current fun t => { t with timeCounter := t.timeCounter + BitVec.ofNat 32 ticks }

/-- A step of the system with the ledger of the ticks charged. -/
def timedStep (b : Build) (s : Os × TaskLedger) : TimedAction → Exec (Os × TaskLedger)
  | .charge ticks => do
    let current ← derefTask (indexOfCurrentTask s.1.kernel)
    let kernel ← chargeActive ticks s.1.kernel
    return ({ s.1 with kernel := kernel }, s.2.post current ticks)
  | .act (.spawn name priority sp) => do
    let (_, os) ← spawnTask b name priority sp s.1
    let new ← derefTask (indexOfCurrentTask os.kernel)
    return (os, s.2.enter new)
  | .act (.kill sw) => do
    let current ← derefTask (indexOfCurrentTask s.1.kernel)
    let os ← s.1.step b (.kill sw)
    return (os, s.2.close current)
  | .act a => do return (← s.1.step b a, s.2)

/-- `boot` with the accounts of the two tasks it creates. -/
def timedBoot (b : Build) (mainSp idleSp : Word) (sw : Switch) : Exec (Os × TaskLedger) := do
  let main ← bootMain b mainSp
  let idle ← derefTask (indexOfCurrentTask main.kernel)
  let (_, spawned) ← spawnTask b (some "OS scheduler") 0 idleSp main
  let scheduler ← derefTask (indexOfCurrentTask spawned.kernel)
  let os ← startScheduler b sw spawned
  return (os, Lib.Ledger.enter (Lib.Ledger.enter [] idle) scheduler)

/-- The counters agree with the ledger: the total with the tasks that have ended, and the counter of
every slot in use with the one task that lives there, all modulo 2³². -/
structure TimeCharged (k : Kernel) (ledger : TaskLedger) : Prop where
  ended : k.endedTaskTimeCounter = BitVec.ofNat 32 ledger.closedTotal
  live : ∀ i, k.status i ≠ .empty → ∃ account, ledger.openAt i = [account] ∧
    (k.tasks i).timeCounter = BitVec.ofNat 32 account.amount

/-- The step does not create a task in a slot whose `time_counter` is not zero. -/
def TakesUncharged (os : Os) : TimedAction → Prop
  | .act (.spawn _ _ _) => ∀ slot, firstEmpty os.kernel.tasks = some slot → (os.kernel.tasks slot).timeCounter = 0
  | _ => True

/-- A slot in use has one open account, an EMPTY slot none. -/
structure OneAccount (k : Kernel) (ledger : TaskLedger) : Prop where
  live : ∀ i, k.status i ≠ .empty → ∃ account, ledger.openAt i = [account]
  vacant : ∀ i, k.status i = .empty → ledger.openAt i = []

/-! ## What leaves the counters alone -/

structure SameCounters (k k' : Kernel) : Prop where
  time : ∀ i, (k'.tasks i).timeCounter = (k.tasks i).timeCounter
  ended : k'.endedTaskTimeCounter = k.endedTaskTimeCounter

theorem SameCounters.of_tasks {k k' : Kernel} (tasks : k'.tasks = k.tasks)
    (ended : k'.endedTaskTimeCounter = k.endedTaskTimeCounter) : SameCounters k k' :=
  ⟨fun i => by rw [tasks], ended⟩

theorem SameCounters.trans {k k' k'' : Kernel} (first : SameCounters k k') (second : SameCounters k' k'') :
    SameCounters k k'' :=
  ⟨fun i => (second.time i).trans (first.time i), second.ended.trans first.ended⟩

theorem SameCounters.modify (k : Kernel) (slot : Fin tasksMax) {f : SimplosTask → SimplosTask}
    (time : (f (k.tasks slot)).timeCounter = (k.tasks slot).timeCounter) : SameCounters k (k.modifyTask slot f) := by
  refine ⟨fun i => ?_, rfl⟩
  rw [modifyTask_apply]
  split
  · rename_i here
    rw [time, here]
  · rfl

theorem savePrevious_counters (prev : Fin tasksMax) (os : Os) :
    SameCounters os.kernel (savePrevious prev os).kernel := by
  unfold savePrevious
  split
  · exact .modify os.kernel prev rfl
  · exact .modify os.kernel prev rfl
  · exact .of_tasks rfl rfl

theorem selected_counters (os : Os) (next : Fin tasksMax) : SameCounters os.kernel (os.selected next).kernel := by
  have advanced : SameCounters os.kernel (os.kernel.withQueue os.kernel.schedule.queue.advance) :=
    .of_tasks (by rw [withQueue_tasks, advance_tasks]) rfl
  have marked := SameCounters.modify (os.kernel.withQueue os.kernel.schedule.queue.advance) next
    (f := fun t => { t with status := .running }) rfl
  exact (advanced.trans marked).trans (.of_tasks rfl rfl)

theorem RoundInv.round_counters {mem : DataMemory} {os os' : Os} {scheduler : Option (Fin tasksMax)}
    {prev : Fin tasksMax} (inv : RoundInv os.kernel scheduler prev)
    (h : schedulerRound .atmega2560 mem os = .ok os') : SameCounters os.kernel os'.kernel := by
  obtain ⟨entry, next, -, -, -, rfl⟩ := inv.round_ok h
  exact (savePrevious_counters prev os).trans (selected_counters _ next)

theorem RoundInv.switch_counters {sw : Switch} {os os' : Os} {scheduler : Option (Fin tasksMax)}
    {prev : Fin tasksMax} (inv : RoundInv os.kernel scheduler prev) (none : os.nextTaskSp = 0)
    (h : os.switchAway .atmega2560 sw = .ok os') : SameCounters os.kernel os'.kernel := by
  rw [Os.switchAway, if_pos none, bind_eq_ok] at h
  obtain ⟨done, round, last⟩ := h
  obtain rfl := pure_eq_ok.mp last
  have atRound : RoundInv (os.contextSwtich sw.sp).kernel scheduler prev := inv
  have same := atRound.round_counters round
  exact same

theorem TimeCharged.congr {k k' : Kernel} {ledger : TaskLedger} (h : TimeCharged k ledger)
    (counters : SameCounters k k') (occupants : SameOccupants k k') : TimeCharged k' ledger := by
  refine ⟨counters.ended.trans h.ended, fun i busy => ?_⟩
  obtain ⟨account, only, time⟩ := h.live i ((occupants.vacant i).not.mp busy)
  exact ⟨account, only, (counters.time i).trans time⟩

theorem OneAccount.congr {k k' : Kernel} {ledger : TaskLedger} (h : OneAccount k ledger)
    (occupants : SameOccupants k k') : OneAccount k' ledger :=
  ⟨fun i busy => h.live i ((occupants.vacant i).not.mp busy), fun i empty => h.vacant i ((occupants.vacant i).mp empty)⟩

/-! ## What the operations do to the accounts -/

section Operations

variable {k k' : Kernel} {ledger : TaskLedger} {slot : Fin tasksMax}

/-- `k'` has a task in `slot` and is otherwise occupied and counted as `k`. -/
structure Occupies (k k' : Kernel) (slot : Fin tasksMax) : Prop where
  busy : k'.status slot ≠ .empty
  other : ∀ i, i ≠ slot → (k'.status i = .empty ↔ k.status i = .empty)
  counters : SameCounters k k'

theorem OneAccount.spawn (h : OneAccount k ledger) (vacant : k.status slot = .empty) (taken : Occupies k k' slot) :
    OneAccount k' (ledger.enter slot) := by
  refine ⟨fun i busy => ?_, fun i empty => ?_⟩ <;> by_cases here : i = slot
  · subst here
    exact ⟨⟨i, 0, false⟩, by rw [Lib.Ledger.openAt_enter_self, h.vacant i vacant, List.nil_append]⟩
  · rw [Lib.Ledger.openAt_enter_of_ne _ here]
    exact h.live i ((taken.other i here).not.mp busy)
  · subst here
    exact absurd empty taken.busy
  · rw [Lib.Ledger.openAt_enter_of_ne _ here]
    exact h.vacant i ((taken.other i here).mp empty)

/-- **A creation** keeps the counters right exactly when it takes a slot whose counter is zero. -/
theorem TimeCharged.spawn_iff (h : TimeCharged k ledger) (one : OneAccount k ledger)
    (vacant : k.status slot = .empty) (taken : Occupies k k' slot) :
    TimeCharged k' (ledger.enter slot) ↔ (k.tasks slot).timeCounter = 0 := by
  have fresh : (ledger.enter slot).openAt slot = [⟨slot, 0, false⟩] := by
    rw [Lib.Ledger.openAt_enter_self, one.vacant slot vacant, List.nil_append]
  constructor
  · intro after
    obtain ⟨account, only, time⟩ := after.live slot taken.busy
    rw [fresh] at only
    obtain rfl := List.head_eq_of_cons_eq only
    rw [← taken.counters.time slot, time]
    rfl
  · intro uncharged
    refine ⟨?_, fun i busy => ?_⟩
    · rw [taken.counters.ended, Lib.Ledger.closedTotal_enter]
      exact h.ended
    · by_cases here : i = slot
      · subst here
        refine ⟨_, fresh, ?_⟩
        rw [taken.counters.time, uncharged]
        rfl
      · rw [Lib.Ledger.openAt_enter_of_ne _ here, taken.counters.time]
        exact h.live i ((taken.other i here).not.mp busy)

/-- `k'` has lost the task in `slot`, whose counter was added to the total. -/
structure Vacates (k k' : Kernel) (slot : Fin tasksMax) : Prop where
  empty : k'.status slot = .empty
  other : ∀ i, i ≠ slot → (k'.status i = .empty ↔ k.status i = .empty)
  time : ∀ i, (k'.tasks i).timeCounter = (k.tasks i).timeCounter
  ended : k'.endedTaskTimeCounter = k.endedTaskTimeCounter + (k.tasks slot).timeCounter

theorem OneAccount.kill (h : OneAccount k ledger) (left : Vacates k k' slot) : OneAccount k' (ledger.close slot) := by
  refine ⟨fun i busy => ?_, fun i empty => ?_⟩ <;> by_cases here : i = slot
  · subst here
    exact absurd left.empty busy
  · rw [Lib.Ledger.openAt_close_of_ne _ here]
    exact h.live i ((left.other i here).not.mp busy)
  · subst here
    exact Lib.Ledger.openAt_close_self ledger
  · rw [Lib.Ledger.openAt_close_of_ne _ here]
    exact h.vacant i ((left.other i here).mp empty)

/-- The end of a task moves its ticks into the total. -/
theorem TimeCharged.kill (h : TimeCharged k ledger) (occupied : k.status slot ≠ .empty) (left : Vacates k k' slot) :
    TimeCharged k' (ledger.close slot) := by
  obtain ⟨account, only, time⟩ := h.live slot occupied
  refine ⟨?_, fun i busy => ?_⟩
  · rw [left.ended, h.ended, time, Lib.Ledger.closedTotal_close, only, BitVec.ofNat_add]
    simp
  · have other : i ≠ slot := by
      rintro rfl
      exact busy left.empty
    rw [Lib.Ledger.openAt_close_of_ne _ other, left.time]
    exact h.live i ((left.other i other).not.mp busy)

/-- `ticks` were charged to the task in `slot`. -/
def Kernel.charged (k : Kernel) (slot : Fin tasksMax) (ticks : Nat) : Kernel :=
  k.modifyTask slot fun t => { t with timeCounter := t.timeCounter + BitVec.ofNat 32 ticks }

theorem charged_status (k : Kernel) (slot : Fin tasksMax) (ticks : Nat) : (k.charged slot ticks).status = k.status := by
  funext i
  unfold Kernel.status Kernel.charged
  rw [modifyTask_apply]
  split
  · rename_i here
    rw [here]
  · rfl

theorem OneAccount.charge (h : OneAccount k ledger) (ticks : Nat) :
    OneAccount (k.charged slot ticks) (ledger.post slot ticks) := by
  refine ⟨fun i busy => ?_, fun i empty => ?_⟩ <;> rw [charged_status] at * <;> by_cases here : i = slot
  · subst here
    obtain ⟨account, only⟩ := h.live i busy
    exact ⟨_, by rw [Lib.Ledger.openAt_post_self, only]; rfl⟩
  · rw [Lib.Ledger.openAt_post_of_ne _ _ here]
    exact h.live i busy
  · subst here
    rw [Lib.Ledger.openAt_post_self, h.vacant i empty]
    rfl
  · rw [Lib.Ledger.openAt_post_of_ne _ _ here]
    exact h.vacant i empty

theorem TimeCharged.charge (h : TimeCharged k ledger) (ticks : Nat) :
    TimeCharged (k.charged slot ticks) (ledger.post slot ticks) := by
  refine ⟨?_, fun i busy => ?_⟩
  · rw [Lib.Ledger.closedTotal_post]
    exact h.ended
  · rw [charged_status] at busy
    obtain ⟨account, only, time⟩ := h.live i busy
    by_cases here : i = slot
    · subst here
      refine ⟨{ account with amount := account.amount + ticks }, ?_, ?_⟩
      · rw [Lib.Ledger.openAt_post_self, only]
        rfl
      · rw [Kernel.charged, modifyTask_self, BitVec.ofNat_add, time]
    · refine ⟨account, ?_, ?_⟩
      · rw [Lib.Ledger.openAt_post_of_ne _ _ here, only]
      · rw [Kernel.charged, modifyTask_of_ne k slot _ here, time]

end Operations

/-! ## One step -/

theorem spawned_occupies {name : ProgmemString} {priority : Byte} {sp pid : Word} {os os' : Os}
    {scheduler : Option (Fin tasksMax)} {current : Fin tasksMax} (user : UserInv os scheduler current)
    (h : spawnTask .atmega2560 name priority sp os = .ok (pid, os')) :
    ∃ new, firstEmpty os.kernel.tasks = some new ∧ indexOfCurrentTask os'.kernel = slotIndex new ∧
      Occupies os.kernel os'.kernel new := by
  obtain ⟨new, old, high, first, active, -, -, kernel, -⟩ := spawnTask_ok h
  obtain rfl : old = current := slotIndex_inj.mp (active.symm.trans user.active)
  have running : os.kernel.status old = .running := (user.kernel.status.running old).mpr rfl
  have vacant : os.kernel.status new = .empty := firstEmpty_some first
  have apart : old ≠ new := fun same => by simp [same, vacant] at running
  refine ⟨new, first, by rw [kernel]; rfl, ?_⟩
  have status : os'.kernel.status = Function.update (Function.update os.kernel.status new .running) old .ready := by
    rw [kernel, spawned_status]
  constructor
  case busy =>
    rw [status, Function.update_of_ne apart.symm, Function.update_self]
    exact nofun
  case other =>
    intro i other
    rw [status]
    by_cases parent : i = old
    · rw [parent, Function.update_self, running]
      exact iff_of_false nofun nofun
    · rw [Function.update_of_ne parent, Function.update_of_ne other]
  case counters =>
    have made := SameCounters.modify os.kernel new (f := fun t => { t with
      priority := priority, status := .running, taskSpAdr := high, pid := os.kernel.pidCnt, name := name }) rfl
    have stopped := SameCounters.modify (os.kernel.modifyTask new fun t => { t with
      priority := priority, status := .running, taskSpAdr := high, pid := os.kernel.pidCnt, name := name }) old
      (f := fun t => { t with status := .ready, taskSpAdr := sp }) rfl
    rw [kernel]
    exact (made.trans stopped).trans (.of_tasks rfl rfl)

theorem killed_vacates {k k' : Kernel} {slot : Fin tasksMax} (active : k.schedule.activeTaskBlock = slotIndex slot)
    (h : killCurrentTask .atmega2560 k = .ok k') : Vacates k k' slot := by
  obtain ⟨slot', active', rfl⟩ := killCurrentTask_ok h
  obtain rfl : slot = slot' := slotIndex_inj.mp (active.symm.trans active')
  have status := status_modifyTask k slot
    fun t => { t with status := .empty, taskSpAdr := blockHigh slot, name := some "" }
  have counters := SameCounters.modify k slot
    (f := fun t => { t with status := .empty, taskSpAdr := blockHigh slot, name := some "" }) rfl
  constructor
  case empty =>
    refine (congrFun status slot).trans ?_
    rw [Function.update_self]
  case other =>
    intro i other
    have same := congrFun status i
    rw [Function.update_of_ne other] at same
    exact iff_of_eq (congrArg (· = TaskStatus.empty) same)
  case time => exact counters.time
  case ended => rfl

theorem Vacates.trans {k k' k'' : Kernel} {slot : Fin tasksMax} (left : Vacates k k' slot)
    (counters : SameCounters k' k'') (occupants : SameOccupants k' k'') : Vacates k k'' slot where
  empty := (occupants.vacant slot).mpr left.empty
  other i other := (occupants.vacant i).trans (left.other i other)
  time i := (counters.time i).trans (left.time i)
  ended := counters.ended.trans left.ended

/-- The states of a timed run: a user task executes and every slot in use has one open account. -/
def TimedInv (s : Os × TaskLedger) : Prop :=
  (∃ scheduler current, UserInv s.1 (some scheduler) current) ∧ OneAccount s.1.kernel s.2

/-- A step from `s` to `s'` preserves the invariant, and keeps the counters right exactly when it creates no
task in a slot whose counter is not zero. -/
def ExactStep (s : Os × TaskLedger) (a : TimedAction) (s' : Os × TaskLedger) : Prop :=
  TimedInv s' ∧ (TimeCharged s.1.kernel s.2 → (TimeCharged s'.1.kernel s'.2 ↔ TakesUncharged s.1 a))

section Steps

variable {os os' : Os} {ledger : TaskLedger} {scheduler current : Fin tasksMax}

theorem charge_exact (user : UserInv os (some scheduler) current) (one : OneAccount os.kernel ledger) (ticks : Nat) :
    ExactStep (os, ledger) (.charge ticks)
      ({ os with kernel := os.kernel.charged current ticks }, ledger.post current ticks) := by
  have charged : UserInv { os with kernel := os.kernel.charged current ticks } (some scheduler) current :=
    ⟨user.active, user.kernel.modify current rfl rfl, user.noneScheduled⟩
  exact ⟨⟨⟨scheduler, current, charged⟩, one.charge ticks⟩, fun right => iff_of_true (right.charge ticks) trivial⟩

theorem spawn_exact {name : ProgmemString} {priority : Byte} {sp pid : Word} {new : Fin tasksMax}
    (user : UserInv os (some scheduler) current) (one : OneAccount os.kernel ledger)
    (spawned : spawnTask .atmega2560 name priority sp os = .ok (pid, os'))
    (atNew : derefTask (indexOfCurrentTask os'.kernel) = .ok new) :
    ExactStep (os, ledger) (.act (.spawn name priority sp)) (os', ledger.enter new) := by
  obtain ⟨new', first, active, taken⟩ := spawned_occupies user spawned
  rw [active, derefTask_slotIndex] at atNew
  obtain rfl := Except.ok.inj atNew
  have vacant : os.kernel.status new' = .empty := firstEmpty_some first
  refine ⟨⟨⟨scheduler, user.spawn spawned⟩, one.spawn vacant taken⟩, fun right => ?_⟩
  refine (right.spawn_iff one vacant taken).trans ⟨fun zero slot found => ?_, fun zero => zero new' first⟩
  obtain rfl := Option.some.inj (first.symm.trans found)
  exact zero

theorem kill_exact {sw : Switch} (user : UserInv os (some scheduler) current) (one : OneAccount os.kernel ledger)
    (done : os.step .atmega2560 (.kill sw) = .ok os') :
    ExactStep (os, ledger) (.act (.kill sw)) (os', ledger.close current) := by
  have user' := user.step done
  obtain ⟨k, killed, rest⟩ := bind_eq_ok.mp done
  have ended : RoundInv { os with kernel := k : Os }.kernel (some scheduler) current := user.killed killed
  have left : Vacates os.kernel os'.kernel current := (killed_vacates user.active killed).trans
    (ended.switch_counters user.noneScheduled rest) (ended.switch_occupants user.noneScheduled rest)
  have busy : os.kernel.status current ≠ .empty := by
    rw [(user.kernel.status.running current).mpr rfl]
    exact nofun
  exact ⟨⟨⟨scheduler, user'⟩, one.kill left⟩, fun right => iff_of_true (right.kill busy left) trivial⟩

/-- The actions that neither create nor end a task. -/
theorem quiet_exact {a : Action} (user' : ∃ next, UserInv os' (some scheduler) next) (one : OneAccount os.kernel ledger)
    (occupants : SameOccupants os.kernel os'.kernel) (counters : SameCounters os.kernel os'.kernel)
    (uncharged : TakesUncharged os (.act a)) : ExactStep (os, ledger) (.act a) (os', ledger) :=
  ⟨⟨⟨scheduler, user'⟩, one.congr occupants⟩, fun right => iff_of_true (right.congr counters occupants) uncharged⟩

end Steps

/-- **Every step is exact.** -/
theorem timedStep_exact {s s' : Os × TaskLedger} {a : TimedAction} (inv : TimedInv s)
    (h : timedStep .atmega2560 s a = .ok s') : ExactStep s a s' := by
  obtain ⟨os, ledger⟩ := s
  obtain ⟨⟨scheduler, current, user⟩, one⟩ := inv
  have atCurrent : derefTask (indexOfCurrentTask os.kernel) = .ok current := by
    rw [indexOfCurrentTask, user.active, derefTask_slotIndex]
  cases a with
  | charge ticks =>
    simp only [timedStep, chargeActive, atCurrent, ok_bind] at h
    obtain rfl := pure_eq_ok.mp h
    exact charge_exact user one ticks
  | act a =>
    cases a with
    | spawn name priority sp =>
      simp only [timedStep, bind_eq_ok] at h
      obtain ⟨⟨pid, os'⟩, spawned, new, atNew, last⟩ := h
      obtain rfl := pure_eq_ok.mp last
      exact spawn_exact user one spawned atNew
    | setPriority priority =>
      obtain ⟨os', done, last⟩ := bind_eq_ok.mp h
      obtain rfl := pure_eq_ok.mp last
      have user' := user.step done
      obtain ⟨k, set, last⟩ := bind_eq_ok.mp done
      obtain rfl := pure_eq_ok.mp last
      obtain ⟨slot, -, rfl⟩ := setPriority_ok set
      exact quiet_exact user' one (.modify os.kernel slot rfl .rfl) (.modify os.kernel slot rfl) trivial
    | yield sw =>
      obtain ⟨os', done, last⟩ := bind_eq_ok.mp h
      obtain rfl := pure_eq_ok.mp last
      exact quiet_exact (user.step done) one (user.yielding.switch_occupants user.noneScheduled done)
        (user.yielding.switch_counters user.noneScheduled done) trivial
    | kill sw =>
      simp only [timedStep, atCurrent, ok_bind, bind_eq_ok] at h
      obtain ⟨os', done, last⟩ := h
      obtain rfl := pure_eq_ok.mp last
      exact kill_exact user one done

/-! ## A run -/

/-- `main` creates one task, in slot 0, and charges nothing. -/
theorem bootMain_uncharged {sp : Word} {os : Os} (h : bootMain .atmega2560 sp = .ok os) :
    OneAccount os.kernel (Lib.Ledger.enter [] 0) ∧ TimeCharged os.kernel (Lib.Ledger.enter [] 0) ∧
      ∀ i, (os.kernel.tasks i).timeCounter = 0 := by
  obtain ⟨created, make, kernel, -⟩ := bootMain_ok h
  obtain ⟨slot, high, -, index, -, rfl⟩ := createSimplosTask_ok make
  obtain rfl : 0 = slot := slotIndex_inj.mp index
  have counters : SameCounters initialKernel os.kernel := by
    rw [kernel]
    exact (SameCounters.modify initialKernel 0 (f := fun t => { t with
      priority := 0, status := .running, taskSpAdr := high, pid := 0, name := some "idle task" }) rfl).trans
      (.of_tasks rfl rfl)
  have status : os.kernel.status = Function.update initialKernel.status 0 .running := by
    rw [kernel]
    exact status_modifyTask initialKernel 0 fun t => { t with
      priority := 0, status := .running, taskSpAdr := high, pid := 0, name := some "idle task" }
  have taken : Occupies initialKernel os.kernel 0 := by
    refine ⟨?_, fun i other => ?_, counters⟩
    · rw [status, Function.update_self]
      exact nofun
    · rw [status, Function.update_of_ne other]
  have none : OneAccount initialKernel [] := ⟨fun i busy => absurd rfl busy, fun i _ => rfl⟩
  have zero : TimeCharged initialKernel [] := ⟨rfl, fun i busy => absurd rfl busy⟩
  exact ⟨none.spawn rfl taken, (zero.spawn_iff none rfl taken).mpr rfl, fun i => counters.time i⟩

theorem timedBoot_inv {mainSp idleSp : Word} {sw : Switch} {s : Os × TaskLedger}
    (h : timedBoot .atmega2560 mainSp idleSp sw = .ok s) : TimedInv s ∧ TimeCharged s.1.kernel s.2 := by
  simp only [timedBoot, bind_eq_ok] at h
  obtain ⟨main, booted, idle, atIdle, ⟨pid, spawned⟩, spawn, new, atNew, os, start, last⟩ := h
  obtain rfl := pure_eq_ok.mp last
  have user := bootMain_inv booted
  obtain rfl : idle = 0 := slotIndex_inj.mp ((eq_slotIndex_of_deref atIdle).symm.trans user.active)
  obtain ⟨one, right, uncharged⟩ := bootMain_uncharged booted
  obtain ⟨new', first, active, taken⟩ := spawned_occupies user spawn
  rw [active, derefTask_slotIndex] at atNew
  obtain rfl := Except.ok.inj atNew
  have vacant : main.kernel.status new' = .empty := firstEmpty_some first
  have one' := one.spawn vacant taken
  have right' := (right.spawn_iff one vacant taken).mpr (uncharged new')
  obtain ⟨slot, entered, done, running, kernel, inv, round, rfl⟩ := startScheduler_ok booted spawn start
  obtain ⟨next, nextActive, resumed⟩ := inv.round round
  have marked := SameOccupants.modify spawned.kernel slot (f := fun t => { t with status := .scheduler }) rfl
    (by simp [running])
  have unchanged := SameCounters.modify spawned.kernel slot (f := fun t => { t with status := .scheduler }) rfl
  rw [← kernel] at marked unchanged
  have occupants := marked.trans (inv.round_occupants round)
  have counters := unchanged.trans (inv.round_counters round)
  exact ⟨⟨⟨slot, next, nextActive, resumed, rfl⟩, one'.congr occupants⟩, right'.congr counters occupants⟩

/-- **Time is charged once, to the task that used it,** in every state of a run exactly when no step
of the run creates a task in a slot whose counter is not zero. -/
theorem time_charged_once_iff {mainSp idleSp : Word} {sw : Switch} {start : Os × TaskLedger}
    (booted : timedBoot .atmega2560 mainSp idleSp sw = .ok start) (actions : List TimedAction) :
    (∀ as, as <+: actions → ∀ s, Lib.run (timedStep .atmega2560) start as = .ok s → TimeCharged s.1.kernel s.2) ↔
      ∀ as a, as ++ [a] <+: actions → ∀ s s', Lib.run (timedStep .atmega2560) start as = .ok s →
        timedStep .atmega2560 s a = .ok s' → TakesUncharged s.1 a := by
  obtain ⟨inv, right⟩ := timedBoot_inv booted
  exact Lib.run_prefix_iff (fun _ _ _ inv step => (timedStep_exact inv step).1)
    (fun _ _ _ inv right step => (timedStep_exact inv step).2 right) inv right actions

/-- The idle task is charged, spawns a task in a slot that was never charged, which is charged and ends, and is charged
again. -/
theorem time_charged_once_of_child :
    ∃ start s, timedBoot .atmega2560 0x1FF0 0x5A0 bootSwitch = .ok start ∧
      Lib.run (timedStep .atmega2560) start
        [.charge 7, .act (.spawn (some "task") 1 0x5A0), .charge 5, .act (.kill bootSwitch), .charge 2] = .ok s ∧
      s.2.closedTotal = 5 ∧ TimeCharged s.1.kernel s.2 := by
  have all : ∃ u, (timedBoot .atmega2560 0x1FF0 0x5A0 bootSwitch >>= fun start =>
      Lib.run (timedStep .atmega2560) start [.charge 7] >>= fun charged => Lib.run (timedStep .atmega2560) start
        [.charge 7, .act (.spawn (some "task") 1 0x5A0), .charge 5, .act (.kill bootSwitch), .charge 2] >>= fun s =>
      fatalIf .atmega2560 (!decide (s.2.closedTotal = 5 ∧ ∀ slot, firstEmpty charged.1.kernel.tasks = some slot →
        (charged.1.kernel.tasks slot).timeCounter = 0)) "") = .ok u := Lib.ok_of_isOk (by decide +kernel)
  obtain ⟨⟨⟩, all⟩ := all
  simp only [bind_eq_ok, fatalIf_ok, Bool.not_eq_false', decide_eq_true_eq] at all
  obtain ⟨start, booted, charged, once, s, ran, total, uncharged⟩ := all
  refine ⟨start, s, booted, ran, total, (time_charged_once_iff booted _).mpr (fun as a inside t t' before _ => ?_) _
    List.prefix_rfl s ran⟩
  obtain ⟨rest, split⟩ := inside
  -- the only step that creates a task comes behind the first charge
  rcases as with _ | ⟨a₁, _ | ⟨a₂, as⟩⟩
  · obtain ⟨rfl, -⟩ := List.cons.inj split
    trivial
  · obtain ⟨rfl, behind⟩ := List.cons.inj split
    obtain ⟨rfl, -⟩ := List.cons.inj behind
    cases once.symm.trans before
    exact uncharged
  · have member : a ∈ [TimedAction.charge 5, .act (.kill bootSwitch), .charge 2] := by
      obtain ⟨-, behind⟩ := List.cons.inj split
      obtain ⟨-, behind⟩ := List.cons.inj behind
      rw [← behind]
      simp
    simp only [List.mem_cons, List.not_mem_nil, or_false] at member
    rcases member with rfl | rfl | rfl <;> trivial

/-- Two tasks in turn in slot 2, of which only the first is charged. -/
def reusingSlot : List TimedAction :=
  [.act (.spawn (some "first") 1 0x5A0), .charge 5, .act (.kill bootSwitch),
    .act (.spawn (some "second") 1 0x5A0), .act (.kill bootSwitch)]

/-- The five ticks are counted with either task. -/
theorem reused_slot_charges_twice :
    ¬ ∀ mainSp idleSp sw start actions s, timedBoot .atmega2560 mainSp idleSp sw = .ok start →
      Lib.run (timedStep .atmega2560) start actions = .ok s → TimeCharged s.1.kernel s.2 := by
  intro always
  have all : ∃ u, (timedBoot .atmega2560 0x1FF0 0x5A0 bootSwitch >>= fun start =>
      Lib.run (timedStep .atmega2560) start reusingSlot >>= fun s => fatalIf .atmega2560 (!decide
        (s.1.kernel.endedTaskTimeCounter = 10 ∧ s.2.closedTotal = 5)) "") = .ok u :=
    Lib.ok_of_isOk (by decide +kernel)
  obtain ⟨⟨⟩, all⟩ := all
  simp only [bind_eq_ok, fatalIf_ok, Bool.not_eq_false', decide_eq_true_eq] at all
  obtain ⟨start, booted, s, ran, counted, charged⟩ := all
  have total := (always _ _ _ start reusingSlot s booted ran).ended
  rw [counted, charged] at total
  cases total

end Simplos
