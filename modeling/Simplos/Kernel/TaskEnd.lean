import Simplos.Kernel.Pids

/-!
# Waiting for the end of a task

`wait_for_task_finnish` asks `task_status` for a pid until it is EMPTY and yields in between. `get_task` looks the pid
up with the timer masked, but `task_status` reads the status through the pointer it got, when the timer is unmasked
again: other tasks may run in between, and another task may be in the slot by then.
-/

namespace Simplos
set_option autoImplicit false
open Lib (bind_eq_ok ok_bind)

/-- Where a task is in `wait_for_task_finnish`. -/
inductive Waiter where
  | away
  /-- `get_task` comes next. -/
  | checks (pid : Word)
  /-- `get_task` has found the slot; its status is read next. -/
  | found (pid : Word) (slot : Fin tasksMax)
  /-- The status was not EMPTY; `yield` comes next. -/
  | yields (pid : Word)

def Waiter.awaits : Waiter → Option Word
  | .away => none
  | .checks pid => some pid
  | .found pid _ => some pid
  | .yields pid => some pid

/-- The look-up. `task_status` is EMPTY for a pid that no slot holds. -/
def Waiter.look (pid : Word) (k : Kernel) : Waiter :=
  match getTask pid k with
  | some slot => .found pid slot
  | none => .away

/-- The comparison of the status that was read. -/
def Waiter.read (pid : Word) (slot : Fin tasksMax) (k : Kernel) : Waiter :=
  if (k.tasks slot).status ≠ .empty then .yields pid else .away

/-- The system with the tasks it has created and, for each slot, where its task waits. -/
structure WaitState where
  os : Os
  created : List Created
  waiters : Fin tasksMax → Waiter

def WaitState.set (s : WaitState) (slot : Fin tasksMax) (waiter : Waiter) : WaitState :=
  { s with waiters := Function.update s.waiters slot waiter }

/-- One step of the task that executes, or of the timer. The label is the task's slot if the step is one of its loop. A
task only ends when it is away, so a task that is created is away too. -/
inductive WaitStep (s : WaitState) : Option (Fin tasksMax) → WaitState → Prop where
  | acts {slot : Fin tasksMax} {a : Action} {os' : Os} {created' : List Created}
      (active : s.os.kernel.schedule.activeTaskBlock = slotIndex slot) (away : s.waiters slot = .away)
      (done : pidStep .atmega2560 (s.os, s.created) a = .ok (os', created')) :
      WaitStep s none { s with os := os', created := created' }
  | preempted {sw : Switch} {os' : Os} (done : s.os.step .atmega2560 (.yield sw) = .ok os') :
      WaitStep s none { s with os := os' }
  | calls {slot : Fin tasksMax} (pid : Word) (active : s.os.kernel.schedule.activeTaskBlock = slotIndex slot)
      (away : s.waiters slot = .away) : WaitStep s none (s.set slot (.checks pid))
  | looks {slot : Fin tasksMax} {pid : Word} (active : s.os.kernel.schedule.activeTaskBlock = slotIndex slot)
      (waits : s.waiters slot = .checks pid) : WaitStep s (some slot) (s.set slot (.look pid s.os.kernel))
  | reads {slot found : Fin tasksMax} {pid : Word} (active : s.os.kernel.schedule.activeTaskBlock = slotIndex slot)
      (waits : s.waiters slot = .found pid found) : WaitStep s (some slot) (s.set slot (.read pid found s.os.kernel))
  | yields {slot : Fin tasksMax} {pid : Word} {sw : Switch} {os' : Os}
      (active : s.os.kernel.schedule.activeTaskBlock = slotIndex slot) (waits : s.waiters slot = .yields pid)
      (done : s.os.step .atmega2560 (.yield sw) = .ok os') :
      WaitStep s (some slot) { s.set slot (.checks pid) with os := os' }

/-- The states of a run in which tasks may wait for each other. -/
def WaitReachable (s : WaitState) : Prop :=
  ∃ mainSp idleSp sw os created labels, pidBoot .atmega2560 mainSp idleSp sw = .ok (os, created) ∧
    Lib.Trace WaitStep ⟨os, created, fun _ => .away⟩ labels s

/-! ## What a step does to the records and the pids -/

/-- The tasks created so far, after a step of the task in the slot `active`. -/
inductive Records (active : Byte) (created : List Created) : List Created → Prop where
  | same : Records active created created
  | ends : Records active created (created.map (Created.endIn active))
  | creates (c : Created) (alive : c.ended = false) : Records active created (created ++ [c])

namespace Records

variable {active : Byte} {created created' : List Created}

theorem length_le (h : Records active created created') : created.length ≤ created'.length := by
  cases h with
  | same => exact Nat.le_refl _
  | ends => exact Nat.le_of_eq (List.length_map ..).symm
  | creates c alive => simp

/-- Every record stays, and may only be marked as ended. -/
theorem kept (h : Records active created created') {c : Created} (member : c ∈ created) :
    ∃ c' ∈ created', c'.pid = c.pid ∧ c'.slot = c.slot ∧ (c.ended = true → c'.ended = true) ∧
      (c.slot ≠ active → c' = c) := by
  cases h with
  | same => exact ⟨c, member, rfl, rfl, id, fun _ => rfl⟩
  | ends =>
    refine ⟨_, List.mem_map_of_mem member, endIn_pid _ c, endIn_slot _ c, fun ended => ?_, fun other => if_neg other⟩
    unfold Created.endIn
    split
    · rfl
    · exact ended
  | creates new alive => exact ⟨c, List.mem_append_left _ member, rfl, rfl, id, fun _ => rfl⟩

/-- Every record but that of a new task was there before. -/
theorem old (h : Records active created created') {c' : Created} (member : c' ∈ created') :
    c'.ended = false ∧ created' = created ++ [c'] ∨
      ∃ c ∈ created, c.pid = c'.pid ∧ c.slot = c'.slot ∧ (c'.ended = false → c.ended = false) := by
  cases h with
  | same => exact .inr ⟨c', member, rfl, rfl, id⟩
  | ends =>
    obtain ⟨c, before, rfl⟩ := List.mem_map.mp member
    refine .inr ⟨c, before, (endIn_pid _ c).symm, (endIn_slot _ c).symm, fun alive => ?_⟩
    rwa [(endIn_alive alive).2] at alive
  | creates new alive =>
    rcases List.mem_append.mp member with before | last
    · exact .inr ⟨c', before, rfl, rfl, id⟩
    · obtain rfl := List.mem_singleton.mp last
      exact .inl ⟨alive, rfl⟩

end Records

theorem pidStep_records {os os' : Os} {created created' : List Created} {a : Action}
    (h : pidStep .atmega2560 (os, created) a = .ok (os', created')) :
    Records (indexOfCurrentTask os.kernel) created created' := by
  cases a with
  | spawn name priority sp =>
    obtain ⟨⟨pid, after⟩, -, last⟩ := bind_eq_ok.mp h
    obtain ⟨rfl, rfl⟩ := Prod.mk.inj (pure_eq_ok.mp last)
    exact .creates _ rfl
  | setPriority priority =>
    obtain ⟨after, -, last⟩ := bind_eq_ok.mp h
    obtain ⟨rfl, rfl⟩ := Prod.mk.inj (pure_eq_ok.mp last)
    exact .same
  | yield sw =>
    obtain ⟨after, -, last⟩ := bind_eq_ok.mp h
    obtain ⟨rfl, rfl⟩ := Prod.mk.inj (pure_eq_ok.mp last)
    exact .same
  | kill sw =>
    obtain ⟨after, -, last⟩ := bind_eq_ok.mp h
    obtain ⟨rfl, rfl⟩ := Prod.mk.inj (pure_eq_ok.mp last)
    exact .ends

/-- A step leaves the pid of every slot alone but that of an EMPTY one in which it creates a task. -/
theorem pidStep_pid {os os' : Os} {created created' : List Created} {a : Action} {scheduler : Option (Fin tasksMax)}
    {current : Fin tasksMax} (user : UserInv os scheduler current)
    (h : pidStep .atmega2560 (os, created) a = .ok (os', created')) (i : Fin tasksMax) :
    (os'.kernel.tasks i).pid = (os.kernel.tasks i).pid ∨ os.kernel.status i = .empty ∧
      ∃ c ∈ created', c.ended = false ∧ c.slot = slotIndex i ∧ c.pid = (os'.kernel.tasks i).pid := by
  cases a with
  | spawn name priority sp =>
    obtain ⟨⟨pid, after⟩, spawned, last⟩ := bind_eq_ok.mp h
    obtain ⟨rfl, rfl⟩ := Prod.mk.inj (pure_eq_ok.mp last)
    obtain ⟨new, old, high, first, active, -, rfl, kernel, -⟩ := spawnTask_ok spawned
    obtain rfl : old = current := slotIndex_inj.mp (active.symm.trans user.active)
    have running : os.kernel.status old = .running := (user.kernel.status.running old).mpr rfl
    have empty : os.kernel.status new = .empty := firstEmpty_some first
    have apart : old ≠ new := fun same => by simp [same, empty] at running
    have same := (spawned_occupants os.kernel name priority sp high apart running).pid i
    rw [← kernel] at same
    by_cases here : i = new
    · subst here
      refine .inr ⟨empty, _, List.mem_append_right _ (List.mem_singleton.mpr rfl), rfl, ?_, ?_⟩
      · show after.kernel.schedule.activeTaskBlock = _
        rw [kernel]
        rfl
      · rw [same]
        exact (congrArg SimplosTask.pid (modifyTask_self os.kernel i fun t => { t with
          priority := priority, status := .running, taskSpAdr := high, pid := os.kernel.pidCnt, name := name })).symm
    · rw [same]
      exact .inl (congrArg SimplosTask.pid (modifyTask_of_ne os.kernel new _ here))
  | setPriority priority =>
    obtain ⟨after, done, last⟩ := bind_eq_ok.mp h
    obtain ⟨rfl, rfl⟩ := Prod.mk.inj (pure_eq_ok.mp last)
    obtain ⟨k, set, last⟩ := bind_eq_ok.mp done
    obtain rfl := pure_eq_ok.mp last
    obtain ⟨slot, -, rfl⟩ := setPriority_ok set
    exact .inl ((SameOccupants.modify os.kernel slot rfl .rfl).pid i)
  | yield sw =>
    obtain ⟨after, done, last⟩ := bind_eq_ok.mp h
    obtain ⟨rfl, rfl⟩ := Prod.mk.inj (pure_eq_ok.mp last)
    exact .inl ((user.yielding.switch_occupants user.noneScheduled done).pid i)
  | kill sw =>
    obtain ⟨after, done, last⟩ := bind_eq_ok.mp h
    obtain ⟨rfl, rfl⟩ := Prod.mk.inj (pure_eq_ok.mp last)
    obtain ⟨k, killed, rest⟩ := bind_eq_ok.mp done
    have ended : RoundInv { os with kernel := k : Os }.kernel scheduler current := user.killed killed
    have same := (ended.switch_occupants user.noneScheduled rest).pid i
    refine .inl (same.trans ?_)
    obtain ⟨slot, -, rfl⟩ := killCurrentTask_ok killed
    let gone : SimplosTask → SimplosTask := fun t => { t with status := .empty, taskSpAdr := blockHigh slot, name := some "" }
    by_cases here : i = slot
    · subst here
      have pid := congrArg SimplosTask.pid (modifyTask_self os.kernel i gone)
      exact pid
    · exact congrArg SimplosTask.pid (modifyTask_of_ne os.kernel slot gone here)

/-! ## The invariant -/

/-- What the pointer that a look-up of `pid` returned is worth later on: the task with this pid, if it has not ended, is
in the slot. Slots that were never used hold pid 0. -/
structure PointsTo (created : List Created) (pid : Word) (found : Fin tasksMax) : Prop where
  known : ∃ c ∈ created, c.pid = pid
  slot : ∀ c ∈ created, c.pid = pid → c.ended = false ∨ pid ≠ 0 → c.slot = slotIndex found

/-- Holds in every state of a run that has created at most 2¹⁶ tasks. -/
structure WaitInv (s : WaitState) : Prop where
  user : ∃ scheduler current, UserInv s.os (some scheduler) current
  pids : PidInv s.os.kernel s.created
  held : ∀ i, (s.os.kernel.tasks i).pid ≠ 0 → ∃ c ∈ s.created, c.slot = slotIndex i ∧ c.pid = (s.os.kernel.tasks i).pid
  pointed : ∀ i pid found, s.waiters i = .found pid found → PointsTo s.created pid found
  busy : ∀ i, s.waiters i ≠ .away → s.os.kernel.status i ≠ .empty

theorem PointsTo.records {active : Byte} {created created' : List Created} {pid : Word} {found : Fin tasksMax}
    (h : PointsTo created pid found) (records : Records active created created')
    (unique : ∀ c ∈ created', ∀ c' ∈ created', c.pid = c'.pid → c = c') : PointsTo created' pid found := by
  obtain ⟨known, before, rfl⟩ := h.known
  obtain ⟨known', member, pid, slot, -⟩ := records.kept before
  refine ⟨⟨known', member, pid⟩, fun c after same current => ?_⟩
  rcases records.old after with ⟨alive, created⟩ | ⟨old, earlier, pid', slot', alive⟩
  · -- a task that is created has another pid
    have isOld : known ∈ created' := by
      rw [created]
      exact List.mem_append_left _ before
    have equal := unique known isOld c after same.symm
    rw [← equal] at current ⊢
    exact h.slot known before rfl current
  · rw [← slot']
    exact h.slot old earlier (pid'.trans same) (current.imp alive id)

/-- A look-up finds the slot of the task, if it has not ended. -/
theorem PidInv.lookup_live {k : Kernel} {created : List Created} (inv : PidInv k created)
    (fits : created.length ≤ 2 ^ 16) {c : Created} (member : c ∈ created) (alive : c.ended = false)
    {found : Fin tasksMax} (looked : getTask c.pid k = some found) : c.slot = slotIndex found := by
  have busy := inv.status_live fits member alive
  rw [taskStatus, looked] at busy
  obtain ⟨c', member', -, slot, pid⟩ := inv.occupied found busy
  have same := inv.unique fits member member' ((getTask_some looked).1.symm.trans pid)
  rw [same]
  exact slot

/-- The occupant of a slot stays, unless it executes. -/
theorem PidInv.stays_busy {k k' : Kernel} {created created' : List Created} {active : Byte} (inv : PidInv k created)
    (inv' : PidInv k' created') (records : Records active created created') {i : Fin tasksMax}
    (busy : k.status i ≠ .empty) (other : slotIndex i ≠ active) : k'.status i ≠ .empty := by
  obtain ⟨c, member, alive, slot, -⟩ := inv.occupied i busy
  obtain ⟨c', member', -, -, -, same⟩ := records.kept member
  obtain rfl := same (slot ▸ other)
  obtain ⟨i', slot', busy', -⟩ := inv'.live c' member' alive
  obtain rfl := slotIndex_inj.mp (slot.symm.trans slot')
  exact busy'

namespace WaitInv

variable {s t : WaitState} {slot : Fin tasksMax} {pid : Word}

theorem looked (inv : WaitInv s) (fits : s.created.length ≤ 2 ^ 16) {found : Fin tasksMax}
    (looks : getTask pid s.os.kernel = some found) : PointsTo s.created pid found := by
  have holds := (getTask_some looks).1
  constructor
  · by_cases zero : pid = 0
    · obtain ⟨first, entry, -⟩ := inv.pids.idle
      exact ⟨first, List.mem_of_getElem? entry, (inv.pids.numbered 0 first entry).trans zero.symm⟩
    · obtain ⟨c, member, -, same⟩ := inv.held found (holds ▸ zero)
      exact ⟨c, member, same.trans holds⟩
  · rintro c member rfl (alive | notZero)
    · exact inv.pids.lookup_live fits member alive looks
    · obtain ⟨c', member', slot, same⟩ := inv.held found (holds ▸ notZero)
      rw [inv.pids.unique fits member member' (holds.symm.trans same.symm)]
      exact slot

/-- The task that executes takes another place in its loop. -/
theorem set (inv : WaitInv s) (active : s.os.kernel.schedule.activeTaskBlock = slotIndex slot) {waiter : Waiter}
    (pointed : ∀ pid found, waiter = .found pid found → PointsTo s.created pid found) : WaitInv (s.set slot waiter) := by
  obtain ⟨scheduler, current, user⟩ := inv.user
  obtain rfl : current = slot := slotIndex_inj.mp (user.active.symm.trans active)
  refine ⟨inv.user, inv.pids, inv.held, fun i pid found at_i => ?_, fun i waits => ?_⟩
  · by_cases here : i = current
    · subst here
      have own : Function.update s.waiters i waiter i = .found pid found := at_i
      rw [Function.update_self] at own
      exact pointed pid found own
    · have other : Function.update s.waiters current waiter i = .found pid found := at_i
      rw [Function.update_of_ne here] at other
      exact inv.pointed i pid found other
  · by_cases here : i = current
    · show s.os.kernel.status i ≠ .empty
      rw [here, (user.kernel.status.running current).mpr rfl]
      exact nofun
    · have other : Function.update s.waiters current waiter i ≠ .away := waits
      rw [Function.update_of_ne here] at other
      exact inv.busy i other

/-- The kernel takes a step. -/
theorem acts (inv : WaitInv s) {a : Action} {os' : Os} {created' : List Created}
    (done : pidStep .atmega2560 (s.os, s.created) a = .ok (os', created')) (fits : created'.length ≤ 2 ^ 16)
    (busy : ∀ i, s.waiters i ≠ .away → os'.kernel.status i ≠ .empty) : WaitInv ⟨os', created', s.waiters⟩ := by
  obtain ⟨scheduler, current, user⟩ := inv.user
  obtain ⟨step, pids⟩ := inv.pids.step user done
  obtain ⟨next, user'⟩ := user.step step
  have records := pidStep_records done
  refine ⟨⟨scheduler, next, user'⟩, pids, fun i notZero => ?_, fun i pid found at_i => ?_, busy⟩
  · rcases pidStep_pid user done i with same | ⟨-, c, member, -, slot, holds⟩
    · obtain ⟨c, member, slot, holds⟩ := inv.held i (same ▸ notZero)
      obtain ⟨c', member', pid', slot', -⟩ := records.kept member
      exact ⟨c', member', slot'.trans slot, pid'.trans (holds.trans same.symm)⟩
    · exact ⟨c, member, slot, holds⟩
  · exact (inv.pointed i pid found at_i).records records fun c member c' member' same =>
      pids.unique fits member member' same

/-- A switch between tasks keeps every slot occupied. -/
theorem switches (inv : WaitInv s) {sw : Switch} {os' : Os} (done : s.os.step .atmega2560 (.yield sw) = .ok os')
    (fits : s.created.length ≤ 2 ^ 16) : WaitInv ⟨os', s.created, s.waiters⟩ := by
  obtain ⟨scheduler, current, user⟩ := inv.user
  have occupants := user.yielding.switch_occupants user.noneScheduled done
  apply inv.acts (a := .yield sw) (bind_eq_ok.mpr ⟨os', done, rfl⟩) fits
  intro i waits
  exact (occupants.vacant i).not.mpr (inv.busy i waits)

theorem step {label : Option (Fin tasksMax)} (inv : WaitInv s) (h : WaitStep s label t)
    (fits : t.created.length ≤ 2 ^ 16) : WaitInv t := by
  cases h with
  | @acts slot a os' created' active away done =>
    obtain ⟨scheduler, current, user⟩ := inv.user
    have pids := (inv.pids.step user done).2
    refine inv.acts done fits fun i waits => ?_
    apply inv.pids.stays_busy pids (pidStep_records done) (inv.busy i waits)
    rw [indexOfCurrentTask, active, Ne, slotIndex_inj]
    rintro rfl
    exact waits away
  | preempted done => exact inv.switches done fits
  | calls pid active away =>
    refine inv.set active fun pid' found same => ?_
    cases same
  | @looks slot pid active waits =>
    refine inv.set active fun pid' found same => ?_
    unfold Waiter.look at same
    cases looked : getTask pid s.os.kernel with
    | none =>
      rw [looked] at same
      cases same
    | some slot' =>
      rw [looked] at same
      cases same
      exact inv.looked fits looked
  | @reads slot found pid active waits =>
    refine inv.set active fun pid' found' same => ?_
    unfold Waiter.read at same
    split at same <;> cases same
  | @yields slot pid sw os' active waits done =>
    have checking : WaitInv (s.set slot (.checks pid)) := by
      refine inv.set active fun pid' found same => ?_
      cases same
    exact checking.switches done fits

end WaitInv

theorem pidStep_yield {os os' : Os} {sw : Switch} (done : os.step .atmega2560 (.yield sw) = .ok os')
    (created : List Created) : pidStep .atmega2560 (os, created) (.yield sw) = .ok (os', created) :=
  bind_eq_ok.mpr ⟨os', done, rfl⟩

/-- A step leaves the kernel alone or is one of its own steps. -/
theorem WaitStep.kernel {s t : WaitState} {label : Option (Fin tasksMax)} (h : WaitStep s label t) :
    t.os = s.os ∧ t.created = s.created ∨ ∃ a, pidStep .atmega2560 (s.os, s.created) a = .ok (t.os, t.created) := by
  cases h with
  | acts active away done => exact .inr ⟨_, done⟩
  | preempted done => exact .inr ⟨_, pidStep_yield done s.created⟩
  | calls => exact .inl ⟨rfl, rfl⟩
  | looks => exact .inl ⟨rfl, rfl⟩
  | reads => exact .inl ⟨rfl, rfl⟩
  | yields active waits done => exact .inr ⟨_, pidStep_yield done s.created⟩

theorem WaitStep.records {s t : WaitState} {label : Option (Fin tasksMax)} (h : WaitStep s label t) :
    Records (indexOfCurrentTask s.os.kernel) s.created t.created := by
  rcases h.kernel with ⟨-, same⟩ | ⟨a, done⟩
  · rw [same]
    exact .same
  · exact pidStep_records done

/-- The pid of a slot changes only where a task is created in it. -/
theorem WaitInv.pid {s t : WaitState} {label : Option (Fin tasksMax)} (inv : WaitInv s) (step : WaitStep s label t)
    (i : Fin tasksMax) : (t.os.kernel.tasks i).pid = (s.os.kernel.tasks i).pid ∨ s.os.kernel.status i = .empty ∧
      ∃ c ∈ t.created, c.ended = false ∧ c.slot = slotIndex i ∧ c.pid = (t.os.kernel.tasks i).pid := by
  rcases step.kernel with ⟨same, -⟩ | ⟨a, done⟩
  · rw [same]
    exact .inl rfl
  · obtain ⟨scheduler, current, user⟩ := inv.user
    exact pidStep_pid user done i

/-- Every state on the way to one with at most 2¹⁶ creations has at most as many. -/
theorem fitting_trace {s t : WaitState} {labels : List (Option (Fin tasksMax))} (run : Lib.Trace WaitStep s labels t)
    (fits : t.created.length ≤ 2 ^ 16) :
    s.created.length ≤ 2 ^ 16 ∧
      Lib.Trace (fun s label t => WaitStep s label t ∧ t.created.length ≤ 2 ^ 16) s labels t := by
  induction run with
  | nil s => exact ⟨fits, .nil s⟩
  | cons first _ ih =>
    obtain ⟨fits', rest⟩ := ih fits
    exact ⟨Nat.le_trans first.records.length_le fits', .cons ⟨first, fits'⟩ rest⟩

theorem WaitInv.run {s t : WaitState} {labels : List (Option (Fin tasksMax))} (inv : WaitInv s)
    (run : Lib.Trace WaitStep s labels t) (fits : t.created.length ≤ 2 ^ 16) : WaitInv t :=
  (fitting_trace run fits).2.invariant WaitInv (fun _ _ _ inv step => inv.step step.1 step.2) inv

theorem WaitReachable.inv {s : WaitState} (reached : WaitReachable s) (fits : s.created.length ≤ 2 ^ 16) : WaitInv s := by
  obtain ⟨mainSp, idleSp, sw, os, created, labels, booted, run⟩ := reached
  obtain ⟨user, pids⟩ := pidBoot_inv booted
  have alive : ∀ c ∈ created, c.ended = false := by
    simp only [pidBoot, bind_eq_ok] at booted
    obtain ⟨_, _, _, _, _, _, _, _, last⟩ := booted
    obtain ⟨-, rfl⟩ := Prod.mk.inj (pure_eq_ok.mp last)
    simp
  have start : WaitInv ⟨os, created, fun _ => .away⟩ := by
    refine ⟨user, pids, fun i notZero => ?_, fun i pid found same => ?_, fun i waits => absurd rfl waits⟩
    · by_cases empty : os.kernel.status i = .empty
      · rcases pids.vacated i empty with ⟨c, member, ended, -⟩ | ⟨zero, -⟩
        · rw [alive c member] at ended
          cases ended
        · exact absurd zero notZero
      · obtain ⟨c, member, -, slot, pid⟩ := pids.occupied i empty
        exact ⟨c, member, slot, pid.symm⟩
    · cases same
  exact start.run run fits

/-! ## The loop of one task -/

/-- The task of `slot`, which waits for `pid`, takes the next step of its loop. -/
inductive LoopStep (s t : WaitState) (slot : Fin tasksMax) (pid : Word) : Prop where
  | looks (waits : s.waiters slot = .checks pid) (next : t = s.set slot (.look pid s.os.kernel))
  | reads (found : Fin tasksMax) (waits : s.waiters slot = .found pid found)
      (next : t = s.set slot (.read pid found s.os.kernel))
  | yields (waits : s.waiters slot = .yields pid) (next : t.waiters slot = .checks pid)

theorem WaitState.set_self (s : WaitState) (slot : Fin tasksMax) (waiter : Waiter) :
    (s.set slot waiter).waiters slot = waiter := Function.update_self ..

theorem WaitState.set_of_ne {s : WaitState} {slot i : Fin tasksMax} (other : i ≠ slot) (waiter : Waiter) :
    (s.set slot waiter).waiters i = s.waiters i := Function.update_of_ne other ..

/-- A step is one of the loop of a task that waits, or leaves it where it is. -/
theorem WaitStep.loop {s t : WaitState} {label : Option (Fin tasksMax)} (h : WaitStep s label t) {slot : Fin tasksMax}
    {pid : Word} (waits : (s.waiters slot).awaits = some pid) :
    label ≠ some slot ∧ t.waiters slot = s.waiters slot ∨ label = some slot ∧ LoopStep s t slot pid := by
  cases h with
  | acts => exact .inl ⟨nofun, rfl⟩
  | preempted => exact .inl ⟨nofun, rfl⟩
  | @calls other pid' active away =>
    have apart : slot ≠ other := by
      rintro rfl
      rw [away] at waits
      cases waits
    exact .inl ⟨nofun, WaitState.set_of_ne apart _⟩
  | @looks other pid' active checks =>
    by_cases here : slot = other
    · subst here
      rw [checks] at waits
      cases waits
      exact .inr ⟨rfl, .looks checks rfl⟩
    · exact .inl ⟨fun same => here (Option.some.inj same).symm, WaitState.set_of_ne here _⟩
  | @reads other found pid' active points =>
    by_cases here : slot = other
    · subst here
      rw [points] at waits
      cases waits
      exact .inr ⟨rfl, .reads found points rfl⟩
    · exact .inl ⟨fun same => here (Option.some.inj same).symm, WaitState.set_of_ne here _⟩
  | @yields other pid' sw os' active yielding done =>
    by_cases here : slot = other
    · subst here
      rw [yielding] at waits
      cases waits
      exact .inr ⟨rfl, .yields yielding (WaitState.set_self s slot _)⟩
    · exact .inl ⟨fun same => here (Option.some.inj same).symm, WaitState.set_of_ne here _⟩

/-- The loop is left only when the task has ended. -/
theorem WaitInv.leaves {s t : WaitState} {label : Option (Fin tasksMax)} {slot : Fin tasksMax} {pid : Word}
    (inv : WaitInv s) (step : WaitStep s label t) (waits : (s.waiters slot).awaits = some pid)
    (leaves : (t.waiters slot).awaits ≠ some pid) {c : Created} (member : c ∈ s.created) (same : c.pid = pid) :
    c.ended = true := by
  by_contra running
  have alive : c.ended = false := Bool.eq_false_iff.mpr running
  obtain ⟨i, at_i, busy, holds⟩ := inv.pids.live c member alive
  rcases step.loop waits with ⟨-, stays⟩ | ⟨-, loop⟩
  · rw [stays] at leaves
    exact leaves waits
  · cases loop with
    | looks checks next =>
      rw [next, WaitState.set_self, Waiter.look] at leaves
      cases looked : getTask pid s.os.kernel with
      | none => exact getTask_none looked i (holds.trans same)
      | some found =>
        rw [looked] at leaves
        exact leaves rfl
    | reads found points next =>
      have slot := (inv.pointed slot pid found points).slot c member same (.inl alive)
      obtain rfl : i = found := slotIndex_inj.mp (at_i.symm.trans slot)
      have occupied : (s.os.kernel.tasks i).status ≠ .empty := busy
      rw [next, WaitState.set_self, Waiter.read, if_pos occupied] at leaves
      exact leaves rfl
    | yields yielding next =>
      rw [next] at leaves
      exact leaves rfl

/-! ## A child that has ended -/

/-- A run without waiting. -/
theorem PidReachable.waitReachable {os : Os} {created : List Created} (reached : PidReachable os created) :
    WaitReachable ⟨os, created, fun _ => .away⟩ := by
  obtain ⟨mainSp, idleSp, sw, start, actions, booted, run⟩ := reached
  have first : PidReachable start.1 start.2 := ⟨_, _, _, start, [], booted, rfl⟩
  have matched : ∀ (s : Os × List Created) (a : Action) (t : Os × List Created) (u : WaitState),
      (PidReachable s.1 s.2 ∧ u = ⟨s.1, s.2, fun _ => .away⟩) → pidStep .atmega2560 s a = .ok t →
      ∃ v, WaitStep u none v ∧ PidReachable t.1 t.2 ∧ v = ⟨t.1, t.2, fun _ => .away⟩ := by
    rintro s a t u ⟨reached, rfl⟩ step
    obtain ⟨⟨scheduler, current, user⟩, -⟩ := reached.inv
    exact ⟨_, .acts user.active rfl step, reached.step step, rfl⟩
  obtain ⟨u, trace, -, rfl⟩ := Lib.Trace.simulate matched ⟨first, rfl⟩ (Lib.run_trace.mp run)
  exact ⟨mainSp, idleSp, sw, start.1, start.2, _, booted, trace⟩

/-- The idle task runs; the task it has spawned has ended, and slot 2 still holds its pid. -/
structure ChildEnded (s : WaitState) : Prop where
  active : s.os.kernel.schedule.activeTaskBlock = slotIndex 0
  found : getTask 2 s.os.kernel = some 2
  empty : (s.os.kernel.tasks 2).status = .empty
  record : ⟨2, slotIndex 2, true⟩ ∈ s.created
  few : s.created.length = 3

theorem child_ends : ∃ s, WaitReachable s ∧ ChildEnded s ∧ s.waiters = fun _ => .away := by
  have all : ∃ u, (pidBoot .atmega2560 0x1FF0 0x5A0 bootSwitch >>= fun start =>
      Lib.run (pidStep .atmega2560) start [.spawn (some "task") 0 0x5A0, .kill bootSwitch] >>= fun s =>
      fatalIf .atmega2560 (!decide (s.1.kernel.schedule.activeTaskBlock = slotIndex 0 ∧
        getTask 2 s.1.kernel = some 2 ∧ (s.1.kernel.tasks 2).status = .empty ∧ ⟨2, slotIndex 2, true⟩ ∈ s.2 ∧
        s.2.length = 3)) "") = .ok u := Lib.ok_of_isOk (by decide +kernel)
  obtain ⟨⟨⟩, all⟩ := all
  simp only [bind_eq_ok, fatalIf_ok, Bool.not_eq_false', decide_eq_true_eq] at all
  obtain ⟨start, booted, ⟨os, created⟩, run, active, found, empty, record, few⟩ := all
  have reached : PidReachable os created := ⟨_, _, _, start, _, booted, run⟩
  exact ⟨_, reached.waitReachable, ⟨active, found, empty, record, few⟩, rfl⟩

theorem WaitReachable.next {s t : WaitState} {label : Option (Fin tasksMax)} (reached : WaitReachable s)
    (step : WaitStep s label t) : WaitReachable t := by
  obtain ⟨mainSp, idleSp, sw, os, created, labels, booted, run⟩ := reached
  exact ⟨mainSp, idleSp, sw, os, created, _, booted, run.append (.cons step (.nil t))⟩

/-- The look-up of the child's pid and the read return at once. -/
theorem ChildEnded.returns {s : WaitState} (child : ChildEnded s) (checks : s.waiters 0 = .checks 2) :
    ∃ t u, WaitStep s (some 0) t ∧ WaitStep t (some 0) u ∧ t.os = s.os ∧ t.created = s.created ∧
      t.waiters 0 = .found 2 2 ∧ u.waiters 0 = .away ∧ ChildEnded u := by
  have points : (s.set 0 (.look 2 s.os.kernel)).waiters 0 = .found 2 2 := by
    rw [WaitState.set_self, Waiter.look, child.found]
  have away : ((s.set 0 (.look 2 s.os.kernel)).set 0 (.read 2 2 s.os.kernel)).waiters 0 = .away := by
    rw [WaitState.set_self]
    exact if_neg (not_not_intro child.empty)
  exact ⟨_, _, .looks child.active checks, .reads child.active points, rfl, rfl, points, away, child.active,
    child.found, child.empty, child.record, child.few⟩

/-- **Waiting ends with the task.** In every run that has created at most 2¹⁶ tasks, `wait_for_task_finnish` returns only
when no task with its pid is left, whatever runs between its look-ups, reads and yields. -/
theorem wait_returns_after_end {s t : WaitState} {label : Option (Fin tasksMax)} {slot : Fin tasksMax} {pid : Word}
    (reached : WaitReachable s) (fits : s.created.length ≤ 2 ^ 16) (step : WaitStep s label t)
    (waits : (s.waiters slot).awaits = some pid) (returns : (t.waiters slot).awaits = none) :
    ∀ c ∈ s.created, c.pid = pid → c.ended = true := by
  intro c member same
  apply (reached.inv fits).leaves step waits _ member same
  rw [returns]
  exact nofun

theorem wait_returns_after_end_of_child : ∃ s t, WaitReachable s ∧ WaitStep s (some 0) t ∧
    (s.waiters 0).awaits = some 2 ∧ (t.waiters 0).awaits = none ∧ ∀ c ∈ s.created, c.pid = 2 → c.ended = true := by
  obtain ⟨s, reached, child, all⟩ := child_ends
  have calling : WaitStep s none (s.set 0 (.checks 2)) := .calls 2 child.active (congrFun all 0)
  have child' : ChildEnded (s.set 0 (.checks 2)) :=
    ⟨child.active, child.found, child.empty, child.record, child.few⟩
  obtain ⟨t, u, looking, reading, -, same, points, away, -⟩ := child'.returns (WaitState.set_self s 0 _)
  have reached' := (reached.next calling).next looking
  have fits : t.created.length ≤ 2 ^ 16 := by
    rw [same, child'.few]
    decide
  have waits : (t.waiters 0).awaits = some 2 := by rw [points]; rfl
  have returned : (u.waiters 0).awaits = none := by rw [away]; rfl
  exact ⟨t, u, reached', reading, waits, returned, wait_returns_after_end reached' fits reading waits returned⟩

/-! ## Circular waiting -/

/-- Where every task of `D` waits for one of `D`, a step changes nothing of it. -/
theorem WaitInv.circular {s t : WaitState} {label : Option (Fin tasksMax)} {D : Finset (Fin tasksMax)} (inv : WaitInv s)
    (step : WaitStep s label t)
    (waits : ∀ i ∈ D, ∃ j ∈ D, (s.waiters i).awaits = some (s.os.kernel.tasks j).pid) :
    ∀ i ∈ D, (t.waiters i).awaits = (s.waiters i).awaits ∧ (t.os.kernel.tasks i).pid = (s.os.kernel.tasks i).pid := by
  have busy : ∀ i ∈ D, s.os.kernel.status i ≠ .empty := by
    intro i member
    obtain ⟨j, -, awaits⟩ := waits i member
    apply inv.busy i
    intro away
    rw [away] at awaits
    cases awaits
  intro i member
  constructor
  · obtain ⟨j, member', awaits⟩ := waits i member
    obtain ⟨c, known, alive, -, pid⟩ := inv.pids.occupied j (busy j member')
    rw [awaits]
    by_contra leaves
    have ended := inv.leaves step awaits leaves known pid.symm
    rw [alive] at ended
    cases ended
  · rcases inv.pid step i with same | ⟨empty, -⟩
    · exact same
    · exact absurd empty (busy i member)

/-- **Tasks that wait for each other wait for ever**, a task that waits for itself among them: no run gets any of them
out of its loop. -/
theorem circular_wait_never_ends {s t : WaitState} {labels : List (Option (Fin tasksMax))} {D : Finset (Fin tasksMax)}
    (reached : WaitReachable s) (waits : ∀ i ∈ D, ∃ j ∈ D, (s.waiters i).awaits = some (s.os.kernel.tasks j).pid)
    (run : Lib.Trace WaitStep s labels t) (fits : t.created.length ≤ 2 ^ 16) :
    ∀ i ∈ D, (t.waiters i).awaits = (s.waiters i).awaits := by
  obtain ⟨fits', run⟩ := fitting_trace run fits
  have kept := run.invariant
    (fun u => WaitInv u ∧ ∀ i ∈ D, (u.waiters i).awaits = (s.waiters i).awaits ∧
      (u.os.kernel.tasks i).pid = (s.os.kernel.tasks i).pid)
    (fun u label v before step => by
      obtain ⟨inv, same⟩ := before
      have circular : ∀ i ∈ D, ∃ j ∈ D, (u.waiters i).awaits = some (u.os.kernel.tasks j).pid := by
        intro i member
        obtain ⟨j, member', awaits⟩ := waits i member
        exact ⟨j, member', by rw [(same i member).1, awaits, (same j member').2]⟩
      refine ⟨inv.step step.1 step.2, fun i member => ?_⟩
      obtain ⟨awaits, pid⟩ := inv.circular step.1 circular i member
      exact ⟨awaits.trans (same i member).1, pid.trans (same i member).2⟩)
    ⟨reached.inv fits', fun _ _ => ⟨rfl, rfl⟩⟩
  exact fun i member => (kept.2 i member).1

/-- The idle task and a task it has spawned wait for each other: the child is preempted in its loop until the idle task
has called `wait_for_task_finnish` too. -/
theorem circular_wait_never_ends_of_two : ∃ s, WaitReachable s ∧
    (s.waiters 0).awaits = some (s.os.kernel.tasks 2).pid ∧ (s.waiters 2).awaits = some (s.os.kernel.tasks 0).pid ∧
    ∀ labels t, Lib.Trace WaitStep s labels t → t.created.length ≤ 2 ^ 16 →
      (t.waiters 0).awaits = some (s.os.kernel.tasks 2).pid ∧ (t.waiters 2).awaits = some (s.os.kernel.tasks 0).pid := by
  let preemption : Switch := { bootSwitch with sp := 0xAB2 }
  have all : ∃ u, (pidBoot .atmega2560 0x1FF0 0x5A0 bootSwitch >>= fun start =>
      Lib.run (pidStep .atmega2560) start [.spawn (some "task") 0 0x5A0] >>= fun s =>
      s.1.step .atmega2560 (.yield preemption) >>= fun again => again.step .atmega2560 (.yield preemption) >>= fun os =>
      fatalIf .atmega2560 (!decide (s.1.kernel.schedule.activeTaskBlock = slotIndex 2 ∧
        os.kernel.schedule.activeTaskBlock = slotIndex 0 ∧ (os.kernel.tasks 0).pid = 0 ∧
        (os.kernel.tasks 2).pid = 2)) "") = .ok u := Lib.ok_of_isOk (by decide +kernel)
  obtain ⟨⟨⟩, all⟩ := all
  simp only [bind_eq_ok, fatalIf_ok, Bool.not_eq_false', decide_eq_true_eq] at all
  obtain ⟨start, booted, ⟨spawned, created⟩, run, again, first, os, second, child, idle, zero, two⟩ := all
  have reached : PidReachable spawned created := ⟨_, _, _, start, _, booted, run⟩
  let s₁ : WaitState := ⟨spawned, created, fun _ => .away⟩
  let s₂ : WaitState := { s₁.set 2 (.checks 0) with os := os }
  have childCalls : WaitStep s₁ none (s₁.set 2 (.checks 0)) := .calls 0 child rfl
  have idleCalls : WaitStep s₂ none (s₂.set 0 (.checks 2)) := .calls 2 idle rfl
  have waiting := (((reached.waitReachable.next childCalls).next (.preempted first)).next (.preempted second)).next idleCalls
  have idleWaits : ((s₂.set 0 (.checks 2)).waiters 0).awaits = some (os.kernel.tasks 2).pid := by
    rw [WaitState.set_self, two]
    rfl
  have childWaits : ((s₂.set 0 (.checks 2)).waiters 2).awaits = some (os.kernel.tasks 0).pid := by
    rw [zero]
    rfl
  refine ⟨s₂.set 0 (.checks 2), waiting, idleWaits, childWaits, fun labels t run fits => ?_⟩
  have stays := circular_wait_never_ends (D := {0, 2}) waiting (by
    intro i member
    rcases Finset.mem_insert.mp member with rfl | other
    · exact ⟨2, by decide, idleWaits⟩
    · obtain rfl := Finset.mem_singleton.mp other
      exact ⟨0, by decide, childWaits⟩) run fits
  exact ⟨(stays 0 (by decide)).trans idleWaits, (stays 2 (by decide)).trans childWaits⟩

/-! ## After the end -/

/-- How many more steps of its loop a task can take that waits for a task that has ended. -/
def WaitState.stepsLeft (s : WaitState) (slot : Fin tasksMax) : Nat :=
  match s.waiters slot with
  | .away => 0
  | .checks pid => if (getTask pid s.os.kernel).isSome then 4 else 1
  | .found _ _ => 3
  | .yields pid => if (getTask pid s.os.kernel).isSome then 5 else 2

/-- The task of `slot` waits for `pid`, whose task has ended. -/
structure Overdue (slot : Fin tasksMax) (pid : Word) (s : WaitState) : Prop where
  inv : WaitInv s
  fits : s.created.length ≤ 2 ^ 16
  waits : (s.waiters slot).awaits = some pid
  ended : ∃ c ∈ s.created, c.pid = pid ∧ c.ended = true

namespace Overdue

variable {s t : WaitState} {slot : Fin tasksMax} {pid : Word} {label : Option (Fin tasksMax)}

/-- A pid that no slot holds any more is not given out again. -/
theorem unknown (h : Overdue slot pid s) (step : WaitStep s label t) (fits : t.created.length ≤ 2 ^ 16)
    (gone : getTask pid s.os.kernel = none) : getTask pid t.os.kernel = none := by
  have pids := (h.inv.step step fits).pids
  obtain ⟨c, before, same, ended⟩ := h.ended
  obtain ⟨c', member, pid', -, ended', -⟩ := step.records.kept before
  cases looked : getTask pid t.os.kernel with
  | none => rfl
  | some i =>
    have holds := (getTask_some looked).1
    rcases h.inv.pid step i with kept | ⟨-, new, member', alive, -, holds'⟩
    · exact absurd (kept.symm.trans holds) (getTask_none gone i)
    · have equal := pids.unique fits member member' (pid'.trans (same.trans (holds.symm.trans holds'.symm)))
      rw [← equal, ended' ended] at alive
      cases alive

theorem next (h : Overdue slot pid s) (step : WaitStep s label t) (fits : t.created.length ≤ 2 ^ 16)
    (waits : (t.waiters slot).awaits = some pid) : Overdue slot pid t := by
  obtain ⟨c, before, same, ended⟩ := h.ended
  obtain ⟨c', member, pid', -, ended', -⟩ := step.records.kept before
  exact ⟨h.inv.step step fits, fits, waits, c', member, pid'.trans same, ended' ended⟩

theorem stepsLeft_pos (h : Overdue slot pid s) : 0 < s.stepsLeft slot := by
  have waits := h.waits
  unfold WaitState.stepsLeft
  cases at_slot : s.waiters slot with
  | away =>
    rw [at_slot] at waits
    cases waits
  | checks pid =>
    show 0 < if _ then 4 else 1
    split <;> omega
  | found pid found => exact Nat.zero_lt_succ 2
  | yields pid =>
    show 0 < if _ then 5 else 2
    split <;> omega

theorem stepsLeft_le (s : WaitState) (slot : Fin tasksMax) : s.stepsLeft slot ≤ 5 := by
  unfold WaitState.stepsLeft
  cases s.waiters slot with
  | away => exact Nat.zero_le 5
  | checks pid =>
    show (if _ then 4 else 1) ≤ 5
    split <;> omega
  | found pid found => exact Nat.le_add_left 3 2
  | yields pid =>
    show (if _ then 5 else 2) ≤ 5
    split <;> omega

/-- Steps of others take nothing away. -/
theorem stays (h : Overdue slot pid s) (step : WaitStep s label t) (fits : t.created.length ≤ 2 ^ 16)
    (same : t.waiters slot = s.waiters slot) : t.stepsLeft slot ≤ s.stepsLeft slot := by
  have waits := h.waits
  have known : (getTask pid t.os.kernel).isSome = true → (getTask pid s.os.kernel).isSome = true := by
    intro looked
    by_contra unknown
    rw [h.unknown step fits (Option.not_isSome_iff_eq_none.mp unknown)] at looked
    cases looked
  unfold WaitState.stepsLeft
  rw [same]
  cases at_slot : s.waiters slot with
  | away => exact Nat.le_refl 0
  | checks pid' =>
    rw [at_slot] at waits
    cases waits
    show (if (getTask pid t.os.kernel).isSome = true then 4 else 1) ≤
      if (getTask pid s.os.kernel).isSome = true then 4 else 1
    split
    · rename_i looked
      rw [if_pos (known looked)]
    · split <;> omega
  | found pid' found => exact Nat.le_refl 3
  | yields pid' =>
    rw [at_slot] at waits
    cases waits
    show (if (getTask pid t.os.kernel).isSome = true then 5 else 2) ≤
      if (getTask pid s.os.kernel).isSome = true then 5 else 2
    split
    · rename_i looked
      rw [if_pos (known looked)]
    · split <;> omega

/-- If the slot that was found has another task, no slot holds the pid any more. -/
theorem reused (h : Overdue slot pid s) (notZero : pid ≠ 0) {found : Fin tasksMax}
    (points : s.waiters slot = .found pid found) (busy : s.os.kernel.status found ≠ .empty) :
    getTask pid s.os.kernel = none := by
  cases looked : getTask pid s.os.kernel with
  | none => rfl
  | some i =>
    have holds := (getTask_some looked).1
    obtain ⟨c, member, same, ended⟩ := h.ended
    have at_found := (h.inv.pointed slot pid found points).slot c member same (.inr notZero)
    have at_i := (h.inv.looked h.fits looked).slot c member same (.inr notZero)
    obtain rfl : i = found := slotIndex_inj.mp (at_i.symm.trans at_found)
    obtain ⟨c', member', alive, -, pid'⟩ := h.inv.pids.occupied i busy
    have equal := h.inv.pids.unique h.fits member member' (same.trans (holds.symm.trans pid'))
    rw [← equal, ended] at alive
    cases alive

/-- **A step of the loop** ends it or leaves fewer steps. -/
theorem advances (h : Overdue slot pid s) (notZero : pid ≠ 0) (step : WaitStep s label t)
    (fits : t.created.length ≤ 2 ^ 16) (loop : LoopStep s t slot pid) :
    t.waiters slot = .away ∨ Overdue slot pid t ∧ t.stepsLeft slot < s.stepsLeft slot := by
  cases loop with
  | looks checks next =>
    have here : t.waiters slot = .look pid s.os.kernel := by rw [next, WaitState.set_self]
    cases looked : getTask pid s.os.kernel with
    | none =>
      rw [Waiter.look, looked] at here
      exact .inl here
    | some found =>
      rw [Waiter.look, looked] at here
      refine .inr ⟨h.next step fits (by rw [here]; rfl), ?_⟩
      simp [WaitState.stepsLeft, here, checks, looked]
  | reads found points next =>
    have here : t.waiters slot = .read pid found s.os.kernel := by rw [next, WaitState.set_self]
    have kernel : t.os.kernel = s.os.kernel := by rw [next]; rfl
    by_cases busy : (s.os.kernel.tasks found).status ≠ .empty
    · rw [Waiter.read, if_pos busy] at here
      refine .inr ⟨h.next step fits (by rw [here]; rfl), ?_⟩
      simp [WaitState.stepsLeft, here, points, kernel, h.reused notZero points busy]
    · rw [Waiter.read, if_neg busy] at here
      exact .inl here
  | yields yielding next =>
    refine .inr ⟨h.next step fits (by rw [next]; rfl), ?_⟩
    cases gone : getTask pid s.os.kernel with
    | none => simp [WaitState.stepsLeft, next, yielding, gone, h.unknown step fits gone]
    | some i =>
      simp only [WaitState.stepsLeft, next, yielding, gone, Option.isSome_some, if_true]
      split <;> omega

end Overdue

/-- **Waiting does not outlast the task.** Once the task has ended, the task that waits for it takes at most five more
steps of its loop before it returns, whatever runs in between and whichever task gets the slot. -/
theorem wait_returns_soon {s t : WaitState} {labels : List (Option (Fin tasksMax))} {slot : Fin tasksMax} {c : Created}
    (reached : WaitReachable s) (member : c ∈ s.created) (ended : c.ended = true) (notIdle : c.pid ≠ 0)
    (waits : (s.waiters slot).awaits = some c.pid) (run : Lib.Trace WaitStep s labels t)
    (fits : t.created.length ≤ 2 ^ 16) (enough : 5 ≤ labels.count (some slot)) :
    ∃ before after u, labels = before ++ after ∧ Lib.Trace WaitStep s before u ∧ u.waiters slot = .away ∧
      before.count (some slot) ≤ 5 := by
  obtain ⟨fits', run⟩ := fitting_trace run fits
  have overdue : Overdue slot c.pid s := ⟨reached.inv fits', fits', waits, c, member, rfl, ended⟩
  have bound := Overdue.stepsLeft_le s slot
  obtain ⟨before, after, u, split, trace, returned, few⟩ := run.reaches_of_rank (Overdue slot c.pid)
    (fun u => u.waiters slot = .away) (fun label => label == some slot) (fun u => u.stepsLeft slot)
    (fun u overdue => overdue.stepsLeft_pos)
    (fun u label v overdue step counts => by
      rcases step.1.loop overdue.waits with ⟨other, -⟩ | ⟨-, loop⟩
      · exact absurd (eq_of_beq counts) other
      · exact overdue.advances notIdle step.1 step.2 loop)
    (fun u label v overdue step counts => by
      rcases step.1.loop overdue.waits with ⟨-, same⟩ | ⟨own, -⟩
      · exact ⟨overdue.next step.1 step.2 (same ▸ overdue.waits), overdue.stays step.1 step.2 same⟩
      · rw [own, beq_self_eq_true] at counts
        cases counts)
    overdue (Nat.le_trans bound enough)
  exact ⟨before, after, u, split, trace.mono fun _ _ _ step => step.1, returned, Nat.le_trans few bound⟩

/-- The child's end is noticed by the first of three calls. -/
theorem wait_returns_soon_of_child : ∃ s labels before after u, WaitReachable s ∧ (s.waiters 0).awaits = some 2 ∧
    labels = before ++ after ∧ Lib.Trace WaitStep s before u ∧ u.waiters 0 = .away ∧ before.count (some 0) ≤ 5 := by
  obtain ⟨s, reached, child, all⟩ := child_ends
  have called : ∀ {s : WaitState}, ChildEnded s → s.waiters 0 = .away →
      WaitStep s none (s.set 0 (.checks 2)) ∧ ChildEnded (s.set 0 (.checks 2)) := fun child away =>
    ⟨.calls 2 child.active away, child.active, child.found, child.empty, child.record, child.few⟩
  obtain ⟨first, child⟩ := called child (congrFun all 0)
  obtain ⟨t₁, u₁, look₁, read₁, -, -, -, away₁, child₁⟩ := child.returns (WaitState.set_self s 0 _)
  obtain ⟨second, child₁⟩ := called child₁ away₁
  obtain ⟨t₂, u₂, look₂, read₂, -, -, -, away₂, child₂⟩ := child₁.returns (WaitState.set_self u₁ 0 _)
  obtain ⟨third, child₂⟩ := called child₂ away₂
  obtain ⟨t₃, u₃, look₃, read₃, -, -, -, away₃, child₃⟩ := child₂.returns (WaitState.set_self u₂ 0 _)
  have run : Lib.Trace WaitStep (s.set 0 (.checks 2)) [some 0, some 0, none, some 0, some 0, none, some 0, some 0] u₃ :=
    .cons look₁ <| .cons read₁ <| .cons second <| .cons look₂ <| .cons read₂ <| .cons third <| .cons look₃ <|
      .cons read₃ (.nil u₃)
  have waits : ((s.set 0 (.checks 2)).waiters 0).awaits = some 2 := by rw [WaitState.set_self]; rfl
  have fits : u₃.created.length ≤ 2 ^ 16 := by
    rw [child₃.few]
    decide
  obtain ⟨before, after, u, split, trace, returned, few⟩ := wait_returns_soon (reached.next first) child.record rfl
    (by decide) waits run fits (by decide)
  exact ⟨_, _, before, after, u, reached.next first, waits, split, trace, returned, few⟩

end Simplos
