import Simplos.Kernel.StackPointers
import Simplos.Switch.Start
import Simplos.Switch.Stacks

/-!
# Every task has a CPU of its own

The machine and the kernel together: tasks compute, are preempted, yield, spawn and end, and between two of them the
scheduler runs its round. The instructions of the switch are executed one by one; the code compiled around them is only
constrained to the stack it runs on. Such a run looks to the tasks as if each of them had a CPU of its own that stands
still while others run, and to the kernel it is a run of `Os.step`. A round is one step here: the timer does not
interrupt the scheduler between its return and the masking of the timer.
-/

namespace Simplos
set_option autoImplicit false
open Avr
open Lib (bind_eq_ok)

/-- A program with the context switch and with `spawn_task`, whose `SET_RETURN_POINT` and `SAVE_CONTEXT` lie at
`spawnAdr`. -/
structure SpawnImage extends Image where
  spawnAdr : Pc
  returnPoint : Pc
  spawn : Placed program spawnAdr (setReturnPoint returnPoint ++ saveContext)
  fits : spawnAdr.toNat + 13 < 2 ^ 17

/-! ## The machine with its kernel -/

structure World where
  cpu : Cpu
  os : Os

/-- The bytes of the stack-pointer variables. -/
def kernelWords : List Word :=
  [taskSpAdr, taskSpAdr + 1, prevTaskSpAdr, prevTaskSpAdr + 1, nextTaskSpAdr, nextTaskSpAdr + 1, schedulerTaskSpAdr,
    schedulerTaskSpAdr + 1]

/-- Compiled code of the task of `slot` runs: it ends on its own stack and writes neither to the stacks of others nor to
the variables of the kernel. -/
structure Computes (slot : Fin tasksMax) (s t : Cpu) : Prop where
  room : OnStack slot t.sp
  blocks : ∀ j a, j ≠ slot → InBlock j a → t.mem a = s.mem a
  words : ∀ a ∈ kernelWords, t.mem a = s.mem a

/-- `k_yield` has been called on the stack of `slot`. -/
structure CallsYield (image : Image) (slot : Fin tasksMax) (s : Cpu) (back : Pc) : Prop where
  pc : s.pc = image.kYieldAdr
  returns : ReturnsTo s.mem s.sp back
  room : OnStack slot (s.sp + 3)

/-- The scheduler, resumed in `t`, has run its round and calls `k_yield` in `y`, with the stack pointer it was resumed
with and the kernel in the state `os`. -/
structure Loops (image : Image) (scheduler : Fin tasksMax) (t y : Cpu) (os : Os) (back : Pc) : Prop where
  pc : y.pc = image.kYieldAdr
  returns : ReturnsTo y.mem y.sp back
  level : y.sp + 3 = t.sp
  blocks : ∀ j a, j ≠ scheduler → InBlock j a → y.mem a = t.mem a
  words : Words y.mem os

/-- From the beginning of a switch in `e`, which saves a stack pointer 36 below `top`, through a round of the scheduler
to the task it has selected, in `u`. -/
inductive Reschedules (image : Image) (scheduler : Fin tasksMax) (e : Cpu) (top : Word) (os : Os) :
    Switch → Cpu → Os → Prop where
  | round {t y u : Cpu} {done : Os} {back : Pc} (toScheduler : RunsToReturn image.program e t)
      (round : schedulerRound .atmega2560 t.mem (os.contextSwtich (top - 36)) = .ok done)
      (loops : Loops image scheduler t y done back) (toTask : RunsToReturn image.program y u) :
      Reschedules image scheduler e top os ⟨top - 36, t.mem, y.sp - 33⟩ u (done.contextSwtich (y.sp - 33))

/-- `spawn_task` goes on behind `SAVE_CONTEXT`, in `t`, and calls the function of the new task on its own stack. -/
structure StartsTask (new : Fin tasksMax) (t u : Cpu) (os : Os) : Prop where
  room : OnStack new u.sp
  blocks : ∀ j a, j ≠ new → InBlock j a → u.mem a = t.mem a
  words : Words u.mem os

/-- One step of the machine with its kernel; the label is what the kernel sees of it. -/
inductive World.Step (image : SpawnImage) (scheduler : Fin tasksMax) : World → Option Action → World → Prop where
  | compute {w : World} {slot : Fin tasksMax} {t : Cpu} (active : w.os.kernel.schedule.activeTaskBlock = slotIndex slot)
      (runs : Computes slot w.cpu t) : Step image scheduler w none { w with cpu := t }
  | setPriority {w : World} {priority : Byte} {os' : Os}
      (sets : w.os.step .atmega2560 (.setPriority priority) = .ok os') :
      Step image scheduler w (some (.setPriority priority)) { w with os := os' }
  | preempt {w : World} {sw : Switch} {u : Cpu} {os' : Os} (enabled : w.cpu.sreg.i = true)
      (timer : (w.cpu.mem timsk1).getLsbD ocie1a = true)
      (rest : Reschedules image.toImage scheduler (w.cpu.interrupt timer1CompaVector) w.cpu.sp w.os sw u os') :
      Step image scheduler w (some (.yield sw)) ⟨u, os'⟩
  | yield {w : World} {slot : Fin tasksMax} {back : Pc} {sw : Switch} {u : Cpu} {os' : Os}
      (active : w.os.kernel.schedule.activeTaskBlock = slotIndex slot)
      (calls : CallsYield image.toImage slot w.cpu back)
      (rest : Reschedules image.toImage scheduler w.cpu (w.cpu.sp + 3) w.os sw u os') :
      Step image scheduler w (some (.yield sw)) ⟨u, os'⟩
  /-- `kill_current_task` ends with a call of `k_yield`. -/
  | kill {w : World} {slot : Fin tasksMax} {back : Pc} {kernel : Kernel} {sw : Switch} {u : Cpu} {os' : Os}
      (active : w.os.kernel.schedule.activeTaskBlock = slotIndex slot)
      (killed : killCurrentTask .atmega2560 w.os.kernel = .ok kernel)
      (calls : CallsYield image.toImage slot w.cpu back)
      (rest : Reschedules image.toImage scheduler w.cpu (w.cpu.sp + 3) { w.os with kernel := kernel } sw u os') :
      Step image scheduler w (some (.kill sw)) ⟨u, os'⟩
  | spawn {w : World} {name : ProgmemString} {priority : Byte} {pid : Word} {new : Fin tasksMax} {t u : Cpu} {os' : Os}
      (pc : w.cpu.pc = image.spawnAdr) (saves : steps image.program 55 w.cpu = some t)
      (spawned : spawnTask .atmega2560 name priority (w.cpu.sp - 36) w.os = .ok (pid, os'))
      (active : os'.kernel.schedule.activeTaskBlock = slotIndex new) (starts : StartsTask new t u os') :
      Step image scheduler w (some (.spawn name priority (w.cpu.sp - 36))) ⟨u, os'⟩

/-! ## The tasks with CPUs of their own -/

structure Threads where
  cpus : Fin tasksMax → TaskCpu
  running : Fin tasksMax

/-- The running task has changed its CPU. -/
def Threads.set (b : Threads) (v : TaskCpu) : Threads := { b with cpus := Function.update b.cpus b.running v }

theorem Threads.set_self (b : Threads) (v : TaskCpu) : (b.set v).cpus b.running = v := Function.update_self ..

theorem Threads.set_of_ne {b : Threads} {i : Fin tasksMax} (other : i ≠ b.running) (v : TaskCpu) :
    (b.set v).cpus i = b.cpus i := Function.update_of_ne other ..

/-- To its caller `k_yield` is nothing but a return. -/
def TaskCpu.ret (v : TaskCpu) : TaskCpu := { v with sp := v.sp + 3, pc := returnAddress v.stack v.sp }

/-- `SET_RETURN_POINT` has changed its registers, and the task will go on at its jump to the return point. -/
structure ForksTo (spawnAdr : Pc) (v v' : TaskCpu) : Prop where
  regs : ∀ r, r ∉ returnPointRegisters → v'.regs r = v.regs r
  sp : v'.sp = v.sp
  pc : v'.pc = spawnAdr + 13
  stack : v'.stack = v.stack

/-- One step of the tasks. Only the running task's CPU ever changes, apart from that of a task that is created. -/
inductive Threads.Step (spawnAdr : Pc) : Threads → Option Action → Threads → Prop where
  | compute (b : Threads) (v : TaskCpu) : Step spawnAdr b none (b.set v)
  | setPriority (b : Threads) (priority : Byte) : Step spawnAdr b (some (.setPriority priority)) b
  /-- The interrupted task does not notice. -/
  | preempt {b : Threads} {sw : Switch} (next : Fin tasksMax) (saved : sw.sp = (b.cpus b.running).sp - 36) :
      Step spawnAdr b (some (.yield sw)) { b with running := next }
  | yield {b : Threads} {sw : Switch} (next : Fin tasksMax) (saved : sw.sp = (b.cpus b.running).ret.sp - 36) :
      Step spawnAdr b (some (.yield sw)) { b.set (b.cpus b.running).ret with running := next }
  | kill {b : Threads} {sw : Switch} (next : Fin tasksMax) (other : next ≠ b.running) :
      Step spawnAdr b (some (.kill sw)) { b with running := next }
  | spawn {b : Threads} {name : ProgmemString} {priority : Byte} {sp : Word} {new : Fin tasksMax} {parent : TaskCpu}
      (child : TaskCpu) (other : new ≠ b.running) (saved : sp = (b.cpus b.running).sp - 36)
      (forks : ForksTo spawnAdr (b.cpus b.running) parent) :
      Step spawnAdr b (some (.spawn name priority sp)) ⟨Function.update (b.set parent).cpus new child, new⟩

/-! ## How the machine implements the tasks -/

/-- The context of the scheduler is saved on its stack, where `scheduler_task_sp` points. -/
def SchedulerWaits (scheduler : Fin tasksMax) (os : Os) (mem : Memory) : Prop :=
  (∃ ctx, SavedContext mem os.schedulerTaskSp ctx) ∧ OnStack scheduler (os.schedulerTaskSp + 36)

/-- The machine with its kernel implements the tasks `b`: the running task's CPU is the machine's, and that of a READY
task is saved on its stack, at the stack pointer its slot holds. -/
structure Implements (scheduler : Fin tasksMax) (w : World) (b : Threads) : Prop where
  user : UserInv w.os (some scheduler) b.running
  words : Words w.cpu.mem w.os
  running : Realises b.running (b.cpus b.running) (.ofCpu w.cpu) w.cpu.sp w.cpu.mem
  ready : ∀ i, w.os.kernel.status i = .ready → Suspended i (b.cpus i) (w.os.kernel.tasks i).taskSpAdr w.cpu.mem
  scheduler : SchedulerWaits scheduler w.os w.cpu.mem

/-- The record of the saved stack pointers that the READY slots hold. -/
def Kernel.saved (k : Kernel) : Saved := fun index =>
  match derefTask index with
  | .ok slot => if k.status slot = .ready then some (k.tasks slot).taskSpAdr else none
  | .error _ => none

theorem Kernel.saved_slot (k : Kernel) (slot : Fin tasksMax) :
    k.saved (slotIndex slot) = if k.status slot = .ready then some (k.tasks slot).taskSpAdr else none := by
  rw [Kernel.saved, derefTask_slotIndex]

theorem Kernel.saved_inv (k : Kernel) : SavedInv k k.saved := by
  intro i ready
  rw [k.saved_slot, if_pos ready]

/-- Every recorded context but that of `except` is complete. -/
def Sleeping (saved : Saved) (cpus : Fin tasksMax → TaskCpu) (except : Fin tasksMax) (mem : Memory) : Prop :=
  ∀ i sp, i ≠ except → saved (slotIndex i) = some sp → Suspended i (cpus i) sp mem

section

variable {scheduler : Fin tasksMax} {w : World} {b : Threads}

theorem Implements.sleeping (h : Implements scheduler w b) : Sleeping w.os.kernel.saved b.cpus b.running w.cpu.mem := by
  intro i sp _ held
  rw [Kernel.saved_slot] at held
  split at held
  · rename_i ready
    rw [← Option.some.inj held]
    exact h.ready i ready
  · cases held

theorem Implements.runningStatus (h : Implements scheduler w b) : w.os.kernel.status b.running = .running :=
  (h.user.kernel.status.running _).mpr rfl

theorem Implements.schedulerStatus (h : Implements scheduler w b) : w.os.kernel.status scheduler = .scheduler :=
  (h.user.kernel.status.scheduler _).mpr rfl

theorem Implements.apart (h : Implements scheduler w b) : b.running ≠ scheduler := by
  intro same
  have status := h.runningStatus
  rw [same, h.schedulerStatus] at status
  cases status

theorem Implements.unscheduled (h : Implements scheduler w b) : w.os.kernel.saved (slotIndex scheduler) = none := by
  rw [Kernel.saved_slot, if_neg]
  rw [h.schedulerStatus]
  exact nofun

end

/-! ## A round -/

theorem schedulerRound_schedulerSp {mem : DataMemory} {os done : Os} {scheduler : Option (Fin tasksMax)}
    {prev : Fin tasksMax} (inv : RoundInv os.kernel scheduler prev)
    (h : schedulerRound .atmega2560 mem os = .ok done) : done.schedulerTaskSp = os.schedulerTaskSp := by
  obtain ⟨entry, next, -, -, -, rfl⟩ := inv.round_ok h
  show (savePrevious prev os).schedulerTaskSp = _
  unfold savePrevious
  split <;> rfl

/-- The code that is left by a switch sleeps. -/
theorem HandsOver.suspended {mem : Memory} {top sp : Word} {own ctx : Context} {t : Cpu} {prev next : Fin tasksMax}
    {v : TaskCpu} (h : HandsOver mem top own sp ctx t) (room' : OnStack next (sp + 36)) (apart : prev ≠ next)
    (realises : Realises prev v own top mem) : Suspended prev v (top - 36) t.mem := by
  refine ⟨own, h.saved, ?_⟩
  rw [BitVec.sub_add_cancel]
  exact realises.congr fun a block used => h.keeps realises.room room' block (fun _ => used) fun same => absurd same apart

/-- The task that is resumed has its CPU back. -/
theorem HandsOver.realises {mem : Memory} {top sp : Word} {own ctx : Context} {t : Cpu} {prev next : Fin tasksMax}
    {v : TaskCpu} (h : HandsOver mem top own sp ctx t) (room : OnStack prev top) (apart : next ≠ prev)
    (realises : Realises next v ctx (sp + 36) mem) : Realises next v (.ofCpu t) t.sp t.mem where
  regs := realises.regs.trans h.regs.symm
  carry := by
    rw [realises.carry, Context.ofCpu, h.sreg]
    rfl
  halfCarry := by
    rw [realises.halfCarry, Context.ofCpu, h.sreg]
    rfl
  transfer := by
    rw [realises.transfer, Context.ofCpu, h.sreg]
    rfl
  pointer := realises.pointer.trans h.stack.symm
  pc := realises.pc.trans h.pc.symm
  stack := by
    intro a block used
    rw [h.stack] at used
    rw [h.keeps room realises.room block (fun same => absurd same apart) fun _ => used]
    exact realises.stack a block used
  room := h.stack ▸ realises.room

/-- What a round leaves of the machine, from the switch away from `prev` to the one to `next`. -/
structure Lands (scheduler next : Fin tasksMax) (saved : Saved) (cpus : Fin tasksMax → TaskCpu) (u : Cpu) (os' : Os) :
    Prop where
  words : Words u.mem os'
  running : Realises next (cpus next) (.ofCpu u) u.sp u.mem
  sleeping : Sleeping saved cpus next u.mem
  scheduler : SchedulerWaits scheduler os' u.mem

/-- The scheduler has been resumed in `t`, and every recorded context is complete. -/
structure AtScheduler (scheduler : Fin tasksMax) (os : Os) (saved : Saved) (cpus : Fin tasksMax → TaskCpu) (t : Cpu) :
    Prop where
  level : t.sp = os.schedulerTaskSp + 36
  room : OnStack scheduler (os.schedulerTaskSp + 36)
  asleep : ∀ i sp, saved (slotIndex i) = some sp → i ≠ scheduler ∧ Suspended i (cpus i) sp t.mem

/-- **The switch to the scheduler** ends, and completes the context of the task that is left. -/
theorem Departs.toScheduler {image : Image} {scheduler prev : Fin tasksMax} {e : Cpu} {own : Context} {top : Word}
    {os : Os} {saved : Saved} {cpus : Fin tasksMax → TaskCpu} (departs : Departs image e own top) (room : OnStack prev top)
    (apart : prev ≠ scheduler) (words : Words e.mem os) (nothing : os.nextTaskSp = 0)
    (waits : SchedulerWaits scheduler os e.mem) (sleeping : Sleeping saved cpus prev e.mem)
    (left : ∀ sp, saved (slotIndex prev) = some sp → sp = top - 36 ∧ Realises prev (cpus prev) own top e.mem)
    (unscheduled : saved (slotIndex scheduler) = none) :
    ∃ t ctx, RunsToReturn image.program e t ∧ HandsOver e.mem top own os.schedulerTaskSp ctx t ∧
      AtScheduler scheduler os saved cpus t := by
  obtain ⟨⟨ctx, frame⟩, schedulerRoom⟩ := waits
  have selected : selectedSp e.mem = os.schedulerTaskSp := by
    rw [← words.selected 0]
    exact if_pos nothing
  obtain ⟨t, runs, first⟩ := departs.handsOver room.clear selected frame schedulerRoom.clear_frame fun a inside =>
    room.elsewhere (schedulerRoom.inside (Nat.lt_succ_of_lt inside)) apart.symm
  refine ⟨t, ctx, runs, first, first.stack, schedulerRoom, ?_⟩
  intro i sp held
  have notScheduler : i ≠ scheduler := by
    rintro rfl
    cases unscheduled.symm.trans held
  refine ⟨notScheduler, ?_⟩
  by_cases here : i = prev
  · subst here
    obtain ⟨rfl, realises⟩ := left sp held
    exact first.suspended schedulerRoom notScheduler realises
  · apply (sleeping i sp here held).congr
    intro a block
    exact first.keeps room schedulerRoom block (fun same => absurd same here) fun same => absurd same notScheduler

/-- The scheduler calls `k_yield` in `y`, and every recorded context is complete. -/
structure SchedulerYields (image : Image) (scheduler : Fin tasksMax) (os : Os) (saved : Saved)
    (cpus : Fin tasksMax → TaskCpu) (y : Cpu) (back : Pc) : Prop where
  calls : CallsYield image scheduler y back
  words : Words y.mem os
  asleep : ∀ i sp, saved (slotIndex i) = some sp → i ≠ scheduler ∧ Suspended i (cpus i) sp y.mem

/-- **The switch to the selected task** ends, and gives the task its CPU back. The context of the scheduler that counts is
either the one this switch saves or an older one above it. -/
theorem SchedulerYields.toTask {image : Image} {scheduler next : Fin tasksMax} {y : Cpu} {os : Os} {back : Pc}
    {saved : Saved} {cpus : Fin tasksMax → TaskCpu} (h : SchedulerYields image scheduler os saved cpus y back)
    (resumed : Resumed (os.contextSwtich (y.sp - 33)) saved next)
    (waits : ∀ mem, (∃ own, SavedContext mem (y.sp - 33) own) →
      (∀ a, InBlock scheduler a → y.sp + 3 < a → mem a = y.mem a) → SchedulerWaits scheduler os mem) :
    ∃ u, RunsToReturn image.program y u ∧ Lands scheduler next saved cpus u (os.contextSwtich (y.sp - 33)) ∧
      (CanariesIntact y.mem → CanariesIntact u.mem) := by
  have calls : Departs image y _ (y.sp + 3) := .call back h.calls.pc h.calls.returns
  have chosen : selectedSp y.mem = (os.contextSwtich (y.sp - 33)).taskSp := (h.words.selected _).symm
  obtain ⟨notScheduler, ctx, frame, realises⟩ := h.asleep next _ resumed.sp
  have room := realises.room
  obtain ⟨u, runs, second⟩ := calls.handsOver h.calls.room.clear chosen frame room.clear_frame fun a inside =>
    h.calls.room.elsewhere (room.inside (Nat.lt_succ_of_lt inside)) notScheduler
  have bottom : y.sp + 3 - 36 = y.sp - 33 := by bv_omega
  refine ⟨u, runs, ⟨?_, second.realises h.calls.room notScheduler realises, ?_, ?_⟩, second.canaries h.calls.room room⟩
  · rw [← chosen] at second
    rw [← bottom]
    exact second.words h.words
  · intro i sp other held
    obtain ⟨notScheduler, suspended⟩ := h.asleep i sp held
    apply suspended.congr
    intro a block
    exact second.keeps h.calls.room room block (fun same => absurd same notScheduler) fun same => absurd same other
  · apply waits
    · exact ⟨_, bottom ▸ second.saved⟩
    · intro a block used
      exact second.keeps h.calls.room room block (fun _ => used) fun same => absurd same notScheduler.symm

/-- A pass of the scheduler's loop ends. -/
theorem AtScheduler.toTask {image : Image} {scheduler next : Fin tasksMax} {t y : Cpu} {os done : Os} {back : Pc}
    {saved : Saved} {cpus : Fin tasksMax → TaskCpu} (h : AtScheduler scheduler os saved cpus t)
    (loops : Loops image scheduler t y done back) (schedulerSp : done.schedulerTaskSp = os.schedulerTaskSp)
    (resumed : Resumed (done.contextSwtich (y.sp - 33)) saved next) :
    ∃ u, RunsToReturn image.program y u ∧ Lands scheduler next saved cpus u (done.contextSwtich (y.sp - 33)) := by
  have level : y.sp + 3 = os.schedulerTaskSp + 36 := loops.level.trans h.level
  have yields : SchedulerYields image scheduler done saved cpus y back := by
    refine ⟨⟨loops.pc, loops.returns, level ▸ h.room⟩, loops.words, ?_⟩
    intro i sp held
    obtain ⟨notScheduler, suspended⟩ := h.asleep i sp held
    exact ⟨notScheduler, suspended.congr fun a block => loops.blocks i a notScheduler block⟩
  obtain ⟨u, runs, lands, -⟩ := yields.toTask resumed fun mem saved _ => by
    have bottom : y.sp - 33 = os.schedulerTaskSp := by bv_omega
    rw [bottom] at saved
    rw [SchedulerWaits, schedulerSp]
    exact ⟨saved, h.room⟩
  exact ⟨u, runs, lands⟩

/-- **A round and its two switches.** -/
theorem Reschedules.lands {image : Image} {scheduler prev next : Fin tasksMax} {e t u : Cpu} {top : Word} {os os' : Os}
    {sw : Switch} {saved : Saved} {cpus : Fin tasksMax → TaskCpu} (h : Reschedules image scheduler e top os sw u os')
    (toScheduler : RunsToReturn image.program e t) (at_scheduler : AtScheduler scheduler os saved cpus t)
    (inv : RoundInv os.kernel (some scheduler) prev) (resumed : Resumed os' saved next) :
    Lands scheduler next saved cpus u os' := by
  obtain ⟨runs, round, loops, runs'⟩ := h
  obtain rfl := runs.unique toScheduler
  have atRound : RoundInv (os.contextSwtich (top - 36)).kernel (some scheduler) prev := inv
  have schedulerSp := schedulerRound_schedulerSp atRound round
  obtain ⟨u, toTask, lands⟩ := at_scheduler.toTask loops schedulerSp resumed
  obtain rfl := runs'.unique toTask
  exact lands

theorem Lands.implements {scheduler next : Fin tasksMax} {saved : Saved} {cpus : Fin tasksMax → TaskCpu} {u : Cpu}
    {os' : Os} (lands : Lands scheduler next saved cpus u os') (user : UserInv os' (some scheduler) next)
    (saves : SavedInv os'.kernel saved) : Implements scheduler ⟨u, os'⟩ ⟨cpus, next⟩ where
  user := user
  words := lands.words
  running := lands.running
  ready := by
    intro i ready
    apply lands.sleeping i _ _ (saves i ready)
    rintro rfl
    cases ready.symm.trans ((user.kernel.status.running i).mpr rfl)
  scheduler := lands.scheduler

theorem Reschedules.switchAway {image : Image} {scheduler : Fin tasksMax} {e u : Cpu} {top : Word} {os os' : Os}
    {sw : Switch} (h : Reschedules image scheduler e top os sw u os') (nothing : os.nextTaskSp = 0) :
    os.switchAway .atmega2560 sw = .ok os' ∧ sw.sp = top - 36 := by
  obtain ⟨-, round, -, -⟩ := h
  refine ⟨?_, rfl⟩
  rw [Os.switchAway, if_pos nothing]
  exact bind_eq_ok.mpr ⟨_, round, rfl⟩

end Simplos
