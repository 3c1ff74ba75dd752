import Simplos.Lib.Runs
import Simplos.Switch.Preemption
import Simplos.Switch.ReturnPoint

/-!
# The scheduler and its tasks at the level of instructions

After `start_scheduler` the CPU executes known code (the context switch, the prologue of the scheduler's
loop) one instruction at a time, and compiled code that is only constrained: the body of the loop and
the tasks. The compare match of the timer may become pending at any moment and its interrupt may be
taken at any instruction boundary where it is enabled and pending; the instruction behind `sei` and
`reti` executes first.

`Machine` carries next to the CPU what the statements are about and the code does not store: how far a
switch has got, and the state each side was in when its latest switch was entered.
-/

namespace Simplos
set_option autoImplicit false
open Avr

/-- `start_scheduler` behind the assignment of the scheduler's status, up to the body of its loop. The
label is the first `nop`. -/
def startSchedulerCode (schedulerLoopEntryPoint : Pc) : List Instr :=
  setReturnPoint schedulerLoopEntryPoint ++ saveContext ++ saveSpToAdr schedulerTaskSpAdr ++
    [.rjmp 1, .nop, .nop] ++ scilentDisableMt

/-- A program with the scheduler: `start_scheduler` at `startAdr`, the compiled body of its loop at the
addresses `body`, and behind it the call of `k_yield` and the jump back. -/
structure SchedulerImage extends Image where
  startAdr : Pc
  fits : startAdr.toNat + 73 < 2 ^ 17
  start : Placed program startAdr (startSchedulerCode (startAdr + 64))
  body : Pc → Bool
  bodyAdr : body (startAdr + 73) = true
  compiled : ∀ pc, body pc = true → program pc = none
  callAdr : Pc
  call : Placed program callAdr [.call kYieldAdr, .jmp (startAdr + 63)]
  callCode : ∀ pc, body pc = true → pc ≠ callAdr

namespace SchedulerImage

variable (image : SchedulerImage)

/-- The address behind the prologue of the loop. -/
def entryAdr : Pc := image.startAdr + 73

/-- An address in the compiled code of a task. -/
def TaskCode (pc : Pc) : Prop := image.program pc = none ∧ image.body pc = false

theorem start_parts :
    Placed image.program image.startAdr (setReturnPoint (image.startAdr + 64)) ∧
      Placed image.program (image.startAdr + 16) (saveContext ++ saveSpToAdr schedulerTaskSpAdr) ∧
      Placed image.program (image.startAdr + 63) ([.rjmp 1, .nop, .nop] ++ scilentDisableMt) := by
  have second : 16 + codeSize (saveContext ++ saveSpToAdr schedulerTaskSpAdr) = 63 := by decide +kernel
  have parts : startSchedulerCode (image.startAdr + 64) =
      setReturnPoint (image.startAdr + 64) ++
        ((saveContext ++ saveSpToAdr schedulerTaskSpAdr) ++ ([.rjmp 1, .nop, .nop] ++ scilentDisableMt)) := by
    simp only [startSchedulerCode, List.append_assoc]
  have placed := image.start
  rw [parts, placed_append, placed_append, codeSize_setReturnPoint, BitVec.add_assoc, second] at placed
  exact placed

theorem returnPoint : image.program (image.startAdr + 13) = some (.jmp (image.startAdr + 64)) :=
  setReturnPoint_jump image.start_parts.1

/-- The code from the start of the loop to its body. -/
structure LoopCode (program : Program) (start : Pc) : Prop where
  rjmp : program (start + 63) = some (.rjmp 1)
  entryPoint : program (start + 64) = some .nop
  nop : program (start + 65) = some .nop
  push : program (start + 66) = some (.push 16)
  lds : program (start + 67) = some (.lds 16 timsk1)
  andi : program (start + 69) = some (.andi 16 (~~~(1 <<< ocie1a)))
  sts : program (start + 70) = some (.sts timsk1 16)
  pop : program (start + 72) = some (.pop 16)

theorem loopCode : LoopCode image.program image.startAdr := by
  have placed := image.start_parts.2.2
  simp only [scilentDisableMt, List.cons_append, List.nil_append, Placed, Instr.size, BitVec.add_assoc] at placed
  obtain ⟨rjmp, entryPoint, nop, push, lds, andi, sts, pop, -⟩ := placed
  exact ⟨rjmp, entryPoint, nop, push, lds, andi, sts, pop⟩

theorem kYield_known : image.program image.kYieldAdr ≠ none := by
  rw [image.kYield_cli]
  exact Option.some_ne_none _

theorem kYield_not_entry : image.kYieldAdr ≠ image.entryAdr := by
  intro same
  have known := image.kYield_known
  rw [same] at known
  exact known (image.compiled _ image.bodyAdr)

theorem callReturn : image.program (image.callAdr + 2) = some (.jmp (image.startAdr + 63)) := image.call.2.1

end SchedulerImage

/-! ## The machine -/

/-- How far the switch to the scheduler and back has got. -/
inductive Phase where
  /-- A task runs, or its own switch has not yet selected the scheduler. -/
  | task
  /-- A task's switch has selected `scheduler_task_sp`. -/
  | resuming
  /-- The switch has returned to the scheduler. -/
  | resumed
  /-- The scheduler has masked the timer. -/
  | scheduling
  /-- The scheduler's switch has restored the flags of the selected task. -/
  | restoring
deriving DecidableEq

/-- The instructions at which the phase changes: loading the address of `scheduler_task_sp`, returning
from the switch, storing the timer mask, restoring the flags, restoring the last register. -/
def Phase.next : Phase → Instr → Phase
  | .task, i => if i = .ldi 30 (lo8 schedulerTaskSpAdr) then .resuming else .task
  | .resuming, i => if i = .ret ∨ i = .reti then .resumed else .resuming
  | .resumed, i => if i = .sts timsk1 16 then .scheduling else .resumed
  | .scheduling, i => if i = .out .sreg 0 then .restoring else .scheduling
  | .restoring, i => if i = .pop 0 then .task else .restoring

/-- The timer interrupt may be taken in `cpu`, given the compare flag and whether the last instruction was
`sei` or `reti`. -/
def takesInterrupt (cpu : Cpu) (pending shadow : Bool) : Bool :=
  cpu.sreg.i && (cpu.mem timsk1).getLsbD ocie1a && pending && !shadow

structure Machine where
  cpu : Cpu
  /-- The compare flag of the timer. -/
  pending : Bool
  /-- The last instruction was `sei` or `reti`. -/
  shadow : Bool
  phase : Phase
  /-- How often the scheduler was selected. -/
  rounds : Nat
  /-- The stack pointer at the entry of the loop body. -/
  loopSp : Word
  /-- The state in which the latest switch away from a task was entered. -/
  taskLeft : Option Cpu
  /-- The state in which the scheduler's latest call of `k_yield` entered the switch. -/
  schedulerLeft : Option Cpu

namespace Machine

/-- The interrupt may be taken. -/
def interruptible (m : Machine) : Bool := takesInterrupt m.cpu m.pending m.shadow

/-- The interrupt is taken: the core enters the vector and clears the compare flag. -/
def interrupted (m : Machine) : Machine :=
  { m with
    cpu := m.cpu.interrupt timer1CompaVector
    pending := false
    shadow := false
    taskLeft := if m.phase = .task then some (m.cpu.interrupt timer1CompaVector) else m.taskLeft }

/-- The instruction `i` is executed. `k_yield` enters its switch with `cli`. -/
def executed (image : SchedulerImage) (m : Machine) (i : Instr) : Machine :=
  let cpu := i.exec image.program m.cpu
  { m with
    cpu := cpu
    shadow := decide (i = .sei ∨ i = .reti)
    phase := m.phase.next i
    rounds := if m.phase = .task ∧ m.phase.next i = .resuming then m.rounds + 1 else m.rounds
    loopSp := if cpu.pc = image.entryAdr then cpu.sp else m.loopSp
    taskLeft := if i = .cli ∧ m.phase = .task then some cpu else m.taskLeft
    schedulerLeft := if i = .cli ∧ m.phase = .scheduling then some cpu else m.schedulerLeft }

end Machine

/-- The timer interrupt is disabled in `TIMSK1`. -/
def Masked (mem : Memory) : Prop := (mem timsk1).getLsbD ocie1a = false

section

variable {cpu : Cpu} {pending shadow : Bool}

theorem takesInterrupt_iff :
    takesInterrupt cpu pending shadow = true ↔
      cpu.sreg.i = true ∧ (cpu.mem timsk1).getLsbD ocie1a = true ∧ pending = true ∧ shadow = false := by
  simp [takesInterrupt, and_assoc]

theorem not_takesInterrupt_of_masked (masked : Masked cpu.mem) : takesInterrupt cpu pending shadow ≠ true := by
  intro taken
  obtain ⟨-, timer, -⟩ := takesInterrupt_iff.mp taken
  rw [Masked, timer] at masked
  cases masked

theorem not_takesInterrupt_of_disabled (disabled : cpu.sreg.i = false) : takesInterrupt cpu pending shadow ≠ true := by
  intro taken
  obtain ⟨on, -⟩ := takesInterrupt_iff.mp taken
  rw [disabled] at on
  cases on

theorem not_takesInterrupt_of_none (none : pending = false) : takesInterrupt cpu pending shadow ≠ true := by
  intro taken
  obtain ⟨-, -, matched, -⟩ := takesInterrupt_iff.mp taken
  rw [none] at matched
  cases matched

end

/-! ## What compiled code is taken to do -/

/-- The bytes no task writes: the scheduler's saved context below `top`, and the two variables through
which a switch finds the next stack pointer. -/
def Kept (top a : Word) : Prop :=
  (top - a).toNat < 36 ∨ a ∈ [nextTaskSpAdr, nextTaskSpAdr + 1, schedulerTaskSpAdr, schedulerTaskSpAdr + 1]

/-- A task's stack pointer: there is room for `n` bytes outside the scheduler's saved context. -/
structure TaskRoom (top sp : Word) (n : Nat) : Prop extends Room sp n where
  apart : ∀ a, (top - a).toNat < 36 → n ≤ (sp - a).toNat

/-- Compiled code of a task runs: it stays on its own stack, which has room for a call of `k_yield`
that is preempted, and leaves `Kept` bytes alone. It may do anything else, to the timer mask too. -/
structure TaskRuns (image : SchedulerImage) (top : Word) (m : Machine) (cpu : Cpu) : Prop where
  phase : m.phase = .task
  code : image.TaskCode m.cpu.pc
  stays : image.TaskCode cpu.pc
  room : TaskRoom top cpu.sp 40
  kept : ∀ a, Kept top a → cpu.mem a = m.cpu.mem a

/-- `ctx`, saved at `sp`, is the context of a task: it continues in its own code or was preempted as it
entered `k_yield`, and lies outside the scheduler's stack. -/
structure TaskContext (image : SchedulerImage) (top sp : Word) (ctx : Context) : Prop where
  masked : ctx.sreg.i = false
  resumes : image.TaskCode ctx.pc ∧ TaskRoom top (sp + 36) 40 ∨
    ctx.pc = image.kYieldAdr ∧ TaskRoom top (sp + 39) 40
  apart : ∀ a, (sp + 36 - a).toNat < 36 → 73 ≤ (top - a).toNat

/-- The scheduled stack pointer is that of a complete context of a task. -/
structure Schedules (image : SchedulerImage) (top : Word) (mem : Memory) (sp : Word) (ctx : Context) : Prop where
  next : readWord mem nextTaskSpAdr = sp
  nonzero : sp ≠ 0
  saved : SavedContext mem sp ctx
  task : TaskContext image top sp ctx

/-- Compiled code of the loop body runs. It does not touch the timer mask, `prev_task_sp`,
`scheduler_task_sp` and the stack above the loop's stack pointer, and calls `k_yield` with a task
scheduled and the stack pointer it was entered with. -/
structure BodyRuns (image : SchedulerImage) (top : Word) (m : Machine) (cpu : Cpu) : Prop where
  phase : m.phase = .scheduling
  code : image.body m.cpu.pc = true
  stays : image.body cpu.pc = true ∨
    cpu.pc = image.callAdr ∧ cpu.sp = m.loopSp ∧ ∃ sp ctx, Schedules image top cpu.mem sp ctx
  kept : ∀ a, a ∈ [timsk1, prevTaskSpAdr, prevTaskSpAdr + 1, schedulerTaskSpAdr, schedulerTaskSpAdr + 1] ∨
    (top - a).toNat < (top - m.loopSp).toNat → cpu.mem a = m.cpu.mem a

/-! ## Steps -/

inductive Event where
  | compareMatch
  | interrupt
  | instruction
  | compute
  | yield
  | schedule
deriving DecidableEq

/-- One step of the system. -/
inductive Step (image : SchedulerImage) (top : Word) : Machine → Event → Machine → Prop where
  | compareMatch (m : Machine) : Step image top m .compareMatch { m with pending := true }
  | interrupt (m : Machine) (enabled : m.interruptible = true) : Step image top m .interrupt m.interrupted
  | instruction (m : Machine) (i : Instr) (fetch : image.program m.cpu.pc = some i) :
      Step image top m .instruction (m.executed image i)
  /-- A task computes. -/
  | compute (m : Machine) (cpu : Cpu) (runs : TaskRuns image top m cpu) :
      Step image top m .compute { m with cpu := cpu, shadow := false }
  /-- A task calls `k_yield`, from `yield` or at the end of `kill_current_task`. -/
  | yield (m : Machine) (back : Pc) (phase : m.phase = .task) (code : image.TaskCode m.cpu.pc)
      (resumes : image.TaskCode back) :
      Step image top m .yield { m with cpu := { m.cpu.pushPc back with pc := image.kYieldAdr }, shadow := false }
  /-- The scheduler handles the previous task and selects the next. -/
  | schedule (m : Machine) (cpu : Cpu) (runs : BodyRuns image top m cpu) :
      Step image top m .schedule { m with cpu := cpu, shadow := false }

end Simplos
