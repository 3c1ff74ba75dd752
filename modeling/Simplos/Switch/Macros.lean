import Simplos.Avr.Instr
import Simplos.Kernel.Memory

/-!
# `context_switch_macros.hpp`

The macros of the context switch as instruction sequences, and the functions made of them: `k_yield`
and the handler of `TIMER1_COMPA`. The stack-pointer variables have the addresses the Makefile links
them at. Jump offsets, in bytes in the source, are in words.
-/

namespace Simplos
set_option autoImplicit false
open Avr

/-! ## Addresses -/

def taskSpAdr : Word := 0x2100
def schedulerTaskSpAdr : Word := 0x20FE
def nextTaskSpAdr : Word := 0x20FC
def prevTaskSpAdr : Word := 0x20FA

/-- `TIMSK1`, the interrupt mask of timer 1. -/
def timsk1 : Word := 0x6F

/-- The compare match A interrupt enable bit of `TIMSK1`. -/
def ocie1a : Nat := 1

def tcnt1h : Word := 0x85
def tcnt1l : Word := 0x84

/-- The interrupt vector of `TIMER1_COMPA`. -/
def timer1CompaVector : Pc := 0x22

/-! ## The macros -/

/-- `SET_RETURN_POINT`. -/
def setReturnPoint (entrypointLabel : Pc) : List Instr :=
  [.rcall 0, .pop 16, .pop 17, .pop 18, .ldi 19 12, .add 18 19, .ldi 19 0, .adc 17 19, .adc 16 19,
    .push 18, .push 17, .push 16, .cpse 1 1, .jmp entrypointLabel, .nop]

/-- `CLEAR_IO_REG`: the address is the data address of the register less 0x20. -/
def clearIoReg (ioReg : Word) : List Instr := [.sts (ioReg - 0x20) 1]

/-- `RESET_TIMER`. -/
def resetTimer : List Instr := clearIoReg tcnt1h ++ clearIoReg tcnt1l

/-- `SCILENT_ENABLE_MT`. -/
def scilentEnableMt : List Instr :=
  [.push 16, .lds 16 timsk1, .ori 16 (1 <<< ocie1a), .sts timsk1 16, .pop 16]

/-- `SCILENT_DISABLE_MT`. -/
def scilentDisableMt : List Instr :=
  [.push 16, .lds 16 timsk1, .andi 16 (~~~(1 <<< ocie1a)), .sts timsk1 16, .pop 16]

/-- `SAVE_SP_TO_ADR`. -/
def saveSpToAdr (adr : Word) : List Instr :=
  [.ldi 26 (lo8 adr), .ldi 27 (hi8 adr), .inp 16 .spl, .stInc .x 16, .inp 16 .sph, .stInc .x 16]

/-- The registers above `r1`, in the order `SAVE_CONTEXT` pushes them. -/
def upperRegisters : List Reg :=
  [2, 3, 4, 5, 6, 7, 8, 9, 10, 11, 12, 13, 14, 15, 16, 17, 18, 19, 20, 21, 22, 23, 24, 25, 26, 27, 28, 29, 30, 31]

/-- The pushes of `SAVE_CONTEXT`. -/
def pushContext : List Instr :=
  [.push 0, .inp 0 .sreg, .push 0, .push 1, .clr 1] ++ upperRegisters.map .push

/-- `SAVE_CONTEXT`. -/
def saveContext : List Instr := pushContext ++ saveSpToAdr taskSpAdr

/-- `SELECT_SCHEDULED_TASK_OR_SCHEDULER` up to the test of the scheduled task's stack pointer. -/
def loadScheduledTask : List Instr :=
  [.ldi 26 (lo8 nextTaskSpAdr), .ldi 27 (hi8 nextTaskSpAdr), .ldInc 16 .x, .ld 17 .x, .mov 18 16, .or 18 17]

/-- Select the scheduler's stack pointer if no task is scheduled. -/
def loadScheduler : List Instr :=
  [.ldi 30 (lo8 schedulerTaskSpAdr), .ldi 31 (hi8 schedulerTaskSpAdr), .ldInc 16 .z, .ld 17 .z]

/-- Set the chosen stack pointer and clear the scheduled one. -/
def storeSelected : List Instr :=
  [.ldi 30 (lo8 taskSpAdr), .ldi 31 (hi8 taskSpAdr), .stInc .z 16, .st .z 17, .st .x 1, .stDec .x 1]

/-- `SELECT_SCHEDULED_TASK_OR_SCHEDULER`. -/
def selectScheduledTaskOrScheduler : List Instr :=
  loadScheduledTask ++ [.cpse 18 1, .rjmp 4] ++ loadScheduler ++ storeSelected

/-- `SET_SP`. -/
def setSp : List Instr :=
  [.ldi 26 (lo8 taskSpAdr), .ldi 27 (hi8 taskSpAdr), .ldInc 30 .x, .ldInc 31 .x, .out .spl 30, .out .sph 31]

/-- The stack switch of `RESTORE_CONTEXT`. -/
def loadTaskSp : List Instr :=
  [.ldi 26 (lo8 taskSpAdr), .ldi 27 (hi8 taskSpAdr), .ldInc 28 .x, .out .spl 28, .ldInc 29 .x, .out .sph 29]

/-- The pops of `RESTORE_CONTEXT`. -/
def popContext : List Instr :=
  (upperRegisters.reverse ++ [1]).map .pop ++ [.pop 0, .out .sreg 0, .pop 0]

/-- `RESTORE_CONTEXT`. -/
def restoreContext : List Instr := loadTaskSp ++ popContext

/-- `CONTEXT_SWTICH`. -/
def contextSwtich : List Instr :=
  saveContext ++ saveSpToAdr prevTaskSpAdr ++ scilentDisableMt ++ selectScheduledTaskOrScheduler ++
    resetTimer ++ restoreContext ++ scilentEnableMt

/-! ## The functions -/

/-- `k_yield`, which is naked. -/
def kYield : List Instr := [.cli] ++ contextSwtich ++ [.sei, .ret]

/-- `ISR(TIMER1_COMPA_vect, ISR_NAKED)`. -/
def timer1CompaVect : List Instr := contextSwtich ++ [.reti]

end Simplos
