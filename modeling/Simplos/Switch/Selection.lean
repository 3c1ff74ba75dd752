import Simplos.Switch.Exec

/-!
# The choice of the next stack pointer

`SELECT_SCHEDULED_TASK_OR_SCHEDULER` tests a 16-bit variable byte by byte, skips with `CPSE` either a jump
or nothing, and copies and clears through auto-incremented pointers. Both ways through it meet at
`storeSelected`, six words behind the test.
-/

namespace Simplos
set_option autoImplicit false
open Avr

/-- The stack pointer the switch selects. -/
def selectedSp (mem : Memory) : Word :=
  if readWord mem nextTaskSpAdr = 0 then readWord mem schedulerTaskSpAdr else readWord mem nextTaskSpAdr

/-! ## From the test to the chosen stack pointer -/

/-- The test at `pc`, the jump over the scheduler, and the loads of the scheduler's stack pointer. -/
structure ChoiceAt (program : Program) (pc : Pc) : Prop where
  cpse : program pc = some (.cpse 18 1)
  rjmp : program (pc + 1) = some (.rjmp 4)
  scheduler : Placed program (pc + 2) loadScheduler

theorem ContextSwtichAt.choice {program : Program} {pc : Pc} (code : ContextSwtichAt program pc) :
    ChoiceAt program (pc + 60) := by
  refine ⟨code.cpse, ?_, ?_⟩
  · rw [BitVec.add_assoc]
    exact code.rjmp
  · rw [BitVec.add_assoc]
    exact code.scheduler

/-- In `u` the registers hold the choice between the scheduled stack pointer `next` and the scheduler's that was
made from `t` on. -/
structure Chooses (next : Word) (t u : Cpu) : Prop where
  pc : u.pc = t.pc + 6
  mem : u.mem = t.mem
  sp : u.sp = t.sp
  zero : u.regs 1 = t.regs 1
  x : u.pointer .x = t.pointer .x
  chosen : u.regs 17 ++ u.regs 16 = if next = 0 then readWord t.mem schedulerTaskSpAdr else next

section

variable {program : Program} {P : Instr → Cpu → Prop} {pc : Pc} {s t : Cpu} {next : Word}

/-- With nothing scheduled the test skips the jump. -/
theorem exec_choice_scheduler (code : ChoiceAt program t.pc) (equal : t.regs 18 = t.regs 1) :
    (Instr.cpse 18 1).exec program t = { t with pc := t.pc + 2 } := by
  have skipped : t.pc + 1 + (Instr.rjmp 4).size = t.pc + 2 := BitVec.add_assoc t.pc 1 1
  rw [Instr.exec_cpse_skip code.rjmp equal, skipped]

/-- With a task scheduled the jump is executed, over the four words that load the scheduler's stack pointer. -/
theorem runs_over_scheduler (code : ChoiceAt program t.pc) (different : t.regs 18 ≠ t.regs 1)
    (cpse : ∀ c, P (.cpse 18 1) c) (rjmp : ∀ c, P (.rjmp 4) c) : Runs program P 2 t { t with pc := t.pc + 6 } := by
  have jumped : (Instr.rjmp 4).exec program { t with pc := t.pc + 1 } = { t with pc := t.pc + 6 } := by
    show { t with pc := t.pc + 1 + 1 + 4 } = { t with pc := t.pc + 6 }
    rw [BitVec.add_assoc, BitVec.add_assoc]
    rfl
  apply Runs.next code.cpse (cpse t)
  rw [Instr.exec_cpse_next different]
  apply Runs.next code.rjmp (rjmp _)
  rw [jumped]
  exact .refl _

/-- **Either way** the choice is in the registers six words behind the test. -/
theorem runs_choice (code : ChoiceAt program t.pc) (test : t.regs 18 = t.regs 1 ↔ next = 0)
    (offered : t.regs 17 ++ t.regs 16 = next) (holds : ∀ i ∈ .cpse 18 1 :: .rjmp 4 :: loadScheduler, ∀ c, P i c) :
    ∃ u, Runs program P (if next = 0 then 5 else 2) t u ∧ Chooses next t u := by
  by_cases nothing : next = 0
  · rw [if_pos nothing]
    have tested : Runs program P 1 t _ := .one code.cpse (holds _ List.mem_cons_self t)
    rw [exec_choice_scheduler code (test.mpr nothing)] at tested
    have straight : ∀ i ∈ loadScheduler, i.straight = true := by decide
    have loads := Runs.block (P := P) (s := { t with pc := t.pc + 2 }) code.scheduler straight fun i member =>
      holds i (List.mem_cons_of_mem _ (List.mem_cons_of_mem _ member))
    obtain ⟨mem, sp, -, zero, x, low, high⟩ := execAll_loadScheduler { t with pc := t.pc + 2 }
    refine ⟨_, tested.trans loads, ?_, mem, sp, zero, x, ?_⟩
    · rw [execAll_pc, BitVec.add_assoc]
      rfl
    · rw [low, high, if_pos nothing, readWord]
  · rw [if_neg nothing]
    have jumped := runs_over_scheduler (P := P) code (fun equal => nothing (test.mp equal)) (holds _ List.mem_cons_self)
      (holds _ (List.mem_cons_of_mem _ List.mem_cons_self))
    refine ⟨_, jumped, rfl, rfl, rfl, rfl, rfl, ?_⟩
    rw [if_neg nothing]
    exact offered

/-! ## In a switch -/

/-- The first half of a switch has found out whether a task is scheduled. -/
theorem Saves.unscheduled_iff (half : Saves s t) : t.regs 18 = t.regs 1 ↔ readWord s.mem nextTaskSpAdr = 0 := by
  rw [half.test, half.zero]
  exact or_eq_zero_iff_readWord

theorem ContextSwtichAt.choice_of_saves (code : ContextSwtichAt program s.pc) (half : Saves s t) :
    ChoiceAt program t.pc := by
  rw [half.pc]
  exact code.choice

/-- With no task scheduled the test skips to the scheduler's stack pointer. -/
theorem exec_cpse_scheduler (code : ContextSwtichAt program s.pc) (half : Saves s t)
    (nothing : readWord s.mem nextTaskSpAdr = 0) :
    (Instr.cpse 18 1).exec program t = { t with pc := s.pc + 62 } := by
  rw [exec_choice_scheduler (code.choice_of_saves half) (half.unscheduled_iff.mpr nothing), half.pc, BitVec.add_assoc]
  rfl

/-- With a task scheduled the test leads over a jump to the switch of stacks. -/
theorem runs_select_task (code : ContextSwtichAt program s.pc) (half : Saves s t)
    (scheduled : readWord s.mem nextTaskSpAdr ≠ 0) (cpse : ∀ c, P (.cpse 18 1) c) (rjmp : ∀ c, P (.rjmp 4) c) :
    Runs program P 2 t { t with pc := s.pc + 66 } := by
  have jumped := runs_over_scheduler (code.choice_of_saves half) (fun equal => scheduled (half.unscheduled_iff.mp equal))
    cpse rjmp
  rwa [half.pc, BitVec.add_assoc] at jumped

end

/-! ## The whole macro -/

/-- What `SELECT_SCHEDULED_TASK_OR_SCHEDULER` is for: the choice is in `task_sp` and nothing is scheduled any
more. -/
structure Selects (s t : Cpu) : Prop where
  sp : t.sp = s.sp
  task : readWord t.mem taskSpAdr = selectedSp s.mem
  next : readWord t.mem nextTaskSpAdr = 0
  scheduler : readWord t.mem schedulerTaskSpAdr = readWord s.mem schedulerTaskSpAdr
  prev : readWord t.mem prevTaskSpAdr = readWord s.mem prevTaskSpAdr
  kept : ∀ a, a ∉ [taskSpAdr, taskSpAdr + 1, nextTaskSpAdr, nextTaskSpAdr + 1] → t.mem a = s.mem a

/-- `storeSelected` with the choice in the registers. -/
theorem storeSelected_selects {s u : Cpu} (x : u.pointer .x = nextTaskSpAdr + 1) (zero : u.regs 1 = 0)
    (chosen : u.regs 17 ++ u.regs 16 = selectedSp s.mem) (mem : u.mem = s.mem) (sp : u.sp = s.sp) :
    Selects s (execAll storeSelected u) := by
  obtain ⟨stored, stack, -, -⟩ := execAll_storeSelected x zero
  rw [chosen, mem] at stored
  have kept : ∀ a, a ∉ [taskSpAdr, taskSpAdr + 1, nextTaskSpAdr, nextTaskSpAdr + 1] →
      (execAll storeSelected u).mem a = s.mem a := by
    intro a other
    simp only [List.mem_cons, List.not_mem_nil, or_false, not_or] at other
    obtain ⟨task, taskHigh, next, nextHigh⟩ := other
    rw [stored, Function.update_of_ne next, Function.update_of_ne nextHigh, writeWord_outside task taskHigh]
  refine ⟨stack.trans sp, ?_, ?_, ?_, ?_, kept⟩
  · have low : (execAll storeSelected u).mem taskSpAdr = writeWord s.mem taskSpAdr (selectedSp s.mem) taskSpAdr := by
      rw [stored]
      rfl
    have high : (execAll storeSelected u).mem (taskSpAdr + 1) =
        writeWord s.mem taskSpAdr (selectedSp s.mem) (taskSpAdr + 1) := by
      rw [stored]
      rfl
    rw [readWord_congr low high, readWord_writeWord]
  · have low : (execAll storeSelected u).mem nextTaskSpAdr = 0 := by
      rw [stored]
      rfl
    have high : (execAll storeSelected u).mem (nextTaskSpAdr + 1) = 0 := by
      rw [stored]
      rfl
    rw [readWord, low, high]
    rfl
  · exact readWord_congr (kept _ (by decide)) (kept _ (by decide))
  · exact readWord_congr (kept _ (by decide)) (kept _ (by decide))

/-- **`SELECT_SCHEDULED_TASK_OR_SCHEDULER`** implements its specification in every state with `r1` zero. With no
task scheduled it executes the four loads of the scheduler's stack pointer, otherwise the jump over them; either way
it comes to the stores, twelve words on, and to its end. -/
theorem selectScheduledTaskOrScheduler_selects {program : Program} {s : Cpu}
    (placed : Placed program s.pc selectScheduledTaskOrScheduler) (zero : s.regs 1 = 0) :
    ∃ u t, steps program (6 + if readWord s.mem nextTaskSpAdr = 0 then 5 else 2) s = some u ∧ u.pc = s.pc + 12 ∧
      steps program 6 u = some t ∧ t.pc = s.pc + codeSize selectScheduledTaskOrScheduler ∧ Selects s t := by
  simp only [selectScheduledTaskOrScheduler, placed_append] at placed
  obtain ⟨⟨⟨loading, test⟩, scheduler⟩, storing⟩ := placed
  have loads : Runs program (fun _ _ => True) 6 s (execAll loadScheduledTask s) :=
    Runs.block loading (by decide) fun _ _ _ => trivial
  obtain ⟨mem, sp, -, r1, x, low, high, or⟩ := execAll_loadScheduledTask s
  have atTest := execAll_pc loadScheduledTask s
  generalize execAll loadScheduledTask s = t at loads mem sp r1 x low high or atTest
  have code : ChoiceAt program t.pc := by
    rw [atTest]
    refine ⟨test.1, test.2.1, ?_⟩
    rw [BitVec.add_assoc]
    exact scheduler
  have zero_iff : t.regs 18 = t.regs 1 ↔ readWord s.mem nextTaskSpAdr = 0 := by
    rw [or, r1, zero]
    exact or_eq_zero_iff_readWord
  have offered : t.regs 17 ++ t.regs 16 = readWord s.mem nextTaskSpAdr := by rw [low, high, readWord]
  obtain ⟨u, choosing, chosen⟩ := runs_choice (P := fun _ _ => True) code zero_iff offered fun _ _ _ => trivial
  have atStores : u.pc = s.pc + 12 := by
    rw [chosen.pc, atTest, BitVec.add_assoc]
    rfl
  have placed : Placed program u.pc storeSelected := by
    rw [atStores]
    exact storing
  have stores : Runs program (fun _ _ => True) 6 u (execAll storeSelected u) :=
    Runs.block placed (by decide) fun _ _ _ => trivial
  have selects : Selects s (execAll storeSelected u) := by
    apply storeSelected_selects (chosen.x.trans x) (chosen.zero.trans (r1.trans zero)) _ (chosen.mem.trans mem)
      (chosen.sp.trans sp)
    rw [chosen.chosen, mem, selectedSp]
  refine ⟨u, _, (loads.trans choosing).steps, atStores, stores.steps, ?_, selects⟩
  rw [execAll_pc, atStores, BitVec.add_assoc]
  rfl

/-- Only the high byte of `next_task_sp` is not zero. -/
def highByteScheduled : Cpu where
  regs r := BitVec.ofNat 8 (r.val - 1)
  sreg := ⟨false, false, false, false, false, false, false, false⟩
  sp := 0x800
  pc := 0x1FFF8
  mem a := if a = nextTaskSpAdr + 1 then 5 else 0

theorem selects_high_byte :
    ∃ u t, steps (load 0x1FFF8 selectScheduledTaskOrScheduler fun _ => none) 8 highByteScheduled = some u ∧
      steps (load 0x1FFF8 selectScheduledTaskOrScheduler fun _ => none) 6 u = some t ∧
      readWord t.mem taskSpAdr = 0x500 := by
  have placed : Placed (load 0x1FFF8 selectScheduledTaskOrScheduler fun _ => none) highByteScheduled.pc
      selectScheduledTaskOrScheduler := by decide +kernel
  obtain ⟨u, t, first, -, second, -, selects⟩ := selectScheduledTaskOrScheduler_selects placed rfl
  have scheduled : readWord highByteScheduled.mem nextTaskSpAdr ≠ 0 := by decide
  have chosen : selectedSp highByteScheduled.mem = 0x500 := by decide
  rw [if_neg scheduled] at first
  exact ⟨u, t, first, second, selects.task.trans chosen⟩

end Simplos
