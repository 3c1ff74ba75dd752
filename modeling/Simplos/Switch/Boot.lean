import Simplos.Switch.SchedulerStack

/-!
# From reset to the scheduler

The inline assembly that `main`, `spawn_task` and `start_scheduler` execute, in its order, with compiled
code before and between. `spawn_task` enables the timer and all interrupts for the task it spawns; the
task is the scheduler, which masks the timer when it is entered. A match that is pending in between is
served before `scheduler_task_sp` was ever stored.
-/

namespace Simplos
set_option autoImplicit false
open Avr

/-- The assembly of the boot sequence up to `SET_RETURN_POINT` in `start_scheduler`. -/
def bootCode (returnPoint : Pc) : List (List Instr) :=
  -- `main`
  [[.cli], scilentDisableMt, setSp,
    -- `spawn_task`
    [.cli] ++ scilentDisableMt, setReturnPoint returnPoint ++ saveContext, setSp, scilentEnableMt, [.sei],
    -- `start_scheduler`
    scilentDisableMt]

/-- A program with the boot sequence. Each segment of assembly leads to compiled code. -/
structure BootImage extends SchedulerImage where
  returnPoint : Pc
  segments : List (Pc × List Instr)
  code : segments.map Prod.snd = bootCode returnPoint
  placed : ∀ seg ∈ segments, Placed program seg.1 seg.2
  gaps : ∀ seg ∈ segments, program (seg.1 + codeSize seg.2) = none
  segmentFits : ∀ seg ∈ segments, seg.1.toNat + 16 < 2 ^ 17

/-- All the segments of boot code, `start_scheduler` from `SET_RETURN_POINT` on last. -/
def BootImage.order (image : BootImage) : List (Pc × List Instr) :=
  image.segments ++ [(image.startAdr, startSchedulerCode (image.startAdr + 64))]

/-! ## The machine -/

structure Boot where
  cpu : Cpu
  pending : Bool
  shadow : Bool
  /-- The segments that were not entered yet. -/
  left : List (Pc × List Instr)
  /-- Interrupts were enabled when the compiled code at hand was entered. -/
  enabled : Bool
  /-- `sei` was executed, and the timer mask not stored since. -/
  opened : Bool

namespace Boot

def interrupted (m : Boot) : Boot :=
  { m with cpu := m.cpu.interrupt timer1CompaVector, pending := false, shadow := false }

def executed (image : BootImage) (m : Boot) (i : Instr) : Boot :=
  let cpu := i.exec image.program m.cpu
  { m with
    cpu := cpu
    shadow := decide (i = .sei ∨ i = .reti)
    enabled := cpu.sreg.i
    opened := if i = .sei then true else if i = .sts timsk1 16 then false else m.opened }

end Boot

/-- Compiled code of the boot sequence runs. It has interrupts enabled only where they were when it was
entered (printing disables them and restores the flags), has room on its stack, and writes neither the
timer mask nor `next_task_sp` nor `scheduler_task_sp`. -/
structure Compiles (image : BootImage) (m : Boot) (cpu : Cpu) : Prop where
  code : image.program m.cpu.pc = none
  enables : cpu.sreg.i = true → m.enabled = true
  room : Room cpu.sp 73
  kept : ∀ a ∈ [timsk1, nextTaskSpAdr, nextTaskSpAdr + 1, schedulerTaskSpAdr, schedulerTaskSpAdr + 1],
    cpu.mem a = m.cpu.mem a

/-- One step of the boot sequence. -/
inductive BootStep (image : BootImage) : Boot → Event → Boot → Prop where
  | compareMatch (m : Boot) : BootStep image m .compareMatch { m with pending := true }
  | interrupt (m : Boot) (taken : takesInterrupt m.cpu m.pending m.shadow = true) :
      BootStep image m .interrupt m.interrupted
  | instruction (m : Boot) (i : Instr) (fetch : image.program m.cpu.pc = some i) :
      BootStep image m .instruction (m.executed image i)
  | compute (m : Boot) (cpu : Cpu) (runs : Compiles image m cpu) (stays : image.program cpu.pc = none) :
      BootStep image m .compute { m with cpu := cpu, shadow := false }
  /-- Compiled code ends at the next segment. -/
  | enter (m : Boot) (cpu : Cpu) (seg : Pc × List Instr) (left : List (Pc × List Instr)) (runs : Compiles image m cpu)
      (next : m.left = seg :: left) (arrives : cpu.pc = seg.1) :
      BootStep image m .compute { m with cpu := cpu, shadow := false, left := left }

/-- The machine after reset, in the compiled code before `main`'s first instruction of the boot code. -/
def booted (image : BootImage) (cpu : Cpu) : Boot where
  cpu := cpu
  pending := false
  shadow := false
  left := image.order
  enabled := false
  opened := false

/-! ## The segments -/

namespace BootImage

variable (image : BootImage)

theorem segments_length : image.segments.length = 9 := by
  have lengths := congrArg List.length image.code
  rwa [List.length_map] at lengths

/-- The `k`-th segment to be entered holds the `k`-th piece of boot code. -/
theorem segment_code {k : Nat} {seg : Pc × List Instr} (entry : image.segments[k]? = some seg) :
    (bootCode image.returnPoint)[k]? = some seg.2 := by
  rw [← image.code, List.getElem?_map, entry]
  rfl

/-- What is left behind the first segment left. -/
theorem order_drop {k : Nat} {seg : Pc × List Instr} {left : List (Pc × List Instr)}
    (next : image.order.drop k = seg :: left) : image.order[k]? = some seg ∧ left = image.order.drop (k + 1) := by
  constructor
  · have head := congrArg (fun l => l[0]?) next
    simpa using head
  · have tail := congrArg List.tail next
    simpa using tail.symm

theorem order_segment {k : Nat} {seg : Pc × List Instr} (bound : k < 9) (entry : image.order[k]? = some seg) :
    image.segments[k]? = some seg := by
  rw [order, List.getElem?_append_left (image.segments_length.symm ▸ bound)] at entry
  exact entry

theorem order_start {seg : Pc × List Instr} (entry : image.order[9]? = some seg) : seg.1 = image.startAdr := by
  rw [order, List.getElem?_append_right (Nat.le_of_eq image.segments_length), image.segments_length] at entry
  cases entry
  rfl

theorem order_end : image.order.drop 10 = [] := by
  apply List.drop_eq_nil_of_le
  rw [order, List.length_append, image.segments_length]
  exact Nat.le_refl 10

end BootImage

/-! ## Up to `spawn_task`'s `sei` -/

/-- The words that decide which stack pointer a switch selects. -/
def selectionCells : List Word := [nextTaskSpAdr, nextTaskSpAdr + 1, schedulerTaskSpAdr, schedulerTaskSpAdr + 1]

/-- A segment was run through to the compiled code behind it. -/
structure Leaves (image : BootImage) (c u : Cpu) : Prop where
  gap : image.program u.pc = none
  kept : Room c.sp 73 → ∀ a ∈ selectionCells, u.mem a = c.mem a

/-- An instruction that does not enable interrupts where they are disabled. -/
def KeepsDisabled (i : Instr) : Prop := i.keepsI = true ∨ i = .cli

instance (i : Instr) : Decidable (KeepsDisabled i) := inferInstanceAs (Decidable (_ ∨ _))

/-- The straight-line segments before `sei`. -/
def earlyCode : List (List Instr) := [[.cli], scilentDisableMt, setSp, [.cli] ++ scilentDisableMt, scilentEnableMt]

theorem bootCode_early {returnPoint : Pc} {k : Nat} {code : List Instr} (early : k < 7)
    (entry : (bootCode returnPoint)[k]? = some code) :
    code ∈ earlyCode ∨ code = setReturnPoint returnPoint ++ saveContext := by
  have taken : ((bootCode returnPoint).take 7)[k]? = some code := by
    rw [List.getElem?_take_of_lt early, entry]
  have member := List.mem_of_getElem? taken
  simp only [bootCode, List.take, List.mem_cons, List.not_mem_nil, or_false] at member
  rcases member with rfl | rfl | rfl | rfl | rfl | rfl | rfl
  · exact .inl (by simp [earlyCode])
  · exact .inl (by simp [earlyCode])
  · exact .inl (by simp [earlyCode])
  · exact .inl (by simp [earlyCode])
  · exact .inr rfl
  · exact .inl (by simp [earlyCode])
  · exact .inl (by simp [earlyCode])

theorem earlyCode_straight : ∀ code ∈ earlyCode, ∀ i ∈ code, i.straight = true ∧ KeepsDisabled i := by decide

/-- A segment changes the words of the selection only if it stores to them. -/
theorem earlyCode_kept {c : Cpu} {code : List Instr} (member : code ∈ earlyCode) (room : Room c.sp 73) {a : Word}
    (cell : a ∈ selectionCells) : (execAll code c).mem a = c.mem a := by
  have cells : selectionCells ⊆ switchCells := by decide
  have notStack : ∀ {b}, b ∈ switchCells → b ≠ c.sp := by
    rintro b here rfl
    have := room.clear c.sp here
    simp at this
  have notTimer : a ≠ timsk1 := by
    rintro rfl
    revert cell
    decide
  have stack := notStack (cells cell)
  have apart : c.sp ≠ timsk1 := (notStack (by decide)).symm
  simp only [earlyCode, List.mem_cons, List.not_mem_nil, or_false] at member
  rcases member with rfl | rfl | rfl | rfl | rfl
  · rfl
  · rw [execAll_scilentDisableMt apart]
    show Function.update (Function.update _ _ _) _ _ a = _
    rw [Function.update_of_ne notTimer, Function.update_of_ne stack]
  · rfl
  · have apart' : (execAll [.cli] c).sp ≠ timsk1 := apart
    have stack' : a ≠ (execAll [.cli] c).sp := stack
    rw [execAll_append, execAll_scilentDisableMt apart']
    show Function.update (Function.update _ _ _) _ _ a = _
    rw [Function.update_of_ne notTimer, Function.update_of_ne stack']
    rfl
  · rw [execAll_scilentEnableMt apart]
    show Function.update (Function.update _ _ _) _ _ a = _
    rw [Function.update_of_ne notTimer, Function.update_of_ne stack]

/-- **Every segment before `sei`** runs to its end without enabling interrupts. -/
theorem runs_early (image : BootImage) {k : Nat} {seg : Pc × List Instr} {c : Cpu} (early : k < 7)
    (entry : image.segments[k]? = some seg) (pc : c.pc = seg.1) :
    ∃ n u, Runs image.program (fun i _ => KeepsDisabled i) n c u ∧ Leaves image c u := by
  have member := List.mem_of_getElem? entry
  have placed := image.placed seg member
  have gap := image.gaps seg member
  rw [← pc] at placed gap
  rcases bootCode_early early (image.segment_code entry) with straight | saves
  · have quiet := earlyCode_straight seg.2 straight
    refine ⟨_, _, Runs.block placed (fun i here => (quiet i here).1) fun i here _ => (quiet i here).2, ?_, ?_⟩
    · rw [execAll_pc]
      exact gap
    · intro room a cell
      exact earlyCode_kept straight room cell
  · rw [saves, placed_append] at placed
    rw [saves, codeSize_append, ← BitVec.add_assoc] at gap
    have quiet : ∀ i ∈ setReturnPoint image.returnPoint, KeepsDisabled i := by
      simp [setReturnPoint, KeepsDisabled, Instr.keepsI]
    obtain ⟨d, returning, sets⟩ := runs_setReturnPoint (P := fun i _ => KeepsDisabled i)
      (F := fun _ => False) placed.1 (fun _ => False.elim) fun i here _ _ => quiet i here
    have size : c.pc + codeSize (setReturnPoint image.returnPoint) = d.pc := by
      rw [codeSize_setReturnPoint, sets.pc]
    rw [size] at placed gap
    have saving : Runs image.program (fun i _ => KeepsDisabled i) _ d (execAll saveContext d) :=
      Runs.block placed.2 (by decide) fun i here _ => by revert i; decide
    refine ⟨_, _, returning.trans saving, ?_, ?_⟩
    · rw [execAll_pc]
      exact gap
    · intro room a cell
      have cells : selectionCells ⊆ switchCells := by decide
      have away := room.clear a (cells cell)
      have low : a ≠ taskSpAdr := by
        rintro rfl
        revert cell
        decide
      have high : a ≠ taskSpAdr + 1 := by
        rintro rfl
        revert cell
        decide
      have pushed : (registerBytes d.regs d.sreg).length ≤ (d.sp - a).toNat := by
        rw [registerBytes_length, sets.sp]
        bv_omega
      rw [saveContext, execAll_append, (execAll_saveSpToAdr _ _).1, writeWord_outside low high, pushContext_mem,
        pushBytes_outside _ pushed, sets.kept a (by omega)]

/-! ## From `sei` to the store of the timer mask and on to the scheduler -/

/-- `start_scheduler` is about to store the timer mask. -/
structure AtStore (image : BootImage) (u : Cpu) : Prop where
  fetch : image.program u.pc = some (.sts timsk1 16)
  masks : (u.regs 16).getLsbD ocie1a = false
  pop : image.program (u.pc + 2) = some (.pop 16)
  gap : image.program (u.pc + 2 + 1) = none

/-- `start_scheduler` has stored `scheduler_task_sp`. -/
structure Stored (image : BootImage) (c : Cpu) : Prop where
  pc : c.pc = image.startAdr + 63
  masked : Masked c.mem
  scheduler : readWord c.mem schedulerTaskSpAdr = c.sp
  nonzero : c.sp ≠ 0

theorem heading_store {image : BootImage} {seg : Pc × List Instr} {c : Cpu} (entry : image.segments[8]? = some seg)
    (pc : c.pc = seg.1) :
    Heading image.toSchedulerImage (fun i _ => i ≠ .sei ∧ i ≠ .sts timsk1 16) (AtStore image) c := by
  have member := List.mem_of_getElem? entry
  have code : scilentDisableMt = seg.2 := Option.some.inj (image.segment_code entry)
  have placed := image.placed seg member
  have gap := image.gaps seg member
  rw [← pc, ← code] at placed gap
  have parts : scilentDisableMt =
      [.push 16, .lds 16 timsk1, .andi 16 (~~~(1 <<< ocie1a))] ++ [.sts timsk1 16, .pop 16] := rfl
  rw [parts, placed_append] at placed
  obtain ⟨first, second⟩ := placed
  have run : Runs image.program (fun i _ => i ≠ .sei ∧ i ≠ .sts timsk1 16) _ c _ :=
    Runs.block first (by decide) fun i here _ => by revert i; decide
  refine ⟨_, _, run, ?_, ?_, ?_, ?_⟩
  · rw [execAll_pc]
    exact second.1
  · simp [execAll, Instr.effect, Cpu.setReg, Cpu.setLogic, ocie1a]
  · rw [execAll_pc]
    exact second.2.1
  · rw [execAll_pc]
    simp only [BitVec.add_assoc]
    exact gap

theorem heading_masked {image : BootImage} {u : Cpu} (store : AtStore image u) :
    Heading image.toSchedulerImage (fun i c => Masked c.mem ∧ i ∉ [.sei, .rjmp 1]) (fun u => image.program u.pc = none ∧ Masked u.mem)
      ((Instr.sts timsk1 16).exec image.program u) := by
  have masked : Masked ((Instr.sts timsk1 16).exec image.program u).mem := exec_sts_masked store.masks
  have popped : Runs image.program (fun i c => Masked c.mem ∧ i ∉ [.sei, .rjmp 1]) 1 ((Instr.sts timsk1 16).exec image.program u) _ :=
    .one store.pop ⟨masked, by decide⟩
  exact ⟨_, _, popped, store.gap, masked⟩

theorem heading_stored {image : BootImage} {s : Cpu} (start : s.pc = image.startAdr) (room : Room s.sp 73)
    (masked : Masked s.mem) :
    Heading image.toSchedulerImage (fun i c => Masked c.mem ∧ i ∉ [.sei, .rjmp 1]) (Stored image) s := by
  obtain ⟨first, t, run, starts⟩ := runs_start image.toSchedulerImage start room masked
  have scheduler := starts.scheduler
  rw [← starts.stack] at scheduler
  refine ⟨_, t, run, starts.pc, starts.masked, scheduler, ?_⟩
  rw [starts.stack]
  have := room.sram
  bv_omega

/-! ## Where the boot sequence can be -/

/-- The places of the boot sequence while no interrupt was taken. -/
inductive BootLocated (image : BootImage) (m : Boot) : Prop where
  /-- Interrupts are disabled since reset. -/
  | disabled (k : Nat) (early : k ≤ 7) (left : m.left = image.order.drop k) (off : m.cpu.sreg.i = false)
      (notEnabled : m.enabled = false) (closed : m.opened = false)
      (heads : Heading image.toSchedulerImage (fun i _ => KeepsDisabled i) (fun u => image.program u.pc = none) m.cpu)
  /-- `spawn_task` is about to enable interrupts. -/
  | enabling (left : m.left = image.order.drop 8) (off : m.cpu.sreg.i = false)
      (sei : image.program m.cpu.pc = some .sei) (gap : image.program (m.cpu.pc + 1) = none)
  /-- Interrupts and the timer are enabled; `spawn_task` calls its function. -/
  | opened (left : m.left = image.order.drop 8) (opened : m.opened = true) (code : image.program m.cpu.pc = none)
  /-- `start_scheduler` is about to mask the timer. -/
  | masking (left : m.left = image.order.drop 9) (opened : m.opened = true)
      (heads : Heading image.toSchedulerImage (fun i _ => i ≠ .sei ∧ i ≠ .sts timsk1 16) (AtStore image) m.cpu)
  /-- The timer is masked. -/
  | masked (left : m.left = image.order.drop 9)
      (heads : Heading image.toSchedulerImage (fun i c => Masked c.mem ∧ i ∉ [.sei, .rjmp 1])
        (fun u => image.program u.pc = none ∧ Masked u.mem) m.cpu)
  /-- `start_scheduler` saves its context. -/
  | starting (left : m.left = [])
      (heads : Heading image.toSchedulerImage (fun i c => Masked c.mem ∧ i ∉ [.sei, .rjmp 1]) (Stored image) m.cpu)

/-- No compare match is pending from `spawn_task`'s `sei` until the scheduler has masked the timer. -/
def NoneLatched (m : Boot) : Prop := m.opened = true → m.pending = false

/-- `start_scheduler` has got to its loop: the boot sequence is over. -/
def Booted (image : BootImage) (m : Boot) : Prop := m.left = [] ∧ m.cpu.pc = image.startAdr + 63

/-- A step of the boot sequence where none is pending. -/
def BootUndisturbed (image : BootImage) (m : Boot) (event : Event) (m' : Boot) : Prop :=
  BootStep image m event m' ∧ NoneLatched m ∧ ¬ Booted image m

variable {image : BootImage} {m m' : Boot}

/-- Where code is not known, a run of known code has ended. -/
theorem Heading.ended {image : SchedulerImage} {P : Instr → Cpu → Prop} {Goal : Cpu → Prop} {c : Cpu}
    (heads : Heading image P Goal c) (unknown : image.program c.pc = none) : Goal c := by
  obtain ⟨n, u, runs, goal⟩ := heads
  cases runs with
  | refl => exact goal
  | next fetch _ _ => cases unknown.symm.trans fetch

theorem Heading.masked {image : SchedulerImage} {Goal : Cpu → Prop} {c : Cpu}
    (heads : Heading image (fun i c => Masked c.mem ∧ i ∉ [.sei, .rjmp 1]) Goal c) (goal : ∀ u, Goal u → Masked u.mem) :
    Masked c.mem := by
  obtain ⟨n, u, runs, arrived⟩ := heads
  cases runs with
  | refl => exact goal c arrived
  | next _ holds _ => exact holds.1

/-- **No interrupt is taken** where none is pending while the timer is enabled. -/
theorem BootLocated.not_taken (h : BootLocated image m) (none : NoneLatched m) :
    takesInterrupt m.cpu m.pending m.shadow ≠ true := by
  cases h with
  | disabled _ _ _ off => exact not_takesInterrupt_of_disabled off
  | enabling _ off => exact not_takesInterrupt_of_disabled off
  | opened _ opened => exact not_takesInterrupt_of_none (none opened)
  | masking _ opened => exact not_takesInterrupt_of_none (none opened)
  | masked _ heads => exact not_takesInterrupt_of_masked (heads.masked fun _ goal => goal.2)
  | starting _ heads => exact not_takesInterrupt_of_masked (heads.masked fun _ stored => stored.masked)

theorem BootLocated.instruction {i : Instr} (h : BootLocated image m) (unstored : ¬ Booted image m)
    (fetch : image.program m.cpu.pc = some i) : BootLocated image (m.executed image i) := by
  cases h with
  | disabled k early left off notEnabled closed heads =>
    rcases heads.step fetch with gap | ⟨quiet, rest⟩
    · cases gap.symm.trans fetch
    · have stays : (i.exec image.program m.cpu).sreg.i = false := by
        rcases quiet with keeps | rfl
        · exact (Instr.exec_keepsI keeps m.cpu).trans off
        · rfl
      have notSei : i ≠ .sei := by
        rintro rfl
        rcases quiet with keeps | cli
        · cases keeps
        · cases cli
      refine .disabled k early left stays stays ?_ rest
      simp [Boot.executed, notSei, closed]
  | enabling left _ sei gap =>
    cases fetch.symm.trans sei
    exact .opened left rfl gap
  | opened _ _ code => cases code.symm.trans fetch
  | masking left opened heads =>
    rcases heads.step fetch with store | ⟨⟨notSei, notSts⟩, rest⟩
    · cases fetch.symm.trans store.fetch
      exact .masked left (heading_masked store)
    · refine .masking left ?_ rest
      simp [Boot.executed, notSei, notSts, opened]
  | masked left heads =>
    rcases heads.step fetch with ⟨gap, -⟩ | ⟨-, rest⟩
    · cases gap.symm.trans fetch
    · exact .masked left rest
  | starting left heads =>
    rcases heads.step fetch with stored | ⟨-, rest⟩
    · exact absurd ⟨left, stored.pc⟩ unstored
    · exact .starting left rest

theorem Compiles.off {cpu : Cpu} (runs : Compiles image m cpu) (notEnabled : m.enabled = false) :
    cpu.sreg.i = false := by
  by_contra on
  have enabled := runs.enables (by simpa using on)
  rw [notEnabled] at enabled
  cases enabled

theorem BootLocated.compute {cpu : Cpu} (h : BootLocated image m) (runs : Compiles image m cpu)
    (stays : image.program cpu.pc = none) : BootLocated image { m with cpu := cpu, shadow := false } := by
  cases h with
  | disabled k early left _ notEnabled closed _ =>
    exact .disabled k early left (runs.off notEnabled) notEnabled closed (.arrived stays)
  | enabling _ _ sei => cases runs.code.symm.trans sei
  | opened left opened _ => exact .opened left opened stays
  | masking _ _ heads => cases runs.code.symm.trans (heads.ended runs.code).fetch
  | masked left heads =>
    have masked : Masked cpu.mem := by
      rw [Masked, runs.kept timsk1 (by decide)]
      exact (heads.ended runs.code).2
    exact .masked left (.arrived ⟨stays, masked⟩)
  | starting _ heads =>
    have known := (heads.ended runs.code).pc ▸ runs.code
    cases known.symm.trans image.loopCode.rjmp

theorem BootLocated.enter {cpu : Cpu} {seg : Pc × List Instr} {left : List (Pc × List Instr)}
    (h : BootLocated image m) (runs : Compiles image m cpu) (next : m.left = seg :: left) (arrives : cpu.pc = seg.1) :
    BootLocated image { m with cpu := cpu, shadow := false, left := left } := by
  cases h with
  | disabled k early here _ notEnabled closed _ =>
    obtain ⟨entry, rest⟩ := image.order_drop (here.symm.trans next)
    have segment := image.order_segment (by omega) entry
    rcases Nat.lt_or_eq_of_le early with earlier | rfl
    · obtain ⟨n, u, run, leaves⟩ := runs_early image earlier segment arrives
      exact .disabled (k + 1) earlier rest (runs.off notEnabled) notEnabled closed ⟨n, u, run, leaves.gap⟩
    · have member := List.mem_of_getElem? segment
      have code : [.sei] = seg.2 := Option.some.inj (image.segment_code segment)
      have placed := image.placed seg member
      have gap := image.gaps seg member
      rw [← arrives, ← code] at placed gap
      exact .enabling rest (runs.off notEnabled) placed.1 gap
  | enabling _ _ sei => cases runs.code.symm.trans sei
  | opened here opened _ =>
    obtain ⟨entry, rest⟩ := image.order_drop (here.symm.trans next)
    exact .masking rest opened (heading_store (image.order_segment (by decide) entry) arrives)
  | masking _ _ heads => cases runs.code.symm.trans (heads.ended runs.code).fetch
  | masked here heads =>
    have masked : Masked cpu.mem := by
      rw [Masked, runs.kept timsk1 (by decide)]
      exact (heads.ended runs.code).2
    obtain ⟨entry, rest⟩ := image.order_drop (here.symm.trans next)
    have start := image.order_start entry
    exact .starting (rest.trans image.order_end) (heading_stored (arrives.trans start) runs.room masked)
  | starting _ heads =>
    have known := (heads.ended runs.code).pc ▸ runs.code
    cases known.symm.trans image.loopCode.rjmp

/-- **Every undisturbed step** of the boot sequence keeps its places. -/
theorem BootLocated.step {event : Event} (h : BootLocated image m) (step : BootUndisturbed image m event m') :
    BootLocated image m' := by
  obtain ⟨step, none, unstored⟩ := step
  cases step with
  | compareMatch =>
    cases h with
    | disabled k early left off notEnabled closed heads => exact .disabled k early left off notEnabled closed heads
    | enabling left off sei gap => exact .enabling left off sei gap
    | opened left opened code => exact .opened left opened code
    | masking left opened heads => exact .masking left opened heads
    | masked left heads => exact .masked left heads
    | starting left heads => exact .starting left heads
  | interrupt taken => exact absurd taken (h.not_taken none)
  | instruction i fetch => exact h.instruction unstored fetch
  | compute cpu runs stays => exact h.compute runs stays
  | enter cpu seg left runs next arrives => exact h.enter runs next arrives

theorem booted_located {cpu : Cpu} (code : image.program cpu.pc = none) (reset : cpu.sreg.i = false) :
    BootLocated image (booted image cpu) :=
  .disabled 0 (by decide) rfl reset rfl rfl (.arrived code)

/-- At the end of the boot sequence `scheduler_task_sp` is stored. -/
theorem BootLocated.stored (h : BootLocated image m) (done : Booted image m) : Stored image m.cpu := by
  obtain ⟨left, pc⟩ := done
  have some_left : ∀ k, k ≤ 9 → m.left ≠ image.order.drop k := by
    intro k bound here
    have lengths := congrArg List.length here
    rw [left, List.length_drop, BootImage.order, List.length_append, image.segments_length] at lengths
    simp only [List.length_nil, List.length_cons] at lengths
    omega
  cases h with
  | starting _ heads =>
    have fetch : image.program m.cpu.pc = some (.rjmp 1) := by
      rw [pc]
      exact image.loopCode.rjmp
    rcases heads.step fetch with stored | ⟨⟨-, other⟩, -⟩
    · exact stored
    · exact absurd (List.mem_cons_of_mem _ List.mem_cons_self) other
  | disabled k early here => exact absurd here (some_left k (by omega))
  | enabling here => exact absurd here (some_left 8 (by decide))
  | opened here => exact absurd here (some_left 8 (by decide))
  | masking here => exact absurd here (some_left 9 (by decide))
  | masked here => exact absurd here (some_left 9 (by decide))

/-- **No context switch before the scheduler exists**, in a run of the boot sequence in which no match is
pending between `spawn_task`'s `sei` and the scheduler's masking of the timer. When `start_scheduler` gets
to its loop, `scheduler_task_sp` holds its stack pointer. -/
theorem no_switch_before_scheduler (image : BootImage) (cpu : Cpu) (code : image.program cpu.pc = none)
    (reset : cpu.sreg.i = false) {events : List Event} {m : Boot}
    (trace : Lib.Trace (BootUndisturbed image) (booted image cpu) events m) :
    (∀ m', ¬ BootUndisturbed image m .interrupt m') ∧
      (Booted image m → readWord m.cpu.mem schedulerTaskSpAdr = m.cpu.sp ∧ m.cpu.sp ≠ 0) := by
  have located : BootLocated image m :=
    trace.invariant (BootLocated image) (fun _ _ _ h step => h.step step) (booted_located code reset)
  constructor
  · rintro m' ⟨step, none, -⟩
    cases step with
    | interrupt taken => exact located.not_taken none taken
  · intro done
    have stored := located.stored done
    exact ⟨stored.scheduler, stored.nonzero⟩

/-! ## Where a match is pending -/

/-- **The handler with no task scheduled** loads the stack pointer with `scheduler_task_sp`. -/
theorem handler_loads_scheduler (image : Image) {s : Cpu} (room : Room s.sp 37)
    (nothing : readWord s.mem nextTaskSpAdr = 0) :
    ∃ u, steps image.program 78 (s.interrupt timer1CompaVector) = some u ∧
      u.sp = readWord s.mem schedulerTaskSpAdr := by
  let e := handlerEntered image s
  have code : ContextSwtichAt image.program e.pc := image.handler_switch
  have jumped : Runs image.program (fun _ _ => True) 1 (s.interrupt timer1CompaVector) e :=
    .one (i := .jmp image.timer1CompaVectAdr) image.vector.1 trivial
  have top : e.sp + 3 = s.sp := BitVec.sub_add_cancel s.sp 3
  have clear : Clear (e.sp + 3) 37 := by
    rw [top]
    exact room.clear
  have entered : ∀ {a}, a ∈ switchCells → e.mem a = s.mem a := by
    intro a cell
    have pushed : (pcBytes s.pc).length ≤ (s.sp - a).toNat := Nat.le_trans (by decide : 3 ≤ 37) (room.clear a cell)
    exact pushBytes_outside s.mem pushed
  have none : readWord e.mem nextTaskSpAdr = 0 :=
    (readWord_congr (entered (by decide)) (entered (by decide))).trans nothing
  obtain ⟨t, saving, half⟩ : ∃ t, Runs image.program (fun _ _ => True) 58 e t ∧ Saves e t :=
    ⟨_, runs_saving code fun _ _ _ => trivial, saves clear⟩
  obtain ⟨d, choosing, chosen⟩ := runs_choice (P := fun _ _ => True) (code.choice_of_saves half) half.unscheduled_iff
    half.chosen fun _ _ _ => trivial
  rw [if_pos none] at choosing
  have placed : Placed image.program d.pc switchingCode := by
    rw [chosen.pc, half.pc, BitVec.add_assoc]
    exact code.switching
  have switching := Runs.block (P := fun _ _ => True) placed (by decide) fun _ _ _ => trivial
  have stack := (execAll_switchingCode (chosen.x.trans half.x) (chosen.zero.trans half.zero)).2
  refine ⟨_, (jumped.trans (saving.trans (choosing.trans switching))).steps, ?_⟩
  have cell : ∀ {a}, a ∈ switchCells → a ∉ [taskSpAdr, taskSpAdr + 1, prevTaskSpAdr, prevTaskSpAdr + 1, timsk1] →
      t.mem a = s.mem a := fun member other => (half.kept _ other (clear_below clear member)).trans (entered member)
  rw [stack, chosen.chosen, if_pos none]
  exact readWord_congr (cell (by decide) (by decide)) (cell (by decide) (by decide))

/-! ## Runs of the boot sequence -/

/-- An undisturbed run of the boot sequence gets from the first state to the second. -/
def BootReaches (image : BootImage) (m m' : Boot) : Prop := ∃ events, Lib.Trace (BootUndisturbed image) m events m'

theorem BootReaches.refl (m : Boot) : BootReaches image m m := ⟨[], .nil m⟩

theorem BootReaches.trans {m₁ m₂ m₃ : Boot} (h : BootReaches image m₁ m₂) (h' : BootReaches image m₂ m₃) :
    BootReaches image m₁ m₃ := by
  obtain ⟨events, trace⟩ := h
  obtain ⟨events', trace'⟩ := h'
  exact ⟨events ++ events', trace.append trace'⟩

theorem BootReaches.one {event : Event} (step : BootStep image m event m') (calm : m.pending = false)
    (unfinished : ¬ Booted image m) : BootReaches image m m' :=
  ⟨[event], .cons ⟨step, fun _ => calm, unfinished⟩ (.nil m')⟩

/-- A run of known code is a run of the boot sequence. -/
theorem BootReaches.known {P : Instr → Cpu → Prop} {n : Nat} {u : Cpu} (runs : Runs image.program P n m.cpu u)
    (calm : m.pending = false) (unfinished : ∀ i c, P i c → m.left = [] → i ≠ .rjmp 1) :
    ∃ m', BootReaches image m m' ∧ m'.cpu = u ∧ m'.left = m.left ∧ m'.pending = false := by
  generalize start : m.cpu = c at runs
  induction runs generalizing m with
  | refl s => exact ⟨m, .refl m, start, rfl, calm⟩
  | next fetch holds rest ih =>
    subst start
    have goesOn : ¬ Booted image m := by
      rintro ⟨left, pc⟩
      rw [pc, image.loopCode.rjmp] at fetch
      exact unfinished _ _ holds left (Option.some.inj fetch).symm
    obtain ⟨m', reached, same, left, still⟩ := ih (m := m.executed image _) calm unfinished rfl
    exact ⟨m', (BootReaches.one (.instruction m _ fetch) calm goesOn).trans reached, same, left, still⟩

theorem order_drop_ne_nil {k : Nat} (bound : k ≤ 9) : image.order.drop k ≠ [] := by
  intro empty
  have lengths := congrArg List.length empty
  rw [List.length_drop, BootImage.order, List.length_append, image.segments_length] at lengths
  simp only [List.length_nil, List.length_cons] at lengths
  omega

/-- Compiled code runs with `k` segments behind it and no match pending. -/
structure Between (image : BootImage) (k : Nat) (m : Boot) : Prop where
  code : image.program m.cpu.pc = none
  left : m.left = image.order.drop k
  calm : m.pending = false

/-- The `k`-th segment was entered with the stack pointer `sp`. -/
structure Entered (image : BootImage) (k : Nat) (sp : Word) (m : Boot) : Prop where
  pc : ∃ seg, image.order[k]? = some seg ∧ m.cpu.pc = seg.1
  left : m.left = image.order.drop (k + 1)
  calm : m.pending = false
  stack : m.cpu.sp = sp

/-- Compiled code can enter the next segment with any stack pointer that has room. -/
theorem Between.enter {k : Nat} {sp : Word} (h : Between image k m) (bound : k ≤ 9) (room : Room sp 73) :
    ∃ m', BootReaches image m m' ∧ Entered image k sp m' ∧ m'.cpu.mem = m.cpu.mem := by
  have inside : k < image.order.length := by
    rw [BootImage.order, List.length_append, image.segments_length, List.length_singleton]
    omega
  have unfinished : ¬ Booted image m := fun done => order_drop_ne_nil bound (h.left.symm.trans done.1)
  have next := h.left
  rw [List.drop_eq_getElem_cons inside] at next
  let cpu : Cpu := { m.cpu with sreg := { m.cpu.sreg with i := false }, sp := sp, pc := image.order[k].1 }
  have runs : Compiles image m cpu := ⟨h.code, by rintro ⟨⟩, room, fun _ _ => rfl⟩
  exact ⟨_, .one (.enter m cpu _ _ runs next rfl) h.calm unfinished,
    ⟨⟨_, List.getElem?_eq_getElem inside, rfl⟩, rfl, h.calm, rfl⟩, rfl⟩

/-- A segment before the last is run through. -/
theorem Entered.leave {k n : Nat} {sp : Word} {P : Instr → Cpu → Prop} {u : Cpu} (h : Entered image k sp m)
    (bound : k < 9) (run : Runs image.program P n m.cpu u) (gap : image.program u.pc = none) :
    ∃ m', BootReaches image m m' ∧ Between image (k + 1) m' ∧ m'.cpu = u := by
  obtain ⟨m', reached, rfl, left, calm⟩ := BootReaches.known run h.calm fun _ _ _ empty =>
    absurd (h.left.symm.trans empty) (order_drop_ne_nil bound)
  exact ⟨m', reached, ⟨gap, left.trans h.left, calm⟩, rfl⟩

/-- The boot sequence passes each segment before `sei`, and stores to no word of the selection. -/
theorem Between.pass {k : Nat} {sp : Word} (h : Between image k m) (early : k < 7) (room : Room sp 73) :
    ∃ m', BootReaches image m m' ∧ Between image (k + 1) m' ∧ ∀ a ∈ selectionCells, m'.cpu.mem a = m.cpu.mem a := by
  obtain ⟨m₁, entering, entered, mem⟩ := h.enter (by omega) room
  obtain ⟨seg, entry, pc⟩ := entered.pc
  obtain ⟨n, u, run, leaves⟩ := runs_early image early (image.order_segment (by omega) entry) pc
  obtain ⟨m₂, leaving, between, rfl⟩ := entered.leave (by omega) run leaves.gap
  refine ⟨m₂, entering.trans leaving, between, ?_⟩
  intro a cell
  rw [leaves.kept (entered.stack.symm ▸ room) a cell, mem]

theorem booted_between {cpu : Cpu} {sp : Word} (code : image.program cpu.pc = none) (room : Room sp 73) :
    ∀ k, k ≤ 7 → ∃ m, BootReaches image (booted image cpu) m ∧ Between image k m ∧
      ∀ a ∈ selectionCells, m.cpu.mem a = cpu.mem a := by
  intro k
  induction k with
  | zero => exact fun _ => ⟨_, .refl _, ⟨code, rfl, rfl⟩, fun _ _ => rfl⟩
  | succ k ih =>
    intro bound
    obtain ⟨m, reached, between, kept⟩ := ih (Nat.le_of_succ_le bound)
    obtain ⟨m', passed, next, same⟩ := between.pass bound room
    exact ⟨m', reached.trans passed, next, fun a cell => (same a cell).trans (kept a cell)⟩

/-- `spawn_task`'s `SCILENT_ENABLE_MT` leaves the timer enabled. -/
theorem Between.enable {sp : Word} (h : Between image 6 m) (room : Room sp 73) :
    ∃ m', BootReaches image m m' ∧ Between image 7 m' ∧ (m'.cpu.mem timsk1).getLsbD ocie1a = true ∧
      ∀ a ∈ selectionCells, m'.cpu.mem a = m.cpu.mem a := by
  obtain ⟨m₁, entering, entered, mem⟩ := h.enter (by decide) room
  obtain ⟨seg, entry, pc⟩ := entered.pc
  have segment := image.order_segment (by decide) entry
  have member := List.mem_of_getElem? segment
  have code : scilentEnableMt = seg.2 := Option.some.inj (image.segment_code segment)
  have placed := image.placed seg member
  have gap := image.gaps seg member
  rw [← pc, ← code] at placed gap
  have run := Runs.block (P := fun _ _ => True) placed (by decide) fun _ _ _ => trivial
  have roomy : Room m₁.cpu.sp 73 := entered.stack.symm ▸ room
  have apart : m₁.cpu.sp ≠ timsk1 := by
    intro here
    have := roomy.clear timsk1 (by decide)
    rw [here] at this
    simp at this
  have stored : (execAll scilentEnableMt m₁.cpu).mem timsk1 = m₁.cpu.mem timsk1 ||| 2 := by
    rw [execAll_scilentEnableMt apart]
    exact Function.update_self timsk1 _ (Function.update m₁.cpu.mem m₁.cpu.sp (m₁.cpu.regs 16))
  obtain ⟨m₂, leaving, between, same⟩ := entered.leave (by decide) run (by rw [execAll_pc]; exact gap)
  refine ⟨m₂, entering.trans leaving, between, ?_, ?_⟩
  · rw [same, stored]
    simp [ocie1a]
  · intro a cell
    rw [same, earlyCode_kept (by simp [earlyCode]) roomy cell, mem]

/-- `spawn_task` executes `sei`. -/
theorem Between.open {sp : Word} (h : Between image 7 m) (room : Room sp 73) :
    ∃ m', BootReaches image m m' ∧ Between image 8 m' ∧ m'.cpu.sreg.i = true ∧ m'.enabled = true ∧
      m'.cpu.sp = sp ∧ m'.cpu.mem = m.cpu.mem := by
  obtain ⟨m₁, entering, entered, mem⟩ := h.enter (by decide) room
  obtain ⟨seg, entry, pc⟩ := entered.pc
  have segment := image.order_segment (by decide) entry
  have member := List.mem_of_getElem? segment
  have code : [.sei] = seg.2 := Option.some.inj (image.segment_code segment)
  have placed := image.placed seg member
  have gap := image.gaps seg member
  rw [← pc, ← code] at placed gap
  have unfinished : ¬ Booted image m₁ := fun done => order_drop_ne_nil (by decide) (entered.left.symm.trans done.1)
  have sei : BootReaches image m₁ (m₁.executed image .sei) := .one (.instruction m₁ .sei placed.1) entered.calm unfinished
  exact ⟨_, entering.trans sei, ⟨gap, entered.left, entered.calm⟩, rfl, rfl, entered.stack, mem⟩

/-- The boot sequence gets to the loop of the scheduler if no match is pending. -/
theorem booted_completes {cpu : Cpu} {sp : Word} (code : image.program cpu.pc = none) (room : Room sp 73) :
    ∃ m, BootReaches image (booted image cpu) m ∧ Booted image m := by
  obtain ⟨m₁, reached₁, between₁, -⟩ := booted_between code room 7 (Nat.le_refl 7)
  obtain ⟨m₂, reached₂, between₂, -⟩ := between₁.open room
  obtain ⟨m₃, reached₃, entered₃, -⟩ := between₂.enter (by decide) room
  obtain ⟨seg, entry, pc⟩ := entered₃.pc
  obtain ⟨_, u, storing, store⟩ := heading_store (image.order_segment (by decide) entry) pc
  obtain ⟨_, v, popping, gap, masked⟩ := heading_masked store
  have run : Runs image.program (fun _ _ => True) _ m₃.cpu v :=
    (storing.mono fun _ _ _ => trivial).trans (.next store.fetch trivial (popping.mono fun _ _ _ => trivial))
  obtain ⟨m₄, reached₄, between₄, same⟩ := entered₃.leave (by decide) run gap
  obtain ⟨m₅, reached₅, entered₅, mem⟩ := between₄.enter (by decide) room
  obtain ⟨last, entry, pc⟩ := entered₅.pc
  have kept : Masked m₅.cpu.mem := by
    rw [mem, same]
    exact masked
  obtain ⟨_, w, starting, stored⟩ :=
    heading_stored (pc.trans (image.order_start entry)) (entered₅.stack.symm ▸ room) kept
  obtain ⟨m₆, reached₆, rfl, left, -⟩ := BootReaches.known starting entered₅.calm fun _ _ holds _ same =>
    holds.2 (same ▸ List.mem_cons_of_mem _ List.mem_cons_self)
  refine ⟨m₆, reached₁.trans (reached₂.trans (reached₃.trans (reached₄.trans (reached₅.trans reached₆)))), ?_, stored.pc⟩
  rw [left, entered₅.left, image.order_end]

/-- **A match pending behind `spawn_task`'s `sei`** interrupts the boot sequence before the scheduler exists,
and the handler loads the stack pointer with 0. -/
theorem booted_interrupted {cpu : Cpu} {sp : Word} (code : image.program cpu.pc = none) (room : Room sp 73)
    (zero : ∀ a ∈ selectionCells, cpu.mem a = 0) :
    ∃ events m m' u, Lib.Trace (BootStep image) (booted image cpu) events m ∧ BootStep image m .interrupt m' ∧
      m.left ≠ [] ∧ steps image.program 78 m'.cpu = some u ∧ u.sp = 0 := by
  obtain ⟨m₁, reached₁, between₁, kept₁⟩ := booted_between code room 6 (by decide)
  obtain ⟨m₂, reached₂, between₂, timer, kept₂⟩ := between₁.enable room
  obtain ⟨m₃, reached₃, between₃, on, enabled, stack, mem⟩ := between₂.open room
  obtain ⟨events, trace⟩ := reached₁.trans (reached₂.trans reached₃)
  -- the match gets pending, and compiled code runs on for an instruction
  let m₄ : Boot := { m₃ with pending := true, shadow := false }
  have runs : Compiles image { m₃ with pending := true } m₃.cpu :=
    ⟨between₃.code, fun _ => enabled, stack.symm ▸ room, fun _ _ => rfl⟩
  have matched : Lib.Trace (BootStep image) m₃ [.compareMatch, .compute] m₄ :=
    .cons (.compareMatch m₃) (.cons (.compute _ m₃.cpu runs between₃.code) (.nil m₄))
  have taken : takesInterrupt m₄.cpu m₄.pending m₄.shadow = true :=
    takesInterrupt_iff.mpr ⟨on, (congrFun mem timsk1).symm ▸ timer, rfl, rfl⟩
  have cells : ∀ a ∈ selectionCells, m₃.cpu.mem a = 0 := by
    intro a cell
    rw [mem, kept₂ a cell, kept₁ a cell, zero a cell]
  have word : ∀ a, a ∈ selectionCells → a + 1 ∈ selectionCells → readWord m₃.cpu.mem a = 0 := by
    intro a low high
    rw [readWord, cells a low, cells (a + 1) high]
    rfl
  obtain ⟨u, run, loaded⟩ := handler_loads_scheduler image.toImage (s := m₃.cpu)
    (Room.mono (stack.symm ▸ room) (by decide)) (word nextTaskSpAdr (by decide) (by decide))
  refine ⟨_, m₄, m₄.interrupted, u, (trace.mono fun _ _ _ step => step.1).append matched, .interrupt m₄ taken, ?_, run, ?_⟩
  · intro empty
    exact order_drop_ne_nil (by decide) (between₃.left.symm.trans empty)
  · rw [loaded, word schedulerTaskSpAdr (by decide) (by decide)]

/-! ### A concrete boot sequence -/

/-- The segments of the boot code in a program that has the scheduler at 0x300. -/
def sampleSegments : List (Pc × List Instr) :=
  [0x600, 0x608, 0x618, 0x620, 0x630, 0x680, 0x690, 0x6A0, 0x6B0].zip (bootCode 0x6F0)

def sampleBoot : BootImage where
  program := sampleSegments.foldr (fun seg rest => load seg.1 seg.2 rest) sampleScheduler.program
  timer1CompaVectAdr := 0x100
  kYieldAdr := 0x200
  vector := sampleScheduler.vector.loadAll (by decide +kernel)
  handler := sampleScheduler.handler.loadAll (by decide +kernel)
  yields := sampleScheduler.yields.loadAll (by decide +kernel)
  startAdr := 0x300
  fits := sampleScheduler.fits
  start := sampleScheduler.start.loadAll (by decide +kernel)
  body pc := decide (pc = 0x349)
  bodyAdr := sampleScheduler.bodyAdr
  compiled := by
    intro pc code
    rw [of_decide_eq_true code]
    decide +kernel
  callAdr := 0x400
  call := sampleScheduler.call.loadAll (by decide +kernel)
  callCode := sampleScheduler.callCode
  returnPoint := 0x6F0
  segments := sampleSegments
  code := rfl
  placed := placed_loadAll (by decide +kernel) (by decide +kernel)
  gaps := by decide +kernel
  segmentFits := by decide +kernel

/-- The core after reset, in compiled code. -/
def resetCpu : Cpu where
  regs _ := 0
  sreg := ⟨false, false, false, false, false, false, false, false⟩
  sp := 0x21FF
  pc := 0x700
  mem _ := 0

theorem resetCpu_code : sampleBoot.program resetCpu.pc = none := by decide +kernel

/-- The concrete boot sequence gets to the scheduler's loop, with its stack pointer stored. -/
theorem no_switch_before_scheduler_from_reset :
    ∃ m, BootReaches sampleBoot (booted sampleBoot resetCpu) m ∧ Booted sampleBoot m ∧
      readWord m.cpu.mem schedulerTaskSpAdr = m.cpu.sp ∧ m.cpu.sp ≠ 0 := by
  obtain ⟨m, reached, done⟩ := booted_completes resetCpu_code startingScheduler_room
  obtain ⟨events, trace⟩ := reached
  exact ⟨m, ⟨events, trace⟩, done, (no_switch_before_scheduler sampleBoot resetCpu resetCpu_code rfl trace).2 done⟩

/-- **A match pending at boot** switches to a scheduler that does not exist: the stack pointer becomes 0. -/
theorem switch_before_scheduler :
    ∃ events m m' u, Lib.Trace (BootStep sampleBoot) (booted sampleBoot resetCpu) events m ∧
      BootStep sampleBoot m .interrupt m' ∧ m.left ≠ [] ∧ steps sampleBoot.program 78 m'.cpu = some u ∧ u.sp = 0 :=
  booted_interrupted resetCpu_code startingScheduler_room fun _ _ => rfl

end Simplos
