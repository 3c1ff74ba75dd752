import Simplos.Kernel.TaskEnd
import Simplos.Lib.ForkJoin

/-!
# Programs on the kernel

What a task executes is a program over the calls of `os.hpp`. Tasks execute theirs on the kernel: they are preempted
anywhere, they share five slots, and `wait_for_task_finnish` is a loop. Every such run is one of the tasks as
`Simplos.Lib.ForkJoin` describes them, without slots, scheduler or loops.
-/

namespace Simplos
set_option autoImplicit false
open Lib (bind_eq_ok)

/-- The calls that neither create a task nor wait for one. -/
inductive Call where
  | print (text : String)
  | yield
  | setPriority (priority : Byte)

structure SpawnOptions where
  name : ProgmemString
  priority : Byte

/-- `self` is `pid()`, `wait` is `wait_for_task_finnish`, `stop` is `terminate`; a function that returns is `done`. -/
abbrev TaskProgram := Lib.Prog Word Call SpawnOptions
abbrev ProgramEvent := Lib.TaskEvent Word Call SpawnOptions
abbrev ProgramTasks := Lib.Tasks Word Call SpawnOptions

/-- What the kernel does in a call. -/
inductive Call.Does (s : Os × List Created) : Call → Os × List Created → Prop where
  | print (text : String) : Call.Does s (.print text) s
  | yield {sw : Switch} {s' : Os × List Created} (done : pidStep .atmega2560 s (.yield sw) = .ok s') :
      Call.Does s .yield s'
  | setPriority {priority : Byte} {s' : Os × List Created}
      (done : pidStep .atmega2560 s (.setPriority priority) = .ok s') : Call.Does s (.setPriority priority) s'

/-- The system with what the task in each slot has still to execute. -/
structure AppState where
  sys : WaitState
  programs : Fin tasksMax → TaskProgram
  stopped : Bool

namespace AppState

def pid (s : AppState) (slot : Fin tasksMax) : Word := (s.sys.os.kernel.tasks slot).pid

/-- The task in `slot` executes, and `program` is what it has still to execute. -/
structure Executes (s : AppState) (slot : Fin tasksMax) (program : TaskProgram) : Prop where
  on : s.stopped = false
  active : s.sys.os.kernel.schedule.activeTaskBlock = slotIndex slot
  away : s.sys.waiters slot = .away
  program : s.programs slot = program

/-- The kernel's part of the next state. -/
def withKernel (s : AppState) (next : Os × List Created) : AppState :=
  { s with sys := { s.sys with os := next.1, created := next.2 } }

/-- What the task in `slot` has still to execute. -/
def withProgram (s : AppState) (slot : Fin tasksMax) (rest : TaskProgram) : AppState :=
  { s with programs := Function.update s.programs slot rest }

end AppState

/-- One step of the task that executes, or of the timer. The label is the event of a program and the pid of its task. -/
inductive AppStep (s : AppState) : Option (Word × ProgramEvent) → AppState → Prop where
  | calls {slot : Fin tasksMax} {call : Call} {rest : TaskProgram} {next : Os × List Created}
      (executes : s.Executes slot (.act call rest)) (done : call.Does (s.sys.os, s.sys.created) next) :
      AppStep s (some (s.pid slot, .acts call)) ((s.withKernel next).withProgram slot rest)
  | learns {slot : Fin tasksMax} {rest : Word → TaskProgram} (executes : s.Executes slot (.self rest)) :
      AppStep s (some (s.pid slot, .learns (s.pid slot))) (s.withProgram slot (rest (s.pid slot)))
  /-- The new task executes at once; the other one gets its pid when it executes again. -/
  | spawns {slot new : Fin tasksMax} {options : SpawnOptions} {child : TaskProgram} {rest : Word → TaskProgram}
      {sp pid : Word} {os' : Os} (executes : s.Executes slot (.spawn options child rest))
      (done : spawnTask .atmega2560 options.name options.priority sp s.sys.os = .ok (pid, os'))
      (starts : indexOfCurrentTask os'.kernel = slotIndex new) :
      AppStep s (some (s.pid slot, .spawns pid child))
        (((s.withKernel (os', s.sys.created ++ [⟨pid, slotIndex new, false⟩])).withProgram slot (rest pid)).withProgram
          new child)
  | waits {slot : Fin tasksMax} {pid : Word} {rest : TaskProgram} (executes : s.Executes slot (.wait pid rest)) :
      AppStep s none { s with sys := s.sys.set slot (.checks pid) }
  | loops {slot : Fin tasksMax} {sys' : WaitState} (on : s.stopped = false) (step : WaitStep s.sys (some slot) sys')
      (still : sys'.waiters slot ≠ .away) : AppStep s none { s with sys := sys' }
  | returns {slot : Fin tasksMax} {pid : Word} {rest : TaskProgram} {sys' : WaitState} (on : s.stopped = false)
      (step : WaitStep s.sys (some slot) sys') (program : s.programs slot = .wait pid rest)
      (returned : sys'.waiters slot = .away) :
      AppStep s (some (s.pid slot, .joins pid)) ({ s with sys := sys' }.withProgram slot rest)
  | preempted {sw : Switch} {os' : Os} (on : s.stopped = false) (done : s.sys.os.step .atmega2560 (.yield sw) = .ok os') :
      AppStep s none { s with sys := { s.sys with os := os' } }
  /-- The function returns, and `spawn_task` ends the task. `main` does not return. -/
  | ends {slot : Fin tasksMax} {sw : Switch} {next : Os × List Created} (executes : s.Executes slot .done)
      (spawned : slot ≠ 0) (done : pidStep .atmega2560 (s.sys.os, s.sys.created) (.kill sw) = .ok next) :
      AppStep s (some (s.pid slot, .ends)) (s.withKernel next)
  | stops {slot : Fin tasksMax} (executes : s.Executes slot .stop) :
      AppStep s (some (s.pid slot, .stops)) { s.withProgram slot .done with stopped := true }

/-- The system after the boot, with `main` in the idle task. -/
def AppState.start (main : TaskProgram) (booted : Os × List Created) : AppState where
  sys := ⟨booted.1, booted.2, fun _ => .away⟩
  programs := Function.update (fun _ => .done) 0 main
  stopped := false

/-- A run of `main` and the tasks it creates. -/
def AppRun (main : TaskProgram) (labels : List (Option (Word × ProgramEvent))) (s : AppState) : Prop :=
  ∃ mainSp idleSp sw booted, pidBoot .atmega2560 mainSp idleSp sw = .ok booted ∧
    Lib.Trace AppStep (.start main booted) labels s

/-- `main` is the first task, the scheduler the second one. -/
def mainTasks (main : TaskProgram) : ProgramTasks where
  task := Function.update (Function.update (fun _ => .absent) 1 .service) 0 (.runs main)
  stopped := false

/-! ## The kernel below -/

theorem WaitStep.executing {s t : WaitState} {slot : Fin tasksMax} (h : WaitStep s (some slot) t) :
    s.os.kernel.schedule.activeTaskBlock = slotIndex slot ∧ ∃ pid, (s.waiters slot).awaits = some pid := by
  cases h with
  | looks active waits => exact ⟨active, _, congrArg Waiter.awaits waits⟩
  | reads active waits => exact ⟨active, _, congrArg Waiter.awaits waits⟩
  | yields active waits done => exact ⟨active, _, congrArg Waiter.awaits waits⟩

/-- A step of a loop changes the place of its task only. -/
theorem WaitStep.places {s t : WaitState} {slot i : Fin tasksMax} (h : WaitStep s (some slot) t) (other : i ≠ slot) :
    t.waiters i = s.waiters i := by
  cases h with
  | looks => exact WaitState.set_of_ne other _
  | reads => exact WaitState.set_of_ne other _
  | yields active waits done => exact WaitState.set_of_ne other _

theorem WaitStep.loop_created {s t : WaitState} {slot : Fin tasksMax} (h : WaitStep s (some slot) t) :
    t.created = s.created := by
  cases h with
  | looks => rfl
  | reads => rfl
  | yields active waits done => rfl

/-- The loop is left or goes on for the same pid. -/
theorem WaitStep.keeps_waiting {s t : WaitState} {slot : Fin tasksMax} {pid : Word} (h : WaitStep s (some slot) t)
    (awaits : (s.waiters slot).awaits = some pid) : t.waiters slot = .away ∨ (t.waiters slot).awaits = some pid := by
  rcases h.loop awaits with ⟨other, -⟩ | ⟨-, loop⟩
  · exact absurd rfl other
  · cases loop with
    | looks waits next =>
      rw [next, WaitState.set_self, Waiter.look]
      cases getTask pid s.os.kernel with
      | none => exact .inl rfl
      | some found => exact .inr rfl
    | reads found waits next =>
      rw [next, WaitState.set_self, Waiter.read]
      split
      · exact .inr rfl
      · exact .inl rfl
    | yields waits next =>
      rw [next]
      exact .inr rfl

theorem Call.Does.kernel {s s' : Os × List Created} {call : Call} (h : call.Does s s') :
    s' = s ∨ ∃ a, pidStep .atmega2560 s a = .ok s' := by
  cases h with
  | print text => exact .inl rfl
  | yield done => exact .inr ⟨_, done⟩
  | setPriority done => exact .inr ⟨_, done⟩

theorem Call.Does.created {s s' : Os × List Created} {call : Call} (h : call.Does s s') : s'.2 = s.2 := by
  cases h with
  | print text => rfl
  | yield done =>
    obtain ⟨os', -, last⟩ := bind_eq_ok.mp done
    obtain rfl := pure_eq_ok.mp last
    rfl
  | setPriority done =>
    obtain ⟨os', -, last⟩ := bind_eq_ok.mp done
    obtain rfl := pure_eq_ok.mp last
    rfl

theorem pidStep_spawn {os os' : Os} {name : ProgmemString} {priority : Byte} {sp pid : Word} {new : Fin tasksMax}
    (done : spawnTask .atmega2560 name priority sp os = .ok (pid, os'))
    (starts : indexOfCurrentTask os'.kernel = slotIndex new) (created : List Created) :
    pidStep .atmega2560 (os, created) (.spawn name priority sp) = .ok (os', created ++ [⟨pid, slotIndex new, false⟩]) := by
  rw [← starts]
  exact bind_eq_ok.mpr ⟨_, done, rfl⟩

/-- A step is one of the system below, or leaves it alone. -/
theorem AppStep.sys {s t : AppState} {label : Option (Word × ProgramEvent)} (h : AppStep s label t) :
    t.sys = s.sys ∨ ∃ below, WaitStep s.sys below t.sys := by
  cases h with
  | @calls slot call rest next executes done =>
    rcases done.kernel with rfl | ⟨a, step⟩
    · exact .inl rfl
    · exact .inr ⟨none, .acts executes.active executes.away step⟩
  | learns => exact .inl rfl
  | spawns executes done starts =>
    exact .inr ⟨none, .acts executes.active executes.away (pidStep_spawn done starts s.sys.created)⟩
  | waits executes => exact .inr ⟨none, .calls _ executes.active executes.away⟩
  | loops on step still => exact .inr ⟨_, step⟩
  | returns on step program returned => exact .inr ⟨_, step⟩
  | preempted on done => exact .inr ⟨none, .preempted done⟩
  | ends executes spawned done => exact .inr ⟨none, .acts executes.active executes.away done⟩
  | stops => exact .inl rfl

theorem AppStep.records {s t : AppState} {label : Option (Word × ProgramEvent)} (h : AppStep s label t) :
    Records (indexOfCurrentTask s.sys.os.kernel) s.sys.created t.sys.created := by
  rcases h.sys with same | ⟨below, step⟩
  · rw [same]
    exact .same
  · exact step.records

theorem AppStep.labelled {s t : AppState} {pid pid' : Word} {event : ProgramEvent} (h : AppStep s (some (pid, event)) t)
    (same : pid = pid') : AppStep s (some (pid', event)) t := by
  rwa [← same]

theorem created_le {s t : AppState} {labels : List (Option (Word × ProgramEvent))} (run : Lib.Trace AppStep s labels t) :
    s.sys.created.length ≤ t.sys.created.length := by
  induction run with
  | nil s => exact Nat.le_refl _
  | cons step _ ih => exact Nat.le_trans step.records.length_le ih

/-! ## The tasks a state is about -/

/-- What has become of the task of a record. -/
inductive Shows (programs : Fin tasksMax → TaskProgram) (scheduler : Fin tasksMax) (c : Created) :
    Lib.TaskState Word Call SpawnOptions → Prop where
  | ended (gone : c.ended = true) : Shows programs scheduler c .ended
  | service (alive : c.ended = false) (slot : c.slot = slotIndex scheduler) : Shows programs scheduler c .service
  | runs {i : Fin tasksMax} (alive : c.ended = false) (slot : c.slot = slotIndex i) (user : i ≠ scheduler) :
      Shows programs scheduler c (.runs (programs i))

/-- The tasks the kernel has created are those of `a`, in the places their programs have got to. -/
structure Follows (scheduler : Fin tasksMax) (s : AppState) (a : ProgramTasks) : Prop where
  inv : WaitInv s.sys
  user : ∃ current, UserInv s.sys.os (some scheduler) current
  stopped : a.stopped = s.stopped
  created : ∀ c ∈ s.sys.created, Shows s.programs scheduler c (a.task c.pid)
  absent : ∀ pid, (∀ c ∈ s.sys.created, c.pid ≠ pid) → a.task pid = .absent
  waits : ∀ i pid, (s.sys.waiters i).awaits = some pid → ∃ rest, s.programs i = .wait pid rest

theorem Shows.update {programs : Fin tasksMax → TaskProgram} {scheduler : Fin tasksMax} {c : Created}
    {state : Lib.TaskState Word Call SpawnOptions} (h : Shows programs scheduler c state) {slot : Fin tasksMax}
    (other : c.ended = false → c.slot ≠ slotIndex slot) (rest : TaskProgram) :
    Shows (Function.update programs slot rest) scheduler c state := by
  cases h with
  | ended gone => exact .ended gone
  | service alive slot => exact .service alive slot
  | @runs i alive atSlot user =>
    have apart : i ≠ slot := by
      rintro rfl
      exact other alive atSlot
    rw [← Function.update_of_ne apart rest programs]
    exact .runs alive atSlot user

theorem Shows.runs_update {programs : Fin tasksMax → TaskProgram} {scheduler slot : Fin tasksMax} {c : Created}
    (alive : c.ended = false) (atSlot : c.slot = slotIndex slot) (user : slot ≠ scheduler) (rest : TaskProgram) :
    Shows (Function.update programs slot rest) scheduler c (.runs rest) := by
  have shown : Shows (Function.update programs slot rest) scheduler c (.runs (Function.update programs slot rest slot)) :=
    .runs alive atSlot user
  rwa [Function.update_self] at shown

theorem Shows.of_ended {programs : Fin tasksMax → TaskProgram} {scheduler : Fin tasksMax} {c : Created}
    {state : Lib.TaskState Word Call SpawnOptions} (h : Shows programs scheduler c state) (ended : c.ended = true) :
    state = .ended := by
  cases h with
  | ended gone => rfl
  | service alive slot =>
    rw [ended] at alive
    cases alive
  | runs alive slot user =>
    rw [ended] at alive
    cases alive

theorem Shows.endIn {programs : Fin tasksMax → TaskProgram} {scheduler slot : Fin tasksMax} {c : Created}
    {state : Lib.TaskState Word Call SpawnOptions} (h : Shows programs scheduler c state)
    (other : c.ended = false → c.slot ≠ slotIndex slot) : Shows programs scheduler (c.endIn (slotIndex slot)) state := by
  cases h with
  | ended gone =>
    refine .ended ?_
    unfold Created.endIn
    split
    · rfl
    · exact gone
  | service alive atScheduler =>
    rw [Created.endIn, if_neg (other alive)]
    exact .service alive atScheduler
  | runs alive atSlot user =>
    rw [Created.endIn, if_neg (other alive)]
    exact .runs alive atSlot user

/-- The task in an occupied slot. -/
structure Occupant (s : AppState) (slot : Fin tasksMax) (c : Created) : Prop where
  member : c ∈ s.sys.created
  alive : c.ended = false
  atSlot : c.slot = slotIndex slot
  pid : s.pid slot = c.pid

/-- There is no other one. -/
theorem Occupant.unique {s : AppState} {slot : Fin tasksMax} {c c' : Created} (occupant : Occupant s slot c)
    (inv : WaitInv s.sys) (fits : s.sys.created.length ≤ 2 ^ 16) (member : c' ∈ s.sys.created) (alive : c'.ended = false)
    (atSlot : c'.slot = slotIndex slot) : c' = c := by
  obtain ⟨i, at_i, -, pid⟩ := inv.pids.live c' member alive
  obtain rfl := slotIndex_inj.mp (at_i.symm.trans atSlot)
  exact inv.pids.unique fits member occupant.member (pid.symm.trans occupant.pid)

namespace Follows

variable {scheduler slot : Fin tasksMax} {s t : AppState} {a : ProgramTasks}

/-- The task that executes is one of the programs. -/
theorem executing (follows : Follows scheduler s a)
    (active : s.sys.os.kernel.schedule.activeTaskBlock = slotIndex slot) :
    slot ≠ scheduler ∧ ∃ c, Occupant s slot c ∧ a.task c.pid = .runs (s.programs slot) := by
  obtain ⟨current, user⟩ := follows.user
  obtain rfl : slot = current := slotIndex_inj.mp (active.symm.trans user.active)
  have running : s.sys.os.kernel.status slot = .running := (user.kernel.status.running slot).mpr rfl
  have apart : slot ≠ scheduler := by
    rintro rfl
    rw [(user.kernel.status.scheduler slot).mpr rfl] at running
    cases running
  obtain ⟨c, member, alive, atSlot, pid⟩ := follows.inv.pids.occupied slot (by rw [running]; exact nofun)
  refine ⟨apart, c, ⟨member, alive, atSlot, pid⟩, ?_⟩
  have shown := follows.created c member
  generalize a.task c.pid = state at shown ⊢
  cases shown with
  | ended gone =>
    rw [alive] at gone
    cases gone
  | service _ atScheduler => exact absurd (slotIndex_inj.mp (atSlot.symm.trans atScheduler)) apart
  | @runs i _ at_i _ =>
    obtain rfl := slotIndex_inj.mp (atSlot.symm.trans at_i)
    rfl

/-- A step of the system below keeps its invariants. -/
theorem below (follows : Follows scheduler s a) (step : t.sys = s.sys ∨ ∃ label, WaitStep s.sys label t.sys)
    (fits : t.sys.created.length ≤ 2 ^ 16) :
    WaitInv t.sys ∧ ∃ current, UserInv t.sys.os (some scheduler) current := by
  rcases step with same | ⟨label, step⟩
  · rw [same]
    exact ⟨follows.inv, follows.user⟩
  · refine ⟨follows.inv.step step fits, ?_⟩
    obtain ⟨current, user⟩ := follows.user
    rcases step.kernel with ⟨same, -⟩ | ⟨action, done⟩
    · rw [same]
      exact ⟨current, user⟩
    · exact user.step (follows.inv.pids.step user done).1

/-- The task in `slot` goes on. -/
theorem goes (follows : Follows scheduler s a) (rest : TaskProgram) (stopped : Bool) {sys : WaitState}
    (fits : s.sys.created.length ≤ 2 ^ 16) (active : s.sys.os.kernel.schedule.activeTaskBlock = slotIndex slot)
    (below : WaitInv sys ∧ ∃ current, UserInv sys.os (some scheduler) current) (created : sys.created = s.sys.created)
    (away : sys.waiters slot = .away) (places : ∀ i, i ≠ slot → sys.waiters i = s.sys.waiters i) :
    Follows scheduler ⟨sys, Function.update s.programs slot rest, stopped⟩
      ⟨Function.update a.task (s.pid slot) (.runs rest), stopped⟩ := by
  obtain ⟨apart, c, occupant, runs⟩ := follows.executing active
  refine ⟨below.1, below.2, rfl, fun d member => ?_, fun pid unknown => ?_, fun i pid waits => ?_⟩
  · rw [created] at member
    show Shows _ scheduler d (Function.update a.task (s.pid slot) (.runs rest) d.pid)
    by_cases same : d = c
    · subst same
      rw [occupant.pid, Function.update_self]
      exact .runs_update occupant.alive occupant.atSlot apart rest
    · have other : d.pid ≠ s.pid slot := fun equal =>
        same (follows.inv.pids.unique fits member occupant.member (equal.trans occupant.pid))
      rw [Function.update_of_ne other]
      exact (follows.created d member).update
        (fun alive atSlot => same (occupant.unique follows.inv fits member alive atSlot)) rest
  · have known : pid ≠ s.pid slot := by
      rintro rfl
      exact unknown c (by rw [created]; exact occupant.member) occupant.pid.symm
    show Function.update a.task (s.pid slot) (.runs rest) pid = .absent
    rw [Function.update_of_ne known]
    exact follows.absent pid fun d member => unknown d (by rw [created]; exact member)
  · have other : i ≠ slot := by
      rintro rfl
      have waits : (sys.waiters i).awaits = some pid := waits
      rw [away] at waits
      cases waits
    obtain ⟨rest', program⟩ := follows.waits i pid (places i other ▸ waits)
    exact ⟨rest', (Function.update_of_ne other ..).trans program⟩

/-- A task of its own loop, or the timer, takes a step. -/
theorem silent (follows : Follows scheduler s a) {sys : WaitState}
    (below : WaitInv sys ∧ ∃ current, UserInv sys.os (some scheduler) current) (created : sys.created = s.sys.created)
    (waits : ∀ i pid, (sys.waiters i).awaits = some pid → ∃ rest, s.programs i = .wait pid rest) :
    Follows scheduler { s with sys := sys } a := by
  refine ⟨below.1, below.2, follows.stopped, fun c member => ?_, fun pid unknown => ?_, waits⟩
  · rw [created] at member
    exact follows.created c member
  · exact follows.absent pid fun c member => unknown c (by rw [created]; exact member)

/-- The task in `slot` creates one, which executes at once. -/
theorem spawns (follows : Follows scheduler s a) {new : Fin tasksMax} {pid : Word} {os' : Os} {rest child : TaskProgram}
    (active : s.sys.os.kernel.schedule.activeTaskBlock = slotIndex slot) (away : s.sys.waiters slot = .away)
    (vacant : s.sys.os.kernel.status new = .empty)
    (below : WaitInv (s.withKernel (os', s.sys.created ++ [⟨pid, slotIndex new, false⟩])).sys ∧
      ∃ current, UserInv os' (some scheduler) current)
    (fits : s.sys.created.length < 2 ^ 16) :
    a.task pid = .absent ∧ Follows scheduler
      (((s.withKernel (os', s.sys.created ++ [⟨pid, slotIndex new, false⟩])).withProgram slot rest).withProgram new child)
      ⟨Function.update (Function.update a.task (s.pid slot) (.runs rest)) pid (.runs child), s.stopped⟩ := by
  have went : Follows scheduler (s.withProgram slot rest) ⟨Function.update a.task (s.pid slot) (.runs rest), s.stopped⟩ :=
    follows.goes rest s.stopped (Nat.le_of_lt fits) active ⟨follows.inv, follows.user⟩ rfl away fun _ _ => rfl
  have notScheduler : new ≠ scheduler := by
    rintro rfl
    obtain ⟨current, user⟩ := follows.user
    rw [(user.kernel.status.scheduler new).mpr rfl] at vacant
    cases vacant
  have fresh : ∀ d ∈ s.sys.created, (d.ended = false → d.slot ≠ slotIndex new) ∧ d.pid ≠ pid := by
    intro d member
    have elsewhere : d.ended = false → d.slot ≠ slotIndex new := by
      intro alive atNew
      obtain ⟨i, at_i, busy, -⟩ := follows.inv.pids.live d member alive
      obtain rfl := slotIndex_inj.mp (at_i.symm.trans atNew)
      exact busy vacant
    refine ⟨elsewhere, fun equal => ?_⟩
    have isNew : d = ⟨pid, slotIndex new, false⟩ := by
      apply below.1.pids.unique _ (List.mem_append_left _ member)
        (List.mem_append_right _ (List.mem_singleton.mpr rfl)) equal
      show (s.sys.created ++ [_]).length ≤ 2 ^ 16
      rw [List.length_append]
      exact fits
    rw [isNew] at elsewhere
    exact elsewhere rfl rfl
  refine ⟨follows.absent pid fun d member => (fresh d member).2, below.1, below.2, rfl, fun d member => ?_,
    fun pid' unknown => ?_, fun i pid' waits => ?_⟩
  · show Shows (Function.update (Function.update s.programs slot rest) new child) scheduler d
      (Function.update (Function.update a.task (s.pid slot) (.runs rest)) pid (.runs child) d.pid)
    rcases List.mem_append.mp member with old | last
    · rw [Function.update_of_ne (fresh d old).2]
      exact (went.created d old).update (fresh d old).1 child
    · obtain rfl := List.mem_singleton.mp last
      rw [Function.update_self]
      exact .runs_update rfl rfl notScheduler child
  · have notNew : pid' ≠ pid := by
      rintro rfl
      exact unknown ⟨pid', slotIndex new, false⟩ (List.mem_append_right _ (List.mem_singleton.mpr rfl)) rfl
    show Function.update (Function.update a.task (s.pid slot) (.runs rest)) pid (.runs child) pid' = .absent
    rw [Function.update_of_ne notNew]
    exact went.absent pid' fun d member => unknown d (List.mem_append_left _ member)
  · have other : i ≠ new := by
      rintro rfl
      have waits : (s.sys.waiters i).awaits = some pid' := waits
      refine follows.inv.busy i (fun atRest => ?_) vacant
      rw [atRest] at waits
      cases waits
    obtain ⟨rest', program⟩ := went.waits i pid' waits
    exact ⟨rest', (Function.update_of_ne other ..).trans program⟩

/-- The task in `slot` ends. -/
theorem ends (follows : Follows scheduler s a) (fits : s.sys.created.length ≤ 2 ^ 16) {os' : Os}
    (active : s.sys.os.kernel.schedule.activeTaskBlock = slotIndex slot)
    (below : WaitInv (s.withKernel (os', s.sys.created.map (Created.endIn (slotIndex slot)))).sys ∧
      ∃ current, UserInv os' (some scheduler) current) :
    Follows scheduler (s.withKernel (os', s.sys.created.map (Created.endIn (slotIndex slot))))
      ⟨Function.update a.task (s.pid slot) .ended, s.stopped⟩ := by
  obtain ⟨-, c, occupant, -⟩ := follows.executing active
  refine ⟨below.1, below.2, rfl, fun d member => ?_, fun pid unknown => ?_, follows.waits⟩
  · obtain ⟨d, old, rfl⟩ := List.mem_map.mp member
    show Shows s.programs scheduler _ (Function.update a.task (s.pid slot) .ended _)
    rw [endIn_pid]
    by_cases same : d = c
    · subst same
      rw [occupant.pid, Function.update_self]
      refine .ended ?_
      rw [Created.endIn, if_pos occupant.atSlot]
    · have other : d.pid ≠ s.pid slot := fun equal =>
        same (follows.inv.pids.unique fits old occupant.member (equal.trans occupant.pid))
      rw [Function.update_of_ne other]
      exact (follows.created d old).endIn fun alive atSlot => same (occupant.unique follows.inv fits old alive atSlot)
  · have unknown' : ∀ d ∈ s.sys.created, d.pid ≠ pid := by
      intro d old
      rw [← endIn_pid (slotIndex slot) d]
      exact unknown _ (List.mem_map_of_mem old)
    have known : pid ≠ s.pid slot := by
      rintro rfl
      exact unknown' c occupant.member occupant.pid.symm
    show Function.update a.task (s.pid slot) .ended pid = .absent
    rw [Function.update_of_ne known]
    exact follows.absent pid unknown'

/-- **One step** of the kernel is a step of the tasks, or none. -/
theorem step (follows : Follows scheduler s a) {label : Option (Word × ProgramEvent)} (h : AppStep s label t)
    (fits : t.sys.created.length ≤ 2 ^ 16) :
    ∃ b, Lib.Trace Lib.Tasks.Step a label.toList b ∧ Follows scheduler t b := by
  obtain ⟨task, stopped⟩ := a
  obtain rfl : stopped = s.stopped := follows.stopped
  have below := follows.below h.sys fits
  have fitting := Nat.le_trans h.records.length_le fits
  have single : ∀ {event : Word × ProgramEvent} {b : ProgramTasks}, Lib.Tasks.Step ⟨task, s.stopped⟩ event b →
      Lib.Trace Lib.Tasks.Step ⟨task, s.stopped⟩ [event] b := fun step => .cons step (.nil _)
  cases h with
  | @calls slot call rest next executes done =>
    obtain ⟨-, c, occupant, runs⟩ := follows.executing executes.active
    rw [executes.program, ← occupant.pid] at runs
    refine ⟨_, single (.goes executes.on runs (.act call rest) trivial), ?_⟩
    exact follows.goes rest s.stopped fitting executes.active below done.created executes.away fun _ _ => rfl
  | @learns slot rest executes =>
    obtain ⟨-, c, occupant, runs⟩ := follows.executing executes.active
    rw [executes.program, ← occupant.pid] at runs
    refine ⟨_, single (.goes executes.on runs (.self rest) trivial), ?_⟩
    exact follows.goes (rest (s.pid slot)) s.stopped fitting executes.active below rfl executes.away fun _ _ => rfl
  | @spawns slot new options child rest sp pid os' executes done starts =>
    obtain ⟨-, c, occupant, runs⟩ := follows.executing executes.active
    rw [executes.program, ← occupant.pid] at runs
    obtain ⟨slot', old, high, first, -, -, -, kernel, -⟩ := spawnTask_ok done
    have atNew : indexOfCurrentTask os'.kernel = slotIndex slot' := by rw [kernel]; rfl
    obtain rfl := slotIndex_inj.mp (starts.symm.trans atNew)
    have few : s.sys.created.length < 2 ^ 16 := by
      have length : (s.sys.created ++ [(⟨pid, slotIndex new, false⟩ : Created)]).length ≤ 2 ^ 16 := fits
      rwa [List.length_append] at length
    obtain ⟨fresh, went⟩ := follows.spawns executes.active executes.away (firstEmpty_some first) below few
    refine ⟨_, single (.goes executes.on runs (.spawn options child rest pid) fresh), ?_⟩
    exact went
  | @waits slot pid rest executes =>
    refine ⟨_, .nil _, follows.silent below rfl fun i pid' waits => ?_⟩
    by_cases here : i = slot
    · subst here
      rw [WaitState.set_self] at waits
      cases waits
      exact ⟨rest, executes.program⟩
    · rw [WaitState.set_of_ne here] at waits
      exact follows.waits i pid' waits
  | @loops slot sys' on step still =>
    obtain ⟨active, pid, awaits⟩ := step.executing
    refine ⟨_, .nil _, follows.silent below step.loop_created fun i pid' waits => ?_⟩
    by_cases here : i = slot
    · subst here
      rcases step.keeps_waiting awaits with away | same
      · exact absurd away still
      · rw [same] at waits
        cases waits
        exact follows.waits i pid awaits
    · rw [step.places here] at waits
      exact follows.waits i pid' waits
  | @returns slot pid rest sys' on step program returned =>
    obtain ⟨active, pid', awaits⟩ := step.executing
    obtain ⟨-, c, occupant, runs⟩ := follows.executing active
    rw [program, ← occupant.pid] at runs
    obtain ⟨rest', program'⟩ := follows.waits slot pid' awaits
    obtain ⟨rfl, -⟩ := Lib.Prog.wait.inj (program.symm.trans program')
    have gone : ¬ (task pid).Live := by
      by_cases known : ∃ d ∈ s.sys.created, d.pid = pid
      · obtain ⟨d, member, rfl⟩ := known
        have ended := follows.inv.leaves step awaits (by rw [returned]; exact nofun) member rfl
        have state : task d.pid = .ended := (follows.created d member).of_ended ended
        rw [state]
        exact id
      · have state : task pid = .absent := follows.absent pid fun d member same => known ⟨d, member, same⟩
        rw [state]
        exact id
    refine ⟨_, single (.goes on runs (.wait pid rest) gone), ?_⟩
    exact follows.goes rest s.stopped fitting active below step.loop_created returned fun i other => step.places other
  | preempted on done =>
    exact ⟨_, .nil _, follows.silent below rfl follows.waits⟩
  | @ends slot sw next executes spawned done =>
    obtain ⟨-, c, occupant, runs⟩ := follows.executing executes.active
    rw [executes.program, ← occupant.pid] at runs
    obtain ⟨os', killed, last⟩ := bind_eq_ok.mp done
    obtain rfl := pure_eq_ok.mp last
    refine ⟨_, single (.ends executes.on runs), ?_⟩
    have went := follows.ends fitting executes.active (by rw [← executes.active]; exact below)
    rw [← executes.active] at went
    exact went
  | @stops slot executes =>
    obtain ⟨-, c, occupant, runs⟩ := follows.executing executes.active
    rw [executes.program, ← occupant.pid] at runs
    refine ⟨_, single (.goes executes.on runs .stop trivial), ?_⟩
    exact follows.goes .done true fitting executes.active below rfl executes.away fun _ _ => rfl

/-- **A run** of the kernel is one of the tasks. -/
theorem run (follows : Follows scheduler s a) {labels : List (Option (Word × ProgramEvent))}
    (run : Lib.Trace AppStep s labels t) (fits : t.sys.created.length ≤ 2 ^ 16) :
    ∃ b, Lib.Trace Lib.Tasks.Step a labels.reduceOption b ∧ Follows scheduler t b := by
  induction run generalizing a with
  | nil s => exact ⟨a, .nil a, follows⟩
  | @cons s t u label labels step rest ih =>
    have few := Nat.le_trans (created_le rest) fits
    obtain ⟨b, first, next⟩ := follows.step step few
    obtain ⟨c, second, last⟩ := ih next fits
    refine ⟨c, ?_, last⟩
    cases label with
    | none => exact first.append second
    | some event => exact first.append second

end Follows

/-- The first record of a boot is that of the idle task, the second one that of the scheduler. -/
theorem pidBoot_created {mainSp idleSp : Word} {sw : Switch} {s : Os × List Created}
    (h : pidBoot .atmega2560 mainSp idleSp sw = .ok s) :
    ∃ scheduler current, UserInv s.1 (some scheduler) current ∧ scheduler ≠ 0 ∧
      s.2 = [⟨0, slotIndex 0, false⟩, ⟨1, slotIndex scheduler, false⟩] := by
  obtain ⟨-, pids⟩ := pidBoot_inv h
  simp only [pidBoot, bind_eq_ok] at h
  obtain ⟨main, booted, idle, atIdle, ⟨pid, spawned⟩, spawn, os, start, last⟩ := h
  obtain rfl := pure_eq_ok.mp last
  have user := bootMain_inv booted
  obtain ⟨slot, entered, done, running, kernel, inv, round, rfl⟩ := startScheduler_ok booted spawn start
  obtain ⟨next, active, resumed⟩ := inv.round round
  have atSlot : indexOfCurrentTask spawned.kernel = slotIndex slot := by
    have active := inv.active
    rw [kernel] at active
    exact active
  obtain ⟨new, old, high, first, -, -, -, made, -⟩ := spawnTask_ok spawn
  have atNew : indexOfCurrentTask spawned.kernel = slotIndex new := by rw [made]; rfl
  obtain rfl := slotIndex_inj.mp (atSlot.symm.trans atNew)
  have apart : slot ≠ 0 := by
    rintro rfl
    have vacant : main.kernel.status 0 = .empty := firstEmpty_some first
    rw [(user.kernel.status.running 0).mpr rfl] at vacant
    cases vacant
  have own : (main.kernel.tasks idle).pid = 0 := pids.numbered 0 _ rfl
  have second : pid = 1 := pids.numbered 1 _ rfl
  have atZero : indexOfCurrentTask main.kernel = slotIndex 0 := user.active
  exact ⟨slot, next, ⟨active, resumed, rfl⟩, apart, by rw [own, second, atZero, atSlot]⟩

theorem pidBoot_length {mainSp idleSp : Word} {sw : Switch} {s : Os × List Created}
    (h : pidBoot .atmega2560 mainSp idleSp sw = .ok s) : s.2.length = 2 := by
  obtain ⟨scheduler, current, -, -, created⟩ := pidBoot_created h
  rw [created]
  rfl

/-- After the boot `main` is all there is to run. -/
theorem follows_start (main : TaskProgram) {mainSp idleSp : Word} {sw : Switch} {booted : Os × List Created}
    (h : pidBoot .atmega2560 mainSp idleSp sw = .ok booted) :
    ∃ scheduler, Follows scheduler (.start main booted) (mainTasks main) := by
  obtain ⟨scheduler, current, user, apart, created⟩ := pidBoot_created h
  have reached : WaitReachable ⟨booted.1, booted.2, fun _ => .away⟩ := ⟨_, _, _, _, _, [], h, .nil _⟩
  have few : booted.2.length ≤ 2 ^ 16 := (pidBoot_length h).trans_le (by decide)
  have inv := reached.inv few
  refine ⟨scheduler, inv, ⟨current, user⟩, rfl, fun c member => ?_, fun pid unknown => ?_, fun i pid waits => ?_⟩
  · have known : c ∈ [⟨0, slotIndex 0, false⟩, ⟨1, slotIndex scheduler, false⟩] := created ▸ member
    rcases List.mem_cons.mp known with rfl | second
    · exact .runs_update rfl rfl apart.symm main
    · obtain rfl := List.mem_singleton.mp second
      exact .service rfl rfl
  · have unknown' : ∀ c ∈ booted.2, c.pid ≠ pid := unknown
    rw [created] at unknown'
    have notMain : pid ≠ 0 := (unknown' _ List.mem_cons_self).symm
    have notScheduler : pid ≠ 1 := (unknown' _ (List.mem_cons_of_mem _ List.mem_cons_self)).symm
    show Function.update (Function.update _ 1 _) 0 _ pid = _
    rw [Function.update_of_ne notMain, Function.update_of_ne notScheduler]
  · cases waits

/-! ## Whole runs -/

/-- A task that prints a line. -/
def lineTask : TaskProgram := .act (.print "child") .done

/-- `main` creates one and waits for it. -/
def waitForLine : TaskProgram := .spawn ⟨some "task", 0⟩ lineTask fun pid => .wait pid (.act (.print "main") .stop)

def waitForLineLabels : List (Option (Word × ProgramEvent)) :=
  [some (0, .spawns 2 lineTask), some (2, .acts (.print "child")), some (2, .ends), none, none, some (0, .joins 2),
    some (0, .acts (.print "main")), some (0, .stops)]

theorem waitForLine_run : ∃ s, AppRun waitForLine waitForLineLabels s ∧ s.sys.created.length ≤ 2 ^ 16 := by
  have all : ∃ u, (pidBoot .atmega2560 0x1FF0 0x5A0 bootSwitch >>= fun start =>
      spawnTask .atmega2560 (some "task") 0 0x5A0 start.1 >>= fun child =>
      pidStep .atmega2560 (child.2, start.2 ++ [⟨child.1, slotIndex 2, false⟩]) (.kill bootSwitch) >>= fun next =>
      fatalIf .atmega2560 (!decide (start.1.kernel.schedule.activeTaskBlock = slotIndex 0 ∧
        (start.1.kernel.tasks 0).pid = 0 ∧ indexOfCurrentTask child.2.kernel = slotIndex 2 ∧ child.1 = 2 ∧
        (child.2.kernel.tasks 2).pid = 2 ∧ next.1.kernel.schedule.activeTaskBlock = slotIndex 0 ∧
        (next.1.kernel.tasks 0).pid = 0 ∧ getTask 2 next.1.kernel = some 2 ∧
        (next.1.kernel.tasks 2).status = .empty ∧ next.2.length = 3)) "") = .ok u := Lib.ok_of_isOk (by decide +kernel)
  obtain ⟨⟨⟩, all⟩ := all
  simp only [bind_eq_ok, fatalIf_ok, Bool.not_eq_false', decide_eq_true_eq] at all
  obtain ⟨start, booted, ⟨pid, os⟩, spawned, next, killed, active, own, starts, rfl, childPid, active', own', found, empty,
    few⟩ := all
  have first : (AppState.start waitForLine start).Executes 0 waitForLine := ⟨rfl, active, rfl, rfl⟩
  have points : ∀ {w : WaitState}, w.os = next.1 → (w.set 0 (.look 2 w.os.kernel)).waiters 0 = .found 2 2 := by
    intro w same
    rw [WaitState.set_self, Waiter.look, same, found]
  have away : ∀ {w : WaitState}, w.os = next.1 → (w.set 0 (.read 2 2 w.os.kernel)).waiters 0 = .away := by
    intro w same
    rw [WaitState.set_self, same]
    exact if_neg (not_not_intro empty)
  apply Exists.intro
  apply And.intro
  · refine ⟨_, _, _, start, booted, ?_⟩
    apply Lib.Trace.cons
    · exact AppStep.labelled (.spawns first spawned starts) own
    apply Lib.Trace.cons
    · exact AppStep.labelled (.calls ⟨rfl, starts, rfl, rfl⟩ (.print "child")) childPid
    apply Lib.Trace.cons
    · exact AppStep.labelled (.ends ⟨rfl, starts, rfl, rfl⟩ (by decide) killed) childPid
    apply Lib.Trace.cons
    · exact .waits ⟨rfl, active', rfl, rfl⟩
    apply Lib.Trace.cons
    · exact .loops rfl (.looks active' rfl) (by rw [points rfl]; intro same; cases same)
    apply Lib.Trace.cons
    · exact AppStep.labelled (.returns rfl (.reads active' (points rfl)) rfl (away rfl)) own'
    apply Lib.Trace.cons
    · exact AppStep.labelled (.calls ⟨rfl, active', away rfl, rfl⟩ (.print "main")) own'
    apply Lib.Trace.cons
    · exact AppStep.labelled (.stops ⟨rfl, active', away rfl, rfl⟩) own'
    exact .nil _
  · exact few.trans_le (by decide)

/-- **Programs run as if each task had a processor and the kernel were not there.** Every run of the kernel with at most
2¹⁶ creations is an interleaving of its tasks' programs: tasks are created under new pids, `pid()` is the pid the creating
task was given, a wait lets its task go on when the awaited one is not there, and nothing else is lost or added. -/
theorem programs_run_concurrently {main : TaskProgram} {labels : List (Option (Word × ProgramEvent))} {s : AppState}
    (run : AppRun main labels s) (fits : s.sys.created.length ≤ 2 ^ 16) :
    ∃ scheduler a, Lib.Trace Lib.Tasks.Step (mainTasks main) labels.reduceOption a ∧ a.stopped = s.stopped ∧
      ∀ c ∈ s.sys.created, Shows s.programs scheduler c (a.task c.pid) := by
  obtain ⟨mainSp, idleSp, sw, booted, boots, run⟩ := run
  obtain ⟨scheduler, start⟩ := follows_start main boots
  obtain ⟨a, trace, follows⟩ := start.run run fits
  exact ⟨scheduler, a, trace, follows.stopped, follows.created⟩

theorem programs_run_concurrently_line : ∃ s scheduler a, AppRun waitForLine waitForLineLabels s ∧
    Lib.Trace Lib.Tasks.Step (mainTasks waitForLine) waitForLineLabels.reduceOption a ∧ a.stopped = s.stopped ∧
      ∀ c ∈ s.sys.created, Shows s.programs scheduler c (a.task c.pid) := by
  obtain ⟨s, run, fits⟩ := waitForLine_run
  obtain ⟨scheduler, a, all⟩ := programs_run_concurrently run fits
  exact ⟨s, scheduler, a, run, all⟩

/-- **A wait for a child is over when the child has executed its whole program**: nothing of it comes before its creation
or after the return of the wait. -/
theorem child_is_done_before_join {main child : TaskProgram} {labels : List (Option (Word × ProgramEvent))} {s : AppState}
    {before between after : List (Word × ProgramEvent)} {parent waiter pid : Word} (run : AppRun main labels s)
    (fits : s.sys.created.length ≤ 2 ^ 16)
    (order : labels.reduceOption = before ++ (parent, .spawns pid child) :: (between ++ (waiter, .joins pid) :: after)) :
    Lib.Tasks.eventsOf pid before = [] ∧
      (∃ own, Lib.Tasks.eventsOf pid between = own ++ [.ends] ∧ child.Path pid own .done) ∧
      Lib.Tasks.eventsOf pid after = [] := by
  obtain ⟨scheduler, a, trace, -⟩ := programs_run_concurrently run fits
  rw [order] at trace
  exact Lib.Tasks.join_after_end trace

theorem child_is_done_before_join_line : ∃ s, AppRun waitForLine waitForLineLabels s ∧
    ∃ own, [.acts (.print "child"), .ends] = own ++ [.ends] ∧ lineTask.Path 2 own .done := by
  obtain ⟨s, run, fits⟩ := waitForLine_run
  have order : waitForLineLabels.reduceOption = [] ++ (0, .spawns 2 lineTask) ::
      ([(2, .acts (.print "child")), (2, .ends)] ++ (0, .joins 2) :: [(0, .acts (.print "main")), (0, .stops)]) := rfl
  obtain ⟨-, done, -⟩ := child_is_done_before_join run fits order
  exact ⟨s, run, done⟩

end Simplos
