import Simplos.Kernel.Schedules

/-!
# How long a task waits

While no task is created or ends, a READY task is served within twice as many switches as there are user tasks, less
one (at most 7), whatever priorities the running tasks take. A creation or an end cuts the cycle short, and the next
one starts again from the highest priority: a task that keeps creating tasks keeps the others waiting for ever.
-/

namespace Simplos
set_option autoImplicit false
open Lib (bind_eq_ok)

/-- The slots that hold a task other than the scheduler. -/
def Kernel.userTasks (k : Kernel) : Nat :=
  (Finset.univ.filter fun i => k.status i ≠ .empty ∧ k.status i ≠ .scheduler).card

def Action.isYield : Action → Bool
  | .yield _ => true
  | _ => false

/-- An action that neither creates nor ends a task. -/
def Action.isSteady : Action → Bool
  | .yield _ => true
  | .setPriority _ => true
  | _ => false

theorem isYield_request (a : Action) : Lib.Pool.isYield a.request = a.isYield := by
  cases a <;> rfl

theorem steady_request {a : Action} (steady : a.isSteady = true) : Lib.Pool.Steady a.request := by
  cases a with
  | yield sw => exact .inl rfl
  | setPriority priority => exact .inr ⟨_, rfl⟩
  | spawn => cases steady
  | kill => cases steady

theorem countP_request (actions : List Action) :
    (actions.map Action.request).countP Lib.Pool.isYield = actions.countP Action.isYield := by
  rw [List.countP_map]
  exact List.countP_congr fun a _ => by rw [Function.comp_apply, isYield_request]

theorem Represents.size {k : Kernel} {p : TaskPool} (represents : Represents k p) : p.size = k.userTasks := by
  refine Lib.Pool.size_eq fun i => ?_
  rw [Lib.Pool.IsTask, represents.places]
  simp only [place_task, Kernel.status, exists_and_left, exists_eq', and_true]

/-- One slot is the scheduler's. -/
theorem UserInv.userTasks_le {os : Os} {scheduler current : Fin tasksMax} (user : UserInv os (some scheduler) current) :
    os.kernel.userTasks ≤ 4 := by
  have notScheduler : ∀ i ∈ Finset.univ.filter (fun i => os.kernel.status i ≠ .empty ∧ os.kernel.status i ≠ .scheduler),
      i ∈ Finset.univ.erase scheduler := by
    intro i member
    obtain ⟨-, -, other⟩ := Finset.mem_filter.mp member
    refine Finset.mem_erase.mpr ⟨?_, Finset.mem_univ i⟩
    rintro rfl
    exact other ((user.kernel.status.scheduler i).mpr rfl)
  have bound := Finset.card_le_card notScheduler
  rwa [Finset.card_erase_of_mem (Finset.mem_univ scheduler), Finset.card_univ, Fintype.card_fin] at bound

/-- **Bounded waiting.** While no task is created or ends, a READY task below priority 255 becomes active within
`2 * userTasks - 1` switches, and there are at most four user tasks. -/
theorem ready_task_is_served {os os' : Os} (reached : Reachable os) {i : Fin tasksMax}
    (ready : (os.kernel.tasks i).status = .ready) (ordinary : (os.kernel.tasks i).priority ≠ 255)
    {actions : List Action} (steady : ∀ a ∈ actions, a.isSteady = true)
    (ran : Lib.run (Os.step .atmega2560) os actions = .ok os')
    (long : 2 * os.kernel.userTasks ≤ actions.countP Action.isYield + 1) :
    os.kernel.userTasks ≤ 4 ∧ ∃ before after t, actions = before ++ after ∧
      Lib.run (Os.step .atmega2560) os before = .ok t ∧ t.kernel.schedule.activeTaskBlock = slotIndex i ∧
      before.countP Action.isYield + 1 ≤ 2 * os.kernel.userTasks := by
  obtain ⟨scheduler, current, user⟩ := reached.inv
  refine ⟨user.userTasks_le, ?_⟩
  obtain ⟨p, serves, sound, -⟩ := reached.serves
  have size := serves.represents.size
  have waits : Lib.Pool.Waits 255 p i := by
    refine ⟨sound, ⟨_, (serves.represents.places i).trans (place_ready ready), by bv_omega⟩, ?_⟩
    rintro rfl
    obtain ⟨scheduler, user⟩ := serves.user
    have running : (os.kernel.tasks p.running).status = .running := (user.kernel.status.running _).mpr rfl
    rw [ready] at running
    cases running
  obtain ⟨q, trace, -⟩ := serves.run ran
  have steady' : ∀ r ∈ actions.map Action.request, Lib.Pool.Steady r := by
    intro r member
    obtain ⟨a, inside, rfl⟩ := List.mem_map.mp member
    exact steady_request (steady a inside)
  obtain ⟨before, after, r, split, reached', running, few⟩ :=
    Lib.Pool.served waits trace steady' (by rw [size, countP_request]; exact long)
  obtain ⟨before, after, rfl, rfl, rfl⟩ := List.map_eq_append_iff.mp split
  obtain ⟨t, first, -⟩ := Lib.run_append_ok.mp ran
  obtain ⟨r', trace', serves'⟩ := serves.run first
  obtain rfl := Lib.Pool.trace_unique reached' trace'
  refine ⟨before, after, t, rfl, first, serves'.represents.running.trans (congrArg slotIndex running), ?_⟩
  rwa [← countP_request, ← size]

/-- The idle task, which spawned another one, is served within three switches. -/
theorem ready_task_is_served_idle : ∃ os actions before after t, Reachable os ∧ actions = before ++ after ∧
    Lib.run (Os.step .atmega2560) os before = .ok t ∧ t.kernel.schedule.activeTaskBlock = slotIndex 0 := by
  have all : ∃ os', (boot .atmega2560 0x1FF0 0x5A0 bootSwitch >>= fun start =>
      Lib.run (Os.step .atmega2560) start [.spawn (some "task") 3 0x5A0] >>= fun os =>
      fatalIf .atmega2560 (!decide ((os.kernel.tasks 0).status = .ready ∧ (os.kernel.tasks 0).priority ≠ 255 ∧
        os.kernel.userTasks = 2)) "" >>= fun _ =>
      Lib.run (Os.step .atmega2560) os
        [.yield (restSwitch 2), .setPriority 7, .yield (restSwitch 2), .yield (restSwitch 0)]) = .ok os' :=
    Lib.ok_of_isOk (by decide +kernel)
  obtain ⟨os', all⟩ := all
  simp only [bind_eq_ok, fatalIf_ok, Bool.not_eq_false', decide_eq_true_eq] at all
  obtain ⟨start, booted, os, spawned, ⟨⟩, ⟨ready, ordinary, two⟩, ran⟩ := all
  have reached : Reachable os := ⟨_, _, _, start, _, booted, spawned⟩
  obtain ⟨-, before, after, t, split, run, active, -⟩ := ready_task_is_served reached ready ordinary
    (by decide) ran (by rw [two]; decide)
  exact ⟨os, _, before, after, t, reached, split, run, active⟩

/-! ## Waiting for ever -/

def Action.isKill : Action → Bool
  | .kill _ => true
  | _ => false

/-- Only the task that runs in `p` and one in `new` may run, and no place but `new` differs from `p`. -/
def KeptOut (new : Fin tasksMax) (p : TaskPool) (os : Os) : Prop :=
  ∃ q, Serves os q ∧ (q.running = p.running ∨ q.running = new) ∧ ∀ i, i ≠ new → q.places i = p.places i

/-- The running task spawns a task in `new`, which ends and gives the CPU back to it. -/
theorem Serves.spawn_kill {os : Os} {p : TaskPool} {new : Fin tasksMax} {rest : List (Fin tasksMax)}
    (serves : Serves os p) (ranged : Ranged os.kernel) (free : Lib.Pool.FirstFree p.places new)
    (ahead : Lib.Pool.Cycle 255 p.places (p.running :: rest)) :
    ∃ middle os' q, os.step .atmega2560 (.spawn (some "task") 0 (restSp p.running)) = .ok middle ∧ Serves middle q ∧
      q.running = new ∧ (∀ i, i ≠ new → q.places i = p.places i) ∧
      middle.step .atmega2560 (.kill (restSwitch new)) = .ok os' ∧ Serves os' { p with pending := rest } ∧
      Ranged os'.kernel := by
  obtain ⟨q, create, running, others, finish⟩ := free.create_finish ahead 0
  obtain ⟨middle, spawned⟩ :=
    (serves.step_iff ranged (.spawn (some "task") 0 (restSp p.running))).mpr ⟨q, create, trivial⟩
  obtain ⟨q', create', serves'⟩ := serves.step spawned
  obtain rfl := create'.unique create
  obtain ⟨scheduler, user⟩ := serves.user
  have ranged' : Ranged middle.kernel := fun slot => (congrFun (user.step_ranges spawned) slot).trans (ranged slot)
  have parent : (middle.kernel.tasks p.running).taskSpAdr = restSp p.running := by
    obtain ⟨⟨pid, after⟩, spawn, last⟩ := bind_eq_ok.mp spawned
    obtain rfl := pure_eq_ok.mp last
    obtain ⟨slot, old, high, first, active, -, -, kernel, -⟩ := spawnTask_ok spawn
    obtain rfl : old = p.running := slotIndex_inj.mp (active.symm.trans user.active)
    have running : (os.kernel.tasks p.running).status = .running := (user.kernel.status.running _).mpr rfl
    have apart : p.running ≠ slot := by
      rintro same
      have empty := firstEmpty_some first
      simp [← same, running] at empty
    rw [kernel, spawned_task _ _ _ _ _ apart]
  obtain ⟨os', killed⟩ := (serves'.step_iff ranged' (.kill (restSwitch new))).mpr
    ⟨_, finish, by
      show SpAccepted bootMemory p.running (middle.kernel.tasks p.running).taskSpAdr
      rw [parent]
      exact restSp_accepted p.running⟩
  obtain ⟨q'', finish', serves''⟩ := serves'.step killed
  obtain rfl := finish'.unique finish
  obtain ⟨scheduler', user'⟩ := serves'.user
  exact ⟨middle, os', q', spawned, serves', running, others, killed, serves'',
    fun slot => (congrFun (user'.step_ranges killed) slot).trans (ranged' slot)⟩

/-- Any number of times. -/
theorem Serves.churn {new : Fin tasksMax} (n : Nat) {os : Os} {p : TaskPool} {rest : List (Fin tasksMax)}
    (serves : Serves os p) (ranged : Ranged os.kernel) (free : Lib.Pool.FirstFree p.places new)
    (ahead : Lib.Pool.Cycle 255 p.places (p.running :: rest)) :
    ∃ actions os', Lib.run (Os.step .atmega2560) os actions = .ok os' ∧ actions.countP Action.isKill = n ∧
      Lib.Throughout (Os.step .atmega2560) (KeptOut new p) os actions := by
  have now : KeptOut new p os := ⟨p, serves, .inl rfl, fun _ _ => rfl⟩
  induction n generalizing os p with
  | zero => exact ⟨[], os, rfl, rfl, Lib.throughout_nil.mpr now⟩
  | succ n ih =>
    obtain ⟨middle, next, q, spawned, serves', running, others, killed, serves'', ranged''⟩ :=
      serves.spawn_kill ranged free ahead
    obtain ⟨actions, os', ran, count, keeps⟩ := ih serves'' ranged'' free ahead ⟨_, serves'', .inl rfl, fun _ _ => rfl⟩
    refine ⟨.spawn (some "task") 0 (restSp p.running) :: .kill (restSwitch new) :: actions, os', ?_, ?_, ?_⟩
    · exact Lib.run_cons_ok.mpr ⟨middle, spawned, Lib.run_cons_ok.mpr ⟨next, killed, ran⟩⟩
    · rw [List.countP_cons_of_neg (by simp [Action.isKill]), List.countP_cons_of_pos rfl, count]
    · refine (Lib.throughout_cons spawned).mpr ⟨now, (Lib.throughout_cons killed).mpr ⟨?_, keeps⟩⟩
      exact ⟨q, serves', .inr running, others⟩

/-- The running task comes first in the next cycle if it comes `Before` no READY task. -/
theorem Serves.ahead {os : Os} {p : TaskPool} (serves : Serves os p)
    (ordinary : (os.kernel.tasks p.running).priority ≠ 255)
    (highest : ∀ i, (os.kernel.tasks i).status = .ready → (os.kernel.tasks i).priority ≠ 255 →
      Before os.kernel.tasks i p.running) : ∃ rest, Lib.Pool.Cycle 255 p.places (p.running :: rest) := by
  obtain ⟨scheduler, user⟩ := serves.user
  have cycle := cycle_prioritized user.yielding.save (savePrevious_places serves.represents.places p.running)
  have running : (os.kernel.tasks p.running).status = .running := (user.kernel.status.running _).mpr rfl
  have own : p.places p.running = .task (os.kernel.tasks p.running).priority.toNat := by
    rw [serves.represents.places, place_running running]
  obtain ⟨rest, order⟩ := cycle.head ((cycle.mem p.running).mpr ⟨_, own, by bv_omega⟩) (by
    intro i member other
    obtain ⟨priority, place, below⟩ := (cycle.mem i).mp member
    have ready := serves.status i
    rw [place] at ready
    have isReady : (os.kernel.tasks i).status = .ready := ready.trans (if_neg other)
    have held : p.places i = .task (os.kernel.tasks i).priority.toNat := by
      rw [serves.represents.places, place_ready isReady]
    obtain rfl := Lib.Place.task.inj (held.symm.trans place)
    refine ⟨_, _, own, held, ?_⟩
    rcases highest i isReady (by bv_omega) with less | ⟨equal, less⟩
    · exact .inl (BitVec.lt_def.mp less)
    · exact .inr ⟨congrArg BitVec.toNat equal.symm, less⟩)
  rw [order] at cycle
  exact ⟨rest, cycle⟩

/-- **Unbounded waiting.** From every state in which the running task has the highest priority and a slot is EMPTY, it
can spawn tasks that end, any number `n` of them, while no other task gets the CPU. -/
theorem spawning_task_keeps_others_waiting {os : Os} (reached : Reachable os) {current new : Fin tasksMax}
    (active : os.kernel.schedule.activeTaskBlock = slotIndex current) (empty : LowestEmpty os.kernel.tasks new)
    (ordinary : (os.kernel.tasks current).priority ≠ 255)
    (highest : ∀ i, (os.kernel.tasks i).status = .ready → (os.kernel.tasks i).priority ≠ 255 →
      Before os.kernel.tasks i current) (n : Nat) :
    ∃ actions os', Lib.run (Os.step .atmega2560) os actions = .ok os' ∧ actions.countP Action.isKill = n ∧
      ∀ before after t, actions = before ++ after → Lib.run (Os.step .atmega2560) os before = .ok t →
        ∀ i, i ≠ current → i ≠ new →
          t.kernel.schedule.activeTaskBlock ≠ slotIndex i ∧ t.kernel.status i = os.kernel.status i := by
  obtain ⟨p, serves, -, ranged⟩ := reached.serves
  obtain rfl : p.running = current := slotIndex_inj.mp (serves.represents.running.symm.trans active)
  have free : Lib.Pool.FirstFree p.places new := by
    refine ⟨?_, fun i below => ?_⟩
    · rw [serves.represents.places, place_free]
      exact empty.empty
    · rw [serves.represents.places, Ne, place_free]
      exact empty.lowest i below
  obtain ⟨rest, ahead⟩ := serves.ahead ordinary highest
  obtain ⟨actions, os', ran, count, keeps⟩ := serves.churn n ranged free ahead
  refine ⟨actions, os', ran, count, fun before after t split ran i notCurrent notNew => ?_⟩
  obtain ⟨q, serves', running, others⟩ := keeps before after t split ran
  have notRunning : i ≠ q.running := by
    rcases running with same | same <;> rwa [same]
  constructor
  · rw [serves'.represents.running, Ne, slotIndex_inj]
    exact notRunning.symm
  · rw [serves'.status, serves.status, others i notNew]
    simp only [if_neg notRunning, if_neg notCurrent]

/-- The task with priority 3 keeps the idle task waiting. -/
theorem spawning_task_keeps_idle_waiting : ∃ os, Reachable os ∧ (os.kernel.tasks 0).status = .ready ∧
    ∀ n, ∃ actions os', Lib.run (Os.step .atmega2560) os actions = .ok os' ∧ actions.countP Action.isKill = n ∧
      os'.kernel.schedule.activeTaskBlock ≠ slotIndex 0 := by
  have all : ∃ u, (boot .atmega2560 0x1FF0 0x5A0 bootSwitch >>= fun start =>
      Lib.run (Os.step .atmega2560) start [.spawn (some "task") 3 0x5A0] >>= fun os =>
      fatalIf .atmega2560 (!decide (os.kernel.schedule.activeTaskBlock = slotIndex 2 ∧
        (os.kernel.tasks 0).status = .ready ∧ (∀ i, (os.kernel.tasks i).status = .ready → i = 0) ∧
        (os.kernel.tasks 3).status = .empty ∧ (∀ i, i < 3 → (os.kernel.tasks i).status ≠ .empty) ∧
        (os.kernel.tasks 0).priority < (os.kernel.tasks 2).priority ∧ (os.kernel.tasks 2).priority ≠ 255)) "") = .ok u :=
    Lib.ok_of_isOk (by decide +kernel)
  obtain ⟨⟨⟩, all⟩ := all
  simp only [bind_eq_ok, fatalIf_ok, Bool.not_eq_false', decide_eq_true_eq] at all
  obtain ⟨start, booted, os, spawned, active, ready, only, empty, lower, less, ordinary⟩ := all
  have reached : Reachable os := ⟨_, _, _, start, _, booted, spawned⟩
  have highest : ∀ i, (os.kernel.tasks i).status = .ready → (os.kernel.tasks i).priority ≠ 255 →
      Before os.kernel.tasks i 2 := by
    intro i isReady _
    obtain rfl := only i isReady
    exact .inl less
  refine ⟨os, reached, ready, fun n => ?_⟩
  obtain ⟨actions, os', ran, count, keeps⟩ := spawning_task_keeps_others_waiting reached active ⟨empty, lower⟩
    ordinary highest n
  exact ⟨actions, os', ran, count, (keeps actions [] os' (by simp) ran 0 (by decide) (by decide)).1⟩

end Simplos
