import Simplos.Kernel.Programs
import Simplos.Kernel.Schedules

/-!
# Every interleaving is a run of the kernel

`Kernel.Programs` shows that a run of the kernel interleaves its tasks' programs. Conversely the timer can bring about any
interleaving: a task has its turn when the others have been preempted often enough. What the kernel asks for is a free
slot for each task that is created and priorities below 255, at which a task would never have a turn.
-/

namespace Simplos
set_option autoImplicit false
open Lib (bind_eq_ok)

/-- The program gives no task priority 255. -/
def Courteous : TaskProgram → Prop
  | .done => True
  | .stop => True
  | .act (.setPriority priority) rest => priority ≠ 255 ∧ Courteous rest
  | .act (.print _) rest => Courteous rest
  | .act .yield rest => Courteous rest
  | .self rest => ∀ pid, Courteous (rest pid)
  | .spawn options child rest => options.priority ≠ 255 ∧ Courteous child ∧ ∀ pid, Courteous (rest pid)
  | .wait _ rest => Courteous rest

/-- The events fit the kernel's resources after `made` tasks have been created and `free` slots are free: pids count the
tasks, and `main` does not return. -/
def Fits (made free : Nat) : List (Word × ProgramEvent) → Prop
  | [] => True
  | (_, .spawns child _) :: rest => child = BitVec.ofNat 16 made ∧ made < 2 ^ 16 ∧ 0 < free ∧ Fits (made + 1) (free - 1) rest
  | (pid, .ends) :: rest => pid ≠ 0 ∧ Fits made (free + 1) rest
  | (_, .acts _) :: rest => Fits made free rest
  | (_, .learns _) :: rest => Fits made free rest
  | (_, .joins _) :: rest => Fits made free rest
  | (_, .stops) :: rest => Fits made free rest

/-! ## Free slots -/

def freeSlots (places : Fin tasksMax → Lib.Place Nat) : Finset (Fin tasksMax) :=
  Finset.univ.filter fun i => places i = .free

theorem mem_freeSlots {places : Fin tasksMax → Lib.Place Nat} {i : Fin tasksMax} :
    i ∈ freeSlots places ↔ places i = .free := by
  rw [freeSlots, Finset.mem_filter]
  exact and_iff_right (Finset.mem_univ i)

theorem freeSlots_take (places : Fin tasksMax → Lib.Place Nat) (slot : Fin tasksMax) (priority : Nat) :
    freeSlots (Function.update places slot (.task priority)) = (freeSlots places).erase slot := by
  ext i
  rw [mem_freeSlots, Finset.mem_erase, mem_freeSlots]
  by_cases here : i = slot
  · subst here
    simp
  · simp [here]

theorem freeSlots_leave (places : Fin tasksMax → Lib.Place Nat) (slot : Fin tasksMax) :
    freeSlots (Function.update places slot .free) = insert slot (freeSlots places) := by
  ext i
  rw [mem_freeSlots, Finset.mem_insert, mem_freeSlots]
  by_cases here : i = slot
  · subst here
    simp
  · simp [here]

theorem exists_firstFree {places : Fin tasksMax → Lib.Place Nat} (some : 0 < (freeSlots places).card) :
    ∃ slot, Lib.Pool.FirstFree places slot := by
  have nonempty := Finset.card_pos.mp some
  refine ⟨(freeSlots places).min' nonempty, mem_freeSlots.mp (Finset.min'_mem _ nonempty), fun i less free => ?_⟩
  exact absurd (Finset.min'_le _ i (mem_freeSlots.mpr free)) (not_le.mpr less)

/-- The free slots after a request, of which there were `free` before. -/
def freeAfter (free : Nat) : Lib.Request Nat → Nat
  | .create _ => free - 1
  | .setPriority _ => free
  | .yield => free
  | .finish => free + 1

theorem freeSlots_step {p q : TaskPool} {r : Lib.Request Nat} (sound : p.Sound) (step : Lib.Pool.Step 255 p r q) :
    (freeSlots q.places).card = freeAfter (freeSlots p.places).card r := by
  obtain ⟨held, task⟩ := sound.running
  have busy : p.running ∉ freeSlots p.places := by
    rw [mem_freeSlots, task]
    intro same
    cases same
  cases step with
  | @create slot priority first =>
    show (freeSlots (Function.update p.places slot (.task priority))).card = _
    rw [freeSlots_take, Finset.card_erase_of_mem (mem_freeSlots.mpr first.free)]
    rfl
  | setPriority priority =>
    show (freeSlots (Function.update p.places p.running (.task priority))).card = _
    rw [freeSlots_take, Finset.erase_eq_of_notMem busy]
    rfl
  | yield turn =>
    rw [turn.places]
    rfl
  | finish turn =>
    rw [turn.places]
    show (freeSlots (Function.update p.places p.running .free)).card = _
    rw [freeSlots_leave, Finset.card_insert_of_notMem busy]
    rfl

/-! ## A system that any task can be made to run in -/

/-- Every task can have its turn, and none is inside a loop. -/
structure Driven (made free : Nat) (scheduler : Fin tasksMax) (s : AppState) (a : ProgramTasks) (p : TaskPool) : Prop where
  follows : Follows scheduler s a
  flexible : Flexible p s.sys.os
  away : ∀ i, s.sys.waiters i = .away
  eligible : ∀ i priority, p.places i = .task priority → priority < 255
  count : s.sys.created.length = made
  few : made ≤ 2 ^ 16
  slots : (freeSlots p.places).card = free
  courteous : ∀ i, Courteous (s.programs i)
  idle : ∃ c ∈ s.sys.created, c.pid = 0 ∧ c.slot = slotIndex 0 ∧ c.ended = false
  notIdle : scheduler ≠ 0

theorem courteous_update {programs : Fin tasksMax → TaskProgram} (all : ∀ i, Courteous (programs i)) (slot : Fin tasksMax)
    {rest : TaskProgram} (courteous : Courteous rest) (i : Fin tasksMax) :
    Courteous (Function.update programs slot rest i) := by
  by_cases here : i = slot
  · subst here
    rwa [Function.update_self]
  · rw [Function.update_of_ne here]
    exact all i

/-- A spawn under any name keeps every schedule within reach. -/
theorem Flexible.spawn {os : Os} {p q : TaskPool} (flexible : Flexible p os) (name : ProgmemString) {priority : Byte}
    (step : Lib.Pool.Step 255 p (.create priority.toNat) q) :
    ∃ pid os', spawnTask .atmega2560 name priority (restSp p.running) os = .ok (pid, os') ∧ Flexible q os' := by
  obtain ⟨os', done⟩ := (flexible.serves.step_iff flexible.ranged (.spawn name priority (restSp p.running))).mpr
    ⟨q, step, trivial⟩
  obtain ⟨q', step', serves'⟩ := flexible.serves.step done
  obtain rfl := step.unique step'
  obtain ⟨scheduler, user⟩ := flexible.serves.user
  obtain ⟨saved, holds, all⟩ := flexible.rested
  have rested : Rested os'.kernel := by
    refine ⟨_, holds.step user done, ?_⟩
    simp only [Saved.after, indexOfCurrentTask, flexible.serves.represents.running, serves'.represents.running]
    refine (all.update q.running fun sp same => ?_).update p.running fun sp same => (Option.some.inj same).symm
    cases same
  obtain ⟨⟨pid, after⟩, spawned, last⟩ := bind_eq_ok.mp done
  obtain rfl := pure_eq_ok.mp last
  refine ⟨pid, after, spawned, serves', step.sound flexible.sound, fun slot => ?_, rested⟩
  rw [user.step_ranges done]
  exact flexible.ranged slot

namespace Driven

variable {made free : Nat} {scheduler : Fin tasksMax} {s t : AppState} {a b : ProgramTasks} {p q : TaskPool}

theorem fitting (driven : Driven made free scheduler s a p) : s.sys.created.length ≤ 2 ^ 16 := by
  rw [driven.count]
  exact driven.few

theorem running (driven : Driven made free scheduler s a p) :
    ∃ priority, p.places p.running = .task priority ∧ priority < 255 := by
  obtain ⟨priority, held⟩ := driven.flexible.sound.running
  exact ⟨priority, held, driven.eligible _ _ held⟩

/-- The timer brings a task to its turn. -/
theorem rotate (driven : Driven made free scheduler s a p) (on : s.stopped = false) {slot : Fin tasksMax}
    (task : p.IsTask slot) : ∃ labels t q, labels.reduceOption = [] ∧ Lib.Trace AppStep s labels t ∧
      Driven made free scheduler t a q ∧ q.running = slot ∧ t.stopped = false ∧ t.programs = s.programs ∧
      t.sys.created = s.sys.created := by
  induction distance : p.distance slot using Nat.strong_induction_on generalizing s p with
  | _ n ih =>
    subst distance
    by_cases here : p.running = slot
    · exact ⟨[], s, p, rfl, .nil s, driven, here, on, rfl, rfl⟩
    · obtain ⟨priority, held⟩ := task
      have eligible : ∃ priority, p.places slot = .task priority ∧ priority < 255 :=
        ⟨priority, held, driven.eligible slot priority held⟩
      have waits : Lib.Pool.Waits 255 p slot := ⟨driven.flexible.sound, eligible, Ne.symm here⟩
      obtain ⟨q, turn⟩ := Lib.Pool.Turn.exists_turn p ⟨slot, eligible⟩
      have request : Lib.Pool.Step 255 p .yield q := .yield turn
      obtain ⟨os', done, flexible⟩ := driven.flexible.step (r := .yield) trivial request
      have step : AppStep s none { s with sys := { s.sys with os := os' } } := .preempted on done
      obtain ⟨b, nothing, follows⟩ := driven.follows.step step driven.fitting
      cases nothing
      have places : q.places = p.places := turn.places
      have driven' : Driven made free scheduler { s with sys := { s.sys with os := os' } } a q :=
        ⟨follows, flexible, driven.away, by rw [places]; exact driven.eligible, driven.count, driven.few,
          by rw [places]; exact driven.slots, driven.courteous, driven.idle, driven.notIdle⟩
      have less : q.running = slot ∨ q.distance slot < p.distance slot := (turn.closer waits).imp id And.right
      rcases less with arrived | less
      · exact ⟨[none], _, q, rfl, .cons step (.nil _), driven', arrived, on, rfl, rfl⟩
      · obtain ⟨labels, t, r, none, trace, last⟩ := ih _ less driven' on ⟨priority, by rw [places]; exact held⟩ rfl
        exact ⟨Option.none :: labels, t, r, none, .cons step trace, last⟩

/-- The kernel's own step leads to the tasks that the event leads to. -/
theorem next (driven : Driven made free scheduler s a p) {event : Word × ProgramEvent} (step : AppStep s (some event) t)
    (few : t.sys.created.length ≤ 2 ^ 16) (event_step : Lib.Tasks.Step a event b) : Follows scheduler t b := by
  obtain ⟨b', trace, follows⟩ := driven.follows.step step few
  cases trace with
  | cons first rest =>
    cases rest
    obtain rfl := event_step.unique first
    exact follows

/-- The task with the turn goes on in a step that neither creates nor ends a task. -/
theorem goes (driven : Driven made free scheduler s a p) {event : Word × ProgramEvent} {rest : TaskProgram} {os' : Os}
    {stopped : Bool}
    (step : AppStep s (some event) ⟨{ s.sys with os := os' }, Function.update s.programs p.running rest, stopped⟩)
    (events : Lib.Tasks.Step a event b) (courteous : Courteous rest) (flexible : Flexible q os')
    (eligible : ∀ i priority, q.places i = .task priority → priority < 255)
    (slots : (freeSlots q.places).card = free) :
    Driven made free scheduler ⟨{ s.sys with os := os' }, Function.update s.programs p.running rest, stopped⟩ b q :=
  ⟨driven.next step driven.fitting events, flexible, driven.away, eligible, driven.count, driven.few, slots,
    courteous_update driven.courteous p.running courteous, driven.idle, driven.notIdle⟩

theorem acts (driven : Driven made free scheduler s a p) {pid : Word} {call : Call} {rest : TaskProgram}
    (executes : s.Executes p.running (.act call rest)) (own : s.pid p.running = pid)
    (event : Lib.Tasks.Step a (pid, .acts call) b) :
    ∃ t q, AppStep s (some (pid, .acts call)) t ∧ Driven made free scheduler t b q := by
  have courteous := driven.courteous p.running
  rw [executes.program] at courteous
  cases call with
  | print text =>
    have step := AppStep.labelled (.calls executes (.print text)) own
    exact ⟨_, p, step, driven.goes step event courteous driven.flexible driven.eligible driven.slots⟩
  | yield =>
    obtain ⟨q, turn⟩ := Lib.Pool.Turn.exists_turn p ⟨p.running, driven.running⟩
    obtain ⟨os', done, flexible⟩ := driven.flexible.step (r := .yield) trivial (.yield turn)
    have step := AppStep.labelled (.calls executes (.yield (pidStep_yield done s.sys.created))) own
    have places : q.places = p.places := turn.places
    exact ⟨_, q, step, driven.goes step event courteous flexible (by rw [places]; exact driven.eligible)
      (by rw [places]; exact driven.slots)⟩
  | setPriority priority =>
    have request : Lib.Pool.Step 255 p (.setPriority priority.toNat) (p.withPriority priority.toNat) := .setPriority p _
    obtain ⟨os', done, flexible⟩ := driven.flexible.step (r := .setPriority priority.toNat) priority.isLt request
    rw [restAction, BitVec.ofNat_toNat, BitVec.setWidth_eq] at done
    have set : pidStep .atmega2560 (s.sys.os, s.sys.created) (.setPriority priority) = .ok (os', s.sys.created) :=
      bind_eq_ok.mpr ⟨os', done, rfl⟩
    have step := AppStep.labelled (.calls executes (.setPriority set)) own
    refine ⟨_, _, step, driven.goes step event courteous.2 flexible (fun i priority' held => ?_) ?_⟩
    · by_cases here : i = p.running
      · subst here
        have own : Function.update p.places p.running (.task priority.toNat) p.running = .task priority' := held
        rw [Function.update_self] at own
        cases own
        have notTop := courteous.1
        bv_omega
      · have other : Function.update p.places p.running (.task priority.toNat) i = .task priority' := held
        rw [Function.update_of_ne here] at other
        exact driven.eligible i priority' other
    · rw [freeSlots_step driven.flexible.sound request, driven.slots]
      rfl

theorem learns (driven : Driven made free scheduler s a p) {pid : Word} {rest : Word → TaskProgram}
    (executes : s.Executes p.running (.self rest)) (own : s.pid p.running = pid)
    (event : Lib.Tasks.Step a (pid, .learns pid) b) :
    ∃ t, AppStep s (some (pid, .learns pid)) t ∧ Driven made free scheduler t b p := by
  subst own
  have courteous := driven.courteous p.running
  rw [executes.program] at courteous
  have step := AppStep.learns executes
  exact ⟨_, step, driven.goes step event (courteous _) driven.flexible driven.eligible driven.slots⟩

theorem stops (driven : Driven made free scheduler s a p) {pid : Word} (executes : s.Executes p.running .stop)
    (own : s.pid p.running = pid) (event : Lib.Tasks.Step a (pid, .stops) b) :
    ∃ t, AppStep s (some (pid, .stops)) t ∧ Driven made free scheduler t b p := by
  have step := AppStep.labelled (.stops executes) own
  exact ⟨_, step, driven.goes step event trivial driven.flexible driven.eligible driven.slots⟩

theorem spawns (driven : Driven made free scheduler s a p) {pid new : Word} {options : SpawnOptions} {child : TaskProgram}
    {rest : Word → TaskProgram} (executes : s.Executes p.running (.spawn options child rest)) (own : s.pid p.running = pid)
    (event : Lib.Tasks.Step a (pid, .spawns new child) b) (number : new = BitVec.ofNat 16 made) (below : made < 2 ^ 16)
    (some : 0 < free) :
    ∃ t q, AppStep s (.some (pid, .spawns new child)) t ∧ Driven (made + 1) (free - 1) scheduler t b q := by
  have courteous := driven.courteous p.running
  rw [executes.program] at courteous
  obtain ⟨ordinary, ofChild, ofRest⟩ := courteous
  obtain ⟨slot, first⟩ := exists_firstFree (driven.slots.symm ▸ some)
  have request : Lib.Pool.Step 255 p (.create options.priority.toNat)
      ⟨Function.update p.places slot (.task options.priority.toNat), slot, []⟩ := .create _ first
  obtain ⟨pid', os', spawned, flexible⟩ := driven.flexible.spawn options.name request
  have starts : indexOfCurrentTask os'.kernel = slotIndex slot := flexible.serves.represents.running
  have counted : pid' = new := by
    obtain ⟨-, -, -, -, -, -, counter, -⟩ := spawnTask_ok spawned
    rw [counter, number, driven.follows.inv.pids.count, driven.count]
  subst counted
  have step := AppStep.labelled (.spawns executes spawned starts) own
  have length : (s.sys.created ++ [(⟨pid', slotIndex slot, false⟩ : Created)]).length = made + 1 := by
    rw [List.length_append, driven.count]
    rfl
  refine ⟨_, _, step, driven.next step ?_ event, flexible, driven.away, fun i priority held => ?_, length, below, ?_, ?_, ?_,
    driven.notIdle⟩
  · exact length.trans_le below
  · by_cases here : i = slot
    · subst here
      have own : Function.update p.places i (.task options.priority.toNat) i = .task priority := held
      rw [Function.update_self] at own
      cases own
      bv_omega
    · have other : Function.update p.places slot (.task options.priority.toNat) i = .task priority := held
      rw [Function.update_of_ne here] at other
      exact driven.eligible i priority other
  · rw [freeSlots_step driven.flexible.sound request, driven.slots]
    rfl
  · exact courteous_update (courteous_update driven.courteous p.running (ofRest pid')) slot ofChild
  · obtain ⟨c, member, rest⟩ := driven.idle
    exact ⟨c, List.mem_append_left _ member, rest⟩

theorem ends (driven : Driven made free scheduler s a p) {pid : Word} (executes : s.Executes p.running .done)
    (own : s.pid p.running = pid) (event : Lib.Tasks.Step a (pid, .ends) b) (notMain : pid ≠ 0) :
    ∃ t q, AppStep s (some (pid, .ends)) t ∧ Driven made (free + 1) scheduler t b q := by
  obtain ⟨idle, member, zero, atZero, alive⟩ := driven.idle
  obtain ⟨i, at_i, busy, holds⟩ := driven.follows.inv.pids.live idle member alive
  obtain rfl : i = 0 := slotIndex_inj.mp (at_i.symm.trans atZero)
  have apart : p.running ≠ 0 := by
    intro same
    rw [same] at own
    exact notMain (own.symm.trans (holds.trans zero))
  obtain ⟨current, user⟩ := driven.follows.user
  have user_task : s.sys.os.kernel.status 0 ≠ .scheduler := by
    intro service
    exact driven.notIdle (Option.some.inj ((user.kernel.status.scheduler 0).mp service))
  have place : p.places 0 = .task (s.sys.os.kernel.tasks 0).priority.toNat :=
    (driven.flexible.serves.represents.places 0).trans (place_task.mpr ⟨busy, user_task, rfl⟩)
  have kept : p.ended.places 0 = p.places 0 := Function.update_of_ne apart.symm ..
  obtain ⟨q, turn⟩ := Lib.Pool.Turn.exists_turn p.ended ⟨0, _, kept.trans place, driven.eligible 0 _ place⟩
  obtain ⟨os', done, flexible⟩ := driven.flexible.step (r := .finish) trivial (.finish turn)
  have kill : pidStep .atmega2560 (s.sys.os, s.sys.created) (.kill (restSwitch p.running)) =
      .ok (os', s.sys.created.map (Created.endIn (indexOfCurrentTask s.sys.os.kernel))) := bind_eq_ok.mpr ⟨os', done, rfl⟩
  have step := AppStep.labelled (.ends executes apart kill) own
  have length : (s.sys.created.map (Created.endIn (indexOfCurrentTask s.sys.os.kernel))).length = made :=
    (List.length_map ..).trans driven.count
  refine ⟨_, q, step, driven.next step (length.trans_le driven.few) event, flexible, driven.away, fun i priority held => ?_,
    length, driven.few, ?_, driven.courteous, ⟨idle, ?_, zero, atZero, alive⟩, driven.notIdle⟩
  · rw [turn.places] at held
    have there : Function.update p.places p.running .free i = .task priority := held
    by_cases here : i = p.running
    · rw [here, Function.update_self] at there
      cases there
    · rw [Function.update_of_ne here] at there
      exact driven.eligible i priority there
  · rw [freeSlots_step driven.flexible.sound (.finish turn), driven.slots]
    rfl
  · refine List.mem_map.mpr ⟨idle, member, if_neg ?_⟩
    rw [atZero, indexOfCurrentTask, executes.active]
    intro same
    exact apart (slotIndex_inj.mp same).symm

/-- Of a task that is not there `get_task` finds the slot at most, which is EMPTY. -/
theorem looked_empty (driven : Driven made free scheduler s a p) {pid : Word} (gone : ¬ (a.task pid).Live)
    {found : Fin tasksMax} (looked : getTask pid s.sys.os.kernel = some found) :
    (s.sys.os.kernel.tasks found).status = .empty := by
  by_contra busy
  obtain ⟨c, member, alive, -, holds⟩ := driven.follows.inv.pids.occupied found busy
  have shown := driven.follows.created c member
  rw [← holds, (getTask_some looked).1] at shown
  generalize a.task pid = state at gone shown
  cases shown with
  | ended ended =>
    rw [alive] at ended
    cases ended
  | service => exact gone trivial
  | runs => exact gone trivial

/-- The loop of a wait that is over. -/
theorem joined (driven : Driven made free scheduler s a p) {labels : List (Option (Word × ProgramEvent))}
    {event : Word × ProgramEvent} {target : Word} {rest : TaskProgram} {sys : WaitState}
    (executes : s.Executes p.running (.wait target rest)) (single : labels.reduceOption = [event])
    (events : Lib.Tasks.Step a event b) (os : sys.os = s.sys.os) (created : sys.created = s.sys.created)
    (away : ∀ i, sys.waiters i = .away)
    (trace : Lib.Trace AppStep s labels ⟨sys, Function.update s.programs p.running rest, s.stopped⟩) :
    Driven made free scheduler ⟨sys, Function.update s.programs p.running rest, s.stopped⟩ b p := by
  have courteous := driven.courteous p.running
  rw [executes.program] at courteous
  obtain ⟨b', below, follows⟩ := driven.follows.run trace (by rw [created]; exact driven.fitting)
  rw [single] at below
  have same : b = b' := by
    cases below with
    | cons first rest =>
      cases rest
      exact events.unique first
  subst same
  refine ⟨follows, ?_, away, driven.eligible, by rw [created]; exact driven.count, driven.few, driven.slots,
    courteous_update driven.courteous p.running courteous, by rw [created]; exact driven.idle, driven.notIdle⟩
  rw [os]
  exact driven.flexible

theorem joins (driven : Driven made free scheduler s a p) {pid target : Word} {rest : TaskProgram}
    (executes : s.Executes p.running (.wait target rest)) (own : s.pid p.running = pid)
    (event : Lib.Tasks.Step a (pid, .joins target) b) :
    ∃ labels t, labels.reduceOption = [(pid, .joins target)] ∧ Lib.Trace AppStep s labels t ∧
      Driven made free scheduler t b p := by
  have gone : ¬ (a.task target).Live := by
    cases event with
    | goes on runs own allowed => exact allowed
  have all_away : ∀ {sys : WaitState}, sys.waiters p.running = .away → (∀ i, i ≠ p.running → sys.waiters i = .away) →
      ∀ i, sys.waiters i = .away := by
    intro sys here others i
    by_cases same : i = p.running
    · rw [same, here]
    · exact others i same
  have calls : AppStep s none { s with sys := s.sys.set p.running (.checks target) } := .waits executes
  have checks := WaitState.set_self s.sys p.running (.checks target)
  cases looked : getTask target s.sys.os.kernel with
  | none =>
    have away : ((s.sys.set p.running (.checks target)).set p.running (.look target s.sys.os.kernel)).waiters p.running =
        .away := by
      rw [WaitState.set_self, Waiter.look, looked]
    have returns : AppStep { s with sys := s.sys.set p.running (.checks target) } (some (pid, .joins target)) _ :=
      AppStep.labelled (.returns executes.on (.looks executes.active checks) executes.program away) own
    refine ⟨_, _, rfl, .cons calls (.cons returns (.nil _)), driven.joined executes rfl event rfl rfl ?_
      (.cons calls (.cons returns (.nil _)))⟩
    refine all_away away fun i other => ?_
    exact (WaitState.set_of_ne other _).trans ((WaitState.set_of_ne other _).trans (driven.away i))
  | some found =>
    have points : ((s.sys.set p.running (.checks target)).set p.running (.look target s.sys.os.kernel)).waiters p.running =
        .found target found := by
      rw [WaitState.set_self, Waiter.look, looked]
    have away : (((s.sys.set p.running (.checks target)).set p.running (.look target s.sys.os.kernel)).set p.running
        (.read target found s.sys.os.kernel)).waiters p.running = .away := by
      rw [WaitState.set_self]
      exact if_neg (not_not_intro (driven.looked_empty gone looked))
    have looks : AppStep { s with sys := s.sys.set p.running (.checks target) } none
        { s with sys := (s.sys.set p.running (.checks target)).set p.running (.look target s.sys.os.kernel) } :=
      .loops executes.on (.looks executes.active checks) (by rw [points]; intro same; cases same)
    have returns : AppStep
        { s with sys := (s.sys.set p.running (.checks target)).set p.running (.look target s.sys.os.kernel) }
        (some (pid, .joins target)) _ :=
      AppStep.labelled (.returns executes.on (.reads executes.active points) executes.program away) own
    refine ⟨_, _, rfl, .cons calls (.cons looks (.cons returns (.nil _))), driven.joined executes rfl event rfl rfl ?_
      (.cons calls (.cons looks (.cons returns (.nil _))))⟩
    refine all_away away fun i other => ?_
    exact (WaitState.set_of_ne other _).trans ((WaitState.set_of_ne other _).trans
      ((WaitState.set_of_ne other _).trans (driven.away i)))

/-- The slot of a task that runs. -/
theorem slot_of (driven : Driven made free scheduler s a p) {pid : Word} {program : TaskProgram}
    (runs : a.task pid = .runs program) :
    ∃ slot, p.IsTask slot ∧ s.programs slot = program ∧ ∃ c ∈ s.sys.created, c.ended = false ∧ c.slot = slotIndex slot ∧
      c.pid = pid := by
  have known : ∃ c ∈ s.sys.created, c.pid = pid := by
    by_contra none
    have absent := driven.follows.absent pid fun c member same => none ⟨c, member, same⟩
    cases runs.symm.trans absent
  obtain ⟨c, member, rfl⟩ := known
  have shown := driven.follows.created c member
  rw [runs] at shown
  cases shown with
  | @runs slot alive atSlot user =>
    refine ⟨slot, ?_, rfl, c, member, alive, atSlot, rfl⟩
    obtain ⟨i, at_i, busy, -⟩ := driven.follows.inv.pids.live c member alive
    obtain rfl := slotIndex_inj.mp (at_i.symm.trans atSlot)
    obtain ⟨current, inv⟩ := driven.follows.user
    have notScheduler : s.sys.os.kernel.status i ≠ .scheduler := by
      intro service
      exact user (Option.some.inj ((inv.kernel.status.scheduler i).mp service)).symm
    exact ⟨_, (driven.flexible.serves.represents.places i).trans (place_task.mpr ⟨busy, notScheduler, rfl⟩)⟩

/-- A task that runs can be given the turn. -/
theorem gives_turn (driven : Driven made free scheduler s a p) (on : s.stopped = false) {pid : Word} {program : TaskProgram}
    (runs : a.task pid = .runs program) : ∃ labels t q, labels.reduceOption = [] ∧ Lib.Trace AppStep s labels t ∧
      Driven made free scheduler t a q ∧ t.Executes q.running program ∧ t.pid q.running = pid := by
  obtain ⟨slot, task, program_at, c, member, alive, atSlot, pid_c⟩ := driven.slot_of runs
  obtain ⟨labels, t, q, none, trace, driven', rfl, on', programs, created⟩ := driven.rotate on task
  refine ⟨labels, t, q, none, trace, driven',
    ⟨on', driven'.flexible.serves.represents.running, driven'.away _, by rw [programs, program_at]⟩, ?_⟩
  obtain ⟨i, at_i, -, holds⟩ := driven'.follows.inv.pids.live c (by rw [created]; exact member) alive
  obtain rfl := slotIndex_inj.mp (at_i.symm.trans atSlot)
  exact holds.trans pid_c

/-- **One event** of the tasks is brought about by the kernel. -/
theorem event (driven : Driven made free scheduler s a p) {event : Word × ProgramEvent}
    {events : List (Word × ProgramEvent)} (step : Lib.Tasks.Step a event b) (fits : Fits made free (event :: events)) :
    ∃ labels t made' free' q, labels.reduceOption = [event] ∧ Lib.Trace AppStep s labels t ∧
      Driven made' free' scheduler t b q ∧ Fits made' free' events := by
  obtain ⟨pid, event⟩ := event
  have on : s.stopped = false := by
    rw [← driven.follows.stopped]
    cases step <;> assumption
  obtain ⟨program, runs⟩ := step.runs
  obtain ⟨first, t, q, nothing, trace, turn, executes, own⟩ := driven.gives_turn on runs
  have followed : ∀ {label : Word × ProgramEvent} {u : AppState} {made' free' : Nat} {r : TaskPool},
      AppStep t (some label) u → Driven made' free' scheduler u b r → Fits made' free' events →
        ∃ labels u made' free' r, labels.reduceOption = [label] ∧ Lib.Trace AppStep s labels u ∧
          Driven made' free' scheduler u b r ∧ Fits made' free' events := by
    intro label u made' free' r second after rest
    refine ⟨first ++ [some label], u, made', free', r, ?_, trace.append (.cons second (.nil u)), after, rest⟩
    rw [List.reduceOption_append, nothing]
    rfl
  have whole := step
  cases step with
  | @goes _ _ program' rest on' runs' own' allowed =>
    obtain rfl := Lib.TaskState.runs.inj (runs.symm.trans runs')
    cases own' with
    | act call rest =>
      obtain ⟨u, r, second, after⟩ := turn.acts executes own whole
      exact followed second after fits
    | self rest =>
      obtain ⟨u, second, after⟩ := turn.learns executes own whole
      exact followed second after fits
    | spawn options child rest new =>
      obtain ⟨number, below, some, rest⟩ := fits
      obtain ⟨u, r, second, after⟩ := turn.spawns executes own whole number below some
      exact followed second after rest
    | wait target rest =>
      obtain ⟨labels, u, single, second, after⟩ := turn.joins executes own whole
      refine ⟨first ++ labels, u, made, free, q, ?_, trace.append second, after, fits⟩
      rw [List.reduceOption_append, nothing, single]
      rfl
    | stop =>
      obtain ⟨u, second, after⟩ := turn.stops executes own whole
      exact followed second after fits
  | ends on' runs' =>
    obtain rfl := Lib.TaskState.runs.inj (runs.symm.trans runs')
    obtain ⟨notMain, rest⟩ := fits
    obtain ⟨u, r, second, after⟩ := turn.ends executes own whole notMain
    exact followed second after rest

theorem run (driven : Driven made free scheduler s a p) {events : List (Word × ProgramEvent)}
    (trace : Lib.Trace Lib.Tasks.Step a events b) (fits : Fits made free events) :
    ∃ labels t, labels.reduceOption = events ∧ Lib.Trace AppStep s labels t ∧ ∃ scheduler, Follows scheduler t b := by
  induction trace generalizing made free s p with
  | nil a => exact ⟨[], s, rfl, .nil s, scheduler, driven.follows⟩
  | cons step _ ih =>
    obtain ⟨first, t, made', free', q, single, trace, next, rest⟩ := driven.event step fits
    obtain ⟨labels, u, all, trace', last⟩ := ih next rest
    refine ⟨first ++ labels, u, ?_, trace.append trace', last⟩
    rw [List.reduceOption_append, single, all]
    rfl

end Driven

/-! ## From a boot on -/

theorem pidBoot_boot {b : Build} {mainSp idleSp : Word} {sw : Switch} {s : Os × List Created}
    (h : pidBoot b mainSp idleSp sw = .ok s) : boot b mainSp idleSp sw = .ok s.1 := by
  simp only [pidBoot, bind_eq_ok] at h
  obtain ⟨main, booted, idle, -, ⟨pid, spawned⟩, spawn, os, start, last⟩ := h
  obtain rfl := pure_eq_ok.mp last
  exact bind_eq_ok.mpr ⟨main, booted, bind_eq_ok.mpr ⟨_, spawn, start⟩⟩

/-- After a boot any task of `main` can be made to run. -/
theorem exists_start {main : TaskProgram} (courteous : Courteous main) : ∃ mainSp idleSp sw booted scheduler,
    pidBoot .atmega2560 mainSp idleSp sw = .ok booted ∧
      Driven 2 3 scheduler (.start main booted) (mainTasks main) bootPool := by
  obtain ⟨booted, boots, -⟩ := pidBoot_idle
  obtain ⟨os, booted', flexible⟩ := boot_flexible
  obtain rfl := Except.ok.inj (booted'.symm.trans (pidBoot_boot boots))
  obtain ⟨scheduler, follows⟩ := follows_start main boots
  obtain ⟨scheduler', current, user, notIdle, created⟩ := pidBoot_created boots
  obtain ⟨current', user'⟩ := follows.user
  obtain rfl : scheduler' = scheduler := by
    have service := (user.kernel.status.scheduler scheduler').mpr rfl
    exact (Option.some.inj ((user'.kernel.status.scheduler scheduler').mp service)).symm
  have others : ∀ i, Courteous ((fun _ => .done : Fin tasksMax → TaskProgram) i) := fun _ => trivial
  refine ⟨_, _, _, booted, scheduler', boots, follows, flexible, fun _ => rfl, fun i priority held => ?_, ?_, by decide,
    by decide, courteous_update others 0 courteous, ⟨⟨0, slotIndex 0, false⟩, ?_, rfl, rfl, rfl⟩, notIdle⟩
  · have zero : priority = 0 := by
      unfold bootPool at held
      by_cases idle : i = 0
      · simp only [if_pos idle] at held
        exact (Lib.Place.task.inj held).symm
      · simp only [if_neg idle] at held
        split at held <;> cases held
    omega
  · exact pidBoot_length boots
  · show _ ∈ booted.2
    rw [created]
    exact List.mem_cons_self

/-- **Every interleaving is a run of the kernel.** Whatever order the steps of `main` and of the tasks it creates are put
in, the timer can bring it about, as long as no more than three tasks besides `main` and the scheduler are there at once
and none is given priority 255. -/
theorem interleavings_are_runs {main : TaskProgram} (courteous : Courteous main) {events : List (Word × ProgramEvent)}
    {a : ProgramTasks} (trace : Lib.Trace Lib.Tasks.Step (mainTasks main) events a) (fits : Fits 2 3 events) :
    ∃ labels s, AppRun main labels s ∧ labels.reduceOption = events := by
  obtain ⟨mainSp, idleSp, sw, booted, scheduler, boots, driven⟩ := exists_start courteous
  obtain ⟨labels, s, all, run, -⟩ := driven.run trace fits
  exact ⟨labels, s, ⟨mainSp, idleSp, sw, booted, boots, run⟩, all⟩

/-- A task that prints two lines. -/
def twoLines : TaskProgram := .act (.print "one") (.act (.print "two") .done)

def bothLines : TaskProgram :=
  .spawn ⟨some "first", 0⟩ twoLines fun first => .spawn ⟨some "second", 200⟩ twoLines fun second =>
    .wait second (.wait first .stop)

/-- The tasks take turns. -/
def bothLinesEvents : List (Word × ProgramEvent) :=
  [(0, .spawns 2 twoLines), (2, .acts (.print "one")), (0, .spawns 3 twoLines), (3, .acts (.print "one")),
    (2, .acts (.print "two")), (3, .acts (.print "two")), (2, .ends), (3, .ends), (0, .joins 3), (0, .joins 2), (0, .stops)]

theorem bothLines_trace : ∃ a, Lib.Trace Lib.Tasks.Step (mainTasks bothLines) bothLinesEvents a := by
  apply Exists.intro
  apply Lib.Trace.cons (.goes rfl rfl (.spawn _ _ _ 2) rfl)
  apply Lib.Trace.cons (.goes rfl rfl (.act _ _) trivial)
  apply Lib.Trace.cons (.goes rfl rfl (.spawn _ _ _ 3) rfl)
  apply Lib.Trace.cons (.goes rfl rfl (.act _ _) trivial)
  apply Lib.Trace.cons (.goes rfl rfl (.act _ _) trivial)
  apply Lib.Trace.cons (.goes rfl rfl (.act _ _) trivial)
  apply Lib.Trace.cons (.ends rfl rfl)
  apply Lib.Trace.cons (.ends rfl rfl)
  apply Lib.Trace.cons (.goes rfl rfl (.wait _ _) id)
  apply Lib.Trace.cons (.goes rfl rfl (.wait _ _) id)
  apply Lib.Trace.cons (.goes rfl rfl .stop trivial)
  exact .nil _

theorem interleavings_are_runs_both :
    ∃ labels s, AppRun bothLines labels s ∧ labels.reduceOption = bothLinesEvents := by
  obtain ⟨a, trace⟩ := bothLines_trace
  have courteous : Courteous bothLines := by
    simp [Courteous, bothLines, twoLines]
  have fits : Fits 2 3 bothLinesEvents := by
    simp [Fits, bothLinesEvents]
  exact interleavings_are_runs courteous trace fits

end Simplos
