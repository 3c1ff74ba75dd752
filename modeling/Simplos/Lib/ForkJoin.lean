import Simplos.Lib.Runs

/-!
# Tasks that create tasks and wait for them

A program is what one task does: acts, the creation of a task, a wait for the end of one. `ι` are the names of tasks, `α`
the acts and `κ` what a creation is parametrised by. Tasks run interleaved; each of their steps is an event.
-/

namespace Lib
set_option autoImplicit false

inductive Prog (ι α κ : Type) where
  /-- The task ends. -/
  | done
  /-- The system stops, with all its tasks. -/
  | stop
  | act (a : α) (rest : Prog ι α κ)
  /-- The task asks for its own name. -/
  | self (rest : ι → Prog ι α κ)
  | spawn (options : κ) (child : Prog ι α κ) (rest : ι → Prog ι α κ)
  | wait (task : ι) (rest : Prog ι α κ)

/-- The acts one after the other. -/
def Prog.acts {ι α κ : Type} (l : List α) (rest : Prog ι α κ) : Prog ι α κ := l.foldr .act rest

inductive TaskEvent (ι α κ : Type) where
  | acts (a : α)
  | learns (name : ι)
  | spawns (child : ι) (program : Prog ι α κ)
  | joins (task : ι)
  | ends
  | stops

/-- A task with the name `i` goes on. -/
inductive Prog.Step {ι α κ : Type} (i : ι) : Prog ι α κ → TaskEvent ι α κ → Prog ι α κ → Prop where
  | act (a : α) (rest : Prog ι α κ) : Prog.Step i (.act a rest) (.acts a) rest
  | self (rest : ι → Prog ι α κ) : Prog.Step i (.self rest) (.learns i) (rest i)
  | spawn (options : κ) (child : Prog ι α κ) (rest : ι → Prog ι α κ) (j : ι) :
      Prog.Step i (.spawn options child rest) (.spawns j child) (rest j)
  | wait (j : ι) (rest : Prog ι α κ) : Prog.Step i (.wait j rest) (.joins j) rest
  | stop : Prog.Step i .stop .stops .done

/-- The task called `i` takes its program `p` through `events` to `q`. -/
abbrev Prog.Path {ι α κ : Type} (i : ι) : Prog ι α κ → List (TaskEvent ι α κ) → Prog ι α κ → Prop :=
  Trace (Prog.Step i)

/-- The task and the tasks it creates, and those they create, create no more than `n` tasks. -/
def Prog.Creates {ι α κ : Type} : Prog ι α κ → Nat → Prop
  | .done, _ => True
  | .stop, _ => True
  | .act _ rest, n => rest.Creates n
  | .self rest, n => ∀ i, (rest i).Creates n
  | .spawn _ child rest, n => ∃ ofChild ofRest, ofChild + ofRest < n ∧ child.Creates ofChild ∧ ∀ i, (rest i).Creates ofRest
  | .wait _ rest, n => rest.Creates n

@[simp] theorem Prog.creates_acts {ι α κ : Type} (l : List α) (rest : Prog ι α κ) (n : Nat) :
    (Prog.acts l rest).Creates n ↔ rest.Creates n := by
  induction l with
  | nil => exact Iff.rfl
  | cons a l ih => exact ih

/-! ## The way of a program -/

namespace Prog.Path

variable {ι α κ : Type} {i : ι} {own : List (TaskEvent ι α κ)} {q : Prog ι α κ}

theorem act {a : α} {rest : Prog ι α κ} (path : (Prog.act a rest).Path i own q) (further : Prog.act a rest ≠ q) :
    ∃ own', own = .acts a :: own' ∧ rest.Path i own' q := by
  cases path with
  | nil => exact absurd rfl further
  | cons step path =>
    cases step
    exact ⟨_, rfl, path⟩

theorem spawn {options : κ} {child : Prog ι α κ} {rest : ι → Prog ι α κ}
    (path : (Prog.spawn options child rest).Path i own q) (further : Prog.spawn options child rest ≠ q) :
    ∃ j own', own = .spawns j child :: own' ∧ (rest j).Path i own' q := by
  cases path with
  | nil => exact absurd rfl further
  | cons step path =>
    cases step
    exact ⟨_, _, rfl, path⟩

theorem wait {j : ι} {rest : Prog ι α κ} (path : (Prog.wait j rest).Path i own q) (further : Prog.wait j rest ≠ q) :
    ∃ own', own = .joins j :: own' ∧ rest.Path i own' q := by
  cases path with
  | nil => exact absurd rfl further
  | cons step path =>
    cases step
    exact ⟨_, rfl, path⟩

theorem done (path : Prog.done.Path i own q) : own = [] := by
  cases path with
  | nil => rfl
  | cons step path => cases step

theorem acts {l : List α} {rest : Prog ι α κ} (path : (Prog.acts l rest).Path i own q)
    (further : ∀ a ∈ l, ∀ rest, Prog.act a rest ≠ q) : ∃ own', own = l.map .acts ++ own' ∧ rest.Path i own' q := by
  induction l generalizing own with
  | nil => exact ⟨own, rfl, path⟩
  | cons a l ih =>
    obtain ⟨others, rfl, path'⟩ := act path (further a List.mem_cons_self _)
    obtain ⟨own', rfl, last⟩ := ih path' fun b member => further b (List.mem_cons_of_mem a member)
    exact ⟨own', rfl, last⟩

end Prog.Path

/-! ## Tasks -/

/-- What has become of a task. A service is one that never ends and is not followed. -/
inductive TaskState (ι α κ : Type) where
  | absent
  | service
  | runs (program : Prog ι α κ)
  | ended

def TaskState.Live {ι α κ : Type} : TaskState ι α κ → Prop
  | .absent => False
  | .service => True
  | .runs _ => True
  | .ended => False

/-- The task `i` has gone through `events` of its program, which it may have ended with. -/
inductive Went {ι α κ : Type} (i : ι) (program : Prog ι α κ) (events : List (TaskEvent ι α κ)) : TaskState ι α κ → Prop where
  | on {rest : Prog ι α κ} (path : program.Path i events rest) : Went i program events (.runs rest)
  | ended {own : List (TaskEvent ι α κ)} (path : program.Path i own .done) (all : events = own ++ [.ends]) :
      Went i program events .ended

theorem Went.cons {ι α κ : Type} {i : ι} {program rest : Prog ι α κ} {event : TaskEvent ι α κ} {own : List (TaskEvent ι α κ)}
    {state : TaskState ι α κ} (first : program.Step i event rest) (went : Went i rest own state) :
    Went i program (event :: own) state := by
  cases went with
  | on path => exact .on (.cons first path)
  | ended path all => exact .ended (.cons first path) (congrArg _ all)

structure Tasks (ι α κ : Type) where
  task : ι → TaskState ι α κ
  stopped : Bool

namespace Tasks

variable {ι α κ : Type} [DecidableEq ι]

/-- A task is created under a name that was never used; a wait is over when its task is not there. -/
def Allows (s : Tasks ι α κ) : TaskEvent ι α κ → Prop
  | .spawns child _ => s.task child = .absent
  | .joins task => ¬ (s.task task).Live
  | .acts _ | .learns _ | .ends | .stops => True

/-- The tasks after an event of a task that goes on with `rest`. -/
def after (s : Tasks ι α κ) (i : ι) (rest : Prog ι α κ) : TaskEvent ι α κ → Tasks ι α κ
  | .spawns child program => { s with task := Function.update (Function.update s.task i (.runs rest)) child (.runs program) }
  | .stops => { task := Function.update s.task i (.runs rest), stopped := true }
  | .acts _ | .learns _ | .joins _ | .ends => { s with task := Function.update s.task i (.runs rest) }

/-- One step of one task. -/
inductive Step (s : Tasks ι α κ) : ι × TaskEvent ι α κ → Tasks ι α κ → Prop where
  | goes {i : ι} {event : TaskEvent ι α κ} {program rest : Prog ι α κ} (on : s.stopped = false)
      (runs : s.task i = .runs program) (own : program.Step i event rest) (allowed : s.Allows event) :
      Step s (i, event) (s.after i rest event)
  | ends {i : ι} (on : s.stopped = false) (runs : s.task i = .runs .done) :
      Step s (i, .ends) { s with task := Function.update s.task i .ended }

/-- The events of the task `i`. -/
def eventsOf (i : ι) (events : List (ι × TaskEvent ι α κ)) : List (TaskEvent ι α κ) :=
  (events.filter fun e => e.1 = i).map Prod.snd

@[simp] theorem eventsOf_nil (i : ι) : eventsOf i ([] : List (ι × TaskEvent ι α κ)) = [] := rfl

@[simp] theorem eventsOf_append (i : ι) (events events' : List (ι × TaskEvent ι α κ)) :
    eventsOf i (events ++ events') = eventsOf i events ++ eventsOf i events' := by
  rw [eventsOf, List.filter_append, List.map_append]
  rfl

theorem eventsOf_self (i : ι) (event : TaskEvent ι α κ) (events : List (ι × TaskEvent ι α κ)) :
    eventsOf i ((i, event) :: events) = event :: eventsOf i events := by
  simp [eventsOf]

theorem eventsOf_other {i j : ι} (other : j ≠ i) (event : TaskEvent ι α κ) (events : List (ι × TaskEvent ι α κ)) :
    eventsOf i ((j, event) :: events) = eventsOf i events := by
  simp [eventsOf, other]

theorem mem_eventsOf {i : ι} {event : TaskEvent ι α κ} {events : List (ι × TaskEvent ι α κ)} :
    event ∈ eventsOf i events ↔ (i, event) ∈ events := by
  simp [eventsOf]

/-- An event of `i` divides all events as it divides those of `i`. -/
theorem eventsOf_split {i : ι} {event : TaskEvent ι α κ} {events : List (ι × TaskEvent ι α κ)}
    {before after : List (TaskEvent ι α κ)} (order : eventsOf i events = before ++ event :: after) :
    ∃ first second, events = first ++ (i, event) :: second ∧ eventsOf i first = before ∧ eventsOf i second = after := by
  induction events generalizing before with
  | nil => cases before <;> cases order
  | cons e events ih =>
    obtain ⟨j, e⟩ := e
    by_cases same : j = i
    · subst same
      rw [eventsOf_self] at order
      cases before with
      | nil =>
        obtain ⟨rfl, rest⟩ := List.cons.inj order
        exact ⟨[], events, rfl, rfl, rest⟩
      | cons b before =>
        obtain ⟨rfl, rest⟩ := List.cons.inj order
        obtain ⟨first, second, rfl, rfl, last⟩ := ih rest
        exact ⟨(j, e) :: first, second, rfl, eventsOf_self j e first, last⟩
    · rw [eventsOf_other same] at order
      obtain ⟨first, second, rfl, before, last⟩ := ih order
      exact ⟨(j, e) :: first, second, rfl, (eventsOf_other same e first).trans before, last⟩

/-! ## One step -/

variable {s t : Tasks ι α κ} {i : ι}

theorem after_self (s : Tasks ι α κ) {rest : Prog ι α κ} {event : TaskEvent ι α κ}
    (old : ∀ program, event ≠ .spawns i program) : (s.after i rest event).task i = .runs rest := by
  cases event with
  | spawns child program =>
    have apart : i ≠ child := by
      rintro rfl
      exact old program rfl
    exact (Function.update_of_ne apart ..).trans (Function.update_self ..)
  | acts a => exact Function.update_self ..
  | learns name => exact Function.update_self ..
  | joins task => exact Function.update_self ..
  | ends => exact Function.update_self ..
  | stops => exact Function.update_self ..

theorem after_other (s : Tasks ι α κ) {j : ι} (other : i ≠ j) {rest : Prog ι α κ} {event : TaskEvent ι α κ}
    (old : ∀ program, event ≠ .spawns i program) : (s.after j rest event).task i = s.task i := by
  cases event with
  | spawns child program =>
    have apart : i ≠ child := by
      rintro rfl
      exact old program rfl
    exact (Function.update_of_ne apart ..).trans (Function.update_of_ne other ..)
  | acts a => exact Function.update_of_ne other ..
  | learns name => exact Function.update_of_ne other ..
  | joins task => exact Function.update_of_ne other ..
  | ends => exact Function.update_of_ne other ..
  | stops => exact Function.update_of_ne other ..

/-- A step of another task leaves a task that is there alone. -/
theorem Step.frame {j : ι} {event : TaskEvent ι α κ} (h : Step s (j, event) t) (other : i ≠ j)
    (known : s.task i ≠ .absent) : t.task i = s.task i := by
  cases h with
  | goes on runs own allowed =>
    refine after_other s other fun program same => ?_
    subst same
    exact known allowed
  | ends on runs => exact Function.update_of_ne other ..

/-- What a task that runs does in a step of its own. -/
theorem Step.own {program : Prog ι α κ} {event : TaskEvent ι α κ} (h : Step s (i, event) t)
    (runs : s.task i = .runs program) :
    (∃ rest, program.Step i event rest ∧ t.task i = .runs rest) ∨
      event = .ends ∧ program = .done ∧ t.task i = .ended := by
  cases h with
  | @goes _ _ program' rest on runs' own allowed =>
    obtain rfl := TaskState.runs.inj (runs.symm.trans runs')
    refine .inl ⟨rest, own, after_self s fun program same => ?_⟩
    subst same
    rw [show s.task i = .absent from allowed] at runs
    cases runs
  | ends on runs' =>
    cases runs.symm.trans runs'
    exact .inr ⟨rfl, rfl, Function.update_self ..⟩

/-- An event determines the tasks it leads to. -/
theorem Step.unique {event : ι × TaskEvent ι α κ} {u : Tasks ι α κ} (h : Step s event t) (h' : Step s event u) : t = u := by
  cases h with
  | goes on runs own allowed =>
    cases h' with
    | goes on' runs' own' allowed' =>
      obtain rfl := TaskState.runs.inj (runs.symm.trans runs')
      cases own <;> cases own' <;> rfl
    | ends on' runs' => cases own
  | ends on runs =>
    cases h' with
    | goes on' runs' own' allowed' => cases own'
    | ends on' runs' => rfl

/-- A task that takes a step runs. -/
theorem Step.runs {event : TaskEvent ι α κ} (h : Step s (i, event) t) : ∃ program, s.task i = .runs program := by
  cases h with
  | goes on runs own allowed => exact ⟨_, runs⟩
  | ends on runs => exact ⟨_, runs⟩

/-- A task that is not there before the end of a run is not there at its beginning. -/
theorem Step.absent {event : ι × TaskEvent ι α κ} (h : Step s event t) (absent : t.task i = .absent) :
    s.task i = .absent ∧ event.1 ≠ i := by
  obtain ⟨j, event⟩ := event
  have other : j ≠ i := by
    rintro rfl
    obtain ⟨program, runs⟩ := h.runs
    rcases h.own runs with ⟨rest, -, next⟩ | ⟨-, -, next⟩
    · rw [absent] at next
      cases next
    · rw [absent] at next
      cases next
  refine ⟨?_, other⟩
  by_contra known
  rw [h.frame other.symm known] at absent
  exact known absent

/-! ## Whole runs -/

variable {events : List (ι × TaskEvent ι α κ)}

/-- A task that has ended does nothing. -/
theorem ended_stays (run : Trace Step s events t) (ended : s.task i = .ended) :
    t.task i = .ended ∧ eventsOf i events = [] := by
  induction run with
  | nil => exact ⟨ended, rfl⟩
  | @cons s t u event events step _ ih =>
    obtain ⟨j, event⟩ := event
    have other : i ≠ j := by
      rintro rfl
      obtain ⟨program, runs⟩ := step.runs
      cases ended.symm.trans runs
    obtain ⟨last, none⟩ := ih ((step.frame other (by simp [ended])).trans ended)
    exact ⟨last, (eventsOf_other other.symm event events).trans none⟩

/-- A task that is not there yet has done nothing. -/
theorem absent_before (run : Trace Step s events t) (absent : t.task i = .absent) :
    s.task i = .absent ∧ eventsOf i events = [] := by
  induction run with
  | nil => exact ⟨absent, rfl⟩
  | @cons s t u event events step _ ih =>
    obtain ⟨before, none⟩ := ih absent
    obtain ⟨first, other⟩ := step.absent before
    exact ⟨first, (eventsOf_other other event.2 events).trans none⟩

/-- **Each task executes its own program in order**, however the steps of the others are interleaved. -/
theorem runs_in_order (run : Trace Step s events t) {program : Prog ι α κ} (runs : s.task i = .runs program) :
    Went i program (eventsOf i events) (t.task i) := by
  induction run generalizing program with
  | nil s =>
    rw [runs]
    exact .on (.nil program)
  | @cons s t u event events step rest ih =>
    obtain ⟨j, event⟩ := event
    by_cases other : i = j
    · subst other
      rw [eventsOf_self]
      rcases step.own runs with ⟨next, first, runs'⟩ | ⟨rfl, rfl, gone⟩
      · exact (ih runs').cons first
      · obtain ⟨last, none⟩ := ended_stays rest gone
        rw [last, none]
        exact .ended (.nil Prog.done) (List.nil_append _).symm
    · rw [eventsOf_other (Ne.symm other)]
      exact ih ((step.frame other (by simp [runs])).trans runs)

/-- The same from the creation of the task on; it has done nothing before. -/
theorem child_runs_in_order {before after : List (ι × TaskEvent ι α κ)} {parent child : ι} {program : Prog ι α κ}
    (run : Trace Step s (before ++ (parent, .spawns child program) :: after) t) :
    eventsOf child before = [] ∧ Went child program (eventsOf child after) (t.task child) := by
  obtain ⟨u, first, second⟩ := run.split
  cases second with
  | @cons _ v _ _ _ step rest =>
    cases step with
    | @goes _ _ _ next on runs own allowed =>
      refine ⟨(absent_before first allowed).2, runs_in_order rest ?_⟩
      exact Function.update_self ..

/-- **A wait for a task that was created is over when the task has executed all of its program**, after which it does
nothing. -/
theorem join_after_end {before between after : List (ι × TaskEvent ι α κ)} {parent waiter child : ι}
    {program : Prog ι α κ}
    (run : Trace Step s (before ++ (parent, .spawns child program) :: (between ++ (waiter, .joins child) :: after)) t) :
    eventsOf child before = [] ∧
      (∃ own, eventsOf child between = own ++ [.ends] ∧ program.Path child own .done) ∧ eventsOf child after = [] := by
  have split : before ++ (parent, .spawns child program) :: (between ++ (waiter, .joins child) :: after) =
      (before ++ (parent, .spawns child program) :: between) ++ (waiter, .joins child) :: after := by simp
  rw [split] at run
  obtain ⟨u, first, second⟩ := run.split
  obtain ⟨nothing, went⟩ := child_runs_in_order first
  cases second with
  | @cons _ v _ _ _ step rest =>
    have gone : ¬ (u.task child).Live := by
      cases step with
      | goes on runs own allowed => exact allowed
    generalize state : u.task child = task at went gone
    cases went with
    | on path => exact absurd trivial gone
    | @ended own path all =>
      have apart : child ≠ waiter := by
        rintro rfl
        obtain ⟨program, runs⟩ := step.runs
        cases state.symm.trans runs
      have still := (step.frame apart (by simp [state])).trans state
      exact ⟨nothing, ⟨own, all, path⟩, (ended_stays rest still).2⟩

/-- A task is not its own parent. -/
theorem spawned_other {before after : List (ι × TaskEvent ι α κ)} {parent child : ι} {program : Prog ι α κ}
    (run : Trace Step s (before ++ (parent, .spawns child program) :: after) t) : parent ≠ child := by
  obtain ⟨u, -, second⟩ := run.split
  cases second with
  | cons step rest =>
    cases step with
    | goes on runs own allowed =>
      rintro rfl
      cases runs.symm.trans allowed

/-- A task that its parent has waited for has done all its program and nothing else. -/
theorem joined_child (run : Trace Step s events t) {parent child : ι} {program : Prog ι α κ}
    (before between : List (TaskEvent ι α κ)) {after : List (TaskEvent ι α κ)}
    (order : eventsOf parent events = before ++ .spawns child program :: (between ++ .joins child :: after)) :
    ∃ own, eventsOf child events = own ++ [.ends] ∧ program.Path child own .done := by
  obtain ⟨first, second, rfl, -, rest⟩ := eventsOf_split order
  obtain ⟨middle, last, rfl, -⟩ := eventsOf_split rest
  have other := spawned_other run
  obtain ⟨nothing, ⟨own, all, path⟩, none⟩ := join_after_end run
  refine ⟨own, ?_, path⟩
  rw [eventsOf_append, eventsOf_other other, eventsOf_append, eventsOf_other other, nothing, all, none]
  simp

/-- A task can do several acts without being interrupted. -/
theorem acts_trace {s : Tasks ι α κ} (on : s.stopped = false) {l : List α} {rest : Prog ι α κ}
    (runs : s.task i = .runs (.acts l rest)) :
    Trace Step s (l.map fun a => (i, .acts a)) { s with task := Function.update s.task i (.runs rest) } := by
  induction l generalizing s with
  | nil =>
    rw [show Function.update s.task i (.runs rest) = s.task from (congrArg _ runs.symm).trans (Function.update_eq_self ..)]
    exact .nil s
  | cons a l ih =>
    have step : Step s (i, .acts a) { s with task := Function.update s.task i (.runs (.acts l rest)) } :=
      .goes on runs (.act a _) trivial
    have next := ih (s := { s with task := Function.update s.task i (.runs (.acts l rest)) }) on (Function.update_self ..)
    rw [show Function.update (Function.update s.task i (.runs (.acts l rest))) i (.runs rest) =
      Function.update s.task i (.runs rest) from Function.update_idem ..] at next
    exact .cons step next

end Tasks

end Lib
