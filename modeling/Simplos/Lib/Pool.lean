import Simplos.Lib.Runs

/-!
# A pool of tasks served in cycles

The tasks of a pool are served one at a time. A cycle serves those below a priority `top`, in descending order of
priority and of the task itself within one priority; a task that is created or ends cuts the cycle short. Nothing
here says how the cycle is stored. While no cycle is cut short, every task that waits is served before the others have
had two turns each (`Pool.served`).
-/

namespace Lib
set_option autoImplicit false

/-- What the running task asks for. -/
inductive Request (π : Type*) where
  | create (priority : π)
  | setPriority (priority : π)
  | yield
  | finish

/-- The place of a task is free, is none of the pool's tasks, or holds one. -/
inductive Place (π : Type*) where
  | free
  | reserved
  | task (priority : π)
deriving DecidableEq

structure Pool (τ π : Type*) where
  places : τ → Place π
  running : τ
  /-- The tasks that still have their turn in this cycle, in order. -/
  pending : List τ

namespace Pool

section

variable {τ π : Type*} [LinearOrder τ] [LinearOrder π] {top : π} {p q r : Pool τ π} {t : τ}

/-- `t` is a task and is served before `t'`. -/
def Ahead (places : τ → Place π) (t t' : τ) : Prop :=
  ∃ priority priority', places t = .task priority ∧ places t' = .task priority' ∧
    (priority' < priority ∨ priority = priority' ∧ t' < t)

/-- The tasks below `top`, in the order in which a cycle serves them. -/
structure Cycle (top : π) (places : τ → Place π) (order : List τ) : Prop where
  mem : ∀ t, t ∈ order ↔ ∃ priority, places t = .task priority ∧ priority < top
  sorted : order.Pairwise (Ahead places)

/-- `t` is the first place that is free. -/
structure FirstFree (places : τ → Place π) (t : τ) : Prop where
  free : places t = .free
  first : ∀ t', t' < t → places t' ≠ .free

/-- The next task has its turn: the next of this cycle or, at its end, the first of a new one. -/
inductive Turn (top : π) (p : Pool τ π) : Pool τ π → Prop where
  | pending {t : τ} {rest : List τ} : p.pending = t :: rest → Turn top p { p with running := t, pending := rest }
  | cycle {t : τ} {rest : List τ} : p.pending = [] → Cycle top p.places (t :: rest) →
      Turn top p { p with running := t, pending := rest }

/-- The pool after its running task has ended. -/
def ended (p : Pool τ π) : Pool τ π := { p with places := Function.update p.places p.running .free, pending := [] }

/-- The pool after its running task has taken another priority. -/
def withPriority (p : Pool τ π) (priority : π) : Pool τ π :=
  { p with places := Function.update p.places p.running (.task priority) }

/-- What the request of the running task does. -/
inductive Step (top : π) : Pool τ π → Request π → Pool τ π → Prop where
  | create {p : Pool τ π} {t : τ} (priority : π) : FirstFree p.places t → Step top p (.create priority)
      { places := Function.update p.places t (.task priority), running := t, pending := [] }
  | setPriority (p : Pool τ π) (priority : π) : Step top p (.setPriority priority) (p.withPriority priority)
  | yield {p q : Pool τ π} : Turn top p q → Step top p .yield q
  | finish {p q : Pool τ π} : Turn top p.ended q → Step top p .finish q

/-! ## A request has one outcome -/

theorem Ahead.irrefl {places : τ → Place π} (h : Ahead places t t) : False := by
  obtain ⟨priority, priority', first, second, less | ⟨-, less⟩⟩ := h
  · cases first.symm.trans second
    exact lt_irrefl _ less
  · exact lt_irrefl t less

theorem Ahead.asymm {places : τ → Place π} {t' : τ} (h : Ahead places t t') : ¬ Ahead places t' t := by
  obtain ⟨priority, priority', first, second, order⟩ := h
  rintro ⟨priority₂, priority₂', second', first', order'⟩
  cases first.symm.trans first'
  cases second.symm.trans second'
  rcases order with less | ⟨rfl, less⟩ <;> rcases order' with less' | ⟨equal, less'⟩
  · exact lt_asymm less less'
  · exact less.ne equal
  · exact lt_irrefl _ less'
  · exact lt_asymm less less'

theorem Cycle.nodup {places : τ → Place π} {order : List τ} (h : Cycle top places order) : order.Nodup :=
  h.sorted.imp fun {t t'} ahead => by
    rintro rfl
    exact ahead.irrefl

theorem Cycle.unique {places : τ → Place π} {order order' : List τ} (h : Cycle top places order)
    (h' : Cycle top places order') : order = order' := by
  have same : order.Perm order' := by
    rw [List.perm_ext_iff_of_nodup h.nodup h'.nodup]
    intro t
    rw [h.mem, h'.mem]
  exact same.eq_of_pairwise (fun t t' _ _ ahead ahead' => absurd ahead' ahead.asymm) h.sorted h'.sorted

/-- The task ahead of all others comes first. -/
theorem Cycle.head {places : τ → Place π} {order : List τ} (h : Cycle top places order) (member : t ∈ order)
    (first : ∀ t' ∈ order, t' ≠ t → Ahead places t t') : ∃ rest, order = t :: rest := by
  cases order with
  | nil => cases member
  | cons t' rest =>
    by_cases same : t' = t
    · exact ⟨rest, by rw [same]⟩
    · have later : t ∈ rest := List.mem_of_ne_of_mem (Ne.symm same) member
      have ahead := (List.pairwise_cons.mp h.sorted).1 t later
      exact absurd ahead (first t' List.mem_cons_self same).asymm

omit [LinearOrder π] in
theorem FirstFree.unique {places : τ → Place π} {t' : τ} (h : FirstFree places t) (h' : FirstFree places t') : t = t' := by
  rcases lt_trichotomy t t' with less | equal | greater
  · exact absurd h.free (h'.first t less)
  · exact equal
  · exact absurd h'.free (h.first t' greater)

theorem Turn.unique (h : Turn top p q) (h' : Turn top p r) : q = r := by
  cases h with
  | pending queue =>
    cases h' with
    | pending queue' =>
      cases queue.symm.trans queue'
      rfl
    | cycle empty _ => cases queue.symm.trans empty
  | cycle empty order =>
    cases h' with
    | pending queue' => cases queue'.symm.trans empty
    | cycle _ order' =>
      cases order.unique order'
      rfl

/-- **A request determines the pool it leads to.** -/
theorem Step.unique {a : Request π} (h : Step top p a q) (h' : Step top p a r) : q = r := by
  cases h with
  | create priority free =>
    cases h' with
    | create _ free' =>
      cases free.unique free'
      rfl
  | setPriority =>
    cases h'
    rfl
  | yield turn =>
    cases h' with
    | yield turn' => exact turn.unique turn'
  | finish turn =>
    cases h' with
    | finish turn' => exact turn.unique turn'

/-- So the requests of a run determine where it leads. -/
theorem trace_unique {as : List (Request π)} (h : Trace (Step top) p as q) (h' : Trace (Step top) p as r) : q = r :=
  h.unique (fun _ _ _ _ first second => first.unique second) h'

/-! ## Tasks and places -/

/-- The places that hold a task. -/
def IsTask (p : Pool τ π) (t : τ) : Prop := ∃ priority, p.places t = .task priority

/-- The running task is one of the pool's, and so are the others that are to have a turn, each once. -/
structure Sound (p : Pool τ π) : Prop where
  running : p.IsTask p.running
  tasks : ∀ t ∈ p.pending, p.IsTask t
  others : p.running ∉ p.pending
  once : p.pending.Nodup

omit [LinearOrder τ] [LinearOrder π] in
theorem IsTask.congr {p q : Pool τ π} (same : q.places = p.places) (h : q.IsTask t) : p.IsTask t := by
  rwa [IsTask, ← same]

theorem Turn.places (turn : Turn top p q) : q.places = p.places := by
  cases turn <;> rfl

/-- A turn of a sound pool, or of one whose running task has ended. -/
theorem Turn.sound (turn : Turn top p q) (tasks : ∀ t ∈ p.pending, p.IsTask t) (once : p.pending.Nodup) : q.Sound := by
  cases turn with
  | @pending t rest queue =>
    rw [queue] at tasks once
    obtain ⟨apart, distinct⟩ := List.nodup_cons.mp once
    exact ⟨tasks t List.mem_cons_self, fun t' member => tasks t' (List.mem_cons_of_mem t member), apart, distinct⟩
  | @cycle t rest empty order =>
    have isTask : ∀ t' ∈ t :: rest, p.IsTask t' := by
      intro t' member
      obtain ⟨priority, held, -⟩ := (order.mem t').mp member
      exact ⟨priority, held⟩
    obtain ⟨apart, distinct⟩ := List.nodup_cons.mp order.nodup
    exact ⟨isTask t List.mem_cons_self, fun t' member => isTask t' (List.mem_cons_of_mem t member), apart, distinct⟩

theorem Step.sound {a : Request π} (sound : p.Sound) (step : Step top p a q) : q.Sound := by
  cases step with
  | create priority free =>
    refine ⟨⟨priority, Function.update_self ..⟩, ?_, ?_, List.nodup_nil⟩
    · intro t member
      cases member
    · exact List.not_mem_nil
  | setPriority priority =>
    refine ⟨⟨priority, Function.update_self ..⟩, ?_, sound.others, sound.once⟩
    intro t member
    have other : t ≠ p.running := by
      rintro rfl
      exact sound.others member
    obtain ⟨held, isTask⟩ := sound.tasks t member
    exact ⟨held, (Function.update_of_ne other ..).trans isTask⟩
  | yield turn => exact turn.sound sound.tasks sound.once
  | finish turn =>
    refine turn.sound ?_ List.nodup_nil
    intro t member
    cases member

/-- A task that ended is not the next to run. -/
theorem Turn.running_ne (turn : Turn top p.ended q) : q.running ≠ p.running := by
  cases turn with
  | pending queue => cases queue
  | @cycle t rest _ cycle =>
    obtain ⟨priority, held, -⟩ := (cycle.mem t).mp List.mem_cons_self
    rintro rfl
    have free : p.ended.places p.running = .free := Function.update_self ..
    cases held.symm.trans free

/-- A task that creates another one has the next turn when that ends, if it is ahead of all others. -/
theorem FirstFree.create_finish {rest : List τ} (free : FirstFree p.places t) (ahead : Cycle top p.places (p.running :: rest))
    (priority : π) : ∃ middle, Step top p (.create priority) middle ∧ middle.running = t ∧
      (∀ t', t' ≠ t → middle.places t' = p.places t') ∧ Step top middle .finish { p with pending := rest } := by
  refine ⟨_, .create priority free, rfl, fun t' other => Function.update_of_ne other .., .finish ?_⟩
  have vacated : Function.update (Function.update p.places t (.task priority)) t .free = p.places := by
    rw [Function.update_idem, ← free.free, Function.update_eq_self]
  have turn : Turn top { p with running := t, pending := [] } { p with pending := rest } := .cycle rfl ahead
  unfold ended
  rwa [vacated]

end

/-! ## Waiting for a turn -/

section

variable {τ π : Type*} [LinearOrder τ] [Fintype τ] [LinearOrder π] {top : π} {p q r : Pool τ π} {t : τ}

open Classical in
/-- The number of tasks. -/
noncomputable def size (p : Pool τ π) : Nat := (Finset.univ.filter p.IsTask).card

/-- A task below `top` that is not running. -/
structure Waits (top : π) (p : Pool τ π) (t : τ) : Prop where
  sound : p.Sound
  eligible : ∃ priority, p.places t = .task priority ∧ priority < top
  other : t ≠ p.running

/-- An upper bound of the number of turns until `t` has its own. -/
noncomputable def distance (p : Pool τ π) (t : τ) : Nat :=
  if t ∈ p.pending then p.pending.idxOf t + 1 else p.pending.length + p.size

omit [LinearOrder π] in
open Classical in
theorem length_le_size {order : List τ} (distinct : order.Nodup) (tasks : ∀ t ∈ order, p.IsTask t) :
    order.length ≤ p.size := by
  rw [← List.toFinset_card_of_nodup distinct]
  apply Finset.card_le_card
  intro t member
  exact Finset.mem_filter.mpr ⟨Finset.mem_univ t, tasks t (List.mem_toFinset.mp member)⟩

theorem Cycle.length_le {order : List τ} (cycle : Cycle top p.places order) : order.length ≤ p.size := by
  apply length_le_size cycle.nodup
  intro t member
  obtain ⟨priority, held, -⟩ := (cycle.mem t).mp member
  exact ⟨priority, held⟩

omit [LinearOrder π] in
/-- The running task is not among those to come. -/
theorem Sound.pending_lt (sound : p.Sound) : p.pending.length < p.size := by
  have all : (p.running :: p.pending).length ≤ p.size := by
    apply length_le_size (List.nodup_cons.mpr ⟨sound.others, sound.once⟩)
    intro t member
    rcases List.mem_cons.mp member with rfl | later
    · exact sound.running
    · exact sound.tasks t later
  exact all

theorem Waits.distance_pos (waits : Waits top p t) : 0 < p.distance t := by
  have := waits.sound.pending_lt
  unfold distance
  split <;> omega

omit [LinearOrder π] in
theorem Sound.distance_le (sound : p.Sound) (t : τ) : p.distance t + 1 ≤ 2 * p.size := by
  have := sound.pending_lt
  unfold distance
  split
  · rename_i member
    have := List.idxOf_lt_length_of_mem member
    omega
  · omega

omit [LinearOrder τ] [LinearOrder π] in
theorem size_eq {isTask : τ → Prop} [DecidablePred isTask] (same : ∀ t, p.IsTask t ↔ isTask t) :
    p.size = (Finset.univ.filter isTask).card := by
  classical
  unfold size
  refine congrArg Finset.card (Finset.ext fun t => ?_)
  rw [Finset.mem_filter, Finset.mem_filter, same]

omit [LinearOrder τ] [LinearOrder π] in
theorem size_congr (same : ∀ t, q.IsTask t ↔ p.IsTask t) : q.size = p.size := by
  have equal : q.IsTask = p.IsTask := funext fun t => propext (same t)
  rw [size, size, equal]

open Classical in
/-- There is an order for a cycle. -/
theorem Cycle.exists_order (top : π) (places : τ → Place π) : ∃ order, Cycle top places order := by
  let priority : τ → π := fun t => match places t with
    | .task priority => priority
    | _ => top
  let key : τ → π ×ₗ τ := fun t => toLex (priority t, t)
  let tasks := Finset.univ.filter fun t => ∃ priority, places t = .task priority ∧ priority < top
  let order := tasks.toList.insertionSort fun t t' => key t' ≤ key t
  have mem : ∀ t, t ∈ order ↔ ∃ priority, places t = .task priority ∧ priority < top := by
    intro t
    rw [List.mem_insertionSort, Finset.mem_toList, Finset.mem_filter]
    exact and_iff_right (Finset.mem_univ t)
  have total : Std.Total fun t t' => key t' ≤ key t := ⟨fun t t' => le_total (key t') (key t)⟩
  have trans : IsTrans τ fun t t' => key t' ≤ key t := ⟨fun _ _ _ first second => second.trans first⟩
  have sorted : order.Pairwise fun t t' => key t' ≤ key t := List.pairwise_insertionSort _ _
  have distinct : order.Nodup := (List.perm_insertionSort _ _).nodup_iff.mpr tasks.nodup_toList
  refine ⟨order, mem, (sorted.and distinct).imp_of_mem fun {t t'} first second ordered => ?_⟩
  obtain ⟨le, apart⟩ := ordered
  obtain ⟨held, place, -⟩ := (mem t).mp first
  obtain ⟨held', place', -⟩ := (mem t').mp second
  refine ⟨held, held', place, place', ?_⟩
  rcases Prod.Lex.le_iff.mp le with less | ⟨same, below⟩
  · left
    simpa [key, priority, place, place'] using less
  · right
    refine ⟨?_, lt_of_le_of_ne below (Ne.symm apart)⟩
    simpa [key, priority, place, place'] using same.symm

/-- The running task has a successor, if there is a task to serve. -/
theorem Turn.exists_turn (p : Pool τ π) (eligible : ∃ t priority, p.places t = .task priority ∧ priority < top) :
    ∃ q, Turn top p q := by
  cases queue : p.pending with
  | cons t rest => exact ⟨_, .pending queue⟩
  | nil =>
    obtain ⟨order, cycle⟩ := Cycle.exists_order top p.places
    obtain ⟨t, served⟩ := eligible
    cases order with
    | nil => cases (cycle.mem t).mpr served
    | cons first rest => exact ⟨_, .cycle queue cycle⟩
/-- **A turn serves the task that waits or brings it closer.** -/
theorem Turn.closer (waits : Waits top p t) (turn : Turn top p q) :
    q.running = t ∨ Waits top q t ∧ q.distance t < p.distance t := by
  have sound := turn.sound waits.sound.tasks waits.sound.once
  cases turn with
  | @pending first rest queue =>
    by_cases here : first = t
    · exact .inl here
    · refine .inr ⟨⟨sound, waits.eligible, Ne.symm here⟩, ?_⟩
      simp only [distance, queue, List.mem_cons, Ne.symm here, false_or, List.length_cons]
      split
      · rw [List.idxOf_cons_ne _ here]
        omega
      · exact Nat.add_lt_add_right (Nat.lt_succ_self _) p.size
  | @cycle first rest empty cycle =>
    by_cases here : first = t
    · exact .inl here
    · refine .inr ⟨⟨sound, waits.eligible, Ne.symm here⟩, ?_⟩
      have listed : t ∈ rest := List.mem_of_ne_of_mem (Ne.symm here) ((cycle.mem t).mpr waits.eligible)
      have bound := cycle.length_le
      rw [List.length_cons] at bound
      have place := List.idxOf_lt_length_of_mem listed
      simp only [distance, empty, List.not_mem_nil, if_false, List.length_nil, Nat.zero_add, listed, if_true]
      omega

/-- A change of the running task's priority leaves the others waiting as they were. -/
theorem Waits.withPriority (waits : Waits top p t) (priority : π) :
    Waits top (p.withPriority priority) t ∧ (p.withPriority priority).distance t = p.distance t := by
  have step : Step top p (.setPriority priority) (p.withPriority priority) := .setPriority p priority
  have same : ∀ t', (p.withPriority priority).IsTask t' ↔ p.IsTask t' := by
    intro t'
    by_cases here : t' = p.running
    · subst here
      exact iff_of_true ⟨priority, Function.update_self ..⟩ waits.sound.running
    · unfold IsTask Pool.withPriority
      simp only [Function.update_of_ne here]
  obtain ⟨held, isTask, below⟩ := waits.eligible
  refine ⟨⟨step.sound waits.sound, ⟨held, ?_, below⟩, waits.other⟩, ?_⟩
  · exact (Function.update_of_ne waits.other ..).trans isTask
  · rw [distance, distance, size_congr same]
    rfl

/-- A request that does not cut the cycle short. -/
def Steady (a : Request π) : Prop := a = .yield ∨ ∃ priority, a = .setPriority priority

def isYield : Request π → Bool
  | .yield => true
  | _ => false

/-- **A task that waits is served** within twice as many turns as there are tasks, less one, of any run in which no
task is created and none ends. -/
theorem served {as : List (Request π)} (waits : Waits top p t) (run : Trace (Step top) p as q)
    (steady : ∀ a ∈ as, Steady a) (long : 2 * p.size ≤ as.countP isYield + 1) :
    ∃ before after r, as = before ++ after ∧ Trace (Step top) p before r ∧ r.running = t ∧
      before.countP isYield + 1 ≤ 2 * p.size := by
  have bound := waits.sound.distance_le t
  obtain ⟨before, after, r, split, reached, running, few⟩ := Trace.reaches_of_rank (Waits top · t) (·.running = t) isYield
    (fun p : Pool τ π => p.distance t)
    (fun _ waits => waits.distance_pos) (fun s a u waits step counts => by
      obtain ⟨step, steady⟩ := step
      cases step with
      | yield turn => exact turn.closer waits
      | _ => cases counts)
    (fun s a u waits step counts => by
      obtain ⟨step, steady⟩ := step
      cases step with
      | setPriority priority =>
        obtain ⟨waiting, same⟩ := waits.withPriority priority
        exact ⟨waiting, same.le⟩
      | yield turn => cases counts
      | create priority free => simp [Steady] at steady
      | finish turn => simp [Steady] at steady)
    waits (run.restrict steady) (by omega)
  exact ⟨before, after, r, split, reached.mono fun _ _ _ step => step.1, running, by omega⟩

end

end Pool

end Lib
