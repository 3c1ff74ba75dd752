import Simplos.Kernel.Interleavings

/-!
# What runs use

The kernel has five slots and counts its pids in 16 bits. The events of a run always fit the slots. How many pids a run
takes is known where a program creates a bounded number of tasks, and what `Kernel.Programs` says of runs that do not
take too many then holds of all its runs.
-/

namespace Simplos
set_option autoImplicit false
open Lib (bind_eq_ok)

/-! ## The slots -/

/-- `made` pids have been given out, and `free` slots are free. -/
structure Uses (made free : Nat) (w : WaitState) (p : TaskPool) : Prop where
  serves : Serves w.os p
  sound : p.Sound
  count : w.created.length = made
  slots : (freeSlots p.places).card = free

/-- Pid 0 stays with the idle task in slot 0. -/
theorem Follows.not_main {scheduler slot : Fin tasksMax} {s : AppState} {a : ProgramTasks} (follows : Follows scheduler s a)
    (fits : s.sys.created.length ≤ 2 ^ 16) (active : s.sys.os.kernel.schedule.activeTaskBlock = slotIndex slot)
    (spawned : slot ≠ 0) : s.pid slot ≠ 0 := by
  intro zero
  obtain ⟨-, c, occupant, -⟩ := follows.executing active
  obtain ⟨main, first, atMain⟩ := follows.inv.pids.idle
  have number : main.pid = 0 := follows.inv.pids.numbered 0 main first
  obtain rfl := follows.inv.pids.unique fits (List.mem_of_getElem? first) occupant.member
    (number.trans (zero.symm.trans occupant.pid))
  exact spawned (slotIndex_inj.mp (occupant.atSlot.symm.trans atMain))

namespace Uses

variable {made free : Nat} {w w' : WaitState} {p : TaskPool}

theorem congr (uses : Uses made free w p) (os : w'.os = w.os) (created : w'.created = w.created) : Uses made free w' p :=
  ⟨by rw [os]; exact uses.serves, uses.sound, by rw [created]; exact uses.count, uses.slots⟩

theorem action (uses : Uses made free w p) {action : Action} {os' : Os} (done : w.os.step .atmega2560 action = .ok os')
    (created : List Created) (waiters : Fin tasksMax → Waiter) :
    ∃ q, Uses created.length (freeAfter free action.request) ⟨os', created, waiters⟩ q := by
  obtain ⟨q, step, serves⟩ := uses.serves.step done
  refine ⟨q, serves, step.sound uses.sound, rfl, ?_⟩
  rw [freeSlots_step uses.sound step, uses.slots]

/-- Where the action leaves the slots alone. -/
theorem keeps (uses : Uses made free w p) {action : Action} {os' : Os} (done : w.os.step .atmega2560 action = .ok os')
    (same : freeAfter free action.request = free) (waiters : Fin tasksMax → Waiter) :
    ∃ q, Uses made free ⟨os', w.created, waiters⟩ q := by
  obtain ⟨q, after⟩ := uses.action done w.created waiters
  rw [uses.count, same] at after
  exact ⟨q, after⟩

theorem loop (uses : Uses made free w p) {slot : Fin tasksMax} (step : WaitStep w (some slot) w') :
    ∃ q, Uses made free w' q := by
  cases step with
  | looks => exact ⟨p, uses.congr rfl rfl⟩
  | reads => exact ⟨p, uses.congr rfl rfl⟩
  | yields active waits done => exact uses.keeps done rfl _

variable {scheduler : Fin tasksMax} {s t : AppState} {a : ProgramTasks}

/-- **One step** leaves as much as its event takes. -/
theorem step (uses : Uses made free s.sys p) (follows : Follows scheduler s a) {label : Option (Word × ProgramEvent)}
    (h : AppStep s label t) (fits : t.sys.created.length ≤ 2 ^ 16) :
    ∃ made' free' q, Uses made' free' t.sys q ∧
      ∀ events, Fits made' free' events → Fits made free (label.toList ++ events) := by
  cases h with
  | @calls slot call rest next executes done =>
    cases done with
    | print text => exact ⟨made, free, p, uses.congr rfl rfl, fun _ rest => rest⟩
    | yield done =>
      obtain ⟨os', stepped, last⟩ := bind_eq_ok.mp done
      obtain rfl := pure_eq_ok.mp last
      obtain ⟨q, after⟩ := uses.keeps stepped rfl s.sys.waiters
      exact ⟨made, free, q, after, fun _ rest => rest⟩
    | setPriority done =>
      obtain ⟨os', stepped, last⟩ := bind_eq_ok.mp done
      obtain rfl := pure_eq_ok.mp last
      obtain ⟨q, after⟩ := uses.keeps stepped rfl s.sys.waiters
      exact ⟨made, free, q, after, fun _ rest => rest⟩
  | learns executes => exact ⟨made, free, p, uses.congr rfl rfl, fun _ rest => rest⟩
  | @spawns slot new options child rest sp pid os' executes done starts =>
    obtain ⟨q, step, serves⟩ := uses.serves.spawn done
    have length : (s.sys.created ++ [(⟨pid, slotIndex new, false⟩ : Created)]).length = made + 1 := by
      rw [List.length_append, uses.count]
      rfl
    have few : made + 1 ≤ 2 ^ 16 := by
      rw [← length]
      exact fits
    have number : pid = BitVec.ofNat 16 made := by
      obtain ⟨-, -, -, -, -, -, counter, -⟩ := spawnTask_ok done
      rw [counter, follows.inv.pids.count, uses.count]
    have slots := freeSlots_step uses.sound step
    rw [uses.slots] at slots
    have some : 0 < free := by
      rw [← uses.slots]
      cases step with
      | create priority first => exact Finset.card_pos.mpr ⟨_, mem_freeSlots.mpr first.free⟩
    exact ⟨made + 1, free - 1, q, ⟨serves, step.sound uses.sound, length, slots⟩,
      fun _ rest => ⟨number, few, some, rest⟩⟩
  | waits executes => exact ⟨made, free, p, uses.congr rfl rfl, fun _ rest => rest⟩
  | @loops slot sys' on step still =>
    obtain ⟨q, after⟩ := uses.loop step
    exact ⟨made, free, q, after, fun _ rest => rest⟩
  | @returns slot pid rest sys' on step program returned =>
    obtain ⟨q, after⟩ := uses.loop step
    exact ⟨made, free, q, after, fun _ rest => rest⟩
  | preempted on done =>
    obtain ⟨q, after⟩ := uses.keeps done rfl s.sys.waiters
    exact ⟨made, free, q, after, fun _ rest => rest⟩
  | @ends slot sw next executes spawned done =>
    obtain ⟨os', stepped, last⟩ := bind_eq_ok.mp done
    obtain rfl := pure_eq_ok.mp last
    obtain ⟨q, after⟩ := uses.action stepped (s.sys.created.map (Created.endIn _)) s.sys.waiters
    have length : (s.sys.created.map (Created.endIn (indexOfCurrentTask s.sys.os.kernel))).length = made :=
      (List.length_map ..).trans uses.count
    have few : s.sys.created.length ≤ 2 ^ 16 := by
      rw [uses.count, ← length]
      exact fits
    have notMain := follows.not_main few executes.active spawned
    refine ⟨made, free + 1, q, ?_, fun _ rest => ⟨notMain, rest⟩⟩
    rw [← length]
    exact after
  | stops executes => exact ⟨made, free, p, uses.congr rfl rfl, fun _ rest => rest⟩

theorem run (uses : Uses made free s.sys p) (follows : Follows scheduler s a)
    {labels : List (Option (Word × ProgramEvent))} (run : Lib.Trace AppStep s labels t)
    (fits : t.sys.created.length ≤ 2 ^ 16) : Fits made free labels.reduceOption := by
  induction run generalizing made free a p with
  | nil s => trivial
  | @cons s t u label labels step rest ih =>
    have few := Nat.le_trans (created_le rest) fits
    obtain ⟨made', free', q, after, fit⟩ := uses.step follows step few
    obtain ⟨b, -, next⟩ := follows.step step few
    have all := fit _ (ih after next fits)
    cases label with
    | none => exact all
    | some event => exact all

end Uses

/-- What is left of the programs creates so few tasks that there will not be more than `n`. -/
def Bounded (n : Nat) (s : AppState) : Prop :=
  ∃ share : Fin tasksMax → Nat, (∀ i, (s.programs i).Creates (share i)) ∧ s.sys.created.length + ∑ i, share i ≤ n

theorem sum_update (share : Fin tasksMax → Nat) (slot : Fin tasksMax) (own : Nat) :
    ∑ i, Function.update share slot own i + share slot = ∑ i, share i + own := by
  rw [Finset.sum_update_of_mem (Finset.mem_univ slot), ← Finset.add_sum_erase _ share (Finset.mem_univ slot),
    Finset.sdiff_singleton_eq_erase]
  omega

theorem creates_update {programs : Fin tasksMax → TaskProgram} {share : Fin tasksMax → Nat}
    (all : ∀ i, (programs i).Creates (share i)) (slot : Fin tasksMax) {rest : TaskProgram} {own : Nat}
    (creates : rest.Creates own) (i : Fin tasksMax) :
    (Function.update programs slot rest i).Creates (Function.update share slot own i) := by
  by_cases here : i = slot
  · subst here
    rwa [Function.update_self, Function.update_self]
  · rw [Function.update_of_ne here, Function.update_of_ne here]
    exact all i

namespace Bounded

variable {n : Nat} {s t : AppState}

/-- A task goes on and creates none. -/
theorem goes (bounded : Bounded n s) {slot : Fin tasksMax} {rest : TaskProgram} {sys : WaitState} {stopped : Bool}
    (created : sys.created.length = s.sys.created.length)
    (creates : ∀ own, (s.programs slot).Creates own → rest.Creates own) :
    Bounded n ⟨sys, Function.update s.programs slot rest, stopped⟩ := by
  obtain ⟨share, all, few⟩ := bounded
  have kept := creates_update all slot (creates _ (all slot))
  rw [Function.update_eq_self] at kept
  refine ⟨share, kept, ?_⟩
  show sys.created.length + _ ≤ n
  rw [created]
  exact few

theorem silent (bounded : Bounded n s) {sys : WaitState} (created : sys.created.length = s.sys.created.length) :
    Bounded n { s with sys := sys } := by
  obtain ⟨share, all, few⟩ := bounded
  refine ⟨share, all, ?_⟩
  show sys.created.length + _ ≤ n
  rw [created]
  exact few

theorem step (bounded : Bounded n s) {label : Option (Word × ProgramEvent)} (h : AppStep s label t) : Bounded n t := by
  cases h with
  | @calls slot call rest next executes done =>
    refine bounded.goes (congrArg _ done.created) fun own creates => ?_
    rw [executes.program] at creates
    exact creates
  | learns executes =>
    refine bounded.goes rfl fun own creates => ?_
    rw [executes.program] at creates
    exact creates _
  | @spawns slot new options child rest sp pid os' executes done starts =>
    obtain ⟨share, all, few⟩ := bounded
    have creates := all slot
    rw [executes.program] at creates
    obtain ⟨ofChild, ofRest, less, child, rest⟩ := creates
    refine ⟨_, creates_update (creates_update all slot (rest pid)) new child, ?_⟩
    have first := sum_update share slot ofRest
    have second := sum_update (Function.update share slot ofRest) new ofChild
    show (s.sys.created ++ [_]).length + _ ≤ n
    rw [List.length_append, List.length_singleton]
    omega
  | waits executes => exact bounded.silent rfl
  | loops on step still => exact bounded.silent (congrArg _ step.loop_created)
  | returns on step program returned =>
    refine bounded.goes (congrArg _ step.loop_created) fun own creates => ?_
    rw [program] at creates
    exact creates
  | preempted on done => exact bounded.silent rfl
  | @ends slot sw next executes spawned done =>
    obtain ⟨os', killed, last⟩ := bind_eq_ok.mp done
    obtain rfl := pure_eq_ok.mp last
    exact bounded.silent (List.length_map ..)
  | stops executes => exact bounded.goes rfl fun _ _ => trivial

end Bounded

/-- A `main` that creates at most `n` tasks with all of its children takes at most `n` pids. -/
theorem created_le_of_creates {main : TaskProgram} {n : Nat} (creates : main.Creates n)
    {labels : List (Option (Word × ProgramEvent))} {s : AppState} (run : AppRun main labels s) :
    s.sys.created.length ≤ n + 2 := by
  obtain ⟨mainSp, idleSp, sw, booted, boots, run⟩ := run
  have start : Bounded (n + 2) (.start main booted) := by
    have none : ∀ i, ((fun _ => .done : Fin tasksMax → TaskProgram) i).Creates ((fun _ => 0 : Fin tasksMax → Nat) i) :=
      fun _ => trivial
    refine ⟨_, creates_update none 0 creates, ?_⟩
    have sum := sum_update (fun _ => 0) 0 n
    rw [Finset.sum_const_zero] at sum
    show booted.2.length + _ ≤ n + 2
    rw [pidBoot_length boots]
    omega
  obtain ⟨share, -, few⟩ := run.invariant (Bounded (n + 2)) (fun _ _ _ bounded step => bounded.step step) start
  omega

end Simplos
