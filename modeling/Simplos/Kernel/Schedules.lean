import Simplos.Kernel.Halting
import Simplos.Kernel.StackPointers

/-!
# Every schedule of the pool is a run of the kernel

The refinement of `Kernel.Refinement` leaves nothing out: with stack pointers well inside their blocks and the canaries
intact, every check passes, and a run exists for every sequence of requests that the pool can take.
-/

namespace Simplos
set_option autoImplicit false
open Lib (bind_eq_ok ok_bind)

/-- The stack pointer at which the tasks of `slot` are suspended: 56 bytes are in use. -/
def restSp (slot : Fin tasksMax) : Word := blockHigh slot - 0x38

/-- A switch away from `slot`, with the canaries in place. -/
def restSwitch (slot : Fin tasksMax) : Switch := { bootSwitch with sp := restSp slot }

/-- The task of `slot` makes the request. -/
def restAction (slot : Fin tasksMax) : Lib.Request Nat → Action
  | .create priority => .spawn (some "task") (BitVec.ofNat 8 priority) (restSp slot)
  | .setPriority priority => .setPriority (BitVec.ofNat 8 priority)
  | .yield => .yield (restSwitch slot)
  | .finish => .kill (restSwitch slot)

/-- A priority that fits in a byte. -/
def Byteable : Lib.Request Nat → Prop
  | .create priority => priority < 2 ^ 8
  | .setPriority priority => priority < 2 ^ 8
  | .yield => True
  | .finish => True

theorem request_byteable (a : Action) : Byteable a.request := by
  cases a with
  | spawn name priority sp => exact priority.isLt
  | setPriority priority => exact priority.isLt
  | yield sw => trivial
  | kill sw => trivial

theorem restAction_request {slot : Fin tasksMax} {r : Lib.Request Nat} (byteable : Byteable r) :
    (restAction slot r).request = r := by
  cases r with
  | create priority => exact congrArg Lib.Request.create (Nat.mod_eq_of_lt byteable)
  | setPriority priority => exact congrArg Lib.Request.setPriority (Nat.mod_eq_of_lt byteable)
  | yield => rfl
  | finish => rfl

/-- The record has no other stack pointer of a slot than its `restSp`. -/
def AtRest (saved : Saved) : Prop := ∀ i sp, saved (slotIndex i) = some sp → sp = restSp i

/-- Every READY task was suspended at the `restSp` of its slot. -/
def Rested (k : Kernel) : Prop := ∃ saved, SavedInv k saved ∧ AtRest saved

/-! ## The checks pass -/

theorem bootMemory_canaries : CanariesIntact bootMemory := fun _ _ high => if_pos high

theorem restSp_accepted (slot : Fin tasksMax) : SpAccepted bootMemory slot (restSp slot) where
  room := by revert slot; decide
  high := by revert slot; decide
  above := by revert slot; decide
  canaries := bootMemory_canaries

theorem restSp_plausible (slot : Fin tasksMax) : PlausibleReturnAddress bootMemory (restSp slot) where
  program := by revert slot; decide
  nonzero := by revert slot; decide

theorem Rested.sp {k : Kernel} (rested : Rested k) {i : Fin tasksMax} (ready : k.status i = .ready) :
    (k.tasks i).taskSpAdr = restSp i := by
  obtain ⟨saved, holds, all⟩ := rested
  exact all i _ (holds i ready)

/-- The task whose turn it is, if it is another one, is READY. -/
theorem Serves.ready {os : Os} {p q : TaskPool} (serves : Serves os p) (sound : q.Sound)
    (task : q.IsTask q.running → p.IsTask q.running) (other : q.running ≠ p.running) :
    os.kernel.status q.running = .ready := by
  obtain ⟨priority, place⟩ := task sound.running
  rw [serves.status, place]
  exact if_neg other

theorem Serves.contextsPass {os : Os} {p q : TaskPool} {r : Lib.Request Nat} (serves : Serves os p) (sound : p.Sound)
    (rested : Rested os.kernel) (step : Lib.Pool.Step 255 p r q) : ContextsPass os p q (restAction p.running r) := by
  have after := step.sound sound
  cases step with
  | create => trivial
  | setPriority => trivial
  | yield turn =>
    refine ⟨restSp_accepted p.running, restSp_plausible p.running, fun other => ?_⟩
    rw [rested.sp (serves.ready after (Lib.Pool.IsTask.congr turn.places) other)]
    exact restSp_accepted q.running
  | finish turn =>
    have other := turn.running_ne
    have task : q.IsTask q.running → p.IsTask q.running := by
      rintro ⟨priority, place⟩
      rw [turn.places] at place
      exact ⟨priority, (Function.update_of_ne other ..).symm.trans place⟩
    show SpAccepted bootMemory q.running (os.kernel.tasks q.running).taskSpAdr
    rw [rested.sp (serves.ready after task other)]
    exact restSp_accepted q.running

/-! ## The tasks stay at rest -/

theorem AtRest.update {saved : Saved} (all : AtRest saved) (slot : Fin tasksMax) {entry : Option Word}
    (own : ∀ sp, entry = some sp → sp = restSp slot) : AtRest (Function.update saved (slotIndex slot) entry) := by
  intro i sp held
  rw [saved_update] at held
  split at held
  · rename_i here
    rw [here]
    exact own sp held
  · exact all i sp held

theorem Serves.rested {os os' : Os} {p q : TaskPool} {r : Lib.Request Nat} (serves : Serves os p)
    (serves' : Serves os' q) (rested : Rested os.kernel)
    (h : os.step .atmega2560 (restAction p.running r) = .ok os') : Rested os'.kernel := by
  obtain ⟨saved, holds, all⟩ := rested
  obtain ⟨scheduler, user⟩ := serves.user
  refine ⟨saved.after os os' (restAction p.running r), holds.step user h, ?_⟩
  have own : ∀ sp, some (restSp p.running) = some sp → sp = restSp p.running := fun _ same => (Option.some.inj same).symm
  have none : ∀ i sp, (Option.none : Option Word) = some sp → sp = restSp i := fun _ _ same => nomatch same
  cases r with
  | create priority =>
    simp only [restAction, Saved.after, indexOfCurrentTask, serves.represents.running, serves'.represents.running]
    exact (all.update q.running (none _)).update p.running own
  | setPriority priority => exact all
  | yield =>
    simp only [restAction, Saved.after, indexOfCurrentTask, serves.represents.running]
    exact all.update p.running own
  | finish =>
    simp only [restAction, Saved.after, indexOfCurrentTask, serves.represents.running]
    exact all.update p.running (none _)

/-! ## Every run of the pool -/

/-- A state from which every schedule can be run. -/
structure Flexible (p : TaskPool) (os : Os) : Prop where
  serves : Serves os p
  sound : p.Sound
  ranged : Ranged os.kernel
  rested : Rested os.kernel

/-- **Every step of the pool is a step of the kernel.** -/
theorem Flexible.step {os : Os} {p q : TaskPool} {r : Lib.Request Nat} (flexible : Flexible p os) (byteable : Byteable r)
    (step : Lib.Pool.Step 255 p r q) : ∃ os', os.step .atmega2560 (restAction p.running r) = .ok os' ∧ Flexible q os' := by
  have request : (restAction p.running r).request = r := restAction_request byteable
  obtain ⟨os', done⟩ := (flexible.serves.step_iff flexible.ranged (restAction p.running r)).mpr
    ⟨q, request.symm ▸ step, flexible.serves.contextsPass flexible.sound flexible.rested step⟩
  obtain ⟨q', step', serves'⟩ := flexible.serves.step done
  rw [request] at step'
  obtain rfl := step.unique step'
  obtain ⟨scheduler, user⟩ := flexible.serves.user
  refine ⟨os', done, serves', step.sound flexible.sound, fun slot => ?_, ?_⟩
  · rw [user.step_ranges done]
    exact flexible.ranged slot
  · exact flexible.serves.rested serves' flexible.rested done

theorem boot_flexible : ∃ os, boot .atmega2560 0x1FF0 0x5A0 bootSwitch = .ok os ∧ Flexible bootPool os := by
  obtain ⟨os, booted⟩ := boot_succeeds
  refine ⟨os, booted, boot_serves booted, bootPool_sound, boot_ranged booted, bootSaved 0x5A0, (boot_saved booted).2, ?_⟩
  have nothing : AtRest fun _ => none := fun _ _ same => nomatch same
  refine nothing.update 0 fun sp same => ?_
  rw [← Option.some.inj same]
  decide

/-- **The runs of the kernel are those of the pool.** The requests `requests` can be made in a run from a boot exactly
when the pool can take them, and the priorities among them are bytes. -/
theorem runs_are_pool_runs (requests : List (Lib.Request Nat)) :
    (∃ mainSp idleSp sw start actions os, boot .atmega2560 mainSp idleSp sw = .ok start ∧
        actions.map Action.request = requests ∧ Lib.run (Os.step .atmega2560) start actions = .ok os) ↔
      (∀ r ∈ requests, Byteable r) ∧ ∃ p, Lib.Trace (Lib.Pool.Step 255) bootPool requests p := by
  constructor
  · rintro ⟨mainSp, idleSp, sw, start, actions, os, booted, rfl, ran⟩
    obtain ⟨p, trace, -⟩ := kernel_refines_pool booted ran
    refine ⟨fun r member => ?_, p, trace⟩
    obtain ⟨a, -, rfl⟩ := List.mem_map.mp member
    exact request_byteable a
  · rintro ⟨byteable, p, trace⟩
    obtain ⟨start, booted, flexible⟩ := boot_flexible
    obtain ⟨actions, os, same, run, -⟩ := Lib.Trace.realise (fun os a os' => os.step .atmega2560 a = .ok os')
      Flexible Action.request
      (fun p r q os flexible step => by
        obtain ⟨os', done, after⟩ := flexible.step step.2 step.1
        exact ⟨_, os', restAction_request step.2, done, after⟩)
      flexible (trace.restrict byteable)
    exact ⟨_, _, _, start, actions, os, booted, same, Lib.run_trace.mpr run⟩

end Simplos
