import Simplos.Switch.Completion

/-!
# A run of the machine is a run of its tasks

The steps of the machine are steps of the tasks and of the kernel, so a whole run after a boot is a run of both.
-/

namespace Simplos
set_option autoImplicit false
open Avr
open Lib (bind_eq_ok)

/-- **A run of the machine** is a run of the tasks and, its own actions, of the kernel. -/
theorem Implements.run {image : SpawnImage} {scheduler : Fin tasksMax} {w w' : World} {b : Threads}
    {labels : List (Option Action)} (implements : Implements scheduler w b)
    (run : Lib.Trace (World.Step image scheduler) w labels w') :
    ∃ b', Lib.Trace (Threads.Step image.spawnAdr) b labels b' ∧ Implements scheduler w' b' ∧
      Lib.run (Os.step .atmega2560) w.os labels.reduceOption = .ok w'.os := by
  induction run generalizing b with
  | nil w => exact ⟨b, .nil b, implements, rfl⟩
  | @cons w t u label labels step _ ih =>
    obtain ⟨b₁, first, next, follows⟩ := implements.step step
    obtain ⟨b', rest, last, runs⟩ := ih next
    refine ⟨b', .cons first rest, last, ?_⟩
    cases label with
    | none =>
      rw [List.reduceOption_cons_of_none]
      have same : t.os = w.os := follows
      rwa [same] at runs
    | some a =>
      rw [List.reduceOption_cons_of_some]
      exact Lib.run_cons_ok.mpr ⟨t.os, follows, runs⟩

/-- A call of `k_yield` from which the round goes on is a step of the machine, and one of the kernel. -/
theorem Implements.yields {image : SpawnImage} {scheduler : Fin tasksMax} {w : World} {b : Threads} {p : TaskPool}
    {back : Pc} (h : Implements scheduler w b) (serves : Serves w.os p) (sound : p.Sound) (ranged : Ranged w.os.kernel)
    (canaries : CanariesIntact w.cpu.mem) (calls : CallsYield image.toImage b.running w.cpu back)
    (goesOn : RoundGoesOn b p ⟨w.cpu.regs, { w.cpu.sreg with i := false }, back⟩ (w.cpu.sp + 3 - 36)) :
    ∃ sw w', World.Step image scheduler w (some (.yield sw)) w' ∧ w.os.step .atmega2560 (.yield sw) = .ok w'.os := by
  have leaving := h.yielded calls
  obtain ⟨t, ctx, toScheduler, handsOver, at_scheduler⟩ := h.toScheduler leaving
  have intact : CanariesIntact t.mem :=
    handsOver.canaries leaving.realises.room h.scheduler.2 (leaving.canaries canaries)
  obtain ⟨done, round⟩ := (h.round_iff serves sound ranged intact handsOver.saved).mpr goesOn
  have atRound : OnStack scheduler t.sp := at_scheduler.level ▸ at_scheduler.room
  obtain ⟨y, loops⟩ := loops_possible image.toImage atRound done 0x10101
  obtain ⟨u, next, toTask, -⟩ := h.returns leaving toScheduler at_scheduler round loops
  obtain ⟨next, step, -⟩ := h.leave leaving (.round toScheduler round loops toTask)
  exact ⟨_, _, .yield h.user.active calls (.round toScheduler round loops toTask), step⟩

/-! ## A child that runs in between -/

theorem Serves.follows {os os' : Os} {p q : TaskPool} {a : Action} (serves : Serves os p)
    (h : os.step .atmega2560 a = .ok os') (step : Lib.Pool.Step 255 p a.request q) : Serves os' q := by
  obtain ⟨r, step', after⟩ := serves.step h
  obtain rfl := step'.unique step
  exact after

/-- The new task calls `k_yield`. -/
def childCalls (u : Cpu) : Cpu := ⟨fun _ => 1, .ofByte 1, 0xAD3, 0x200, pushBytes u.mem 0xAD6 (pcBytes 0x402)⟩

end Simplos
