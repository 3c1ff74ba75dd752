import Simplos.Kernel.Resources

/-!
# The user tasks

The tasks of `user_tasks.cpp` as programs: a `for` loop is the list of the calls it makes. `print` is formatted text. The
delay loops between the lines do nothing.
-/

namespace Simplos
set_option autoImplicit false
open Lib.Tasks (eventsOf)

/-- What `"%u%%\n"` makes of a number, behind the text of its task. -/
def percentLine (text : String) (i : Nat) : String := text ++ toString i ++ "%\n"

def percentLines (text : String) (n : Nat) : List String := (List.range n).map (percentLine text)

/-- The loop of the workers and of `wait_for_child`. -/
def printLoop (text : String) (rest : TaskProgram) : TaskProgram := .acts ((percentLines text 100).map .print) rest

/-- The loop of a task that yields after each line. -/
def yieldLoop (lines : List String) (rest : TaskProgram) : TaskProgram :=
  .acts (lines.flatMap fun line => [.print line, .yield]) rest

def justALoop : TaskProgram := yieldLoop (percentLines "looper 1: " 10) (.act (.print "Loop DONE\n") .done)

def worker1Fn : TaskProgram := printLoop "worker 1: " (.act (.print "1 DONE\n") .done)

def worker2Fn : TaskProgram := printLoop "worker 2: " (.act (.print "2 DONE\n") .done)

def doSomeYields : TaskProgram := yieldLoop (List.replicate 5 "yielder yielding\n") (.act (.print "I'm done!\n") .done)

def waitForChild : TaskProgram :=
  printLoop "waitin a bit : " <| .act (.print "Spawning child task\n") <|
    .spawn ⟨some "yielder", 1⟩ doSomeYields fun waiterPid => .wait waiterPid .done

/-- `run_idle_fn` from the return of its first `spawn` on, with which the boot ends. -/
def runIdleFn : TaskProgram :=
  .act (.print "Startin single task\n") <| .spawn ⟨some "looper", 0⟩ justALoop fun singelTaskPid =>
    .act (.print "Waiting for task to finnish\n") <| .wait singelTaskPid <|
      .spawn ⟨some "worker2", 1⟩ worker2Fn fun _ =>
        .spawn ⟨some "wait for others", 2⟩ waitForChild fun waitForChildPid =>
          .spawn ⟨some "worker1", 1⟩ worker1Fn fun worker1Pid =>
            .wait waitForChildPid <| .wait worker1Pid <| .act (.print "DONE\n") .stop

theorem runIdleFn_creates : runIdleFn.Creates 5 := by
  have worker : ∀ (text line : String), (printLoop text (.act (.print line) .done)).Creates 0 := fun text line =>
    (Lib.Prog.creates_acts _ _ 0).mpr trivial
  have yielder : ∀ (lines : List String) (line : String), (yieldLoop lines (.act (.print line) .done)).Creates 0 :=
    fun lines line => (Lib.Prog.creates_acts _ _ 0).mpr trivial
  have waits : waitForChild.Creates 1 :=
    (Lib.Prog.creates_acts _ _ 1).mpr ⟨0, 0, by omega, yielder _ _, fun _ => trivial⟩
  refine ⟨0, 4, by omega, yielder _ _, fun _ => ?_⟩
  refine ⟨0, 3, by omega, worker _ _, fun _ => ?_⟩
  refine ⟨1, 1, by omega, waits, fun _ => ?_⟩
  exact ⟨0, 0, by omega, worker _ _, fun _ => trivial⟩

/-! ## What has been printed -/

def printedText : ProgramEvent → Option String
  | .acts (.print text) => some text
  | _ => none

/-- The lines of a task. -/
def printed (pid : Word) (events : List (Word × ProgramEvent)) : List String :=
  (eventsOf pid events).filterMap printedText

/-- The task has printed `lines`, and has ended. -/
structure Finished (pid : Word) (lines : List String) (events : List (Word × ProgramEvent)) : Prop where
  printed : printed pid events = lines
  ended : (pid, .ends) ∈ events

theorem Finished.of_own {pid : Word} {own : List ProgramEvent} {events : List (Word × ProgramEvent)}
    (all : eventsOf pid events = own ++ [.ends]) : Finished pid (own.filterMap printedText) events := by
  refine ⟨?_, Lib.Tasks.mem_eventsOf.mp ?_⟩
  · show (eventsOf pid events).filterMap printedText = own.filterMap printedText
    rw [all, List.filterMap_append]
    exact List.append_nil _
  · rw [all]
    exact List.mem_append_right _ (List.mem_singleton.mpr rfl)

theorem print_texts (lines : List String) :
    ((lines.map Call.print).map Lib.TaskEvent.acts).filterMap printedText = lines := by
  induction lines with
  | nil => rfl
  | cons line lines ih => exact congrArg (line :: ·) ih

theorem yield_texts (lines : List String) :
    ((lines.flatMap fun line => [Call.print line, .yield]).map Lib.TaskEvent.acts).filterMap printedText = lines := by
  induction lines with
  | nil => rfl
  | cons line lines ih => exact congrArg (line :: ·) ih

/-- The way through a loop to the end of the task. -/
theorem printLoop_path {pid : Word} {text : String} {rest : TaskProgram} {own : List ProgramEvent}
    (path : (printLoop text rest).Path pid own .done) :
    ∃ first last, own = first ++ last ∧ first.filterMap printedText = percentLines text 100 ∧
      rest.Path pid last .done := by
  obtain ⟨last, rfl, atRest⟩ := Lib.Prog.Path.acts path fun _ _ _ same => by cases same
  exact ⟨_, last, rfl, print_texts _, atRest⟩

theorem yieldLoop_path {pid : Word} {lines : List String} {rest : TaskProgram} {own : List ProgramEvent}
    (path : (yieldLoop lines rest).Path pid own .done) :
    ∃ first last, own = first ++ last ∧ first.filterMap printedText = lines ∧ rest.Path pid last .done := by
  obtain ⟨last, rfl, atRest⟩ := Lib.Prog.Path.acts path fun _ _ _ same => by cases same
  exact ⟨_, last, rfl, yield_texts _, atRest⟩

theorem lastLine_path {pid : Word} {line : String} {own : List ProgramEvent}
    (path : (Lib.Prog.act (.print line) .done : TaskProgram).Path pid own .done) : own.filterMap printedText = [line] := by
  obtain ⟨last, rfl, atEnd⟩ := path.act fun same => by cases same
  obtain rfl := atEnd.done
  rfl

theorem worker_path {pid : Word} {text line : String} {own : List ProgramEvent}
    (path : (printLoop text (.act (.print line) .done)).Path pid own .done) :
    own.filterMap printedText = percentLines text 100 ++ [line] := by
  obtain ⟨first, last, rfl, texts, rest⟩ := printLoop_path path
  rw [List.filterMap_append, texts, lastLine_path rest]

theorem yielder_path {pid : Word} {lines : List String} {line : String} {own : List ProgramEvent}
    (path : (yieldLoop lines (.act (.print line) .done)).Path pid own .done) :
    own.filterMap printedText = lines ++ [line] := by
  obtain ⟨first, last, rfl, texts, rest⟩ := yieldLoop_path path
  rw [List.filterMap_append, texts, lastLine_path rest]

theorem waitForChild_path {pid : Word} {own : List ProgramEvent} (path : waitForChild.Path pid own .done) :
    ∃ lines yielder, own = lines ++ [.spawns yielder doSomeYields, .joins yielder] ∧
      own.filterMap printedText = percentLines "waitin a bit : " 100 ++ ["Spawning child task\n"] := by
  obtain ⟨first, _, rfl, texts, atLine⟩ := printLoop_path path
  obtain ⟨_, rfl, atSpawn⟩ := atLine.act fun same => by cases same
  obtain ⟨yielder, _, rfl, atWait⟩ := atSpawn.spawn fun same => by cases same
  obtain ⟨_, rfl, atEnd⟩ := atWait.wait fun same => by cases same
  obtain rfl := atEnd.done
  refine ⟨first ++ [.acts (.print "Spawning child task\n")], yielder, ?_, ?_⟩
  · rw [List.append_assoc]
    rfl
  · rw [List.filterMap_append, texts]
    rfl

/-! ## A run to the last line -/

theorem courteous_printLoop {text : String} {rest : TaskProgram} (courteous : Courteous rest) :
    Courteous (printLoop text rest) := by
  unfold printLoop
  induction percentLines text 100 with
  | nil => exact courteous
  | cons line lines ih => exact ih

theorem courteous_yieldLoop {lines : List String} {rest : TaskProgram} (courteous : Courteous rest) :
    Courteous (yieldLoop lines rest) := by
  induction lines with
  | nil => exact courteous
  | cons line lines ih => exact ih

theorem runIdleFn_courteous : Courteous runIdleFn := by
  have low : ∀ {priority : Byte}, priority < 3 → priority ≠ 255 := by
    intro priority less
    bv_omega
  refine ⟨low (by decide), courteous_yieldLoop trivial, fun _ => ?_⟩
  refine ⟨low (by decide), courteous_printLoop trivial, fun _ => ?_⟩
  have child : Courteous waitForChild :=
    courteous_printLoop ⟨low (by decide), courteous_yieldLoop trivial, fun _ => trivial⟩
  refine ⟨low (by decide), child, fun _ => ?_⟩
  exact ⟨low (by decide), courteous_printLoop trivial, fun _ => trivial⟩

/-- The calls of a loop without an interruption. -/
def callsOf (pid : Word) (calls : List Call) : List (Word × ProgramEvent) := calls.map fun call => (pid, .acts call)

theorem fits_callsOf (made free : Nat) (pid : Word) (calls : List Call) (rest : List (Word × ProgramEvent)) :
    Fits made free (callsOf pid calls ++ rest) ↔ Fits made free rest := by
  induction calls with
  | nil => exact Iff.rfl
  | cons call calls ih => exact ih

/-- All a task does that only calls. -/
def wholeTask (pid : Word) (calls : List Call) (last : String) : List (Word × ProgramEvent) :=
  callsOf pid calls ++ [(pid, .acts (.print last)), (pid, .ends)]

/-- The second worker never gets to its first line, and the child has ended when the first worker needs a slot. -/
def shortestEvents : List (Word × ProgramEvent) :=
  List.flatten [
    [(0, .acts (.print "Startin single task\n")), (0, .spawns 2 justALoop)],
    wholeTask 2 ((percentLines "looper 1: " 10).flatMap fun line => [.print line, .yield]) "Loop DONE\n",
    [(0, .acts (.print "Waiting for task to finnish\n")), (0, .joins 2), (0, .spawns 3 worker2Fn),
      (0, .spawns 4 waitForChild)],
    callsOf 4 ((percentLines "waitin a bit : " 100).map .print),
    [(4, .acts (.print "Spawning child task\n")), (4, .spawns 5 doSomeYields)],
    wholeTask 5 ((List.replicate 5 "yielder yielding\n").flatMap fun line => [.print line, .yield]) "I'm done!\n",
    [(4, .joins 5), (4, .ends), (0, .spawns 6 worker1Fn)],
    wholeTask 6 ((percentLines "worker 1: " 100).map .print) "1 DONE\n",
    [(0, .joins 4), (0, .joins 6)]]

theorem shortest_fits : Fits 2 3 (shortestEvents ++ [(0, .acts (.print "DONE\n"))]) := by
  simp [shortestEvents, wholeTask, Fits, fits_callsOf]

theorem wholeTask_trace {a : ProgramTasks} {pid : Word} {calls : List Call} {last : String} (on : a.stopped = false)
    (runs : a.task pid = .runs (.acts calls (.act (.print last) .done))) :
    Lib.Trace Lib.Tasks.Step a (wholeTask pid calls last) { a with task := Function.update a.task pid .ended } := by
  have line : Lib.Trace Lib.Tasks.Step { a with task := Function.update a.task pid (.runs (.act (.print last) .done)) }
      [(pid, .acts (.print last)), (pid, .ends)] _ :=
    .cons (.goes on (Function.update_self ..) (.act _ _) trivial) (.cons (.ends on (Function.update_self ..)) (.nil _))
  have whole := (Lib.Tasks.acts_trace on runs).append line
  simp only [Lib.Tasks.after, Function.update_idem] at whole
  exact whole

theorem shortest_trace :
    ∃ a, Lib.Trace Lib.Tasks.Step (mainTasks runIdleFn) (shortestEvents ++ [(0, .acts (.print "DONE\n"))]) a := by
  suffices all : ∃ a, Lib.Trace Lib.Tasks.Step (mainTasks runIdleFn) shortestEvents a ∧ a.stopped = false ∧
      a.task 0 = .runs (.act (.print "DONE\n") .stop) by
    obtain ⟨a, trace, on, runs⟩ := all
    exact ⟨_, trace.append (.cons (.goes on runs (.act _ _) trivial) (.nil _))⟩
  apply Exists.intro
  apply And.intro
  · apply Lib.Trace.cons (.goes rfl rfl (.act _ _) trivial)
    apply Lib.Trace.cons (.goes rfl rfl (.spawn _ _ _ 2) rfl)
    apply Lib.Trace.append (wholeTask_trace rfl rfl)
    apply Lib.Trace.cons (.goes rfl rfl (.act _ _) trivial)
    apply Lib.Trace.cons (.goes rfl rfl (.wait _ _) id)
    apply Lib.Trace.cons (.goes rfl rfl (.spawn _ _ _ 3) rfl)
    apply Lib.Trace.cons (.goes rfl rfl (.spawn _ _ _ 4) rfl)
    apply Lib.Trace.append (Lib.Tasks.acts_trace rfl rfl)
    apply Lib.Trace.cons (.goes rfl rfl (.act _ _) trivial)
    apply Lib.Trace.cons (.goes rfl rfl (.spawn _ _ _ 5) rfl)
    apply Lib.Trace.append (wholeTask_trace rfl rfl)
    apply Lib.Trace.cons (.goes rfl rfl (.wait _ _) id)
    apply Lib.Trace.cons (.ends rfl rfl)
    apply Lib.Trace.cons (.goes rfl rfl (.spawn _ _ _ 6) rfl)
    apply Lib.Trace.append (wholeTask_trace rfl rfl)
    apply Lib.Trace.cons (.goes rfl rfl (.wait _ _) id)
    apply Lib.Trace.cons (.goes rfl rfl (.wait _ _) id)
    exact .nil _
  · exact ⟨rfl, rfl⟩

/-! ## The end of the application -/

/-- What `main` does until it prints its last line. -/
def mainEvents (looper worker2 waiter worker1 : Word) : List ProgramEvent :=
  [.acts (.print "Startin single task\n"), .spawns looper justALoop, .acts (.print "Waiting for task to finnish\n"),
    .joins looper, .spawns worker2 worker2Fn, .spawns waiter waitForChild, .spawns worker1 worker1Fn, .joins waiter,
    .joins worker1]

/-- What has been done when it does. -/
structure TasksFinished (looper worker2 waiter worker1 yielder : Word) (events : List (Word × ProgramEvent)) : Prop where
  main : eventsOf 0 events = mainEvents looper worker2 waiter worker1
  child : .spawns yielder doSomeYields ∈ eventsOf waiter events
  looper : Finished looper (percentLines "looper 1: " 10 ++ ["Loop DONE\n"]) events
  waiter : Finished waiter (percentLines "waitin a bit : " 100 ++ ["Spawning child task\n"]) events
  yielder : Finished yielder (List.replicate 5 "yielder yielding\n" ++ ["I'm done!\n"]) events
  worker1 : Finished worker1 (percentLines "worker 1: " 100 ++ ["1 DONE\n"]) events

theorem runIdleFn_path {own : List ProgramEvent} {rest : TaskProgram}
    (path : runIdleFn.Path 0 own (.act (.print "DONE\n") rest)) :
    ∃ looper worker2 waiter worker1, own = mainEvents looper worker2 waiter worker1 := by
  have notLast : ∀ {text : String} {more : TaskProgram}, text ≠ "DONE\n" →
      (.act (.print text) more : TaskProgram) ≠ .act (.print "DONE\n") rest := by
    intro text more other same
    exact other (Call.print.inj (Lib.Prog.act.inj same).1)
  obtain ⟨_, rfl, atLooper⟩ := path.act (notLast (by decide))
  obtain ⟨looper, _, rfl, atLine⟩ := atLooper.spawn fun same => by cases same
  obtain ⟨_, rfl, atFirstWait⟩ := atLine.act (notLast (by decide))
  obtain ⟨_, rfl, atWorker2⟩ := atFirstWait.wait fun same => by cases same
  obtain ⟨worker2, _, rfl, atWaiter⟩ := atWorker2.spawn fun same => by cases same
  obtain ⟨waiter, _, rfl, atWorker1⟩ := atWaiter.spawn fun same => by cases same
  obtain ⟨worker1, _, rfl, atSecondWait⟩ := atWorker1.spawn fun same => by cases same
  obtain ⟨_, rfl, atThirdWait⟩ := atSecondWait.wait fun same => by cases same
  obtain ⟨_, rfl, atEnd⟩ := atThirdWait.wait fun same => by cases same
  cases atEnd with
  | nil => exact ⟨looper, worker2, waiter, worker1, rfl⟩
  | cons step stopped =>
    -- Behind the last line there is only `terminate`.
    cases step
    cases stopped with
    | cons step stopped =>
      cases step
      cases stopped with
      | cons step stopped => cases step

/-- **When `main` prints its last line, the tasks it is about are done.** However the tasks were interleaved, the looper,
the first worker, the task that waits and its child have each printed all their lines once and in order, and have ended. Of
the second worker, for which nobody waits, nothing is said. -/
theorem tasks_finished_at_done {labels : List (Option (Word × ProgramEvent))} {s : AppState}
    {before after : List (Word × ProgramEvent)} (run : AppRun runIdleFn labels s)
    (order : labels.reduceOption = before ++ (0, .acts (.print "DONE\n")) :: after) :
    ∃ looper worker2 waiter worker1 yielder, TasksFinished looper worker2 waiter worker1 yielder before := by
  have few := created_le_of_creates runIdleFn_creates run
  obtain ⟨mainSp, idleSp, sw, booted, boots, run⟩ := run
  obtain ⟨scheduler, start⟩ := follows_start runIdleFn boots
  obtain ⟨a, trace, -⟩ := start.run run (by omega)
  rw [order] at trace
  obtain ⟨u, first, second⟩ := trace.split
  obtain ⟨rest, path⟩ : ∃ rest, runIdleFn.Path 0 (eventsOf 0 before) (.act (.print "DONE\n") rest) := by
    cases second with
    | cons step _ =>
      obtain ⟨program, runs⟩ := step.runs
      have main : (mainTasks runIdleFn).task 0 = .runs runIdleFn := rfl
      have went := Lib.Tasks.runs_in_order first main
      rw [runs] at went
      cases went with
      | on path =>
        rcases step.own runs with ⟨rest, own, -⟩ | ⟨ends, -⟩
        · cases own
          exact ⟨rest, path⟩
        · cases ends
  obtain ⟨looper, worker2, waiter, worker1, main⟩ := runIdleFn_path path
  obtain ⟨ofLooper, looperEnds, atLooper⟩ := Lib.Tasks.joined_child first [_] [_] main
  obtain ⟨ofWaiter, waiterEnds, atWaiter⟩ := Lib.Tasks.joined_child first [_, _, _, _, _] [_] main
  obtain ⟨ofWorker, workerEnds, atWorker⟩ := Lib.Tasks.joined_child first [_, _, _, _, _, _] [_] main
  obtain ⟨lines, yielder, rfl, texts⟩ := waitForChild_path atWaiter
  have child := waiterEnds.trans (List.append_assoc ..)
  obtain ⟨ofYielder, yielderEnds, atYielder⟩ := Lib.Tasks.joined_child first lines [] child
  have created : .spawns yielder doSomeYields ∈ eventsOf waiter before := by
    rw [child]
    exact List.mem_append_right _ List.mem_cons_self
  have looped := Finished.of_own looperEnds
  have waited := Finished.of_own waiterEnds
  have yielded := Finished.of_own yielderEnds
  have worked := Finished.of_own workerEnds
  rw [yielder_path atLooper] at looped
  rw [texts] at waited
  rw [yielder_path atYielder] at yielded
  rw [worker_path atWorker] at worked
  exact ⟨looper, worker2, waiter, worker1, yielder, main, created, looped, waited, yielded, worked⟩

theorem tasks_finished_at_done_shortest :
    ∃ labels s, AppRun runIdleFn labels s ∧ labels.reduceOption = shortestEvents ++ [(0, .acts (.print "DONE\n"))] ∧
      eventsOf 3 shortestEvents = [] ∧
      ∃ looper worker2 waiter worker1 yielder, TasksFinished looper worker2 waiter worker1 yielder shortestEvents := by
  obtain ⟨a, trace⟩ := shortest_trace
  obtain ⟨mainSp, idleSp, sw, booted, scheduler, boots, driven⟩ := exists_start runIdleFn_courteous
  obtain ⟨labels, s, order, run, -⟩ := driven.run trace shortest_fits
  have whole : AppRun runIdleFn labels s := ⟨mainSp, idleSp, sw, booted, boots, run⟩
  exact ⟨labels, s, whole, order, by decide, tasks_finished_at_done whole order⟩

end Simplos
