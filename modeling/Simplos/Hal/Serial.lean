import Simplos.Lib.Runs

/-!
# `printf_flash` and the serial line

Tasks print through one UART, byte by byte: `uart_putchar` waits for the data register and stores to it.
`printf_flash` disables interrupts while it does so and restores the status register, which it read before, at its end.
What `vfprintf_P` makes of a format is a text here, the characters it puts.
-/

namespace Simplos
set_option autoImplicit false

/-- The transmitter: `UDR0`, which is empty when the flag `UDRE0` is set, and what has left on the line. -/
structure Uart where
  udr0 : Option (BitVec 8)
  line : List (BitVec 8)

def Uart.udre0 (u : Uart) : Bool := u.udr0.isNone

/-- A store to `UDR0`, which the transmitter ignores while the register is full. -/
def Uart.store (u : Uart) (c : BitVec 8) : Uart :=
  match u.udr0 with
  | none => { u with udr0 := some c }
  | some _ => u

/-- The byte in `UDR0` leaves. -/
def Uart.shift (u : Uart) : Uart := { udr0 := none, line := u.line ++ u.udr0.toList }

/-- The bytes `uart_putchar` stores: before `\n` it calls itself with `\r`. -/
def uartPutchar (c : BitVec 8) : List (BitVec 8) := if c = 10 then [13, c] else [c]

/-- The bytes of a text. -/
def uartPuts (text : List (BitVec 8)) : List (BitVec 8) := text.flatMap uartPutchar

/-- A receiver that reads `\r\n` as `\n`. -/
def readLines : List (BitVec 8) → List (BitVec 8)
  | [] => []
  | c :: rest => if c = 13 ∧ rest.head? = some 10 then readLines rest else c :: readLines rest

/-- Where a task is in `printf_flash`. `enabled` is the interrupt flag in `sreg_at_entry`. -/
inductive Printer where
  | away
  /-- `disable_interrupts` comes next. -/
  | entered (enabled : Bool) (text : List (BitVec 8))
  /-- Interrupts are disabled, and `bytes` are to be stored. -/
  | puts (enabled : Bool) (bytes : List (BitVec 8))
  /-- `UDRE0` was seen set, and `byte` is stored next. -/
  | ready (enabled : Bool) (byte : BitVec 8) (bytes : List (BitVec 8))

/-- The bytes a task that prints has still to store. -/
def Printer.rest : Printer → List (BitVec 8)
  | .away => []
  | .entered _ _ => []
  | .puts _ bytes => bytes
  | .ready _ byte bytes => byte :: bytes

/-- The task has interrupts disabled for its text. -/
def Printer.Prints : Printer → Prop
  | .away => False
  | .entered _ _ => False
  | .puts _ _ => True
  | .ready _ _ _ => True

structure SerialState (τ : Type*) where
  running : τ
  /-- The interrupt flag. -/
  enabled : Bool
  uart : Uart
  printers : τ → Printer

/-- Nothing was printed yet. -/
structure SerialState.Fresh {τ : Type*} (s : SerialState τ) : Prop where
  udr0 : s.uart.udr0 = none
  line : s.uart.line = []
  away : ∀ t, s.printers t = .away

/-- No text is being printed. -/
structure SerialState.Quiet {τ : Type*} (s : SerialState τ) : Prop where
  udr0 : s.uart.udr0 = none
  silent : ∀ t, ¬ (s.printers t).Prints

/-- What has left and what is still to leave of the texts whose printing has begun. -/
def SerialState.output {τ : Type*} (s : SerialState τ) : List (BitVec 8) :=
  s.uart.line ++ s.uart.udr0.toList ++ (s.printers s.running).rest

section

variable {τ : Type*} [DecidableEq τ]

/-- The running task takes another place in `printf_flash`. -/
def SerialState.set (s : SerialState τ) (printer : Printer) : SerialState τ :=
  { s with printers := Function.update s.printers s.running printer }

/-- One step of the running task, of the timer or of the transmitter. The label is the text whose printing begins. -/
inductive SerialStep (s : SerialState τ) : Option (List (BitVec 8)) → SerialState τ → Prop where
  | shifts : SerialStep s none { s with uart := s.uart.shift }
  | enters (text : List (BitVec 8)) (away : s.printers s.running = .away) :
      SerialStep s none (s.set (.entered s.enabled text))
  | disables {enabled : Bool} {text : List (BitVec 8)} (entered : s.printers s.running = .entered enabled text) :
      SerialStep s (some text) { s.set (.puts enabled (uartPuts text)) with enabled := false }
  | polls {enabled : Bool} {byte : BitVec 8} {bytes : List (BitVec 8)}
      (puts : s.printers s.running = .puts enabled (byte :: bytes)) (flag : s.uart.udre0 = true) :
      SerialStep s none (s.set (.ready enabled byte bytes))
  | stores {enabled : Bool} {byte : BitVec 8} {bytes : List (BitVec 8)}
      (ready : s.printers s.running = .ready enabled byte bytes) :
      SerialStep s none { s.set (.puts enabled bytes) with uart := s.uart.store byte }
  | restores {enabled : Bool} (puts : s.printers s.running = .puts enabled []) :
      SerialStep s none { s.set .away with enabled := enabled }
  /-- Other code disables or enables interrupts. -/
  | flags (enabled : Bool) (away : s.printers s.running = .away) : SerialStep s none { s with enabled := enabled }
  /-- The timer interrupts the task, and `reti` sets the flag. -/
  | preempted (next : τ) (enabled : s.enabled = true) : SerialStep s none { s with running := next }
  /-- The task gives up the CPU by a call, and `k_yield` sets the flag. -/
  | yields (next : τ) (away : s.printers s.running = .away) :
      SerialStep s none { s with running := next, enabled := true }

end

/-! ## What the receiver reads -/

/-- No text's bytes begin with `\n`. -/
theorem uartPuts_head (text : List (BitVec 8)) : (uartPuts text).head? ≠ some 10 := by
  cases text with
  | nil => exact nofun
  | cons c text =>
    rw [uartPuts, List.flatMap_cons, uartPutchar]
    split
    · simp
    · rename_i other
      simpa using other

/-- **The receiver reads the text.** -/
theorem readLines_uartPuts (text : List (BitVec 8)) : readLines (uartPuts text) = text := by
  induction text with
  | nil => rfl
  | cons c text ih =>
    rw [uartPuts, List.flatMap_cons, ← uartPuts, uartPutchar]
    split
    · rename_i newline
      subst newline
      show readLines (13 :: 10 :: uartPuts text) = _
      simp [readLines, ih]
    · show readLines (c :: uartPuts text) = _
      have plain : ¬ (c = 13 ∧ (uartPuts text).head? = some 10) := fun both => uartPuts_head text both.2
      rw [readLines, if_neg plain, ih]

/-! ## Printing is exclusive -/

/-- Only the running task prints, with interrupts disabled; and the register stays empty once it was seen empty. -/
structure SerialInv {τ : Type*} (s : SerialState τ) : Prop where
  owner : ∀ t, (s.printers t).Prints → t = s.running ∧ s.enabled = false
  empty : ∀ t enabled byte bytes, s.printers t = .ready enabled byte bytes → s.uart.udr0 = none

theorem Printer.rest_of_not_prints {printer : Printer} (silent : ¬ printer.Prints) : printer.rest = [] := by
  cases printer with
  | away => rfl
  | entered enabled text => rfl
  | puts enabled bytes => exact absurd trivial silent
  | ready enabled byte bytes => exact absurd trivial silent

section

variable {τ : Type*} {s t : SerialState τ}

theorem SerialState.Fresh.inv (fresh : s.Fresh) : SerialInv s := by
  constructor
  · intro i prints
    rw [fresh.away i] at prints
    exact prints.elim
  · intro i flag byte bytes ready
    rw [fresh.away i] at ready
    cases ready

/-- No task prints where the running one does not, or where interrupts are enabled. -/
theorem SerialInv.silent (inv : SerialInv s) (quiet : s.printers s.running = .away ∨ s.enabled = true) (i : τ) :
    ¬ (s.printers i).Prints := by
  intro prints
  obtain ⟨rfl, disabled⟩ := inv.owner i prints
  rcases quiet with away | enabled
  · rw [away] at prints
    exact prints
  · rw [enabled] at disabled
    cases disabled

/-- There another task may run, and the flag may change. -/
theorem SerialInv.switches (inv : SerialInv s) (quiet : s.printers s.running = .away ∨ s.enabled = true) (next : τ)
    (enabled : Bool) : SerialInv { s with running := next, enabled := enabled } := by
  constructor
  · intro i prints
    exact absurd prints (inv.silent quiet i)
  · intro i flag byte bytes ready
    exact inv.empty i flag byte bytes ready

variable [DecidableEq τ]

/-- The running task takes another place. -/
theorem SerialInv.set (inv : SerialInv s) {printer : Printer} {uart : Uart} {enabled : Bool}
    (disabled : printer.Prints → enabled = false)
    (empty : ∀ flag byte bytes, printer = .ready flag byte bytes → uart.udr0 = none) :
    SerialInv { s.set printer with uart := uart, enabled := enabled } := by
  have own : (s.set printer).printers s.running = printer := Function.update_self ..
  have others : ∀ i, i ≠ s.running → ¬ ((s.set printer).printers i).Prints := by
    intro i other prints
    have same : (s.set printer).printers i = s.printers i := Function.update_of_ne other ..
    rw [same] at prints
    exact other (inv.owner i prints).1
  constructor
  · intro i prints
    by_cases here : i = s.running
    · subst here
      exact ⟨rfl, disabled (own ▸ prints)⟩
    · exact absurd prints (others i here)
  · intro i flag byte bytes ready
    by_cases here : i = s.running
    · subst here
      exact empty flag byte bytes (own.symm.trans ready)
    · have at_i : (s.set printer).printers i = .ready flag byte bytes := ready
      refine absurd ?_ (others i here)
      rw [at_i]
      trivial

/-- **One step** keeps the invariant and the output, but for the text whose printing begins. -/
theorem SerialInv.step {label : Option (List (BitVec 8))} (inv : SerialInv s) (h : SerialStep s label t) :
    SerialInv t ∧ t.output = s.output ++ label.toList.flatMap uartPuts := by
  cases h with
  | shifts =>
    refine ⟨⟨inv.owner, fun i flag byte bytes _ => rfl⟩, ?_⟩
    simp [SerialState.output, Uart.shift]
  | enters text away =>
    refine ⟨inv.set (fun prints => prints.elim) nofun, ?_⟩
    simp [SerialState.output, SerialState.set, away, Printer.rest]
  | @disables enabled text entered =>
    refine ⟨inv.set (fun _ => rfl) nofun, ?_⟩
    simp [SerialState.output, SerialState.set, entered, Printer.rest]
  | @polls enabled byte bytes puts flag =>
    have owner := inv.owner s.running (by rw [puts]; trivial)
    have vacant : s.uart.udr0 = none := Option.isNone_iff_eq_none.mp flag
    refine ⟨inv.set (fun _ => owner.2) fun _ _ _ _ => vacant, ?_⟩
    simp [SerialState.output, SerialState.set, puts, Printer.rest]
  | @stores enabled byte bytes ready =>
    have owner := inv.owner s.running (by rw [ready]; trivial)
    have vacant := inv.empty s.running enabled byte bytes ready
    refine ⟨inv.set (fun _ => owner.2) nofun, ?_⟩
    simp [SerialState.output, SerialState.set, ready, Printer.rest, Uart.store, vacant]
  | @restores enabled puts =>
    refine ⟨inv.set (fun prints => prints.elim) nofun, ?_⟩
    simp [SerialState.output, SerialState.set, puts, Printer.rest]
  | flags enabled away =>
    refine ⟨inv.switches (.inl away) s.running enabled, ?_⟩
    simp [SerialState.output]
  | preempted next enabled =>
    have quiet := inv.silent (.inr enabled)
    refine ⟨inv.switches (.inr enabled) next s.enabled, ?_⟩
    simp [SerialState.output, Printer.rest_of_not_prints (quiet next), Printer.rest_of_not_prints (quiet s.running)]
  | yields next away =>
    have quiet := inv.silent (.inl away)
    refine ⟨inv.switches (.inl away) next true, ?_⟩
    simp [SerialState.output, Printer.rest_of_not_prints (quiet next), Printer.rest_of_not_prints (quiet s.running)]

theorem SerialInv.run {labels : List (Option (List (BitVec 8)))} (inv : SerialInv s)
    (run : Lib.Trace SerialStep s labels t) :
    SerialInv t ∧ t.output = s.output ++ uartPuts labels.reduceOption.flatten := by
  induction run with
  | nil s => exact ⟨inv, (List.append_nil _).symm⟩
  | @cons s t u label labels step _ ih =>
    obtain ⟨inv', output⟩ := inv.step step
    obtain ⟨last, all⟩ := ih inv'
    refine ⟨last, ?_⟩
    rw [all, output]
    cases label with
    | none => simp
    | some text => simp [uartPuts]

/-- **Texts arrive whole.** However the tasks that print are interleaved, the line carries a prefix of their texts, one
behind the other in the order in which their printing began; once none is being printed a receiver reads exactly them. -/
theorem texts_arrive_whole {labels : List (Option (List (BitVec 8)))} (fresh : s.Fresh)
    (run : Lib.Trace SerialStep s labels t) : t.uart.line <+: uartPuts labels.reduceOption.flatten ∧
      (t.Quiet → readLines t.uart.line = labels.reduceOption.flatten) := by
  obtain ⟨inv, output⟩ := fresh.inv.run run
  have nothing : s.output = [] := by
    rw [SerialState.output, fresh.line, fresh.udr0, fresh.away]
    rfl
  rw [nothing, List.nil_append, SerialState.output, List.append_assoc] at output
  refine ⟨⟨_, output⟩, fun quiet => ?_⟩
  rw [quiet.udr0, Printer.rest_of_not_prints (quiet.silent t.running), Option.toList_none, List.append_nil,
    List.append_nil] at output
  rw [output, readLines_uartPuts]

end

/-- Two tasks that print nothing yet. -/
def quietLine : SerialState (Fin 2) :=
  { running := 0, enabled := true, uart := { udr0 := none, line := [] }, printers := fun _ => .away }

/-- The first task is interrupted before it gets to disable interrupts, and the second one prints `b` meanwhile. -/
def lateDisable : List (Option (List (BitVec 8))) :=
  [none, none, none, some [98], none, none, none, none, some [97, 10], none, none, none, none, none, none, none, none,
    none, none, none]

theorem quietLine_run : ∃ t, Lib.Trace SerialStep quietLine lateDisable t ∧ t.Quiet := by
  apply Exists.intro
  apply And.intro
  · apply Lib.Trace.cons (.enters [97, 10] rfl)
    apply Lib.Trace.cons (.preempted 1 rfl)
    apply Lib.Trace.cons (.enters [98] rfl)
    apply Lib.Trace.cons (.disables rfl)
    apply Lib.Trace.cons (.polls rfl rfl)
    apply Lib.Trace.cons (.stores rfl)
    apply Lib.Trace.cons (.restores rfl)
    -- The second task's `b` is still in the register.
    apply Lib.Trace.cons (.preempted 0 rfl)
    apply Lib.Trace.cons (.disables rfl)
    apply Lib.Trace.cons .shifts
    apply Lib.Trace.cons (.polls rfl rfl)
    apply Lib.Trace.cons (.stores rfl)
    apply Lib.Trace.cons .shifts
    apply Lib.Trace.cons (.polls rfl rfl)
    apply Lib.Trace.cons (.stores rfl)
    apply Lib.Trace.cons .shifts
    apply Lib.Trace.cons (.polls rfl rfl)
    apply Lib.Trace.cons (.stores rfl)
    apply Lib.Trace.cons .shifts
    apply Lib.Trace.cons (.restores rfl)
    exact .nil _
  · exact ⟨rfl, Fin.forall_fin_two.mpr ⟨id, id⟩⟩

theorem texts_arrive_whole_interleaved : ∃ t, Lib.Trace SerialStep quietLine lateDisable t ∧
    t.uart.line <+: [98, 97, 13, 10] ∧ readLines t.uart.line = [98, 97, 10] := by
  obtain ⟨t, run, quiet⟩ := quietLine_run
  have fresh : quietLine.Fresh := ⟨rfl, rfl, fun _ => rfl⟩
  obtain ⟨sent, received⟩ := texts_arrive_whole fresh run
  exact ⟨t, run, sent, received quiet⟩

end Simplos
