import Simplos.Avr.Cpu

/-!
# AVR instructions and their execution

The instructions the context switch uses. `Instr.effect` is what an instruction does to registers,
flags, stack and memory, `Instr.exec` adds the program counter and control flow. A program maps the
word addresses that hold known code to instructions; execution stops at any other address.

`Runs program P n s t` says that execution from `s` gets to `t` in `n` steps and every instruction on
the way satisfies `P` in the state it is executed in. A block of straight-line code runs from its placement
alone (`Runs.block`).
-/

namespace Avr
set_option autoImplicit false

/-- The I/O registers read by `in` and written by `out`. -/
inductive Io where
  | spl
  | sph
  | sreg
deriving DecidableEq

/-- The pointer registers `r27:r26` and `r31:r30`. -/
inductive Pointer where
  | x
  | z
deriving DecidableEq

def Pointer.low : Pointer → Reg
  | .x => 26
  | .z => 30

def Pointer.high : Pointer → Reg
  | .x => 27
  | .z => 31

/-- `ldInc r p` is `ld r, p+`, `stInc p r` is `st p+, r`, `stDec p r` is `st -p, r`. Offsets of
relative jumps are in words, from the next instruction. -/
inductive Instr where
  | push (r : Reg)
  | pop (r : Reg)
  | inp (r : Reg) (io : Io)
  | out (io : Io) (r : Reg)
  | clr (r : Reg)
  | ldi (r : Reg) (k : Byte)
  | lds (r : Reg) (a : Word)
  | sts (a : Word) (r : Reg)
  | ld (r : Reg) (p : Pointer)
  | ldInc (r : Reg) (p : Pointer)
  | st (p : Pointer) (r : Reg)
  | stInc (p : Pointer) (r : Reg)
  | stDec (p : Pointer) (r : Reg)
  | mov (d r : Reg)
  | or (d r : Reg)
  | ori (r : Reg) (k : Byte)
  | andi (r : Reg) (k : Byte)
  | add (d r : Reg)
  | adc (d r : Reg)
  | nop
  | cli
  | sei
  | cpse (d r : Reg)
  | rjmp (k : Pc)
  | rcall (k : Pc)
  | jmp (a : Pc)
  | call (a : Pc)
  | ret
  | reti
deriving DecidableEq

/-- Known code: the instruction that starts at a word address. -/
abbrev Program := Pc → Option Instr

namespace Cpu

def setReg (s : Cpu) (r : Reg) (b : Byte) : Cpu := { s with regs := Function.update s.regs r b }

def store (s : Cpu) (a : Word) (b : Byte) : Cpu := { s with mem := Function.update s.mem a b }

def pointer (s : Cpu) (p : Pointer) : Word := s.regs p.high ++ s.regs p.low

def setPointer (s : Cpu) (p : Pointer) (a : Word) : Cpu := (s.setReg p.low (lo8 a)).setReg p.high (hi8 a)

/-- A logical operation with result `b` into `r`. -/
def setLogic (s : Cpu) (r : Reg) (b : Byte) : Cpu := { s.setReg r b with sreg := s.sreg.logic b }

/-- `s.regs d + b + carry` into `d`. -/
def setSum (s : Cpu) (d : Reg) (b : Byte) (carry : Bool) : Cpu :=
  { s.setReg d (s.regs d + b + (BitVec.ofBool carry).setWidth 8) with sreg := s.sreg.sum (s.regs d) b carry }

def readIo (s : Cpu) : Io → Byte
  | .spl => lo8 s.sp
  | .sph => hi8 s.sp
  | .sreg => s.sreg.toByte

def writeIo (s : Cpu) (b : Byte) : Io → Cpu
  | .spl => { s with sp := hi8 s.sp ++ b }
  | .sph => { s with sp := b ++ lo8 s.sp }
  | .sreg => { s with sreg := Sreg.ofByte b }

end Cpu

namespace Instr

/-- The length in words. -/
def size : Instr → Pc
  | .lds _ _ => 2
  | .sts _ _ => 2
  | .jmp _ => 2
  | .call _ => 2
  | _ => 1

/-- Control continues at the next instruction. -/
def straight : Instr → Bool
  | .cpse _ _ => false
  | .rjmp _ => false
  | .rcall _ => false
  | .jmp _ => false
  | .call _ => false
  | .ret => false
  | .reti => false
  | _ => true

/-- What an instruction does, the program counter and control flow apart. -/
def effect : Instr → Cpu → Cpu
  | .push r, s => { s with mem := Function.update s.mem s.sp (s.regs r), sp := s.sp - 1 }
  | .pop r, s => { s.setReg r (s.mem (s.sp + 1)) with sp := s.sp + 1 }
  | .inp r io, s => s.setReg r (s.readIo io)
  | .out io r, s => s.writeIo (s.regs r) io
  | .clr r, s => s.setLogic r 0
  | .ldi r k, s => s.setReg r k
  | .lds r a, s => s.setReg r (s.mem a)
  | .sts a r, s => s.store a (s.regs r)
  | .ld r p, s => s.setReg r (s.mem (s.pointer p))
  | .ldInc r p, s => (s.setReg r (s.mem (s.pointer p))).setPointer p (s.pointer p + 1)
  | .st p r, s => s.store (s.pointer p) (s.regs r)
  | .stInc p r, s => (s.store (s.pointer p) (s.regs r)).setPointer p (s.pointer p + 1)
  | .stDec p r, s => (s.store (s.pointer p - 1) (s.regs r)).setPointer p (s.pointer p - 1)
  | .mov d r, s => s.setReg d (s.regs r)
  | .or d r, s => s.setLogic d (s.regs d ||| s.regs r)
  | .ori r k, s => s.setLogic r (s.regs r ||| k)
  | .andi r k, s => s.setLogic r (s.regs r &&& k)
  | .add d r, s => s.setSum d (s.regs r) false
  | .adc d r, s => s.setSum d (s.regs r) s.sreg.c
  | .cli, s => { s with sreg := { s.sreg with i := false } }
  | .sei, s => { s with sreg := { s.sreg with i := true } }
  | .nop, s | .cpse _ _, s | .rjmp _, s | .rcall _, s | .jmp _, s | .call _, s | .ret, s | .reti, s => s

/-- The address after the instruction at `pc`. -/
def skip (program : Program) (pc : Pc) : Pc :=
  match program pc with
  | some i => pc + i.size
  | none => pc + 1

/-- Execution of one instruction. -/
def exec (program : Program) : Instr → Cpu → Cpu
  | .cpse d r, s => { s with pc := if s.regs d = s.regs r then skip program (s.pc + 1) else s.pc + 1 }
  | .rjmp k, s => { s with pc := s.pc + 1 + k }
  | .rcall k, s => { s.pushPc (s.pc + 1) with pc := s.pc + 1 + k }
  | .jmp a, s => { s with pc := a }
  | .call a, s => { s.pushPc (s.pc + 2) with pc := a }
  | .ret, s => s.popPc
  | .reti, s => { s.popPc with sreg := { s.sreg with i := true } }
  | i, s => { i.effect s with pc := s.pc + i.size }

theorem exec_straight {program : Program} {i : Instr} (h : i.straight = true) (s : Cpu) :
    i.exec program s = { i.effect s with pc := s.pc + i.size } := by
  cases i <;> first | rfl | cases h

/-- A comparison of equal registers skips the instruction behind it, whatever its length. -/
theorem exec_cpse_skip {program : Program} {d r : Reg} {s : Cpu} {i : Instr} (behind : program (s.pc + 1) = some i)
    (equal : s.regs d = s.regs r) : (cpse d r).exec program s = { s with pc := s.pc + 1 + i.size } := by
  show { s with pc := if s.regs d = s.regs r then skip program (s.pc + 1) else s.pc + 1 } = _
  rw [if_pos equal, skip, behind]

theorem exec_cpse_next {program : Program} {d r : Reg} {s : Cpu} (different : s.regs d ≠ s.regs r) :
    (cpse d r).exec program s = { s with pc := s.pc + 1 } := by
  show { s with pc := if s.regs d = s.regs r then skip program (s.pc + 1) else s.pc + 1 } = _
  rw [if_neg different]

/-- `ret` and `reti` differ in the interrupt flag. -/
theorem exec_return (program : Program) {i : Instr} (returns : i ∈ [ret, reti]) (s : Cpu) :
    (i.exec program s).pc = returnAddress s.mem s.sp ∧ (i.exec program s).sp = s.sp + 3 := by
  simp only [List.mem_cons, List.not_mem_nil, or_false] at returns
  rcases returns with rfl | rfl
  · exact ⟨rfl, rfl⟩
  · exact ⟨rfl, rfl⟩

/-- The instruction leaves the interrupt flag as it is. -/
def keepsI : Instr → Bool
  | .cli => false
  | .sei => false
  | .reti => false
  | .out .sreg _ => false
  | _ => true

theorem exec_keepsI {program : Program} {i : Instr} (h : i.keepsI = true) (s : Cpu) :
    (i.exec program s).sreg.i = s.sreg.i := by
  cases i with
  | out io r => cases io <;> first | rfl | cases h
  | _ => first | rfl | cases h

/-- The instruction stores only by pushing. -/
def stackOnly : Instr → Bool
  | .push _ => true
  | .pop _ => true
  | .inp _ _ => true
  | .clr _ => true
  | .ldi _ _ => true
  | .lds _ _ => true
  | .andi _ _ => true
  | .add _ _ => true
  | .adc _ _ => true
  | .nop => true
  | _ => false

theorem effect_stackOnly {i : Instr} (h : i.stackOnly = true) (s : Cpu) :
    ((i.effect s).sp = s.sp ∨ (i.effect s).sp = s.sp - 1 ∨ (i.effect s).sp = s.sp + 1) ∧
      ∀ a, a ≠ s.sp → (i.effect s).mem a = s.mem a := by
  cases i with
  | push r => exact ⟨.inr (.inl rfl), fun a other => Function.update_of_ne other _ _⟩
  | pop r => exact ⟨.inr (.inr rfl), fun _ _ => rfl⟩
  | _ => first | exact ⟨.inl rfl, fun _ _ => rfl⟩ | cases h

theorem straight_of_stackOnly {i : Instr} (h : i.stackOnly = true) : i.straight = true := by
  cases i <;> first | rfl | cases h

end Instr

/-- One step of execution, where the code is known. -/
def step (program : Program) (s : Cpu) : Option Cpu := (program s.pc).map fun i => i.exec program s

def steps (program : Program) : Nat → Cpu → Option Cpu
  | 0, s => some s
  | n + 1, s => (step program s).bind (steps program n)

/-- Execution from the first state gets to the second in `n` steps, through instructions that
satisfy `P`. -/
inductive Runs (program : Program) (P : Instr → Cpu → Prop) : Nat → Cpu → Cpu → Prop where
  | refl (s : Cpu) : Runs program P 0 s s
  | next {s t : Cpu} {i : Instr} {n : Nat} (fetch : program s.pc = some i) (holds : P i s)
      (rest : Runs program P n (i.exec program s) t) : Runs program P (n + 1) s t

namespace Runs

variable {program : Program} {P Q : Instr → Cpu → Prop} {s t u : Cpu} {m n : Nat}

theorem trans (first : Runs program P m s t) (second : Runs program P n t u) : Runs program P (m + n) s u := by
  induction first with
  | refl => rwa [Nat.zero_add]
  | next fetch holds _ ih =>
    rw [Nat.succ_add]
    exact .next fetch holds (ih second)

theorem one {i : Instr} (fetch : program s.pc = some i) (holds : P i s) :
    Runs program P 1 s (i.exec program s) := .next fetch holds (.refl _)

theorem mono (weaker : ∀ i c, P i c → Q i c) (h : Runs program P n s t) : Runs program Q n s t := by
  induction h with
  | refl => exact .refl _
  | next fetch holds _ ih => exact .next fetch (weaker _ _ holds) ih

theorem steps (h : Runs program P n s t) : steps program n s = some t := by
  induction h with
  | refl s => rfl
  | next fetch _ _ ih => simp [Avr.steps, step, fetch, ih]

/-- Where a run has begun and not ended, the next instruction is determined and satisfies `P`. -/
theorem uncons {i : Instr} (h : Runs program P n s t) (fetch : program s.pc = some i) :
    s = t ∨ P i s ∧ ∃ m, Runs program P m (i.exec program s) t := by
  cases h with
  | refl => exact .inl rfl
  | next fetch' holds rest =>
    cases fetch.symm.trans fetch'
    exact .inr ⟨holds, _, rest⟩

end Runs

/-! ## Straight-line code -/

/-- `code` lies in program memory from `pc` on. -/
def Placed (program : Program) : Pc → List Instr → Prop
  | _, [] => True
  | pc, i :: is => program pc = some i ∧ Placed program (pc + i.size) is

instance decidablePlaced (program : Program) : (pc : Pc) → (code : List Instr) → Decidable (Placed program pc code)
  | _, [] => .isTrue trivial
  | pc, i :: is =>
    have := decidablePlaced program (pc + i.size) is
    inferInstanceAs (Decidable (program pc = some i ∧ Placed program (pc + i.size) is))

/-- The program that consists of `code` at `pc`, and of `rest` elsewhere. -/
def load : Pc → List Instr → Program → Program
  | _, [], rest => rest
  | pc, i :: is, rest => fun a => if a = pc then some i else load (pc + i.size) is rest a

/-- The length in words of `code`. -/
def codeSize : List Instr → Pc
  | [] => 0
  | i :: is => i.size + codeSize is

theorem codeSize_append (first second : List Instr) :
    codeSize (first ++ second) = codeSize first + codeSize second := by
  induction first with
  | nil => simp [codeSize]
  | cons i is ih => rw [List.cons_append, codeSize, codeSize, ih, BitVec.add_assoc]

theorem placed_append {program : Program} {pc : Pc} {first second : List Instr} :
    Placed program pc (first ++ second) ↔
      Placed program pc first ∧ Placed program (pc + codeSize first) second := by
  induction first generalizing pc with
  | nil => simp [Placed, codeSize]
  | cons i is ih =>
    rw [List.cons_append, Placed, Placed, ih, codeSize, BitVec.add_assoc, and_assoc]

/-- The state after straight-line code. -/
def execAll : List Instr → Cpu → Cpu
  | [], s => s
  | i :: is, s => execAll is { i.effect s with pc := s.pc + i.size }

theorem execAll_append (first second : List Instr) (s : Cpu) :
    execAll (first ++ second) s = execAll second (execAll first s) := by
  induction first generalizing s with
  | nil => rfl
  | cons i is ih => exact ih _

@[simp] theorem execAll_pc (code : List Instr) (s : Cpu) : (execAll code s).pc = s.pc + codeSize code := by
  induction code generalizing s with
  | nil => simp [execAll, codeSize]
  | cons i is ih => rw [execAll, ih, codeSize, BitVec.add_assoc]

/-- **Straight-line code runs** from the address it is placed at to the address behind it. -/
theorem Runs.block {program : Program} {P : Instr → Cpu → Prop} {code : List Instr} {s : Cpu}
    (placed : Placed program s.pc code) (straight : ∀ i ∈ code, i.straight = true)
    (holds : ∀ i ∈ code, ∀ c, P i c) : Runs program P code.length s (execAll code s) := by
  induction code generalizing s with
  | nil => exact .refl s
  | cons i is ih =>
    apply Runs.next placed.1 (holds i List.mem_cons_self s)
    rw [Instr.exec_straight (straight i List.mem_cons_self)]
    apply ih placed.2
    · intro j member
      exact straight j (List.mem_cons_of_mem i member)
    · intro j member
      exact holds j (List.mem_cons_of_mem i member)

/-- **Code that stores only by pushing** leaves the addresses further from the stack pointer than it is
long as they are, all the way. -/
theorem Runs.stack {program : Program} {P : Instr → Cpu → Prop} {code : List Instr} {s : Cpu} {F : Word → Prop}
    (placed : Placed program s.pc code) (stack : ∀ i ∈ code, i.stackOnly = true)
    (far : ∀ a, F a → code.length ≤ (s.sp - a).toNat ∧ (s.sp - a).toNat + code.length < 2 ^ 16)
    (holds : ∀ i ∈ code, ∀ c, (∀ a, F a → c.mem a = s.mem a) → P i c) :
    Runs program P code.length s (execAll code s) := by
  induction code generalizing s with
  | nil => exact .refl s
  | cons i is ih =>
    obtain ⟨moves, keeps⟩ := Instr.effect_stackOnly (stack i List.mem_cons_self) s
    have kept : ∀ a, F a → (i.effect s).mem a = s.mem a := by
      intro a away
      apply keeps
      rintro rfl
      have := (far s.sp away).1
      simp at this
    apply Runs.next placed.1 (holds i List.mem_cons_self s fun _ _ => rfl)
    rw [Instr.exec_straight (Instr.straight_of_stackOnly (stack i List.mem_cons_self))]
    apply ih placed.2
    · intro j member
      exact stack j (List.mem_cons_of_mem i member)
    · intro a away
      obtain ⟨low, high⟩ := far a away
      rw [List.length_cons] at low high
      show is.length ≤ ((i.effect s).sp - a).toNat ∧ ((i.effect s).sp - a).toNat + is.length < 2 ^ 16
      rcases moves with same | down | up
      · rw [same]
        omega
      · rw [down]
        bv_omega
      · rw [up]
        bv_omega
    · intro j member c same
      apply holds j (List.mem_cons_of_mem i member)
      intro a away
      exact (same a away).trans (kept a away)

/-! ## Pushing and popping registers -/

theorem execAll_push (rs : List Reg) (s : Cpu) :
    execAll (rs.map .push) s =
      { s with
        mem := pushBytes s.mem s.sp (rs.map s.regs)
        sp := s.sp - BitVec.ofNat 16 rs.length
        pc := s.pc + BitVec.ofNat 17 rs.length } := by
  induction rs generalizing s with
  | nil => simp [execAll, pushBytes]
  | cons r rs ih =>
    have down : s.sp - 1 - BitVec.ofNat 16 rs.length = s.sp - BitVec.ofNat 16 (rs.length + 1) := by
      rw [BitVec.ofNat_add]
      bv_omega
    have up : s.pc + 1 + BitVec.ofNat 17 rs.length = s.pc + BitVec.ofNat 17 (rs.length + 1) := by
      rw [BitVec.ofNat_add]
      bv_omega
    rw [List.map_cons, execAll, ih, List.length_cons, ← down, ← up]
    rfl

theorem execAll_pop (rs : List Reg) (s : Cpu) :
    execAll (rs.map .pop) s =
      { s with
        regs := popRegs s.mem s.sp s.regs rs
        sp := s.sp + BitVec.ofNat 16 rs.length
        pc := s.pc + BitVec.ofNat 17 rs.length } := by
  induction rs generalizing s with
  | nil => simp [execAll, popRegs]
  | cons r rs ih =>
    have sum : s.sp + 1 + BitVec.ofNat 16 rs.length = s.sp + BitVec.ofNat 16 (rs.length + 1) := by
      rw [BitVec.ofNat_add]
      bv_omega
    have up : s.pc + 1 + BitVec.ofNat 17 rs.length = s.pc + BitVec.ofNat 17 (rs.length + 1) := by
      rw [BitVec.ofNat_add]
      bv_omega
    rw [List.map_cons, execAll, ih, List.length_cons, ← sum, ← up]
    rfl

end Avr
