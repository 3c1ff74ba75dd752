import Simplos.Switch.Macros

/-!
# `SET_RETURN_POINT`

The macro pushes the program counter with `rcall`, takes it apart in the order it is popped, adds the twelve
words to its jump byte by byte with the carries, and pushes it again. It is right at every address: where the sum
reaches the end of program memory the highest byte has a bit too many, which a return drops.
-/

namespace Simplos
set_option autoImplicit false
open Avr

/-- The instructions of `SET_RETURN_POINT` that move the return address on its stack. -/
def moveReturnAddress : List Instr :=
  [.pop 16, .pop 17, .pop 18, .ldi 19 12, .add 18 19, .ldi 19 0, .adc 17 19, .adc 16 19, .push 18, .push 17, .push 16]

theorem setReturnPoint_parts (entry : Pc) :
    setReturnPoint entry = [.rcall 0] ++ (moveReturnAddress ++ [.cpse 1 1, .jmp entry, .nop]) := rfl

theorem codeSize_setReturnPoint (entry : Pc) : codeSize (setReturnPoint entry) = 16 := by
  simp [setReturnPoint, codeSize, Instr.size]

/-- The jump the macro makes a return address of. -/
theorem setReturnPoint_jump {program : Program} {pc entry : Pc} (placed : Placed program pc (setReturnPoint entry)) :
    program (pc + 13) = some (.jmp entry) := by
  simp only [setReturnPoint, Placed, Instr.size, BitVec.add_assoc] at placed
  obtain ⟨-, -, -, -, -, -, -, -, -, -, -, -, -, jump, -⟩ := placed
  exact jump

/-- The registers `SET_RETURN_POINT` uses. -/
def returnPointRegisters : List Reg := [16, 17, 18, 19]

/-- The return address on the stack is moved by the twelve words to the jump. -/
theorem execAll_moveReturnAddress (s : Cpu) :
    stackedAddress (execAll moveReturnAddress s).mem s.sp = stackedAddress s.mem s.sp + 12 ∧
      (execAll moveReturnAddress s).sp = s.sp ∧
      (∀ a, 3 ≤ (s.sp + 3 - a).toNat → (execAll moveReturnAddress s).mem a = s.mem a) ∧
      ∀ r, r ∉ returnPointRegisters → (execAll moveReturnAddress s).regs r = s.regs r := by
  have second : s.sp + 1#16 + 1#16 = s.sp + 2#16 := by bv_omega
  have third : s.sp + 2#16 + 1#16 = s.sp + 3#16 := by bv_omega
  have belowThird : s.sp + 3#16 - 1#16 = s.sp + 2#16 := by bv_omega
  have belowSecond : s.sp + 2#16 - 1#16 = s.sp + 1#16 := by bv_omega
  have pushed : (execAll moveReturnAddress s).mem = pushBytes s.mem (s.sp + 3)
      [s.mem (s.sp + 3) + 12,
        s.mem (s.sp + 2) + (BitVec.ofBool (BitVec.carry 8 (s.mem (s.sp + 3)) 12 false)).setWidth 8,
        s.mem (s.sp + 1) + (BitVec.ofBool (BitVec.carry 8 (s.mem (s.sp + 2)) 0
          (BitVec.carry 8 (s.mem (s.sp + 3)) 12 false))).setWidth 8] := by
    simp [moveReturnAddress, execAll, Instr.effect, Cpu.setReg, Cpu.setSum, Sreg.sum, pushBytes, second, third,
      belowThird, belowSecond]
  refine ⟨?_, ?_, ?_, ?_⟩
  · rw [pushed, stackedAddress_pushBytes, add_bytes]
    rfl
  · show s.sp + 1 + 1 + 1 - 1 - 1 - 1 = s.sp
    bv_omega
  · intro a outside
    rw [pushed]
    exact pushBytes_outside s.mem outside
  · intro r other
    simp only [returnPointRegisters, List.mem_cons, List.not_mem_nil, or_false, not_or] at other
    obtain ⟨r16, r17, r18, r19⟩ := other
    simp [moveReturnAddress, execAll, Instr.effect, Cpu.setReg, Cpu.setSum, r16, r17, r18, r19]

/-- What `SET_RETURN_POINT`, entered in `s`, has done when it falls through in `t`. -/
structure SetsReturnPoint (s t : Cpu) : Prop where
  pc : t.pc = s.pc + 16
  sp : t.sp = s.sp - 3
  stacked : stackedAddress t.mem t.sp = (s.pc + 1).setWidth 24 + 12
  kept : ∀ a, 3 ≤ (s.sp - a).toNat → t.mem a = s.mem a
  registers : ∀ r, r ∉ returnPointRegisters → t.regs r = s.regs r

/-- A return with the address left on the stack goes to the jump. -/
theorem SetsReturnPoint.returnAddress {s t : Cpu} (h : SetsReturnPoint s t) : returnAddress t.mem t.sp = s.pc + 13 := by
  rw [returnAddress_eq, h.stacked, BitVec.setWidth_add _ _ (by decide), BitVec.setWidth_setWidth_of_le _ (by decide),
    BitVec.setWidth_eq]
  exact BitVec.add_assoc s.pc 1 12

/-- Short of the end of program memory its bytes are those of an address. -/
theorem SetsReturnPoint.returnsTo {s t : Cpu} (h : SetsReturnPoint s t) (fits : s.pc.toNat + 13 < 2 ^ 17) :
    ReturnsTo t.mem t.sp (s.pc + 13) := by
  rw [returnsTo_iff, h.stacked]
  bv_omega

section

variable {program : Program} {P : Instr → Cpu → Prop} {F : Word → Prop} {s : Cpu} {entry : Pc}

/-- `r1` equals itself, so `CPSE` skips the jump behind it. -/
theorem runs_skip (placed : Placed program s.pc [.cpse 1 1, .jmp entry, .nop])
    (holds : ∀ i ∈ [Instr.cpse 1 1, .jmp entry, .nop], ∀ c, c.mem = s.mem → P i c) :
    Runs program P 2 s { s with pc := s.pc + 4 } := by
  obtain ⟨cpse, jmp, nop, -⟩ := placed
  have tested : Runs program P 1 s _ := .one cpse (holds _ (by simp) s rfl)
  rw [Instr.exec_cpse_skip jmp rfl] at tested
  have passed : Runs program P 1 { s with pc := s.pc + 1 + 2 } _ := .one nop (holds _ (by simp) _ rfl)
  have landed : Instr.nop.exec program { s with pc := s.pc + 1 + 2 } = { s with pc := s.pc + 4 } := by
    show { s with pc := s.pc + 1 + 2 + 1 } = { s with pc := s.pc + 4 }
    rw [BitVec.add_assoc, BitVec.add_assoc]
    rfl
  rw [landed] at passed
  exact tested.trans passed

/-- `rcall .+0` pushes the address behind it and goes on there. -/
theorem exec_rcall_next (program : Program) (s : Cpu) :
    (Instr.rcall 0).exec program s = { s.pushPc (s.pc + 1) with pc := s.pc + 1 } := by
  have next : s.pc + 1 + 0 = s.pc + 1 := BitVec.add_zero _
  show { s.pushPc (s.pc + 1) with pc := s.pc + 1 + 0 } = ({ s.pushPc (s.pc + 1) with pc := s.pc + 1 } : Cpu)
  rw [next]

/-- **`SET_RETURN_POINT`** leaves the return address of its jump on the stack. It touches no address in `F`,
away from the stack pointer, all the way. -/
theorem runs_setReturnPoint (placed : Placed program s.pc (setReturnPoint entry))
    (far : ∀ a, F a → 16 ≤ (s.sp - a).toNat ∧ (s.sp - a).toNat + 16 < 2 ^ 16)
    (holds : ∀ i ∈ setReturnPoint entry, ∀ c, (∀ a, F a → c.mem a = s.mem a) → P i c) :
    ∃ t, Runs program P 14 s t ∧ SetsReturnPoint s t := by
  rw [setReturnPoint_parts] at holds
  rw [setReturnPoint_parts, placed_append, placed_append, BitVec.add_assoc] at placed
  obtain ⟨rcall, moving, test⟩ := placed
  let c : Cpu := { s.pushPc (s.pc + 1) with pc := s.pc + 1 }
  have called : Runs program P 1 s _ := .one (i := .rcall 0) rcall.1 (holds _ (by simp) s fun _ _ => rfl)
  rw [exec_rcall_next] at called
  have outside : ∀ {a}, 3 ≤ (s.sp - a).toNat → c.mem a = s.mem a := by
    intro a away
    have pushed : (pcBytes (s.pc + 1)).length ≤ (s.sp - a).toNat := away
    exact pushBytes_outside s.mem pushed
  have kept : ∀ a, F a → c.mem a = s.mem a := fun a away => outside (Nat.le_trans (by decide) (far a away).1)
  have moving : Placed program c.pc moveReturnAddress := moving
  have moved : Runs program P moveReturnAddress.length c (execAll moveReturnAddress c) := by
    apply Runs.stack (F := F) moving (by decide)
    · intro a away
      obtain ⟨low, high⟩ := far a away
      show 11 ≤ (s.sp - 3 - a).toNat ∧ (s.sp - 3 - a).toNat + 11 < 2 ^ 16
      bv_omega
    · intro i member d same
      exact holds i (by simp [member]) d fun a away => (same a away).trans (kept a away)
  obtain ⟨stacked, sp, keeps, registers⟩ := execAll_moveReturnAddress c
  have at_test : (execAll moveReturnAddress c).pc = s.pc + 12 := by
    rw [execAll_pc]
    show s.pc + 1 + codeSize moveReturnAddress = _
    rw [BitVec.add_assoc]
    rfl
  generalize execAll moveReturnAddress c = d at moved stacked sp keeps registers at_test
  have top : c.sp + 3 = s.sp := BitVec.sub_add_cancel s.sp 3
  rw [top] at keeps
  have rest : ∀ {a}, 3 ≤ (s.sp - a).toNat → d.mem a = s.mem a := fun away => (keeps _ away).trans (outside away)
  have passed : Runs program P 2 d { d with pc := d.pc + 4 } := by
    apply runs_skip
    · rw [at_test]
      exact test
    · intro i member e same
      refine holds i (by simp [member]) e fun a away => (congrFun same a).trans (rest ?_)
      exact Nat.le_trans (by decide) (far a away).1
  have pushed : stackedAddress c.mem c.sp = (s.pc + 1).setWidth 24 := returnsTo_iff.mp (.pushed s.mem s.sp (s.pc + 1))
  refine ⟨_, called.trans (moved.trans passed), ?_, sp, ?_, fun a away => rest away, registers⟩
  · show d.pc + 4 = _
    rw [at_test, BitVec.add_assoc]
    rfl
  · show stackedAddress d.mem d.sp = _
    rw [sp, stacked, pushed]

/-- A return of whatever runs later, with the stack pointer and the three bytes the macro left, goes to its jump
and on to the entry point. -/
theorem SetsReturnPoint.returns {t u : Cpu} {i : Instr} (h : SetsReturnPoint s t)
    (jump : program (s.pc + 13) = some (.jmp entry)) (returns : i ∈ [Instr.ret, .reti])
    (fetch : program u.pc = some i) (sp : u.sp = t.sp) (bytes : ∀ a, (s.sp - a).toNat < 3 → u.mem a = t.mem a) :
    ∃ v w, step program u = some v ∧ v.pc = s.pc + 13 ∧ v.sp = s.sp ∧ step program v = some w ∧ w.pc = entry ∧
      w.sp = s.sp := by
  have same : Avr.returnAddress u.mem u.sp = Avr.returnAddress t.mem t.sp := by
    have third : (s.sp - (t.sp + 1)).toNat < 3 := by rw [h.sp]; bv_omega
    have second : (s.sp - (t.sp + 2)).toNat < 3 := by rw [h.sp]; bv_omega
    have first : (s.sp - (t.sp + 3)).toNat < 3 := by rw [h.sp]; bv_omega
    rw [Avr.returnAddress, Avr.returnAddress, sp, bytes _ third, bytes _ second, bytes _ first]
  obtain ⟨pc, stack⟩ := Instr.exec_return program returns u
  rw [same, h.returnAddress] at pc
  rw [sp, h.sp, BitVec.sub_add_cancel] at stack
  have stepped : step program u = some (i.exec program u) := by rw [step, fetch, Option.map_some]
  have jumped : step program (i.exec program u) = some { i.exec program u with pc := entry } := by
    rw [step, pc, jump, Option.map_some]
    rfl
  exact ⟨_, _, stepped, pc, stack, jumped, rfl, stack⟩

end

/-- **`SET_RETURN_POINT` is right at every address**, with every stack pointer and every register content: it falls
through with three bytes on the stack and nothing else changed but its registers and the flags, and a later return
with these goes to its jump and on to the entry point. Registers, `SP` and `SREG` are apart from data memory here; on
the device they lie below 0x60, and a stack pointer is above 0x200. -/
theorem set_return_point_returns {program : Program} {s : Cpu} {entry : Pc}
    (placed : Placed program s.pc (setReturnPoint entry)) :
    ∃ t, steps program 14 s = some t ∧ t.pc = s.pc + codeSize (setReturnPoint entry) ∧ t.sp = s.sp - 3 ∧
      (∀ a, 3 ≤ (s.sp - a).toNat → t.mem a = s.mem a) ∧ (∀ r, r ∉ returnPointRegisters → t.regs r = s.regs r) ∧
      program (s.pc + 13) = some (.jmp entry) ∧
      ∀ u i, i ∈ [Instr.ret, .reti] → program u.pc = some i → u.sp = t.sp →
        (∀ a, (s.sp - a).toNat < 3 → u.mem a = t.mem a) →
        ∃ v w, step program u = some v ∧ v.pc = s.pc + 13 ∧ v.sp = s.sp ∧ step program v = some w ∧ w.pc = entry ∧
          w.sp = s.sp := by
  have jump := setReturnPoint_jump placed
  obtain ⟨t, run, sets⟩ := runs_setReturnPoint (P := fun _ _ => True) (F := fun _ => False) placed
    (fun _ => False.elim) fun _ _ _ _ => trivial
  refine ⟨t, run.steps, ?_, sets.sp, sets.kept, sets.registers, jump, ?_⟩
  · rw [codeSize_setReturnPoint, sets.pc]
  · intro u i returns fetch sp bytes
    exact sets.returns jump returns fetch sp bytes

/-- `SET_RETURN_POINT` at an address where both carries are set, and a `ret` somewhere else. -/
def straddlingProgram : Program := load 0xFFF4 (setReturnPoint 0x300) (load 0x400 [.ret] fun _ => none)

def straddlingCpu : Cpu where
  regs r := BitVec.ofNat 8 r.val
  sreg := ⟨false, false, false, false, false, false, false, false⟩
  sp := 0x800
  pc := 0xFFF4
  mem _ := 0

theorem set_return_point_returns_straddling :
    ∃ t v w, steps straddlingProgram 14 straddlingCpu = some t ∧
      step straddlingProgram { t with pc := 0x400 } = some v ∧ v.pc = 0x10001 ∧
      step straddlingProgram v = some w ∧ w.pc = 0x300 ∧ w.sp = 0x800 := by
  have placed : Placed straddlingProgram straddlingCpu.pc (setReturnPoint 0x300) := by decide +kernel
  obtain ⟨t, run, -, -, -, -, -, returns⟩ := set_return_point_returns placed
  have ret : straddlingProgram 0x400 = some .ret := by decide +kernel
  obtain ⟨v, w, first, at_jump, -, second, at_entry, back⟩ :=
    returns { t with pc := 0x400 } .ret List.mem_cons_self ret rfl fun _ _ => rfl
  exact ⟨t, v, w, run, first, at_jump, second, at_entry, back⟩

end Simplos
