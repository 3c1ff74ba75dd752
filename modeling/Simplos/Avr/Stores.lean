import Simplos.Avr.Instr

/-!
# The addresses code stores to

`Instr.stores` lists the data addresses an instruction writes in a state, the bytes of a return address
included, and `storesAll` those of straight-line code. Memory changes nowhere else, and code whose stores
lie in a region runs inside it.
-/

namespace Avr
set_option autoImplicit false

/-- The addresses a return address takes that is pushed at `sp`. -/
def pcStores (sp : Word) : List Word := [sp, sp - 1, sp - 2]

theorem pushPc_outside {s : Cpu} {a : Word} (pc : Pc) (outside : a ∉ pcStores s.sp) : (s.pushPc pc).mem a = s.mem a := by
  simp only [pcStores, List.mem_cons, List.not_mem_nil, or_false, not_or] at outside
  obtain ⟨low, mid, high⟩ := outside
  apply pushBytes_outside
  show 3 ≤ (s.sp - a).toNat
  bv_omega

namespace Instr

/-- The data addresses an instruction writes. -/
def stores : Instr → Cpu → List Word
  | .push _, s => [s.sp]
  | .sts a _, _ => [a]
  | .st p _, s => [s.pointer p]
  | .stInc p _, s => [s.pointer p]
  | .stDec p _, s => [s.pointer p - 1]
  | .rcall _, s => pcStores s.sp
  | .call _, s => pcStores s.sp
  | _, _ => []

variable {s : Cpu} {a : Word}

theorem effect_outside {i : Instr} (outside : a ∉ i.stores s) : (i.effect s).mem a = s.mem a := by
  cases i with
  | out io r => cases io <;> rfl
  | push | sts | st | stInc | stDec => exact Function.update_of_ne (List.ne_of_not_mem_cons outside) _ _
  | _ => rfl

/-- **An instruction changes only the addresses it stores to.** -/
theorem exec_outside {program : Program} {i : Instr} (outside : a ∉ i.stores s) :
    (i.exec program s).mem a = s.mem a := by
  cases i with
  | rcall k => exact pushPc_outside (s.pc + 1) outside
  | call k => exact pushPc_outside (s.pc + 2) outside
  | cpse | rjmp | jmp | ret | reti => rfl
  | _ => exact effect_outside outside

end Instr

/-- The data addresses straight-line code writes. -/
def storesAll : List Instr → Cpu → List Word
  | [], _ => []
  | i :: is, s => i.stores s ++ storesAll is { i.effect s with pc := s.pc + i.size }

theorem storesAll_append (first second : List Instr) (s : Cpu) :
    storesAll (first ++ second) s = storesAll first s ++ storesAll second (execAll first s) := by
  induction first generalizing s with
  | nil => rfl
  | cons i is ih => rw [List.cons_append, storesAll, storesAll, execAll, ih, List.append_assoc]

/-- **Straight-line code changes only the addresses it stores to.** -/
theorem execAll_outside {code : List Instr} {s : Cpu} {a : Word} (outside : a ∉ storesAll code s) :
    (execAll code s).mem a = s.mem a := by
  induction code generalizing s with
  | nil => rfl
  | cons i is ih =>
    rw [storesAll, List.mem_append, not_or] at outside
    exact (ih outside.2).trans (Instr.effect_outside outside.1)

/-- Pushes store to the addresses from the stack pointer downwards. -/
theorem storesAll_push {rs : List Reg} {s : Cpu} {a : Word} (stored : a ∈ storesAll (rs.map .push) s) :
    (s.sp - a).toNat < rs.length := by
  induction rs generalizing s with
  | nil => cases stored
  | cons r rs ih =>
    rw [List.length_cons]
    rcases List.mem_append.mp stored with here | rest
    · obtain rfl := List.mem_singleton.mp here
      simp
    · have below : (s.sp - 1 - a).toNat < rs.length := ih rest
      bv_omega

/-- **Straight-line code whose stores lie in a region** runs inside it, instruction by instruction. -/
theorem Runs.block_stores {program : Program} {Region : Word → Prop} {code : List Instr} {s : Cpu}
    (placed : Placed program s.pc code) (straight : ∀ i ∈ code, i.straight = true)
    (inside : ∀ a ∈ storesAll code s, Region a) :
    Runs program (fun i c => ∀ a ∈ i.stores c, Region a) code.length s (execAll code s) := by
  induction code generalizing s with
  | nil => exact .refl s
  | cons i is ih =>
    apply Runs.next placed.1
    · intro a stored
      exact inside a (List.mem_append_left _ stored)
    · rw [Instr.exec_straight (straight i List.mem_cons_self)]
      apply ih placed.2
      · intro j member
        exact straight j (List.mem_cons_of_mem i member)
      · intro a stored
        exact inside a (List.mem_append_right _ stored)

end Avr
