import Simplos.Kernel.StackCheck
import Simplos.Switch.Handover

/-!
# The stacks of the tasks

Every task has its stack in its own block. The blocks are disjoint and away from the variables of the switch, so a
switch between two of them changes the free part of both stacks and nothing else in any block.
-/

namespace Simplos
set_option autoImplicit false
open Avr

/-! ## Blocks -/

/-- `a` is an address of the block of `slot`. -/
def InBlock (slot : Fin tasksMax) (a : Word) : Prop := blockLow slot ≤ a ∧ a ≤ blockHigh slot

theorem block_toNat (slot : Fin tasksMax) :
    (blockLow slot).toNat = 0x350 + 0x289 * slot ∧ (blockHigh slot).toNat = 0x350 + 0x289 * slot + 0x288 := by
  revert slot
  decide

theorem inBlock_iff {slot : Fin tasksMax} {a : Word} :
    InBlock slot a ↔ 0x350 + 0x289 * slot ≤ a.toNat ∧ a.toNat ≤ 0x350 + 0x289 * slot + 0x288 := by
  obtain ⟨low, high⟩ := block_toNat slot
  rw [InBlock, BitVec.le_def, BitVec.le_def, low, high]

/-- The blocks are disjoint. -/
theorem InBlock.unique {i j : Fin tasksMax} {a : Word} (h : InBlock i a) (h' : InBlock j a) : i = j := by
  rw [inBlock_iff] at h h'
  apply Fin.ext
  omega

/-- No variable of the switch lies in a block. -/
theorem InBlock.notCell {slot : Fin tasksMax} {a : Word} (h : InBlock slot a) : a ∉ switchCells := by
  have bound := slot_lt slot
  have outside : switchCells.all (fun cell => cell.toNat < 0x350 ∨ 0xFFF < cell.toNat) = true := by decide
  intro cell
  have apart := of_decide_eq_true (List.all_eq_true.mp outside a cell)
  rw [inBlock_iff] at h
  omega

/-- `sp` is a stack pointer of `slot` with room for a switch. -/
structure OnStack (slot : Fin tasksMax) (sp : Word) : Prop where
  low : 0x350 + 0x289 * slot + 36 ≤ sp.toNat
  high : sp.toNat ≤ 0x350 + 0x289 * slot + 0x288

namespace OnStack

variable {slot : Fin tasksMax} {sp a : Word}

/-- The bytes a switch stores are in the block. -/
theorem inside (room : OnStack slot sp) (below : (sp - a).toNat < 37) : InBlock slot a := by
  have := slot_lt slot
  have := room.low
  have := room.high
  rw [inBlock_iff]
  constructor <;> bv_omega

theorem clear (room : OnStack slot sp) : Clear sp 37 := by
  intro a cell
  by_contra below
  exact (room.inside (Nat.not_le.mp below)).notCell cell

theorem clear_frame (room : OnStack slot sp) : Clear sp 36 := fun a cell => Nat.le_of_succ_le (room.clear a cell)

/-- The used part of the stack is away from them. -/
theorem above (room : OnStack slot sp) (used : sp < a) (block : InBlock slot a) : 37 ≤ (sp - a).toNat := by
  have := slot_lt slot
  have := room.low
  rw [inBlock_iff] at block
  bv_omega

/-- So are the other blocks. -/
theorem elsewhere {other : Fin tasksMax} (room : OnStack slot sp) (block : InBlock other a) (apart : other ≠ slot) :
    37 ≤ (sp - a).toNat := by
  by_contra below
  exact apart (block.unique (room.inside (Nat.not_le.mp below)))

end OnStack

/-- **A switch changes no block** but the free parts of the two stacks. -/
theorem HandsOver.keeps {mem : Memory} {top sp : Word} {own ctx : Context} {t : Cpu} {prev next i : Fin tasksMax}
    {a : Word} (h : HandsOver mem top own sp ctx t) (room : OnStack prev top) (room' : OnStack next (sp + 36))
    (block : InBlock i a) (used : i = prev → top < a) (used' : i = next → sp + 36 < a) : t.mem a = mem a := by
  apply h.kept a block.notCell
  · by_cases here : i = prev
    · subst here
      exact room.above (used rfl) block
    · exact room.elsewhere block here
  · rintro rfl
    have scratch : InBlock next (sp + 33) := room'.inside (by bv_omega)
    have above := used' (block.unique scratch)
    have := room'.low
    bv_omega

/-- No canary is in a block or among the variables of the switch. -/
theorem canary_outside {a : Word} (low : canaryEnd ≤ a) (high : a ≤ canaryStart) :
    a ∉ switchCells ∧ ∀ slot, ¬ InBlock slot a := by
  unfold canaryEnd at low
  unfold canaryStart at high
  have below : a.toNat < 0x350 ∧ 0x200 ≤ a.toNat := by bv_omega
  have outside : switchCells.all (fun cell => cell.toNat < 0x200 ∨ 0x350 ≤ cell.toNat) = true := by decide
  constructor
  · intro cell
    have apart := of_decide_eq_true (List.all_eq_true.mp outside a cell)
    omega
  · intro slot block
    rw [inBlock_iff] at block
    omega

/-- **A switch leaves the canaries alone.** -/
theorem HandsOver.canaries {mem : Memory} {top sp : Word} {own ctx : Context} {t : Cpu} {prev next : Fin tasksMax}
    (h : HandsOver mem top own sp ctx t) (room : OnStack prev top) (room' : OnStack next (sp + 36))
    (canaries : CanariesIntact mem) : CanariesIntact t.mem := by
  intro a low high
  obtain ⟨noCell, noBlock⟩ := canary_outside low high
  rw [h.kept a noCell, canaries a low high]
  · by_contra below
    exact noBlock prev (room.inside (Nat.not_le.mp below))
  · rintro rfl
    exact noBlock next (room'.inside (by bv_omega))

/-! ## The CPU of a task -/

/-- What a task has of the machine for itself: the registers and the flags a switch restores, the stack pointer, the
program counter, and the bytes of its block above the stack pointer. -/
structure TaskCpu where
  regs : RegFile
  carry : Bool
  halfCarry : Bool
  transfer : Bool
  sp : Word
  pc : Pc
  stack : Memory

/-- A task of `slot` whose registers, flags and program counter are those of `ctx`, with the stack pointer `sp` in
memory `mem`, has the CPU `v`. -/
structure Realises (slot : Fin tasksMax) (v : TaskCpu) (ctx : Context) (sp : Word) (mem : Memory) : Prop where
  regs : v.regs = ctx.regs
  carry : v.carry = ctx.sreg.c
  halfCarry : v.halfCarry = ctx.sreg.h
  transfer : v.transfer = ctx.sreg.t
  pointer : v.sp = sp
  pc : v.pc = ctx.pc
  stack : ∀ a, InBlock slot a → sp < a → mem a = v.stack a
  room : OnStack slot sp

/-- The task of `slot` sleeps: its context is saved at `sp`. -/
def Suspended (slot : Fin tasksMax) (v : TaskCpu) (sp : Word) (mem : Memory) : Prop :=
  ∃ ctx, SavedContext mem sp ctx ∧ Realises slot v ctx (sp + 36) mem

/-- The context of code that runs. -/
def Context.ofCpu (s : Cpu) : Context := ⟨s.regs, s.sreg, s.pc⟩

section

variable {slot : Fin tasksMax} {v : TaskCpu} {ctx : Context} {sp : Word} {mem mem' : Memory}

theorem Realises.congr (h : Realises slot v ctx sp mem) (same : ∀ a, InBlock slot a → sp < a → mem' a = mem a) :
    Realises slot v ctx sp mem' :=
  { h with stack := fun a block used => (same a block used).trans (h.stack a block used) }

/-- A saved context lies in the block of its task. -/
theorem SavedContext.block_congr (saved : SavedContext mem sp ctx) (room : OnStack slot (sp + 36))
    (same : ∀ a, InBlock slot a → mem' a = mem a) : SavedContext mem' sp ctx := by
  apply saved.congr
  intro a inside
  exact same a (room.inside (Nat.lt_succ_of_lt inside))

theorem Suspended.congr (h : Suspended slot v sp mem) (same : ∀ a, InBlock slot a → mem' a = mem a) :
    Suspended slot v sp mem' := by
  obtain ⟨ctx, saved, realises⟩ := h
  exact ⟨ctx, saved.block_congr realises.room same, realises.congr fun a block _ => same a block⟩

end

end Simplos
