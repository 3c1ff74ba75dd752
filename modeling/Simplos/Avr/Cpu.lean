import Mathlib

/-!
# The state of an AVR core with a 3-byte program counter

The register file, the status flags, the stack pointer and the program counter are kept apart from
data memory, so a store reaches neither of them; code that stays out of the lowest addresses does
not see the difference. The stack grows downwards and the stack pointer is the first free byte.
-/

namespace Avr
set_option autoImplicit false

abbrev Byte := BitVec 8
abbrev Word := BitVec 16
/-- A word address of program memory. -/
abbrev Pc := BitVec 17
abbrev Reg := Fin 32
instance neZero_registers : NeZero 32 := ⟨by decide⟩
abbrev RegFile := Reg → Byte
abbrev Memory := Word → Byte

/-- The status register, bit 7 first. -/
@[ext] structure Sreg where
  i : Bool
  t : Bool
  h : Bool
  s : Bool
  v : Bool
  n : Bool
  z : Bool
  c : Bool
deriving DecidableEq

namespace Sreg

def toByte (f : Sreg) : Byte := BitVec.ofBoolListBE [f.i, f.t, f.h, f.s, f.v, f.n, f.z, f.c]

def ofByte (b : Byte) : Sreg where
  i := b.getLsbD 7
  t := b.getLsbD 6
  h := b.getLsbD 5
  s := b.getLsbD 4
  v := b.getLsbD 3
  n := b.getLsbD 2
  z := b.getLsbD 1
  c := b.getLsbD 0

@[simp] theorem ofByte_toByte (f : Sreg) : ofByte f.toByte = f := by
  obtain ⟨i, t, h, s, v, n, z, c⟩ := f
  revert i t h s v n z c
  decide

/-- The flags a logical operation with result `r` leaves; carry, half carry, `t` and `i` are kept. -/
def logic (f : Sreg) (r : Byte) : Sreg := { f with v := false, n := r.msb, s := r.msb, z := decide (r = 0) }

/-- The flags of `a + b + carry`. -/
def sum (f : Sreg) (a b : Byte) (carry : Bool) : Sreg :=
  let r := a + b + (BitVec.ofBool carry).setWidth 8
  let v := a.msb == b.msb && a.msb != r.msb
  { f with
    h := BitVec.carry 4 a b carry, v := v, n := r.msb, s := r.msb ^^ v, z := decide (r = 0),
    c := BitVec.carry 8 a b carry }

@[simp] theorem logic_i (f : Sreg) (r : Byte) : (f.logic r).i = f.i := rfl

@[simp] theorem sum_i (f : Sreg) (a b : Byte) (carry : Bool) : (f.sum a b carry).i = f.i := rfl

end Sreg

structure Cpu where
  regs : RegFile
  sreg : Sreg
  sp : Word
  pc : Pc
  mem : Memory

/-! ## Words in memory -/

/-- The little-endian word at `a`. -/
def readWord (mem : Memory) (a : Word) : Word := mem (a + 1) ++ mem a

theorem readWord_congr {mem mem' : Memory} {a : Word} (low : mem' a = mem a) (high : mem' (a + 1) = mem (a + 1)) :
    readWord mem' a = readWord mem a := by rw [readWord, readWord, low, high]

def lo8 (w : Word) : Byte := w.extractLsb' 0 8
def hi8 (w : Word) : Byte := w.extractLsb' 8 8

@[simp] theorem hi8_append_lo8 (w : Word) : (hi8 w ++ lo8 w : Word) = w := by
  apply BitVec.eq_of_getLsbD_eq
  intro k bound
  rw [hi8, lo8, BitVec.getLsbD_append]
  by_cases low : k < 8
  · simp [low]
  · have rest : k - 8 < 8 := by omega
    have same : 8 + (k - 8) = k := by omega
    simp [low, rest, same]

@[simp] theorem lo8_append (h l : Byte) : lo8 (h ++ l : Word) = l := by
  apply BitVec.eq_of_getLsbD_eq
  intro k bound
  rw [lo8, BitVec.getLsbD_extractLsb', BitVec.getLsbD_append]
  simp [bound]

@[simp] theorem hi8_append (h l : Byte) : hi8 (h ++ l : Word) = h := by
  apply BitVec.eq_of_getLsbD_eq
  intro k bound
  have high : ¬ 8 + k < 8 := by omega
  rw [hi8, BitVec.getLsbD_extractLsb', BitVec.getLsbD_append]
  simp [bound, high]

/-- Memory after the word `w` was stored at `a`, low byte first. -/
def writeWord (mem : Memory) (a w : Word) : Memory := Function.update (Function.update mem a (lo8 w)) (a + 1) (hi8 w)

theorem word_ne_succ (a : Word) : a ≠ a + 1 := by bv_omega

@[simp] theorem readWord_writeWord (mem : Memory) (a w : Word) : readWord (writeWord mem a w) a = w := by
  rw [readWord, writeWord, Function.update_self, Function.update_of_ne (word_ne_succ a), Function.update_self,
    hi8_append_lo8]

theorem writeWord_outside {mem : Memory} {a w b : Word} (low : b ≠ a) (high : b ≠ a + 1) :
    writeWord mem a w b = mem b := by
  rw [writeWord, Function.update_of_ne high, Function.update_of_ne low]

/-! ## The stack -/

/-- Memory after `bytes` were pushed in turn, the first of them at `sp`. -/
def pushBytes : Memory → Word → List Byte → Memory
  | mem, _, [] => mem
  | mem, sp, b :: bs => pushBytes (Function.update mem sp b) (sp - 1) bs

/-- A push of `bytes` changes only the `bytes.length` addresses from `sp` downwards. -/
theorem pushBytes_outside {bytes : List Byte} {sp a : Word} (mem : Memory)
    (outside : bytes.length ≤ (sp - a).toNat) : pushBytes mem sp bytes a = mem a := by
  induction bytes generalizing mem sp with
  | nil => rfl
  | cons b bs ih =>
    rw [List.length_cons] at outside
    have apart : a ≠ sp := by
      rintro rfl
      simp at outside
    have rest : bs.length ≤ (sp - 1 - a).toNat := by bv_omega
    rw [pushBytes, ih _ rest, Function.update_of_ne apart]

/-- The `k`-th byte pushed lies `k` below the first. -/
theorem pushBytes_inside {bytes : List Byte} {sp : Word} (mem : Memory) {k : Nat} {b : Byte}
    (pushed : bytes[k]? = some b) (room : bytes.length ≤ 2 ^ 16) :
    pushBytes mem sp bytes (sp - BitVec.ofNat 16 k) = b := by
  induction bytes generalizing mem sp k with
  | nil => cases pushed
  | cons c cs ih =>
    rw [List.length_cons] at room
    rw [pushBytes]
    cases k with
    | zero =>
      cases pushed
      have first : cs.length ≤ (sp - 1 - (sp - BitVec.ofNat 16 0)).toNat := by bv_omega
      rw [pushBytes_outside _ first]
      simp
    | succ k =>
      have same : sp - BitVec.ofNat 16 (k + 1) = sp - 1 - BitVec.ofNat 16 k := by
        rw [BitVec.ofNat_add]
        bv_omega
      rw [same]
      exact ih _ pushed (by omega)

/-- The register file after `rs` were popped in turn, the first of them from `sp + 1`. -/
def popRegs (mem : Memory) : Word → RegFile → List Reg → RegFile
  | _, regs, [] => regs
  | sp, regs, r :: rs => popRegs mem (sp + 1) (Function.update regs r (mem (sp + 1))) rs

theorem popRegs_of_not_mem {mem : Memory} {sp : Word} {regs : RegFile} {rs : List Reg} {r : Reg}
    (kept : r ∉ rs) : popRegs mem sp regs rs r = regs r := by
  induction rs generalizing sp regs with
  | nil => rfl
  | cons q qs ih =>
    rw [List.mem_cons, not_or] at kept
    rw [popRegs, ih kept.2, Function.update_of_ne kept.1]

/-- Of distinct registers, the `k`-th one popped holds the `k`-th byte above the stack pointer. -/
theorem popRegs_getElem {mem : Memory} {sp : Word} {regs : RegFile} {rs : List Reg} {r : Reg} {k : Nat}
    (distinct : rs.Nodup) (popped : rs[k]? = some r) :
    popRegs mem sp regs rs r = mem (sp + BitVec.ofNat 16 (k + 1)) := by
  induction rs generalizing sp regs k with
  | nil => cases popped
  | cons q qs ih =>
    have unique := List.nodup_cons.mp distinct
    rw [popRegs]
    cases k with
    | zero =>
      cases popped
      rw [popRegs_of_not_mem unique.1]
      simp
    | succ k =>
      have same : sp + BitVec.ofNat 16 (k + 1 + 1) = sp + 1 + BitVec.ofNat 16 (k + 1) := by
        rw [BitVec.ofNat_add (k + 1) 1]
        bv_omega
      rw [same]
      exact ih unique.2 popped

/-! ## Return addresses -/

/-- The bytes of a return address in the order they are pushed: the lowest first. -/
def pcBytes (pc : Pc) : List Byte := [pc.extractLsb' 0 8, pc.extractLsb' 8 8, (pc.setWidth 24).extractLsb' 16 8]

/-- The three bytes above `sp`, in the order `ret` pops them. -/
def stackedAddress (mem : Memory) (sp : Word) : BitVec 24 := mem (sp + 1) ++ mem (sp + 2) ++ mem (sp + 3)

/-- The return address a `ret` with the stack pointer at `sp` takes. -/
def returnAddress (mem : Memory) (sp : Word) : Pc := (mem (sp + 1) ++ mem (sp + 2) ++ mem (sp + 3) : BitVec 24).setWidth 17

theorem returnAddress_eq (mem : Memory) (sp : Word) : returnAddress mem sp = (stackedAddress mem sp).setWidth 17 := rfl

theorem stackedAddress_pushBytes (mem : Memory) (sp : Word) (l m h : Byte) :
    stackedAddress (pushBytes mem (sp + 3) [l, m, h]) sp = h ++ m ++ l := by
  have low : pushBytes mem (sp + 3) [l, m, h] (sp + 3 - BitVec.ofNat 16 0) = l := pushBytes_inside mem rfl (by simp)
  have mid : pushBytes mem (sp + 3) [l, m, h] (sp + 3 - BitVec.ofNat 16 1) = m := pushBytes_inside mem rfl (by simp)
  have high : pushBytes mem (sp + 3) [l, m, h] (sp + 3 - BitVec.ofNat 16 2) = h := pushBytes_inside mem rfl (by simp)
  have atLow : sp + 3 - BitVec.ofNat 16 0 = sp + 3 := by bv_omega
  have atMid : sp + 3 - BitVec.ofNat 16 1 = sp + 2 := by bv_omega
  have atHigh : sp + 3 - BitVec.ofNat 16 2 = sp + 1 := by bv_omega
  rw [atLow] at low
  rw [atMid] at mid
  rw [atHigh] at high
  rw [stackedAddress, low, mid, high]

/-- The number three bytes are. -/
theorem toNat_bytes (h m l : Byte) :
    (h ++ m ++ l : BitVec 24).toNat = h.toNat * 65536 + m.toNat * 256 + l.toNat := by
  rw [BitVec.toNat_append, BitVec.toNat_append, ← Nat.shiftLeft_add_eq_or_of_lt l.isLt,
    ← Nat.shiftLeft_add_eq_or_of_lt m.isLt]
  simp only [Nat.shiftLeft_eq]
  omega

theorem append_bytes_inj {h m l h' m' l' : Byte} :
    (h ++ m ++ l : BitVec 24) = h' ++ m' ++ l' ↔ h = h' ∧ m = m' ∧ l = l' := by
  constructor
  · intro same
    have value := congrArg BitVec.toNat same
    rw [toNat_bytes, toNat_bytes] at value
    have := m.isLt
    have := l.isLt
    have := m'.isLt
    have := l'.isLt
    exact ⟨BitVec.eq_of_toNat_eq (by omega), BitVec.eq_of_toNat_eq (by omega), BitVec.eq_of_toNat_eq (by omega)⟩
  · rintro ⟨rfl, rfl, rfl⟩
    rfl

/-- A program address is the number its bytes are. -/
theorem setWidth_eq_bytes (pc : Pc) :
    pc.setWidth 24 = (pc.setWidth 24).extractLsb' 16 8 ++ pc.extractLsb' 8 8 ++ pc.extractLsb' 0 8 := by
  have bound := pc.isLt
  apply BitVec.eq_of_toNat_eq
  rw [toNat_bytes]
  simp [Nat.shiftRight_eq_div_pow]
  omega

/-- The carry of a byte addition is what the sum exceeds a byte by. -/
theorem carry_toNat (a b : Byte) (c : Bool) :
    (BitVec.carry 8 a b c).toNat = (a.toNat + b.toNat + c.toNat) / 256 := by
  have := a.isLt
  have := b.isLt
  have := c.toNat_le
  rw [BitVec.carry, Nat.mod_eq_of_lt a.isLt, Nat.mod_eq_of_lt b.isLt]
  by_cases overflow : a.toNat + b.toNat + c.toNat ≥ 2 ^ 8
  · rw [decide_eq_true overflow, Bool.toNat_true]
    omega
  · rw [decide_eq_false overflow, Bool.toNat_false]
    omega

theorem ofBool_toNat (b : Bool) : ((BitVec.ofBool b).setWidth 8).toNat = b.toNat := by revert b; decide

/-- Adding `n` to the lowest of three bytes and the carries to the others adds it to the number they are. -/
theorem add_bytes (h m l n : Byte) :
    (h + (BitVec.ofBool (BitVec.carry 8 m 0 (BitVec.carry 8 l n false))).setWidth 8 ++
      (m + (BitVec.ofBool (BitVec.carry 8 l n false)).setWidth 8) ++ (l + n) : BitVec 24) =
      h ++ m ++ l + n.setWidth 24 := by
  have bound := n.isLt
  have zero : (0 : Byte).toNat = 0 := rfl
  have wide : (n.setWidth 24).toNat = n.toNat := BitVec.toNat_setWidth_of_le (by decide)
  apply BitVec.eq_of_toNat_eq
  rw [toNat_bytes, BitVec.toNat_add (h ++ m ++ l), toNat_bytes, wide]
  simp only [BitVec.toNat_add, ofBool_toNat, carry_toNat, Bool.toNat_false, zero]
  omega

namespace Cpu

def pushPc (s : Cpu) (pc : Pc) : Cpu := { s with mem := pushBytes s.mem s.sp (pcBytes pc), sp := s.sp - 3 }

def popPc (s : Cpu) : Cpu := { s with pc := returnAddress s.mem s.sp, sp := s.sp + 3 }

/-- What the core does when it takes an interrupt. -/
def interrupt (s : Cpu) (vector : Pc) : Cpu :=
  { s.pushPc s.pc with sreg := { s.sreg with i := false }, pc := vector }

end Cpu

/-- The three bytes above `sp` are the return address `pc`. -/
def ReturnsTo (mem : Memory) (sp : Word) (pc : Pc) : Prop :=
  ∀ k b, (pcBytes pc)[k]? = some b → mem (sp + 3 - BitVec.ofNat 16 k) = b

theorem ReturnsTo.pushed (mem : Memory) (sp : Word) (pc : Pc) :
    ReturnsTo (pushBytes mem sp (pcBytes pc)) (sp - 3) pc := by
  intro k b entry
  have same : sp - 3 + 3 - BitVec.ofNat 16 k = sp - BitVec.ofNat 16 k := by bv_omega
  rw [same]
  apply pushBytes_inside mem entry
  simp [pcBytes]

theorem ReturnsTo.congr {mem mem' : Memory} {sp : Word} {pc : Pc} (h : ReturnsTo mem sp pc)
    (same : ∀ a, (sp + 3 - a).toNat < 3 → mem' a = mem a) : ReturnsTo mem' sp pc := by
  intro k b entry
  have bound : k < 3 := (List.getElem?_eq_some_iff.mp entry).1
  rw [same, h k b entry]
  bv_omega

theorem returnsTo_iff {mem : Memory} {sp : Word} {pc : Pc} :
    ReturnsTo mem sp pc ↔ stackedAddress mem sp = pc.setWidth 24 := by
  have low : sp + 3 - BitVec.ofNat 16 0 = sp + 3 := by bv_omega
  have mid : sp + 3 - BitVec.ofNat 16 1 = sp + 2 := by bv_omega
  have high : sp + 3 - BitVec.ofNat 16 2 = sp + 1 := by bv_omega
  rw [setWidth_eq_bytes, stackedAddress, append_bytes_inj, ← low, ← mid, ← high]
  constructor
  · intro h
    exact ⟨h 2 _ rfl, h 1 _ rfl, h 0 _ rfl⟩
  · rintro ⟨atHigh, atMid, atLow⟩ k b entry
    have bound : k < 3 := (List.getElem?_eq_some_iff.mp entry).1
    interval_cases k
    · exact atLow.trans (Option.some.inj entry)
    · exact atMid.trans (Option.some.inj entry)
    · exact atHigh.trans (Option.some.inj entry)

theorem ReturnsTo.returnAddress {mem : Memory} {sp : Word} {pc : Pc} (h : ReturnsTo mem sp pc) :
    returnAddress mem sp = pc := by
  rw [returnAddress_eq, returnsTo_iff.mp h, BitVec.setWidth_setWidth_of_le pc (by decide), BitVec.setWidth_eq]

end Avr
