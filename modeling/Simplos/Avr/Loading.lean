import Simplos.Avr.Instr

/-!
# Where loaded code is placed

`load` puts a segment of code over a program. It is placed where it was loaded, and what lies apart from it
stays placed; so is every segment of a list that was loaded one over the other.
-/

namespace Avr
set_option autoImplicit false

/-- The number of words of `code`. -/
def words : List Instr → Nat
  | [] => 0
  | i :: is => i.size.toNat + words is

theorem Instr.size_pos (i : Instr) : 0 < i.size.toNat := by
  cases i <;> simp [Instr.size]

/-- The words of `second` begin behind those of `first` and end before they are reached again. -/
def Apart (first second : Pc × List Instr) : Prop :=
  words first.2 ≤ (second.1 - first.1).toNat ∧ (second.1 - first.1).toNat + words second.2 ≤ 2 ^ 17

instance (first second : Pc × List Instr) : Decidable (Apart first second) := inferInstanceAs (Decidable (_ ∧ _))

section

variable {program program' rest : Program} {pc pc' : Pc} {code code' : List Instr}

/-- Loaded code changes only the addresses it covers. -/
theorem load_outside {a : Pc} (outside : words code ≤ (a - pc).toNat) : load pc code rest a = rest a := by
  induction code generalizing pc with
  | nil => rfl
  | cons i is ih =>
    have positive := i.size_pos
    rw [words] at outside
    have other : a ≠ pc := by
      rintro rfl
      rw [BitVec.sub_self, BitVec.toNat_zero] at outside
      omega
    have behind : words is ≤ (a - (pc + i.size)).toNat := by bv_omega
    show (if a = pc then some i else load (pc + i.size) is rest a) = rest a
    rw [if_neg other, ih behind]

/-- Whether code is placed depends on the addresses it covers. -/
theorem Placed.congr (h : Placed program pc code) (fits : words code ≤ 2 ^ 17)
    (same : ∀ a, (a - pc).toNat < words code → program' a = program a) : Placed program' pc code := by
  induction code generalizing pc with
  | nil => trivial
  | cons i is ih =>
    have positive := i.size_pos
    rw [words] at fits same
    have first : (pc - pc).toNat < i.size.toNat + words is := by
      rw [BitVec.sub_self, BitVec.toNat_zero]
      omega
    refine ⟨(same pc first).trans h.1, ih h.2 (by omega) fun a inside => same a ?_⟩
    bv_omega

/-- **Loaded code is placed** where it was loaded. -/
theorem placed_load (fits : words code ≤ 2 ^ 17) : Placed (load pc code rest) pc code := by
  induction code generalizing pc with
  | nil => trivial
  | cons i is ih =>
    have positive := i.size_pos
    rw [words] at fits
    refine ⟨if_pos rfl, (ih (by omega)).congr (by omega) fun a inside => if_neg ?_⟩
    rintro rfl
    bv_omega

/-- Code stays placed when other code is loaded apart from it. -/
theorem Placed.load (h : Placed program pc code) (apart : Apart (pc', code') (pc, code)) :
    Placed (load pc' code' program) pc code := by
  obtain ⟨behind, fits⟩ := apart
  simp only at behind fits
  apply h.congr (by omega)
  intro a inside
  apply load_outside
  bv_omega

end

/-! ## Several segments -/

section

variable {rest : Program} {segs : List (Pc × List Instr)}

theorem Placed.loadAll {pc : Pc} {code : List Instr} (h : Placed rest pc code) (apart : ∀ seg ∈ segs, Apart seg (pc, code)) :
    Placed (segs.foldr (fun seg rest => Avr.load seg.1 seg.2 rest) rest) pc code := by
  induction segs with
  | nil => exact h
  | cons seg segs ih =>
    have loaded := ih fun other member => apart other (List.mem_cons_of_mem seg member)
    exact loaded.load (apart seg List.mem_cons_self)

/-- Segments apart from each other are placed, each where it was loaded. -/
theorem placed_loadAll (fits : ∀ seg ∈ segs, words seg.2 ≤ 2 ^ 17) (apart : segs.Pairwise Apart) :
    ∀ seg ∈ segs, Placed (segs.foldr (fun seg rest => load seg.1 seg.2 rest) rest) seg.1 seg.2 := by
  induction segs with
  | nil => exact fun _ member => absurd member List.not_mem_nil
  | cons first segs ih =>
    obtain ⟨behind, apart⟩ := List.pairwise_cons.mp apart
    intro seg member
    rcases List.mem_cons.mp member with rfl | member
    · exact placed_load (fits seg List.mem_cons_self)
    · have placed := ih (fun other member => fits other (List.mem_cons_of_mem first member)) apart seg member
      exact placed.load (behind seg member)

end

end Avr
