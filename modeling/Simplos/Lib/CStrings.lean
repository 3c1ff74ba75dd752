import Mathlib

/-!
# C strings in a byte memory

A memory is the list of its bytes from some address on, and an address is an offset into it. Behind
the last byte a string function meets a terminator. `strings` lays strings out one after the other,
each with its terminator; the lemmas say what `strlen`, `strcmp`, `strncmp` and `memcpy` do on such
a layout, whatever bytes follow it.
-/

namespace Lib
set_option autoImplicit false

/-- A string as C functions take it: its characters without the terminator, none of which is 0. It
is shorter than the 16-bit address space, so the size with terminator does not overflow. -/
structure CString where
  chars : List (BitVec 8)
  noTerminator : 0 ∉ chars
  addressable : chars.length + 1 < 2 ^ 16
deriving DecidableEq

def CString.empty : CString := ⟨[], by simp, by simp⟩

/-- The characters of the string at offset `p`. -/
def cstringAt (memory : List (BitVec 8)) (p : Nat) : List (BitVec 8) := (memory.drop p).takeWhile (· ≠ 0)

def strlen (memory : List (BitVec 8)) (p : Nat) : Nat := (cstringAt memory p).length

/-- `strcmp` on the characters of two strings: 0, or the difference at the first byte that differs,
where the terminator counts as 0. -/
def strcmp : List (BitVec 8) → List (BitVec 8) → Int
  | [], [] => 0
  | [], b :: _ => -b.toNat
  | a :: _, [] => a.toNat
  | a :: as, b :: bs => if a = b then strcmp as bs else a.toNat - b.toNat

/-- `strncmp`: at most the first `n` characters are compared. -/
def strncmp (a b : List (BitVec 8)) (n : Nat) : Int := strcmp (a.take n) (b.take n)

def memcpy (memory : List (BitVec 8)) (p : Nat) (bytes : List (BitVec 8)) : List (BitVec 8) :=
  memory.take p ++ bytes ++ memory.drop (p + bytes.length)

/-- The strings one after the other, each with its terminator. -/
def strings (l : List CString) : List (BitVec 8) := l.flatMap fun s => s.chars ++ [0]

theorem strings_cons (s : CString) (l : List CString) : strings (s :: l) = s.chars ++ 0 :: strings l := by
  simp [strings]

theorem strings_append (l l' : List CString) : strings (l ++ l') = strings l ++ strings l' :=
  List.flatMap_append

theorem strings_singleton (s : CString) : strings [s] = s.chars ++ [0] := by
  simp [strings]

/-! ## Reading -/

/-- The characters up to the first terminator. -/
theorem takeWhile_cstring {s : List (BitVec 8)} (noTerminator : 0 ∉ s) (rest : List (BitVec 8)) :
    (s ++ 0 :: rest).takeWhile (· ≠ 0) = s := by
  have all : ∀ c ∈ s, decide (c ≠ 0) = true := fun c member =>
    decide_eq_true fun zero => noTerminator (zero ▸ member)
  rw [List.takeWhile_append_of_pos all, List.takeWhile_cons_of_neg (by simp), List.append_nil]

/-- A string that follows `before` in memory. -/
theorem cstringAt_append (before rest : List (BitVec 8)) (s : CString) :
    cstringAt (before ++ (s.chars ++ 0 :: rest)) before.length = s.chars := by
  rw [cstringAt, List.drop_left, takeWhile_cstring s.noTerminator]

theorem cstringAt_eq_nil {memory : List (BitVec 8)} {p : Nat} :
    cstringAt memory p = [] ↔ ∀ b, memory[p]? = some b → b = 0 := by
  unfold cstringAt
  rw [← List.head?_drop]
  cases memory.drop p with
  | nil => simp
  | cons b rest => simp [List.takeWhile_cons]

theorem strcmp_eq_zero {a b : List (BitVec 8)} (noTerminatorA : 0 ∉ a) (noTerminatorB : 0 ∉ b) :
    strcmp a b = 0 ↔ a = b := by
  induction a generalizing b with
  | nil =>
    cases b with
    | nil => simp [strcmp]
    | cons y b =>
      have nonzero : y.toNat ≠ 0 := fun zero => noTerminatorB (by
        rw [show y = 0 from BitVec.eq_of_toNat_eq zero]
        exact List.mem_cons_self)
      simp only [strcmp, reduceCtorEq, iff_false]
      omega
  | cons x a ih =>
    have nonzero : x.toNat ≠ 0 := fun zero => noTerminatorA (by
      rw [show x = 0 from BitVec.eq_of_toNat_eq zero]
      exact List.mem_cons_self)
    cases b with
    | nil =>
      simp only [strcmp, reduceCtorEq, iff_false]
      omega
    | cons y b =>
      have rest := @ih b (fun h => noTerminatorA (List.mem_cons_of_mem x h))
        fun h => noTerminatorB (List.mem_cons_of_mem y h)
      by_cases same : x = y
      · simp [strcmp, same, rest]
      · have differ : x.toNat ≠ y.toNat := fun h => same (BitVec.eq_of_toNat_eq h)
        rw [strcmp, if_neg same]
        simp only [List.cons.injEq, same, false_and, iff_false]
        omega

/-- The bounded comparison with all of a string looks for a prefix. -/
theorem strncmp_eq_zero {a b : List (BitVec 8)} (noTerminatorA : 0 ∉ a) (noTerminatorB : 0 ∉ b) :
    strncmp a b b.length = 0 ↔ b <+: a := by
  have front : 0 ∉ a.take b.length := fun member => noTerminatorA (List.mem_of_mem_take member)
  rw [strncmp, List.take_length, strcmp_eq_zero front noTerminatorB, List.prefix_iff_eq_take]
  exact eq_comm

/-! ## What is read

The offsets a string function looks at, the terminator included. -/

def strlenReads (memory : List (BitVec 8)) (p : Nat) : List Nat := (List.range (strlen memory p + 1)).map (p + ·)

/-- How many characters two strings have in common at the front. -/
def commonLength : List (BitVec 8) → List (BitVec 8) → Nat
  | a :: as, b :: bs => if a = b then commonLength as bs + 1 else 0
  | _, _ => 0

/-- `strcmp` with the string at `p` as first argument reads up to the first difference. -/
def strcmpReads (memory : List (BitVec 8)) (p : Nat) (other : List (BitVec 8)) : List Nat :=
  (List.range (commonLength (cstringAt memory p) other + 1)).map (p + ·)

def strncmpReads (memory : List (BitVec 8)) (p : Nat) (other : List (BitVec 8)) (n : Nat) : List Nat :=
  (List.range (min n (commonLength (cstringAt memory p) other + 1))).map (p + ·)

theorem strlenReads_below {memory : List (BitVec 8)} {p bound : Nat} :
    (∀ i ∈ strlenReads memory p, i < bound) ↔ p + strlen memory p < bound := by
  simp only [strlenReads, List.mem_map, List.mem_range]
  constructor
  · intro below
    exact below _ ⟨strlen memory p, Nat.lt_succ_self _, rfl⟩
  · rintro inside i ⟨k, small, rfl⟩
    omega

theorem commonLength_le (a b : List (BitVec 8)) : commonLength a b ≤ a.length := by
  induction a generalizing b with
  | nil => exact Nat.zero_le _
  | cons x a ih =>
    cases b with
    | nil => exact Nat.zero_le _
    | cons y b =>
      rw [commonLength]
      split
      · exact Nat.succ_le_succ (ih b)
      · exact Nat.zero_le _

theorem strcmpReads_subset (memory : List (BitVec 8)) (p : Nat) (other : List (BitVec 8)) :
    strcmpReads memory p other ⊆ strlenReads memory p := by
  have common := commonLength_le (cstringAt memory p) other
  intro i read
  simp only [strcmpReads, strlenReads, strlen, List.mem_map, List.mem_range] at read ⊢
  obtain ⟨k, small, rfl⟩ := read
  exact ⟨k, by omega, rfl⟩

theorem strncmpReads_subset (memory : List (BitVec 8)) (p : Nat) (other : List (BitVec 8)) (n : Nat) :
    strncmpReads memory p other n ⊆ strlenReads memory p := by
  have common := commonLength_le (cstringAt memory p) other
  intro i read
  simp only [strncmpReads, strlenReads, strlen, List.mem_map, List.mem_range] at read ⊢
  obtain ⟨k, small, rfl⟩ := read
  exact ⟨k, by omega, rfl⟩

theorem takeWhile_length_lt {l : List (BitVec 8)} {m : Nat} (inside : m ≤ l.length) :
    (l.takeWhile (· ≠ 0)).length < m ↔ ∃ j, j < m ∧ l[j]? = some 0 := by
  induction l generalizing m with
  | nil =>
    obtain rfl := Nat.le_zero.mp inside
    simp
  | cons b l ih =>
    cases m with
    | zero => simp
    | succ m =>
      rw [List.length_cons] at inside
      by_cases terminator : b = 0
      · rw [List.takeWhile_cons_of_neg (by simp [terminator])]
        refine ⟨fun _ => ⟨0, by omega, by simp [terminator]⟩, fun _ => by simp⟩
      · rw [List.takeWhile_cons_of_pos (by exact decide_eq_true terminator), List.length_cons, Nat.succ_lt_succ_iff, ih (by omega)]
        constructor
        · rintro ⟨j, below, zero⟩
          exact ⟨j + 1, by omega, by simpa using zero⟩
        · rintro ⟨j, below, zero⟩
          cases j with
          | zero => exact absurd (Option.some.inj zero) terminator
          | succ j => exact ⟨j, by omega, by simpa using zero⟩

/-- **A string ends inside a region** if a terminator lies between its start and the end of the region. -/
theorem cstring_inside {memory : List (BitVec 8)} {p bound : Nat} (inside : bound ≤ memory.length) :
    p + strlen memory p < bound ↔ ∃ j, p ≤ j ∧ j < bound ∧ memory[j]? = some 0 := by
  by_cases before : p ≤ bound
  · have ends := takeWhile_length_lt (l := memory.drop p) (m := bound - p) (by rw [List.length_drop]; omega)
    have shift : p + strlen memory p < bound ↔ ((memory.drop p).takeWhile (· ≠ 0)).length < bound - p := by
      rw [strlen, cstringAt]
      omega
    rw [shift, ends]
    constructor
    · rintro ⟨j, below, zero⟩
      rw [List.getElem?_drop] at zero
      exact ⟨p + j, by omega, by omega, zero⟩
    · rintro ⟨j, behind, below, zero⟩
      refine ⟨j - p, by omega, ?_⟩
      rw [List.getElem?_drop, Nat.add_sub_cancel' behind]
      exact zero
  · constructor
    · intro
      omega
    · rintro ⟨j, behind, below, -⟩
      omega

/-! ## Writing -/

theorem length_memcpy {memory bytes : List (BitVec 8)} {p : Nat} (inside : p + bytes.length ≤ memory.length) :
    (memcpy memory p bytes).length = memory.length := by
  simp only [memcpy, List.length_append, List.length_take, List.length_drop]
  omega

/-- Copying behind the first `p` bytes extends them. -/
theorem take_memcpy {memory bytes : List (BitVec 8)} {p : Nat} (inside : p ≤ memory.length) :
    (memcpy memory p bytes).take (p + bytes.length) = memory.take p ++ bytes := by
  have length : (memory.take p ++ bytes).length = p + bytes.length := by
    simp [List.length_take, Nat.min_eq_left inside]
  rw [memcpy, ← length, List.take_left]

theorem drop_memcpy {memory bytes : List (BitVec 8)} {p q : Nat} (inside : p ≤ memory.length)
    (before : p + bytes.length ≤ q) : (memcpy memory p bytes).drop q = memory.drop q := by
  obtain ⟨k, rfl⟩ := Nat.exists_eq_add_of_le before
  have length : (memory.take p ++ bytes).length = p + bytes.length := by
    simp [List.length_take, Nat.min_eq_left inside]
  rw [memcpy, ← List.drop_drop, ← length, List.drop_left, List.drop_drop]

theorem length_strings (l : List CString) : (strings l).length = (l.map fun s => s.chars.length + 1).sum := by
  simp [strings, List.length_flatMap]

end Lib
