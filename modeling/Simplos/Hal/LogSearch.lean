import Simplos.Hal.Log

/-!
# What the searches of the log find

The loop stops at the first candidate that ends behind the log, and its test is inclusive: a
candidate may end exactly where the next entry would start. So behind the entries it also visits one
empty candidate, if the byte there happens to be a terminator.
-/

namespace Simplos
set_option autoImplicit false
open Lib

/-- The loop visits the entries that start at `before.length`, then possibly one empty candidate. -/
theorem searchEntries_strings {memory : List (BitVec 8)} (found : List (BitVec 8) → Bool) (entries : List CString)
    (before rest : List (BitVec 8)) (layout : memory = before ++ (strings entries ++ rest)) :
    searchEntries memory (before.length + (strings entries).length) found before.length =
      (entries.any (fun e => found e.chars) ||
        (decide (cstringAt memory (before.length + (strings entries).length) = []) && found [])) := by
  induction entries generalizing before with
  | nil =>
    have last : searchEntries memory before.length found (before.length + 0 + 1) = false := by
      rw [searchEntries, if_neg (by omega)]
    have stop : before.length + strlen memory before.length ≤ before.length ↔ cstringAt memory before.length = [] := by
      rw [strlen, ← List.length_eq_zero_iff]
      omega
    simp only [strings, List.flatMap_nil, List.length_nil, Nat.add_zero, List.any_nil, Bool.false_or]
    rw [searchEntries]
    by_cases empty : cstringAt memory before.length = []
    · have length : strlen memory before.length = 0 := by rw [strlen, empty, List.length_nil]
      rw [if_pos (stop.mpr empty), length, last, empty]
      simp
    · rw [if_neg (stop.not.mpr empty)]
      simp [empty]
  | cons e entries ih =>
    have here : cstringAt memory before.length = e.chars := by
      rw [layout, strings_cons, List.append_assoc, List.cons_append, cstringAt_append]
    have length : strlen memory before.length = e.chars.length := by rw [strlen, here]
    have size : (strings (e :: entries)).length = e.chars.length + 1 + (strings entries).length := by
      rw [strings_cons, List.length_append, List.length_cons]
      omega
    have start : (before ++ (e.chars ++ [0])).length = before.length + e.chars.length + 1 := by
      simp [Nat.add_assoc]
    have next := ih (before ++ (e.chars ++ [0])) (by rw [layout, strings_cons]; simp)
    have limit : before.length + (strings (e :: entries)).length =
        before.length + e.chars.length + 1 + (strings entries).length := by omega
    rw [start, ← limit] at next
    rw [searchEntries, length, here, if_pos (by omega), next, List.any_cons]
    cases found e.chars <;> simp

/-- The whole search of a log that holds `entries`. -/
theorem LogInv.search {log : Log} {entries : List CString} (inv : LogInv log entries)
    (found : List (BitVec 8) → Bool) :
    searchEntries log.memory log.nextEntryIndex.toNat found 0 =
      (entries.any (fun e => found e.chars) ||
        (decide (cstringAt log.memory log.nextEntryIndex.toNat = []) && found [])) := by
  have count := inv.count
  have inside := inv.inside
  have length : (strings entries).length = log.nextEntryIndex.toNat := by
    rw [← inv.content, List.length_take, Nat.min_eq_left (by omega)]
  have layout : log.memory = [] ++ (strings entries ++ log.memory.drop log.nextEntryIndex.toNat) := by
    rw [← inv.content, List.nil_append, List.take_append_drop]
  have visited := searchEntries_strings found entries [] _ layout
  rwa [length, List.length_nil, Nat.zero_add] at visited

/-- The byte where the next entry would start is a terminator, as far as the search can tell. -/
def Log.terminated (log : Log) : Bool := decide (log.memory.getD log.nextEntryIndex.toNat 0 = 0)

theorem terminated_iff (log : Log) : log.terminated = true ↔ cstringAt log.memory log.nextEntryIndex.toNat = [] := by
  rw [Log.terminated, decide_eq_true_eq, cstringAt_eq_nil, List.getD_eq_getElem?_getD]
  cases log.memory[log.nextEntryIndex.toNat]? with
  | none => simp
  | some b => simp

/-- The test of `contains_entry` holds of exactly one string. -/
theorem exact_test (e : CString) (candidate : List (BitVec 8)) (noTerminator : 0 ∉ candidate) :
    (decide (e.chars.length = candidate.length) && decide (strcmp candidate e.chars = 0)) = decide (candidate = e.chars) := by
  rw [Bool.eq_iff_iff, Bool.and_eq_true, decide_eq_true_eq, decide_eq_true_eq, decide_eq_true_eq,
    strcmp_eq_zero noTerminator e.noTerminator]
  exact ⟨fun h => h.2, fun h => ⟨by rw [h], h⟩⟩

theorem CString_ext {a b : CString} (same : a.chars = b.chars) : a = b := by
  cases a
  cases b
  cases same
  rfl

theorem length_eq_zero_iff_empty (e : CString) : e.chars.length = 0 ↔ e = .empty :=
  ⟨fun zero => CString_ext (List.length_eq_zero_iff.mp zero), fun same => by rw [same]; rfl⟩

/-- Some entry passes the test if the string is one of them. -/
theorem exact_any (e : CString) (entries : List CString) :
    (entries.any fun entry => decide (e.chars.length = entry.chars.length) &&
      decide (strcmp entry.chars e.chars = 0)) = true ↔ e ∈ entries := by
  rw [List.any_eq_true]
  constructor
  · rintro ⟨entry, member, equal⟩
    rw [exact_test e entry.chars entry.noTerminator, decide_eq_true_eq] at equal
    rwa [CString_ext equal] at member
  · intro member
    exact ⟨e, member, by rw [exact_test e e.chars e.noTerminator]; simp⟩

/-- The empty candidate passes the test for the empty string. -/
theorem exact_empty (e : CString) :
    (decide (e.chars.length = ([] : List (BitVec 8)).length) && decide (strcmp [] e.chars = 0)) = true ↔ e = .empty := by
  rw [exact_test e [] List.not_mem_nil, decide_eq_true_eq]
  exact ⟨fun h => CString_ext h.symm, fun h => by rw [h]; rfl⟩

/-- **What `contains_entry` finds**: the entries, and the empty string also when a terminator
follows them. -/
theorem LogInv.contains {log : Log} {entries : List CString} (inv : LogInv log entries) (e : CString)
    (short : e.chars.length ≤ 99) :
    log.containsEntry e = true ↔ e ∈ entries ∨ (e = .empty ∧ log.terminated = true) := by
  have size : ¬ BitVec.ofNat 16 (e.chars.length + 1) > (100 : BitVec 16) := by
    rw [gt_iff_lt, BitVec.lt_def, size_toNat e]
    exact Nat.not_lt.mpr (Nat.succ_le_succ short)
  rw [Log.containsEntry, if_neg size, Log.containsEntryChars, inv.search, Bool.or_eq_true, exact_any,
    Bool.and_eq_true, exact_empty, decide_eq_true_eq, ← terminated_iff, and_comm]

/-- **The log finds exactly what was logged** for every query except the empty string on a log whose
entries do not contain it and are followed by a terminator. -/
theorem containsEntry_iff_exactly_when (storage : LogStorage) (calls : List LogCall) (e : CString)
    (short : e.chars.length ≤ 99) :
    ((Log.calls storage calls).1.containsEntry e = true ↔ e ∈ (Log.calls storage calls).2) ↔
      (e ≠ .empty ∨ .empty ∈ (Log.calls storage calls).2 ∨ (Log.calls storage calls).1.terminated = false) := by
  rw [(LogInv.calls storage calls).contains e short]
  by_cases isEmpty : e = .empty
  · subst isEmpty
    by_cases logged : CString.empty ∈ (Log.calls storage calls).2 <;>
      cases terminated : (Log.calls storage calls).1.terminated <;> simp [logged]
  · simp [isEmpty]

theorem containsEntry_finds_logged_entry :
    ((Log.calls ⟨[7, 7, 7, 7], 4, by decide, by decide⟩ [.addEntry ⟨[65], by decide, by decide⟩]).1.containsEntry
        ⟨[65], by decide, by decide⟩ = true ↔
      (⟨[65], by decide, by decide⟩ : CString) ∈
        (Log.calls ⟨[7, 7, 7, 7], 4, by decide, by decide⟩ [.addEntry ⟨[65], by decide, by decide⟩]).2) :=
  (containsEntry_iff_exactly_when ⟨[7, 7, 7, 7], 4, by decide, by decide⟩ [.addEntry ⟨[65], by decide, by decide⟩]
    ⟨[65], by decide, by decide⟩ (by decide)).mpr (.inl (by decide))

/-- An empty log over a zeroed buffer claims to contain the empty string. -/
theorem containsEntry_finds_empty_string_in_empty_log :
    ¬ ∀ (storage : LogStorage) (calls : List LogCall) (e : CString), e.chars.length ≤ 99 →
      ((Log.calls storage calls).1.containsEntry e = true ↔ e ∈ (Log.calls storage calls).2) := by
  intro always
  have query := always ⟨[0, 0], 2, by decide, by decide⟩ [] .empty (by decide)
  have found := ((LogInv.calls ⟨[0, 0], 2, by decide, by decide⟩ []).contains .empty (by decide)).mpr (.inr ⟨rfl, rfl⟩)
  exact absurd (query.mp found) List.not_mem_nil

/-! ## Prefix search -/

theorem prefix_any (e : CString) (entries : List CString) :
    (entries.any fun entry => decide (strncmp entry.chars e.chars e.chars.length = 0)) = true ↔
      ∃ entry ∈ entries, e.chars <+: entry.chars := by
  simp only [List.any_eq_true, decide_eq_true_eq, strncmp_eq_zero (CString.noTerminator _) e.noTerminator]

/-- The empty candidate matches no query. -/
theorem prefix_empty {e : CString} (nonempty : e ≠ .empty) :
    decide (strncmp [] e.chars e.chars.length = 0) = false := by
  rw [decide_eq_false_iff_not, strncmp_eq_zero List.not_mem_nil e.noTerminator, List.prefix_nil,
    ← List.length_eq_zero_iff]
  exact (length_eq_zero_iff_empty e).not.mpr nonempty

/-- **What `contains_entry_starting_with` finds**, up to the size of its local buffer. -/
theorem LogInv.containsStartingWith {log : Log} {entries : List CString} (inv : LogInv log entries) (e : CString) :
    log.containsEntryStartingWith e = true ↔
      e.chars.length ≤ 49 ∧ e ≠ .empty ∧ ∃ entry ∈ entries, e.chars <+: entry.chars := by
  have limit : (50 : BitVec 16).toNat = 50 := rfl
  have size := size_toNat e
  unfold Log.containsEntryStartingWith Log.containsEntryStartingWithChars
  by_cases short : e.chars.length ≤ 49
  · rw [if_neg (by rw [gt_iff_lt, BitVec.lt_def]; omega)]
    by_cases empty : e = .empty
    · rw [if_pos ((length_eq_zero_iff_empty e).mpr empty)]
      simp [empty]
    · rw [if_neg ((length_eq_zero_iff_empty e).not.mpr empty), inv.search, Bool.or_eq_true, Bool.and_eq_true, prefix_any,
        prefix_empty empty]
      simp [short, empty]
  · rw [if_pos (by rw [gt_iff_lt, BitVec.lt_def]; omega)]
    simp [short]

/-- **Prefix search agrees with the entries and with exact search** exactly for the queries of at most 49 characters,
and for longer ones that no entry starts with. -/
theorem prefix_search_agrees_iff (storage : LogStorage) (calls : List LogCall) (e : CString)
    (acceptable : e.chars.length ≤ 99) :
    let log := (Log.calls storage calls).1
    let entries := (Log.calls storage calls).2
    ((log.containsEntryStartingWith e = true ↔ e ≠ .empty ∧ ∃ entry ∈ entries, e.chars <+: entry.chars) ∧
        (e ≠ .empty → log.containsEntry e = true → log.containsEntryStartingWith e = true)) ↔
      (e.chars.length ≤ 49 ∨ ¬ ∃ entry ∈ entries, e.chars <+: entry.chars) := by
  intro log entries
  have inv : LogInv log entries := .calls storage calls
  rw [inv.containsStartingWith e, inv.contains e acceptable]
  by_cases short : e.chars.length ≤ 49
  · simp only [short, true_and, iff_self, true_or, iff_true]
    intro nonempty contained
    rcases contained with member | ⟨empty, -⟩
    · exact ⟨nonempty, e, member, List.prefix_rfl⟩
    · exact absurd empty nonempty
  · have nonempty : e ≠ .empty := by
      rintro rfl
      exact short (Nat.zero_le _)
    by_cases started : ∃ entry ∈ entries, e.chars <+: entry.chars
    · simp [short, nonempty, started]
    · have notEntry : e ∉ entries := fun member => started ⟨e, member, List.prefix_rfl⟩
      simp [short, nonempty, started, notEntry]

/-- A string of `n` times the letter A. -/
def letters (n : Nat) (short : n < 100) : CString where
  chars := List.replicate n 65
  noTerminator := by
    rw [List.mem_replicate]
    rintro ⟨-, zero⟩
    exact absurd zero (by decide)
  addressable := by
    rw [List.length_replicate]
    omega

def lettersStorage : LogStorage := ⟨List.replicate 60 7, 60, by decide, by decide⟩

theorem prefix_search_finds_49_letters :
    (Log.calls lettersStorage [.addEntry (letters 50 (by decide))]).1.containsEntryStartingWith
      (letters 49 (by decide)) = true := by
  have agrees := prefix_search_agrees_iff lettersStorage [.addEntry (letters 50 (by decide))] (letters 49 (by decide))
    (by decide)
  refine (agrees.mpr (.inl (by decide))).1.mpr ⟨by decide, letters 50 (by decide), ?_, ?_⟩
  · decide +kernel
  · decide

/-- **An entry of 50 characters is not found by its prefix** of 50 characters, while it is contained. -/
theorem prefix_search_misses_50_letters :
    (Log.calls lettersStorage [.addEntry (letters 50 (by decide))]).1.containsEntry (letters 50 (by decide)) = true ∧
      (Log.calls lettersStorage [.addEntry (letters 50 (by decide))]).1.containsEntryStartingWith
        (letters 50 (by decide)) = false := by
  have inv := LogInv.calls lettersStorage [.addEntry (letters 50 (by decide))]
  constructor
  · refine (inv.contains _ (by decide)).mpr (.inl ?_)
    decide +kernel
  · rw [Bool.eq_false_iff, ne_eq, inv.containsStartingWith]
    rintro ⟨short, -⟩
    exact absurd short (by decide)

end Simplos
