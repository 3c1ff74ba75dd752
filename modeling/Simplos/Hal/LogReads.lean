import Simplos.Hal.LogSearch

/-!
# Which bytes the searches of the log read

Each search measures the next candidate before it tests whether that is still in the log, so behind the last
entry it reads on to the next terminator, wherever that is. The searches are run here with a record of the
offsets they read.
-/

namespace Simplos
set_option autoImplicit false
open Lib

/-- `searchEntries` with the offsets it reads; `testReads` are those of the test at an offset. -/
def tracedSearch (memory : List (BitVec 8)) (limit : Nat) (found : List (BitVec 8) → Bool) (testReads : Nat → List Nat)
    (next : Nat) : Bool × List Nat :=
  let nextEntryLength := strlen memory next
  if next + nextEntryLength ≤ limit then
    if found (cstringAt memory next) then (true, strlenReads memory next ++ testReads next)
    else
      let rest := tracedSearch memory limit found testReads (next + nextEntryLength + 1)
      (rest.1, strlenReads memory next ++ testReads next ++ rest.2)
  else (false, strlenReads memory next)
termination_by limit + 1 - next

/-- `contains_entry(const ProgmemString &)` with the offsets it reads. -/
def Log.tracedContainsEntry (log : Log) (expectedEntry : CString) : Bool × List Nat :=
  if BitVec.ofNat 16 (expectedEntry.chars.length + 1) > (100 : BitVec 16) then (false, [])
  else
    tracedSearch log.memory log.nextEntryIndex.toNat
      (fun candidate => decide (expectedEntry.chars.length = candidate.length) &&
        decide (strcmp candidate expectedEntry.chars = 0))
      (fun next =>
        if expectedEntry.chars.length = strlen log.memory next then strcmpReads log.memory next expectedEntry.chars else [])
      0

/-- `contains_entry_starting_with(const ProgmemString &)` with the offsets it reads. -/
def Log.tracedContainsEntryStartingWith (log : Log) (expectedEntry : CString) : Bool × List Nat :=
  if BitVec.ofNat 16 (expectedEntry.chars.length + 1) > (50 : BitVec 16) then (false, [])
  else if expectedEntry.chars.length = 0 then (false, [])
  else
    tracedSearch log.memory log.nextEntryIndex.toNat
      (fun candidate => decide (strncmp candidate expectedEntry.chars expectedEntry.chars.length = 0))
      (fun next => strncmpReads log.memory next expectedEntry.chars expectedEntry.chars.length) 0

/-! ## The traced searches are the searches -/

theorem tracedSearch_fst (memory : List (BitVec 8)) (limit : Nat) (found : List (BitVec 8) → Bool)
    (testReads : Nat → List Nat) (next : Nat) :
    (tracedSearch memory limit found testReads next).1 = searchEntries memory limit found next := by
  fun_induction tracedSearch memory limit found testReads next with
  | case1 next _ inside here =>
    rw [searchEntries, if_pos inside, if_pos here]
  | case2 next _ inside here _ ih =>
    rw [searchEntries, if_pos inside, if_neg here]
    exact ih
  | case3 next _ outside =>
    rw [searchEntries, if_neg outside]

theorem tracedContainsEntry_fst (log : Log) (e : CString) : (log.tracedContainsEntry e).1 = log.containsEntry e := by
  unfold Log.tracedContainsEntry Log.containsEntry Log.containsEntryChars
  split
  · rfl
  · exact tracedSearch_fst ..

theorem tracedContainsEntryStartingWith_fst (log : Log) (e : CString) :
    (log.tracedContainsEntryStartingWith e).1 = log.containsEntryStartingWith e := by
  unfold Log.tracedContainsEntryStartingWith Log.containsEntryStartingWith Log.containsEntryStartingWithChars
  split
  · rfl
  · by_cases empty : e.chars.length = 0
    · rw [if_pos empty, if_pos empty]
    · rw [if_neg empty, if_neg empty]
      exact tracedSearch_fst ..

/-! ## What they read -/

/-- The candidate at `n` behind the entries ends inside the bound, and so does the one behind it if it is empty and
does not pass the test. -/
def TailInside (memory : List (BitVec 8)) (found : List (BitVec 8) → Bool) (bound n : Nat) : Prop :=
  n + strlen memory n < bound ∧ (strlen memory n = 0 → found [] = true ∨ n + 1 + strlen memory (n + 1) < bound)

section

variable {memory : List (BitVec 8)} {found : List (BitVec 8) → Bool} {testReads : Nat → List Nat} {bound : Nat}

theorem all_append {P : Nat → Prop} {l l' : List Nat} : (∀ i ∈ l ++ l', P i) ↔ (∀ i ∈ l, P i) ∧ ∀ i ∈ l', P i := by
  simp only [List.mem_append, or_imp, forall_and]

/-- The reads of one candidate are those of its length. -/
theorem candidate_inside (tests : ∀ p, testReads p ⊆ strlenReads memory p) (p : Nat) :
    (∀ i ∈ strlenReads memory p ++ testReads p, i < bound) ↔ p + strlen memory p < bound := by
  rw [all_append, strlenReads_below]
  refine ⟨And.left, fun inside => ⟨inside, ?_⟩⟩
  intro i read
  exact strlenReads_below.mpr inside i (tests p read)

/-- A search that finds none of the entries goes on behind them. -/
theorem tracedSearch_tail (tests : ∀ p, testReads p ⊆ strlenReads memory p) (n : Nat) :
    (∀ i ∈ (tracedSearch memory n found testReads n).2, i < bound) ↔ TailInside memory found bound n := by
  rw [tracedSearch, TailInside]
  by_cases empty : strlen memory n = 0
  · have none : cstringAt memory n = [] := List.length_eq_zero_iff.mp empty
    have behind : tracedSearch memory n found testReads (n + 0 + 1) = (false, strlenReads memory (n + 1)) := by
      rw [tracedSearch, if_neg (by omega)]
    simp only [empty, Nat.add_zero, Nat.le_refl, if_true, none]
    rw [Nat.add_zero] at behind
    by_cases passes : found [] = true
    · rw [if_pos passes, candidate_inside tests, empty]
      simp [passes]
    · rw [if_neg passes, behind, all_append, candidate_inside tests, strlenReads_below, empty]
      simp [passes]
  · rw [if_neg (by omega), strlenReads_below]
    simp [empty]

/-- **The reads of a search** over the entries that start at `before.length` stay below the bound if the search stops
at an entry, or what it reads behind them does. -/
theorem tracedSearch_inside (tests : ∀ p, testReads p ⊆ strlenReads memory p) (entries : List CString)
    (before rest : List (BitVec 8)) (layout : memory = before ++ (strings entries ++ rest))
    (inside : before.length + (strings entries).length ≤ bound) :
    (∀ i ∈ (tracedSearch memory (before.length + (strings entries).length) found testReads before.length).2, i < bound) ↔
      entries.any (fun e => found e.chars) = true ∨
        TailInside memory found bound (before.length + (strings entries).length) := by
  induction entries generalizing before with
  | nil =>
    simp only [strings, List.flatMap_nil, List.length_nil, Nat.add_zero, List.any_nil, Bool.false_eq_true, false_or]
    exact tracedSearch_tail tests before.length
  | cons e entries ih =>
    have here : cstringAt memory before.length = e.chars := by
      rw [layout, strings_cons, List.append_assoc, List.cons_append, cstringAt_append]
    have length : strlen memory before.length = e.chars.length := by rw [strlen, here]
    have size : (strings (e :: entries)).length = e.chars.length + 1 + (strings entries).length := by
      rw [strings_cons, List.length_append, List.length_cons]
      omega
    have start : (before ++ (e.chars ++ [0])).length = before.length + e.chars.length + 1 := by
      simp [Nat.add_assoc]
    have limit : before.length + (strings (e :: entries)).length =
        before.length + e.chars.length + 1 + (strings entries).length := by omega
    have next := ih (before ++ (e.chars ++ [0])) (by rw [layout, strings_cons]; simp) (by omega)
    rw [start, ← limit] at next
    rw [tracedSearch, length, here, if_pos (by omega), List.any_cons, Bool.or_eq_true]
    by_cases passes : found e.chars = true
    · rw [if_pos passes, candidate_inside tests, length]
      simp only [passes, true_or, iff_true]
      omega
    · rw [if_neg passes, all_append, candidate_inside tests, length, next]
      have ends : before.length + e.chars.length < bound := by omega
      simp only [passes, Bool.false_eq_true, false_or, ends, true_and]

end

/-! ## Where they end -/

/-- A terminator lies in the buffer behind the byte where the next entry would start. -/
def Log.TerminatedBehind (log : Log) : Prop :=
  ∃ j, log.nextEntryIndex.toNat < j ∧ j < log.maxEntries.toNat ∧ log.memory[j]? = some 0

/-- The byte where the next entry would start is in the buffer and a terminator. -/
def Log.TerminatedAt (log : Log) : Prop :=
  log.nextEntryIndex.toNat < log.maxEntries.toNat ∧ log.memory[log.nextEntryIndex.toNat]? = some 0

/-- Behind the entries a search stays in the buffer if it finds a terminator behind the next free byte, or one at it
and stops there. -/
theorem LogInv.tail {log : Log} {entries : List CString} (inv : LogInv log entries) (found : List (BitVec 8) → Bool) :
    TailInside log.memory found log.maxEntries.toNat log.nextEntryIndex.toNat ↔
      (found [] = true ∧ log.TerminatedAt) ∨ log.TerminatedBehind := by
  have count := inv.count
  have inside := inv.inside
  have emptyAt : strlen log.memory log.nextEntryIndex.toNat = 0 ↔
      ∀ b, log.memory[log.nextEntryIndex.toNat]? = some b → b = 0 := by
    rw [strlen, List.length_eq_zero_iff, cstringAt_eq_nil]
  rw [TailInside, cstring_inside inside, cstring_inside inside, Log.TerminatedAt, Log.TerminatedBehind]
  constructor
  · rintro ⟨⟨j, behind, below, zero⟩, onwards⟩
    rcases Nat.lt_or_eq_of_le behind with later | rfl
    · exact .inr ⟨j, later, below, zero⟩
    · rcases onwards (emptyAt.mpr fun b here => Option.some.inj (here.symm.trans zero)) with passes | ⟨j, later⟩
      · exact .inl ⟨passes, below, zero⟩
      · exact .inr ⟨j, later⟩
  · rintro (⟨passes, below, zero⟩ | ⟨j, later, below, zero⟩)
    · exact ⟨⟨_, Nat.le_refl _, below, zero⟩, fun _ => .inl passes⟩
    · exact ⟨⟨j, Nat.le_of_lt later, below, zero⟩, fun _ => .inr ⟨j, later, below, zero⟩⟩

/-- The reads of a search of a log that holds `entries`. -/
theorem LogInv.reads {log : Log} {entries : List CString} (inv : LogInv log entries) {found : List (BitVec 8) → Bool}
    {testReads : Nat → List Nat} (tests : ∀ p, testReads p ⊆ strlenReads log.memory p) :
    (∀ i ∈ (tracedSearch log.memory log.nextEntryIndex.toNat found testReads 0).2, i < log.maxEntries.toNat) ↔
      entries.any (fun e => found e.chars) = true ∨ (found [] = true ∧ log.TerminatedAt) ∨ log.TerminatedBehind := by
  have count := inv.count
  have inside := inv.inside
  have length : (strings entries).length = log.nextEntryIndex.toNat := by
    rw [← inv.content, List.length_take, Nat.min_eq_left (by omega)]
  have layout : log.memory = [] ++ (strings entries ++ log.memory.drop log.nextEntryIndex.toNat) := by
    rw [← inv.content, List.nil_append, List.take_append_drop]
  have fits : ([] : List (BitVec 8)).length + (strings entries).length ≤ log.maxEntries.toNat := by
    rw [length, List.length_nil]
    omega
  have reads : _ ↔ entries.any (fun e => found e.chars) = true ∨ _ := tracedSearch_inside tests entries [] _ layout fits
  rw [length, List.length_nil, Nat.zero_add] at reads
  rw [reads, inv.tail]

/-- **What `contains_entry` reads** lies in the buffer exactly if the query is too long to be looked for, is an entry, or
a terminator stops the search behind the entries. -/
theorem LogInv.contains_reads {log : Log} {entries : List CString} (inv : LogInv log entries) (e : CString) :
    (∀ i ∈ (log.tracedContainsEntry e).2, i < log.maxEntries.toNat) ↔
      100 ≤ e.chars.length ∨ e ∈ entries ∨ (e = .empty ∧ log.TerminatedAt) ∨ log.TerminatedBehind := by
  have limit : (100 : BitVec 16).toNat = 100 := rfl
  have size := size_toNat e
  unfold Log.tracedContainsEntry
  by_cases long : 100 ≤ e.chars.length
  · rw [if_pos (by rw [gt_iff_lt, BitVec.lt_def]; omega)]
    simp [long]
  · have tests : ∀ p, (if e.chars.length = strlen log.memory p then strcmpReads log.memory p e.chars else []) ⊆
        strlenReads log.memory p := by
      intro p
      split
      · exact strcmpReads_subset log.memory p e.chars
      · exact List.nil_subset _
    rw [if_neg (by rw [gt_iff_lt, BitVec.lt_def]; omega), inv.reads tests, exact_any, exact_empty]
    simp [long]

/-- **What `contains_entry_starting_with` reads**. -/
theorem LogInv.containsStartingWith_reads {log : Log} {entries : List CString} (inv : LogInv log entries) (e : CString) :
    (∀ i ∈ (log.tracedContainsEntryStartingWith e).2, i < log.maxEntries.toNat) ↔
      50 ≤ e.chars.length ∨ e = .empty ∨ (∃ entry ∈ entries, e.chars <+: entry.chars) ∨ log.TerminatedBehind := by
  have limit : (50 : BitVec 16).toNat = 50 := rfl
  have size := size_toNat e
  unfold Log.tracedContainsEntryStartingWith
  by_cases long : 50 ≤ e.chars.length
  · rw [if_pos (by rw [gt_iff_lt, BitVec.lt_def]; omega)]
    simp [long]
  · rw [if_neg (by rw [gt_iff_lt, BitVec.lt_def]; omega)]
    by_cases empty : e = .empty
    · rw [if_pos ((length_eq_zero_iff_empty e).mpr empty)]
      simp [empty]
    · rw [if_neg ((length_eq_zero_iff_empty e).not.mpr empty),
        inv.reads fun p => strncmpReads_subset log.memory p e.chars e.chars.length, prefix_any, prefix_empty empty]
      simp [long, empty]

/-- **The searches stay inside the buffer** exactly if they stop at an entry, are not carried out at all, or find a
terminator in the buffer behind the entries. -/
theorem searches_stay_inside_iff (storage : LogStorage) (calls : List LogCall) (e : CString) :
    let log := (Log.calls storage calls).1
    let entries := (Log.calls storage calls).2
    ((∀ i ∈ (log.tracedContainsEntry e).2, i < log.maxEntries.toNat) ↔
        100 ≤ e.chars.length ∨ e ∈ entries ∨ (e = .empty ∧ log.TerminatedAt) ∨ log.TerminatedBehind) ∧
      ((∀ i ∈ (log.tracedContainsEntryStartingWith e).2, i < log.maxEntries.toNat) ↔
        50 ≤ e.chars.length ∨ e = .empty ∨ (∃ entry ∈ entries, e.chars <+: entry.chars) ∨ log.TerminatedBehind) := by
  intro log entries
  have inv : LogInv log entries := .calls storage calls
  exact ⟨inv.contains_reads e, inv.containsStartingWith_reads e⟩

/-- Four bytes of buffer; behind them lies another byte. -/
def fourBytes : LogStorage := ⟨[7, 7, 7, 7, 9], 4, by decide, by decide⟩

/-- **A search of a full log** for what is not in it reads the byte behind the buffer. -/
theorem searches_leave_full_log :
    (Log.calls fourBytes [.addEntry (letters 3 (by decide))]).1.maxEntries = 4 ∧
      4 ∈ ((Log.calls fourBytes [.addEntry (letters 3 (by decide))]).1.tracedContainsEntry (letters 2 (by decide))).2 ∧
      4 ∈ ((Log.calls fourBytes [.addEntry (letters 3 (by decide))]).1.tracedContainsEntryStartingWith
        (letters 4 (by decide))).2 := by
  refine ⟨rfl, ?_, ?_⟩
  · decide +kernel
  · decide +kernel

end Simplos
