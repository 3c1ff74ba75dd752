import Simplos.Lib.CStrings

/-!
# `log.cpp`

The log of the unit-test build. Its buffer is the front of `memory`; what lies behind the buffer
belongs to others and may hold anything. `size_t` is 16 bits wide. An entry is written with its
terminator behind the ones before it, and `clear` only resets the counters.
-/

namespace Simplos
set_option autoImplicit false
open Lib

/-- `Log`, with data memory from `buffer` on. -/
structure Log where
  memory : List (BitVec 8)
  nextEntryIndex : BitVec 16
  numBufferEntriesRemaining : BitVec 16
  maxEntries : BitVec 16
deriving DecidableEq

/-- The storage a log is given: `size` bytes at the front of a memory of fewer than 2¹⁶. -/
structure LogStorage where
  memory : List (BitVec 8)
  size : BitVec 16
  inside : size.toNat ≤ memory.length
  addressable : memory.length < 2 ^ 16

/-- The constructor. -/
def Log.create (storage : LogStorage) : Log :=
  { memory := storage.memory
    nextEntryIndex := 0
    numBufferEntriesRemaining := storage.size
    maxEntries := storage.size }

/-- `add_entry(const char *)`. -/
def Log.addEntryChars (log : Log) (message : CString) : Bool × Log :=
  let messageLengthWithTerminator := BitVec.ofNat 16 (message.chars.length + 1)
  if messageLengthWithTerminator > log.numBufferEntriesRemaining then (false, log)
  else
    (true, { log with
      memory := memcpy log.memory log.nextEntryIndex.toNat (message.chars ++ [0])
      nextEntryIndex := log.nextEntryIndex + messageLengthWithTerminator
      numBufferEntriesRemaining := log.numBufferEntriesRemaining - messageLengthWithTerminator })

/-- `add_entry(const ProgmemString &)`: the string passes through a local buffer of 100 bytes. -/
def Log.addEntry (log : Log) (message : CString) : Bool × Log :=
  if BitVec.ofNat 16 (message.chars.length + 1) > (100 : BitVec 16) then (false, log)
  else log.addEntryChars message

/-- The loop of both searches: visit the candidates from offset `next` on while their end does not
pass `limit`, until one passes the test `found` on its characters. -/
def searchEntries (memory : List (BitVec 8)) (limit : Nat) (found : List (BitVec 8) → Bool) (next : Nat) : Bool :=
  let nextEntryLength := strlen memory next
  if next + nextEntryLength ≤ limit then
    if found (cstringAt memory next) then true
    else searchEntries memory limit found (next + nextEntryLength + 1)
  else false
termination_by limit + 1 - next

/-- `contains_entry(const char *)`. -/
def Log.containsEntryChars (log : Log) (expectedEntry : CString) : Bool :=
  let expectedEntryLength := expectedEntry.chars.length
  searchEntries log.memory log.nextEntryIndex.toNat
    (fun candidate => decide (expectedEntryLength = candidate.length) &&
      decide (strcmp candidate expectedEntry.chars = 0)) 0

/-- `contains_entry(const ProgmemString &)`. -/
def Log.containsEntry (log : Log) (expectedEntry : CString) : Bool :=
  if BitVec.ofNat 16 (expectedEntry.chars.length + 1) > (100 : BitVec 16) then false
  else log.containsEntryChars expectedEntry

/-- `contains_entry_starting_with(const char *)`. -/
def Log.containsEntryStartingWithChars (log : Log) (expectedEntry : CString) : Bool :=
  let expectedEntryLength := expectedEntry.chars.length
  if expectedEntryLength = 0 then false
  else
    searchEntries log.memory log.nextEntryIndex.toNat
      (fun candidate => decide (strncmp candidate expectedEntry.chars expectedEntryLength = 0)) 0

/-- `contains_entry_starting_with(const ProgmemString &)`, with a local buffer of 50 bytes. -/
def Log.containsEntryStartingWith (log : Log) (expectedEntry : CString) : Bool :=
  if BitVec.ofNat 16 (expectedEntry.chars.length + 1) > (50 : BitVec 16) then false
  else log.containsEntryStartingWithChars expectedEntry

def Log.numUnusedEntries (log : Log) : BitVec 16 := log.numBufferEntriesRemaining

def Log.clear (log : Log) : Log :=
  { log with nextEntryIndex := 0, numBufferEntriesRemaining := log.maxEntries }

/-! ## Runs -/

/-- A call that changes the log. -/
inductive LogCall where
  | addEntry (message : CString)
  | clear

/-- A call, with the entries accepted since construction or the last `clear`. -/
def Log.call (s : Log × List CString) : LogCall → Log × List CString
  | .addEntry message =>
    let (added, log) := s.1.addEntry message
    (log, if added then s.2 ++ [message] else s.2)
  | .clear => (s.1.clear, [])

/-- The log after the calls, and the entries it then holds. -/
def Log.calls (storage : LogStorage) (calls : List LogCall) : Log × List CString :=
  calls.foldl Log.call (Log.create storage, [])

/-! ## The invariant -/

/-- The front of the memory holds exactly the entries, and the counters account for it. -/
structure LogInv (log : Log) (entries : List CString) : Prop where
  content : log.memory.take log.nextEntryIndex.toNat = strings entries
  count : log.nextEntryIndex.toNat + log.numBufferEntriesRemaining.toNat = log.maxEntries.toNat
  inside : log.maxEntries.toNat ≤ log.memory.length
  addressable : log.memory.length < 2 ^ 16

theorem LogInv.create (storage : LogStorage) : LogInv (Log.create storage) [] where
  content := by simp [Log.create, strings]
  count := by simp [Log.create]
  inside := storage.inside
  addressable := storage.addressable

theorem LogInv.clear {log : Log} {entries : List CString} (inv : LogInv log entries) : LogInv log.clear [] where
  content := by simp [Log.clear, strings]
  count := by simp [Log.clear]
  inside := inv.inside
  addressable := inv.addressable

theorem size_toNat (message : CString) :
    (BitVec.ofNat 16 (message.chars.length + 1)).toNat = message.chars.length + 1 := by
  rw [BitVec.toNat_ofNat, Nat.mod_eq_of_lt message.addressable]

/-- An entry is appended if it fits into the local buffer and into what remains of the log. -/
theorem addEntry_eq (log : Log) (message : CString) :
    log.addEntry message =
      if message.chars.length + 1 ≤ 100 ∧ message.chars.length + 1 ≤ log.numBufferEntriesRemaining.toNat then
        (true, { log with
          memory := memcpy log.memory log.nextEntryIndex.toNat (message.chars ++ [0])
          nextEntryIndex := log.nextEntryIndex + BitVec.ofNat 16 (message.chars.length + 1)
          numBufferEntriesRemaining := log.numBufferEntriesRemaining - BitVec.ofNat 16 (message.chars.length + 1) })
      else (false, log) := by
  have size := size_toNat message
  have long : BitVec.ofNat 16 (message.chars.length + 1) > (100 : BitVec 16) ↔ ¬ message.chars.length + 1 ≤ 100 := by
    rw [gt_iff_lt, BitVec.lt_def, size, Nat.not_le]
    rfl
  have full : BitVec.ofNat 16 (message.chars.length + 1) > log.numBufferEntriesRemaining ↔
      ¬ message.chars.length + 1 ≤ log.numBufferEntriesRemaining.toNat := by
    rw [gt_iff_lt, BitVec.lt_def, size, Nat.not_le]
  unfold Log.addEntry Log.addEntryChars
  simp only [long, full]
  by_cases short : message.chars.length + 1 ≤ 100 <;>
    by_cases fits : message.chars.length + 1 ≤ log.numBufferEntriesRemaining.toNat <;> simp [short, fits]

/-- An accepted entry fits into what remains of the buffer. -/
theorem LogInv.add {log : Log} {entries : List CString} (inv : LogInv log entries) (message : CString)
    (fits : message.chars.length + 1 ≤ log.numBufferEntriesRemaining.toNat) :
    LogInv { log with
      memory := memcpy log.memory log.nextEntryIndex.toNat (message.chars ++ [0])
      nextEntryIndex := log.nextEntryIndex + BitVec.ofNat 16 (message.chars.length + 1)
      numBufferEntriesRemaining := log.numBufferEntriesRemaining - BitVec.ofNat 16 (message.chars.length + 1) }
      (entries ++ [message]) := by
  have count := inv.count
  have inside := inv.inside
  have addressable := inv.addressable
  have size := size_toNat message
  have index : (log.nextEntryIndex + BitVec.ofNat 16 (message.chars.length + 1)).toNat =
      log.nextEntryIndex.toNat + (message.chars ++ [0]).length := by
    rw [BitVec.toNat_add_of_lt (by omega), size]
    simp
  have remaining : (log.numBufferEntriesRemaining - BitVec.ofNat 16 (message.chars.length + 1)).toNat =
      log.numBufferEntriesRemaining.toNat - (message.chars.length + 1) := by
    rw [BitVec.toNat_sub_of_le (by rw [BitVec.le_def]; omega), size]
  have length : (message.chars ++ [(0 : BitVec 8)]).length = message.chars.length + 1 := by simp
  have kept : (memcpy log.memory log.nextEntryIndex.toNat (message.chars ++ [0])).length = log.memory.length :=
    length_memcpy (by omega)
  constructor
  case content =>
    simp only [index]
    rw [take_memcpy (by omega), inv.content, strings_append, strings_singleton]
  case count =>
    simp only [index, remaining]
    omega
  case inside => simpa only [kept] using inside
  case addressable => simpa only [kept] using addressable

/-- **One call keeps the buffer and the entries in step.** -/
theorem LogInv.call {log : Log} {entries : List CString} (inv : LogInv log entries) (c : LogCall) :
    LogInv (Log.call (log, entries) c).1 (Log.call (log, entries) c).2 := by
  cases c with
  | clear => exact inv.clear
  | addEntry message =>
    by_cases fits : message.chars.length + 1 ≤ 100 ∧ message.chars.length + 1 ≤ log.numBufferEntriesRemaining.toNat
    · simp only [Log.call, addEntry_eq, if_pos fits, if_true]
      exact inv.add message fits.2
    · simp only [Log.call, addEntry_eq, if_neg fits, Bool.false_eq_true, if_false]
      exact inv

theorem LogInv.calls (storage : LogStorage) (calls : List LogCall) :
    LogInv (Log.calls storage calls).1 (Log.calls storage calls).2 :=
  List.foldlRecOn (motive := fun s => LogInv s.1 s.2) calls Log.call (.create storage) fun _ inv c _ => inv.call c

/-! ## Accounting -/

theorem addEntry_accepts (log : Log) (message : CString) :
    (log.addEntry message).1 = true ↔
      message.chars.length + 1 ≤ 100 ∧ message.chars.length + 1 ≤ log.numBufferEntriesRemaining.toNat := by
  rw [addEntry_eq]
  split <;> simp_all

/-- A rejected entry leaves no trace. -/
theorem addEntry_rejects {log : Log} {message : CString} (rejected : (log.addEntry message).1 = false) :
    (log.addEntry message).2 = log := by
  rw [addEntry_eq] at rejected ⊢
  split
  · rename_i fits
    rw [if_pos fits] at rejected
    cases rejected
  · rfl

/-- The log keeps to its storage: what lies behind the buffer is as it was. -/
structure LogKeeps (storage : LogStorage) (log : Log) : Prop where
  size : log.maxEntries = storage.size
  length : log.memory.length = storage.memory.length
  behind : log.memory.drop storage.size.toNat = storage.memory.drop storage.size.toNat

theorem LogKeeps.addEntry {storage : LogStorage} {log : Log} {entries : List CString} (keeps : LogKeeps storage log)
    (inv : LogInv log entries) (message : CString) : LogKeeps storage (log.addEntry message).2 := by
  have count := inv.count
  have inside := inv.inside
  have length : (message.chars ++ [(0 : BitVec 8)]).length = message.chars.length + 1 := by simp
  rw [addEntry_eq]
  split
  · rename_i fits
    constructor
    · exact keeps.size
    · exact (length_memcpy (by omega)).trans keeps.length
    · rw [drop_memcpy (by omega) (by rw [← keeps.size]; omega), keeps.behind]
  · exact keeps

theorem LogKeeps.call {storage : LogStorage} {log : Log} {entries : List CString} (keeps : LogKeeps storage log)
    (inv : LogInv log entries) (c : LogCall) : LogKeeps storage (Log.call (log, entries) c).1 := by
  cases c with
  | clear => exact ⟨keeps.size, keeps.length, keeps.behind⟩
  | addEntry message => exact keeps.addEntry inv message

theorem LogKeeps.calls (storage : LogStorage) (calls : List LogCall) : LogKeeps storage (Log.calls storage calls).1 := by
  have fresh : LogInv (Log.create storage) [] ∧ LogKeeps storage (Log.create storage) :=
    ⟨.create storage, rfl, rfl, rfl⟩
  have both := List.foldlRecOn (motive := fun s => LogInv s.1 s.2 ∧ LogKeeps storage s.1) (b := (_, [])) calls Log.call
    fresh fun _ both c _ => ⟨both.1.call c, both.2.call both.1 c⟩
  exact both.2

/-- **Appends are all or nothing, and the accounting is exact**, after any calls. -/
theorem log_accounts_exactly (storage : LogStorage) (calls : List LogCall) :
    let log := (Log.calls storage calls).1
    let entries := (Log.calls storage calls).2
    log.nextEntryIndex.toNat + log.numBufferEntriesRemaining.toNat = log.maxEntries.toNat ∧
      log.memory.take log.nextEntryIndex.toNat = strings entries ∧
      log.numUnusedEntries.toNat + (entries.map fun e => e.chars.length + 1).sum = storage.size.toNat ∧
      LogKeeps storage log ∧
      ∀ m : CString,
        ((log.addEntry m).1 = true ↔
          m.chars.length + 1 ≤ 100 ∧ m.chars.length + 1 ≤ log.numBufferEntriesRemaining.toNat) ∧
        ((log.addEntry m).1 = false → (log.addEntry m).2 = log) ∧
        LogKeeps storage (log.addEntry m).2 := by
  intro log entries
  have inv : LogInv log entries := .calls storage calls
  have keeps : LogKeeps storage log := .calls storage calls
  have count := inv.count
  have inside := inv.inside
  have used : (entries.map fun e => e.chars.length + 1).sum = log.nextEntryIndex.toNat := by
    rw [← length_strings, ← inv.content, List.length_take, Nat.min_eq_left (by omega)]
  refine ⟨count, inv.content, ?_, keeps, ?_⟩
  · rw [used, ← keeps.size, Log.numUnusedEntries]
    omega
  · intro m
    exact ⟨addEntry_accepts log m, addEntry_rejects, keeps.addEntry inv m⟩

end Simplos
