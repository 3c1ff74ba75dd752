import Simplos.Kernel.Scheduler

/-!
# What `prioritize_tasks` writes

The two loops emit the READY tasks bucket by bucket, so the result is an enumeration by buckets
(`Lib.buckets`) written over the front of the output list. The outer loop stops before priority
255, which is a priority that `spawn` and `set_priority` accept.
-/

namespace Simplos
set_option autoImplicit false

def isReady (tasks : TaskTable) (i : Fin tasksMax) : Bool := decide ((tasks i).status = .ready)

/-- The tasks `prioritize_tasks` emits, in its order. -/
def prioritized (tasks : TaskTable) : List (Fin tasksMax) :=
  Lib.buckets (fun i => (tasks i).priority.toNat) uint8Max ((List.finRange tasksMax).filter (isReady tasks))

/-- `list` with the indices `l` written over its entries from `n` on. -/
def overwrite (list : IndexQueue) (n : Nat) (l : List (Fin tasksMax)) : IndexQueue := fun j =>
  if n ≤ j then (l[(j : Nat) - n]?.map slotIndex).getD (list j) else list j

theorem overwrite_nil (list : IndexQueue) (n : Nat) : overwrite list n [] = list := by
  funext j
  simp [overwrite]

theorem overwrite_cons (list : IndexQueue) (n : Nat) (i : Fin tasksMax) (l : List (Fin tasksMax))
    (slot : Fin taskQueueLength) (here : (slot : Nat) = n) :
    overwrite (Function.update list slot (slotIndex i)) (n + 1) l = overwrite list n (i :: l) := by
  funext j
  subst here
  rcases Nat.lt_trichotomy (j : Nat) slot with less | equal | greater
  · have ne : j ≠ slot := Fin.ne_of_val_ne (by omega)
    simp only [overwrite, Function.update_of_ne ne]
    rw [if_neg (by omega), if_neg (by omega)]
  · obtain rfl : j = slot := Fin.ext equal
    simp only [overwrite, Function.update_self]
    rw [if_neg (by omega), if_pos (by omega), Nat.sub_self]
    rfl
  · have ne : j ≠ slot := Fin.ne_of_val_ne (by omega)
    have shift : (j : Nat) - slot = (j - (slot + 1)) + 1 := by omega
    simp only [overwrite, Function.update_of_ne ne]
    rw [if_pos (by omega), if_pos (by omega), shift, List.getElem?_cons_succ]

theorem storePriority_ok (acc : Byte × IndexQueue) (i : Fin tasksMax) (slot : Fin taskQueueLength)
    (here : acc.1.toNat = slot) :
    storePriority acc i = .ok (acc.1 + 1, Function.update acc.2 slot (slotIndex i)) := by
  simp [storePriority, queueSlot_ok.mpr here, pure, Except.pure]

/-- Emitting a list of tasks that fits writes exactly that list. -/
theorem storePriority_list (l : List (Fin tasksMax)) (n : Byte) (list : IndexQueue)
    (fits : n.toNat + l.length ≤ taskQueueLength) :
    l.foldlM storePriority (n, list) = .ok (n + BitVec.ofNat 8 l.length, overwrite list n.toNat l) := by
  induction l generalizing n list with
  | nil => simp [overwrite_nil, pure, Except.pure]
  | cons i l ih =>
    have room : n.toNat + l.length + 1 ≤ 6 := by
      simp only [List.length_cons, taskQueueLength] at fits
      omega
    have next : (n + 1).toNat = n.toNat + 1 := by
      rw [BitVec.toNat_add_of_lt (by simp; omega)]
      rfl
    have stored := storePriority_ok (n, list) i ⟨n.toNat, by simp only [taskQueueLength]; omega⟩ rfl
    have rest := ih (n + 1) (Function.update list ⟨n.toNat, by simp only [taskQueueLength]; omega⟩ (slotIndex i))
      (by simp only [taskQueueLength]; omega)
    rw [List.foldlM_cons, stored, Lib.ok_bind, rest, next, overwrite_cons list n.toNat i l _ rfl,
      List.length_cons, Nat.add_comm l.length 1, BitVec.ofNat_add, BitVec.add_assoc]
    rfl

theorem prioritized_length_le (tasks : TaskTable) : (prioritized tasks).length ≤ tasksMax := by
  rw [prioritized, Lib.length_buckets]
  calc _ ≤ ((List.finRange tasksMax).filter (isReady tasks)).length := List.countP_le_length
    _ ≤ (List.finRange tasksMax).length := List.length_filter_le ..
    _ = tasksMax := List.length_finRange

/-- The bucket of one pass of the outer loop. -/
theorem prioritizeStep_bucket (tasks : TaskTable) (acc : Byte × IndexQueue) (p : Nat) (below : p < uint8Max) :
    (List.finRange tasksMax).foldlM (prioritizeStep tasks (BitVec.ofNat 8 p)) acc =
      (((List.finRange tasksMax).filter (isReady tasks)).filter fun i =>
        decide ((tasks i).priority.toNat = p)).foldlM storePriority acc := by
  have same : ∀ i, (decide ((tasks i).priority.toNat = p) && isReady tasks i) =
      (decide ((tasks i).status = .ready) && decide ((tasks i).priority = BitVec.ofNat 8 p)) := fun i => by
    have equal : (tasks i).priority = BitVec.ofNat 8 p ↔ (tasks i).priority.toNat = p := by
      rw [← BitVec.toNat_inj, BitVec.toNat_ofNat, Nat.mod_eq_of_lt (by simp only [uint8Max] at below; omega)]
    rw [Bool.and_comm, isReady, decide_eq_decide.mpr equal]
  rw [List.filter_filter, List.foldlM_filter]
  simp only [same]
  rfl

/-- **`prioritize_tasks`** never leaves the list, and overwrites its front with `prioritized`. -/
theorem prioritizeTasks_eq (tasks : TaskTable) (list : IndexQueue) :
    prioritizeTasks tasks list =
      .ok (BitVec.ofNat 8 (prioritized tasks).length, overwrite list 0 (prioritized tasks)) := by
  have flat : prioritizeTasks tasks list = (prioritized tasks).foldlM storePriority (0, list) := by
    rw [prioritized, Lib.buckets, Lib.foldlM_flatMap, prioritizeTasks]
    exact Lib.foldlM_congr_mem
      (fun p member acc => prioritizeStep_bucket tasks acc p (List.mem_range.mp member)) (0, list)
  have fits := prioritized_length_le tasks
  have zero : (0 : Byte).toNat = 0 := rfl
  rw [flat, storePriority_list (prioritized tasks) 0 list (by
    simp only [tasksMax] at fits
    simp only [taskQueueLength, zero]
    omega)]
  simp

theorem mem_prioritized {tasks : TaskTable} {i : Fin tasksMax} :
    i ∈ prioritized tasks ↔ isReady tasks i = true ∧ (tasks i).priority ≠ 255 := by
  have below : (tasks i).priority.toNat < uint8Max ↔ (tasks i).priority ≠ 255 := by
    have limit := (tasks i).priority.isLt
    have top : (255 : Byte).toNat = 255 := rfl
    rw [Ne, ← BitVec.toNat_inj, top, uint8Max]
    omega
  simp only [prioritized, Lib.mem_buckets, List.mem_filter, List.mem_finRange, true_and, below]

theorem nodup_prioritized (tasks : TaskTable) : (prioritized tasks).Nodup :=
  Lib.nodup_buckets ((List.nodup_finRange tasksMax).filter _)

/-- Lower priorities first, and the lower index first within one priority. -/
def Before (tasks : TaskTable) (i j : Fin tasksMax) : Prop :=
  (tasks i).priority < (tasks j).priority ∨ ((tasks i).priority = (tasks j).priority ∧ i < j)

theorem sorted_prioritized (tasks : TaskTable) : (prioritized tasks).Pairwise (Before tasks) := by
  have ascending : ((List.finRange tasksMax).filter (isReady tasks)).Pairwise (· < ·) :=
    (List.pairwise_lt_finRange tasksMax).filter _
  refine (Lib.pairwise_buckets ascending).imp fun {i j} related => ?_
  rcases related with less | ⟨equal, less⟩
  · exact .inl (BitVec.lt_def.mpr less)
  · exact .inr ⟨BitVec.eq_of_toNat_eq equal, less⟩

/-- `after` is `before` with its first `n` entries replaced by the tasks `which`, each once, in
ascending order of priority and of index within one priority. -/
structure Enumerates (which : Fin tasksMax → Bool) (tasks : TaskTable) (before : IndexQueue) (n : Byte)
    (after : IndexQueue) : Prop where
  count : n.toNat = (List.finRange tasksMax).countP which
  once : ∀ i, which i = true → ∃! j : Fin taskQueueLength, (j : Nat) < n.toNat ∧ after j = slotIndex i
  only : ∀ j : Fin taskQueueLength, (j : Nat) < n.toNat → ∃ i, which i = true ∧ after j = slotIndex i
  sorted : ∀ (j k : Fin taskQueueLength) (i i' : Fin tasksMax), j < k → (k : Nat) < n.toNat →
    after j = slotIndex i → after k = slotIndex i' → Before tasks i i'
  tail : ∀ j : Fin taskQueueLength, n.toNat ≤ j → after j = before j

theorem prioritized_count (tasks : TaskTable) : (BitVec.ofNat 8 (prioritized tasks).length).toNat =
    (prioritized tasks).length := by
  have fits := prioritized_length_le tasks
  simp only [tasksMax] at fits
  rw [BitVec.toNat_ofNat, Nat.mod_eq_of_lt (by omega)]

theorem overwrite_entry (list : IndexQueue) (l : List (Fin tasksMax)) (j : Fin taskQueueLength)
    (bound : (j : Nat) < l.length) : overwrite list 0 l j = slotIndex l[(j : Nat)] := by
  simp [overwrite, List.getElem?_eq_getElem bound]

theorem overwrite_tail (list : IndexQueue) (l : List (Fin tasksMax)) (j : Fin taskQueueLength)
    (beyond : l.length ≤ j) : overwrite list 0 l j = list j := by
  simp [overwrite, List.getElem?_eq_none beyond]

/-- Overwriting the front of a list with a sorted enumeration. -/
theorem enumerates_overwrite {which : Fin tasksMax → Bool} {tasks : TaskTable} (before : IndexQueue)
    {l : List (Fin tasksMax)} {n : Byte} (length : n.toNat = l.length) (distinct : l.Nodup)
    (member : ∀ i, i ∈ l ↔ which i = true) (sorted : l.Pairwise (Before tasks)) :
    Enumerates which tasks before n (overwrite before 0 l) := by
  have short : l.length ≤ tasksMax := by
    have bound := List.Nodup.length_le_card distinct
    rwa [Fintype.card_fin] at bound
  constructor
  case count =>
    rw [length, List.countP_eq_length_filter]
    apply List.Perm.length_eq
    rw [List.perm_ext_iff_of_nodup distinct ((List.nodup_finRange tasksMax).filter _)]
    intro i
    simp [member i]
  case once =>
    intro i chosen
    obtain ⟨j, bound, rfl⟩ := List.mem_iff_getElem.mp ((member i).mpr chosen)
    have inside : j < taskQueueLength := by
      simp only [tasksMax] at short
      simp only [taskQueueLength]
      omega
    refine ⟨⟨j, inside⟩, ⟨by rw [length]; exact bound, overwrite_entry before l ⟨j, inside⟩ bound⟩, ?_⟩
    rintro k ⟨below, entry⟩
    rw [length] at below
    rw [overwrite_entry before l k below, slotIndex_inj] at entry
    exact Fin.ext ((distinct.getElem_inj_iff).mp entry)
  case only =>
    intro j below
    rw [length] at below
    exact ⟨l[(j : Nat)], (member _).mp (List.getElem_mem below), overwrite_entry before l j below⟩
  case sorted =>
    intro j k i i' less below first second
    rw [length] at below
    have lower : (j : Nat) < l.length := by omega
    rw [overwrite_entry before l j lower, slotIndex_inj] at first
    rw [overwrite_entry before l k below, slotIndex_inj] at second
    subst first second
    exact List.pairwise_iff_getElem.mp sorted j k lower below less
  case tail =>
    intro j beyond
    rw [length] at beyond
    exact overwrite_tail before l j beyond

/-- What `prioritize_tasks` does for every task array: it enumerates the READY tasks of a priority
other than 255. -/
theorem prioritizeTasks_enumerates (tasks : TaskTable) (before : IndexQueue) :
    Enumerates (fun i => isReady tasks i && decide ((tasks i).priority ≠ 255)) tasks before
      (BitVec.ofNat 8 (prioritized tasks).length) (overwrite before 0 (prioritized tasks)) :=
  enumerates_overwrite before (prioritized_count tasks) (nodup_prioritized tasks)
    (fun i => by simp [mem_prioritized]) (sorted_prioritized tasks)

/-- **`prioritize_tasks` schedules every READY task in order exactly when none has priority 255.** -/
theorem prioritizeTasks_schedules_ready_iff (tasks : TaskTable) (before : IndexQueue) :
    (∃ n after, prioritizeTasks tasks before = .ok (n, after) ∧ Enumerates (isReady tasks) tasks before n after) ↔
      ∀ i, (tasks i).status = .ready → (tasks i).priority ≠ 255 := by
  have general := prioritizeTasks_enumerates tasks before
  constructor
  · rintro ⟨n, after, result, all⟩ i ready
    rw [prioritizeTasks_eq] at result
    cases result
    obtain ⟨j, ⟨below, entry⟩, -⟩ := all.once i (by simp [isReady, ready])
    obtain ⟨i', eligible, entry'⟩ := general.only j below
    rw [entry, slotIndex_inj] at entry'
    subst entry'
    simp only [Bool.and_eq_true, decide_eq_true_eq] at eligible
    exact eligible.2
  · intro ordinary
    have same : (fun i => isReady tasks i && decide ((tasks i).priority ≠ 255)) = isReady tasks := by
      funext i
      by_cases ready : (tasks i).status = .ready
      · simpa [isReady, ready] using ordinary i ready
      · simp [isReady, ready]
    rw [same] at general
    exact ⟨_, _, prioritizeTasks_eq tasks before, general⟩

/-- One READY task of priority 255 is left out. -/
theorem prioritizeTasks_drops_priority_255 :
    ¬ ∀ (tasks : TaskTable) (before : IndexQueue), ∃ n after, prioritizeTasks tasks before = .ok (n, after) ∧
      Enumerates (isReady tasks) tasks before n after := by
  intro always
  let tasks : TaskTable := fun _ => { status := .ready, priority := 255 }
  obtain ⟨n, after, result, all⟩ := always tasks fun _ => 0
  have none : prioritized tasks = [] :=
    List.eq_nil_iff_forall_not_mem.mpr fun i member => (mem_prioritized.mp member).2 rfl
  rw [prioritizeTasks_eq, none] at result
  obtain ⟨rfl, -⟩ := Prod.mk.inj (Except.ok.inj result)
  obtain ⟨j, ⟨below, -⟩, -⟩ := all.once 0 (by decide)
  exact Nat.not_lt_zero _ below

end Simplos
