import Mathlib

/-!
# Loops over a finite range

Folds that update each entry of a table once, and nested folds that emit elements bucket by
bucket: all elements of key 0, then all of key 1, and so on up to a bound, each bucket in the order
of the input. The lemmas say what such an enumeration contains and in which order, for any key
function.
-/

namespace Lib
set_option autoImplicit false

section Folds

universe u v w
variable {m : Type u → Type v} [Monad m] [LawfulMonad m] {α γ : Type w} {β : Type u}

/-- A fold over the concatenation of lists is a fold of folds. -/
theorem foldlM_flatMap (f : β → α → m β) (g : γ → List α) (xs : List γ) (b : β) :
    (xs.flatMap g).foldlM f b = xs.foldlM (fun b x => (g x).foldlM f b) b := by
  induction xs generalizing b with
  | nil => rfl
  | cons x xs ih => simp only [List.flatMap_cons, List.foldlM_append, List.foldlM_cons, ih]

omit [LawfulMonad m] in
theorem foldlM_congr_mem {f g : β → α → m β} {xs : List α} (same : ∀ x ∈ xs, ∀ b, f b x = g b x) (b : β) :
    xs.foldlM f b = xs.foldlM g b := by
  induction xs generalizing b with
  | nil => rfl
  | cons x xs ih =>
    rw [List.foldlM_cons, List.foldlM_cons, same x List.mem_cons_self]
    exact bind_congr fun b => ih (fun y member => same y (List.mem_cons_of_mem x member)) b

end Folds

section Table

variable {ι α : Type*} [DecidableEq ι]

/-- Updating each listed entry of a table once. -/
theorem foldl_update (f : ι → α → α) {l : List ι} (distinct : l.Nodup) (t : ι → α) :
    l.foldl (fun t i => Function.update t i (f i (t i))) t = fun i => if i ∈ l then f i (t i) else t i := by
  induction l generalizing t with
  | nil => simp
  | cons a l ih =>
    obtain ⟨fresh, distinct⟩ := List.nodup_cons.mp distinct
    rw [List.foldl_cons, ih distinct]
    funext i
    by_cases here : i = a
    · subst here
      simp [fresh]
    · simp [here]

theorem foldl_update_finRange {n : Nat} (f : Fin n → α → α) (t : Fin n → α) :
    (List.finRange n).foldl (fun t i => Function.update t i (f i (t i))) t = fun i => f i (t i) := by
  rw [foldl_update f (List.nodup_finRange n)]
  simp

end Table

section Buckets

variable {α : Type*} {key : α → Nat} {bound : Nat} {xs : List α}

/-- The elements of `xs` with key `0`, then those with key `1`, …, up to key `bound - 1`. -/
def buckets (key : α → Nat) (bound : Nat) (xs : List α) : List α :=
  (List.range bound).flatMap fun p => xs.filter fun x => decide (key x = p)

theorem buckets_succ (key : α → Nat) (bound : Nat) (xs : List α) :
    buckets key (bound + 1) xs = buckets key bound xs ++ xs.filter fun x => decide (key x = bound) := by
  simp [buckets, List.range_succ]

theorem mem_buckets {x : α} : x ∈ buckets key bound xs ↔ x ∈ xs ∧ key x < bound := by
  simp only [buckets, List.mem_flatMap, List.mem_range, List.mem_filter, decide_eq_true_eq]
  constructor
  · rintro ⟨p, below, member, rfl⟩
    exact ⟨member, below⟩
  · rintro ⟨member, below⟩
    exact ⟨key x, below, member, rfl⟩

theorem nodup_buckets (distinct : xs.Nodup) : (buckets key bound xs).Nodup := by
  induction bound with
  | zero => simp [buckets]
  | succ bound ih =>
    rw [buckets_succ]
    refine ih.append (distinct.filter _) fun x first second => ?_
    have below := (mem_buckets.mp first).2
    have equal := (List.mem_filter.mp second).2
    simp only [decide_eq_true_eq] at equal
    omega

/-- Ascending keys, and the order of the input within one key. -/
theorem pairwise_buckets {r : α → α → Prop} (ordered : xs.Pairwise r) :
    (buckets key bound xs).Pairwise fun x y => key x < key y ∨ (key x = key y ∧ r x y) := by
  induction bound with
  | zero => simp [buckets]
  | succ bound ih =>
    rw [buckets_succ, List.pairwise_append]
    refine ⟨ih, ?_, fun x first y second => ?_⟩
    · refine List.Pairwise.imp_of_mem ?_ (ordered.filter _)
      intro x y hx hy related
      have ex := (List.mem_filter.mp hx).2
      have ey := (List.mem_filter.mp hy).2
      simp only [decide_eq_true_eq] at ex ey
      exact .inr ⟨ex.trans ey.symm, related⟩
    · have below := (mem_buckets.mp first).2
      have equal := (List.mem_filter.mp second).2
      simp only [decide_eq_true_eq] at equal
      exact .inl (by omega)

theorem countP_below_succ (key : α → Nat) (bound : Nat) (xs : List α) :
    xs.countP (fun x => decide (key x < bound + 1)) =
      xs.countP (fun x => decide (key x < bound)) + xs.countP fun x => decide (key x = bound) := by
  induction xs with
  | nil => rfl
  | cons x xs ih =>
    simp only [List.countP_cons, ih, decide_eq_true_eq]
    split <;> split <;> split <;> omega

theorem length_buckets : (buckets key bound xs).length = xs.countP fun x => decide (key x < bound) := by
  induction bound with
  | zero => simp [buckets]
  | succ bound ih =>
    rw [buckets_succ, List.length_append, ih, ← List.countP_eq_length_filter, countP_below_succ]

end Buckets

end Lib
