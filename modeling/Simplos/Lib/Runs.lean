import Mathlib

/-!
# Runs of a fallible step function and of a labelled step relation

`run step s as` applies a fallible step function to the inputs `as` in turn and stops at the
first error. `Trace R s as s'` is the relational counterpart: a sequence of labelled steps.
Each has one induction, the invariant rule; a client proves only what one step preserves.
-/

namespace Lib
set_option autoImplicit false

section Except

universe u v
variable {ε : Type u} {α β : Type v}

/-- Inversion of a computation that succeeded: its first part did. -/
theorem bind_eq_ok {x : Except ε α} {f : α → Except ε β} {b : β} :
    x >>= f = .ok b ↔ ∃ a, x = .ok a ∧ f a = .ok b := by
  cases x <;> simp [bind, Except.bind]

@[simp] theorem ok_bind (a : α) (f : α → Except ε β) : (Except.ok a >>= f) = f a := rfl

@[simp] theorem error_bind (e : ε) (f : α → Except ε β) : (Except.error e >>= f) = .error e := rfl

/-- Inversion of a computation that failed: its first part did, or the rest did. -/
theorem bind_eq_error {x : Except ε α} {f : α → Except ε β} {e : ε} :
    x >>= f = .error e ↔ x = .error e ∨ ∃ a, x = .ok a ∧ f a = .error e := by
  cases x <;> simp [bind, Except.bind]

/-- A computation that was evaluated to succeed has a result. -/
theorem ok_of_isOk {x : Except ε α} (h : x.isOk = true) : ∃ a, x = .ok a := by
  cases x with
  | ok a => exact ⟨a, rfl⟩
  | error e => cases h

theorem forM_ok {f : α → Except ε PUnit} {l : List α} (each : ∀ a ∈ l, f a = .ok ⟨⟩) : l.forM f = .ok ⟨⟩ := by
  induction l with
  | nil => rfl
  | cons a l ih =>
    refine bind_eq_ok.mpr ⟨⟨⟩, each a List.mem_cons_self, ?_⟩
    exact ih fun b member => each b (List.mem_cons_of_mem a member)

theorem forM_ok_iff {f : α → Except ε PUnit} {l : List α} : l.forM f = .ok ⟨⟩ ↔ ∀ a ∈ l, f a = .ok ⟨⟩ := by
  refine ⟨fun done => ?_, forM_ok⟩
  induction l with
  | nil => exact fun _ member => nomatch member
  | cons a l ih =>
    obtain ⟨_, first, rest⟩ := bind_eq_ok.mp done
    exact List.forall_mem_cons.mpr ⟨first, ih rest⟩

/-- The computation does not stop with an error in `bad`. -/
def Avoids (bad : ε → Prop) (x : Except ε α) : Prop := ∀ e, x = .error e → ¬ bad e

theorem Avoids.ok {bad : ε → Prop} (a : α) : Avoids bad (.ok a : Except ε α) := by
  intro e failed
  cases failed

/-- What may be assumed of the rest of a computation is that its first part succeeded. -/
theorem Avoids.bind {bad : ε → Prop} {x : Except ε α} {f : α → Except ε β} (first : Avoids bad x)
    (rest : ∀ a, x = .ok a → Avoids bad (f a)) : Avoids bad (x >>= f) := by
  intro e failed
  rcases bind_eq_error.mp failed with failed | ⟨a, done, failed⟩
  · exact first e failed
  · exact rest a done e failed

theorem Avoids.forM {bad : ε → Prop} {f : α → Except ε PUnit} {l : List α}
    (each : ∀ a ∈ l, Avoids bad (f a)) : Avoids bad (l.forM f) := by
  induction l with
  | nil => exact .ok _
  | cons a l ih =>
    refine Avoids.bind (each a List.mem_cons_self) fun _ _ => ?_
    exact ih fun b member => each b (List.mem_cons_of_mem a member)

end Except

section Run

variable {ε σ α : Type*} {step : σ → α → Except ε σ}

/-- The state after the inputs `as`, or the error of the first step that fails. -/
def run (step : σ → α → Except ε σ) : σ → List α → Except ε σ
  | s, [] => .ok s
  | s, a :: as => step s a >>= fun s' => run step s' as

@[simp] theorem run_nil (s : σ) : run step s [] = .ok s := rfl

theorem run_cons_ok {s s' : σ} {a : α} {as : List α} :
    run step s (a :: as) = .ok s' ↔ ∃ t, step s a = .ok t ∧ run step t as = .ok s' :=
  bind_eq_ok

theorem run_append_ok {s s' : σ} {as bs : List α} :
    run step s (as ++ bs) = .ok s' ↔ ∃ t, run step s as = .ok t ∧ run step t bs = .ok s' := by
  induction as generalizing s with
  | nil => simp
  | cons a as ih =>
    simp only [List.cons_append, run_cons_ok, ih]
    constructor
    · rintro ⟨t, first, u, rest, last⟩
      exact ⟨u, ⟨t, first, rest⟩, last⟩
    · rintro ⟨u, ⟨t, first, rest⟩, last⟩
      exact ⟨t, first, u, rest, last⟩

/-- **The invariant rule.** What every step preserves holds after every run. -/
theorem run_invariant (inv : σ → Prop)
    (preserved : ∀ s a s', inv s → step s a = .ok s' → inv s') {s s' : σ} {as : List α}
    (start : inv s) (reached : run step s as = .ok s') : inv s' := by
  induction as generalizing s with
  | nil => cases reached; exact start
  | cons a as ih =>
    obtain ⟨t, first, rest⟩ := run_cons_ok.mp reached
    exact ih (preserved s a t start first) rest

/-- The invariant rule with the exact condition on the steps: where `good` survives a step just when
the step is `allowed`, it holds throughout a run just when every step of the run is. -/
theorem run_prefix_iff {background good : σ → Prop} {allowed : σ → α → Prop}
    (kept : ∀ s a s', background s → step s a = .ok s' → background s')
    (exact : ∀ s a s', background s → good s → step s a = .ok s' → (good s' ↔ allowed s a))
    {s : σ} (start : background s) (holds : good s) (actions : List α) :
    (∀ as, as <+: actions → ∀ t, run step s as = .ok t → good t) ↔
      ∀ as a, as ++ [a] <+: actions → ∀ t t', run step s as = .ok t → step t a = .ok t' → allowed t a := by
  constructor
  · intro always as a inside t t' reached next
    have before := always as ((List.prefix_append as [a]).trans inside) t reached
    have after := always (as ++ [a]) inside t' (run_append_ok.mpr ⟨t, reached, run_cons_ok.mpr ⟨t', next, rfl⟩⟩)
    exact (exact t a t' (run_invariant background kept start reached) before next).mp after
  · intro each as
    induction as using List.reverseRecOn with
    | nil =>
      intro _ t reached
      cases reached
      exact holds
    | append_singleton as a ih =>
      intro inside t' reached
      obtain ⟨t, before, last⟩ := run_append_ok.mp reached
      obtain ⟨_, next, last⟩ := run_cons_ok.mp last
      cases last
      have good := ih ((List.prefix_append as [a]).trans inside) t before
      refine (exact t a _ (run_invariant background kept start before) good next).mpr ?_
      exact each as a inside t _ before next

/-- `P` holds in every state of the run of `as` from `s`. -/
def Throughout (step : σ → α → Except ε σ) (P : σ → Prop) (s : σ) (as : List α) : Prop :=
  ∀ before after t, as = before ++ after → run step s before = .ok t → P t

theorem throughout_nil {P : σ → Prop} {s : σ} : Throughout step P s [] ↔ P s := by
  constructor
  · intro always
    exact always [] [] s rfl rfl
  · intro holds before after t split ran
    obtain ⟨rfl, -⟩ := List.append_eq_nil_iff.mp split.symm
    cases ran
    exact holds

theorem throughout_cons {P : σ → Prop} {s s' : σ} {a : α} {as : List α} (first : step s a = .ok s') :
    Throughout step P s (a :: as) ↔ P s ∧ Throughout step P s' as := by
  constructor
  · intro always
    refine ⟨always [] (a :: as) s rfl rfl, fun before after t split ran => ?_⟩
    exact always (a :: before) after t (by rw [split]; rfl) (run_cons_ok.mpr ⟨s', first, ran⟩)
  · rintro ⟨holds, always⟩ before after t split ran
    cases before with
    | nil =>
      cases ran
      exact holds
    | cons b before =>
      obtain ⟨rfl, rest⟩ := List.cons.inj split
      obtain ⟨t', second, ran⟩ := run_cons_ok.mp ran
      obtain rfl := Except.ok.inj (first.symm.trans second)
      exact always before after t rest ran

end Run

section Trace

variable {σ α : Type*} {R : σ → α → σ → Prop}

/-- A finite sequence of labelled steps. -/
inductive Trace (R : σ → α → σ → Prop) : σ → List α → σ → Prop where
  | nil (s : σ) : Trace R s [] s
  | cons {s t u : σ} {a : α} {as : List α} : R s a t → Trace R t as u → Trace R s (a :: as) u

theorem Trace.append {s t u : σ} {as bs : List α} (first : Trace R s as t) (second : Trace R t bs u) :
    Trace R s (as ++ bs) u := by
  induction first with
  | nil => exact second
  | cons step _ ih => exact .cons step (ih second)

theorem Trace.mono {R' : σ → α → σ → Prop} (weaker : ∀ s a t, R s a t → R' s a t) {s t : σ} {as : List α}
    (h : Trace R s as t) : Trace R' s as t := by
  induction h with
  | nil s => exact .nil s
  | cons step _ ih => exact .cons (weaker _ _ _ step) ih

/-- A trace whose labels all satisfy `P`. -/
theorem Trace.restrict {P : α → Prop} {s t : σ} {as : List α} (h : Trace R s as t) (each : ∀ a ∈ as, P a) :
    Trace (fun s a t => R s a t ∧ P a) s as t := by
  induction h with
  | nil s => exact .nil s
  | cons step _ ih =>
    exact .cons ⟨step, each _ List.mem_cons_self⟩ (ih fun a member => each a (List.mem_cons_of_mem _ member))

/-- The invariant rule for a relation. -/
theorem Trace.invariant (inv : σ → Prop) (preserved : ∀ s a t, inv s → R s a t → inv t)
    {s t : σ} {as : List α} (start : inv s) (reached : Trace R s as t) : inv t := by
  induction reached with
  | nil => exact start
  | cons step _ ih => exact ih (preserved _ _ _ start step)

theorem Trace.split {s u : σ} {as bs : List α} (h : Trace R s (as ++ bs) u) : ∃ t, Trace R s as t ∧ Trace R t bs u := by
  induction as generalizing s with
  | nil => exact ⟨s, .nil s, h⟩
  | cons a as ih =>
    cases h with
    | cons step rest =>
      obtain ⟨t, first, second⟩ := ih rest
      exact ⟨t, .cons step first, second⟩

/-- A relation that determines the next state determines the last one. -/
theorem Trace.unique (determined : ∀ s a t t', R s a t → R s a t' → t = t') {s t t' : σ} {as : List α}
    (h : Trace R s as t) (h' : Trace R s as t') : t = t' := by
  induction h with
  | nil =>
    cases h'
    rfl
  | cons step _ ih =>
    cases h' with
    | cons step' rest' =>
      cases determined _ _ _ _ step step'
      exact ih rest'

/-- **The simulation rule.** Where every step of one system is matched by a step of another, every run is. -/
theorem Trace.simulate {σ' α' : Type*} {R' : σ' → α' → σ' → Prop} {related : σ → σ' → Prop} {label : α → α'}
    (matched : ∀ s a t p, related s p → R s a t → ∃ q, R' p (label a) q ∧ related t q) {s t : σ} {p : σ'}
    {as : List α} (start : related s p) (h : Trace R s as t) : ∃ q, Trace R' p (as.map label) q ∧ related t q := by
  induction h generalizing p with
  | nil => exact ⟨p, .nil p, start⟩
  | cons step _ ih =>
    obtain ⟨q, first, next⟩ := matched _ _ _ _ start step
    obtain ⟨r, rest, last⟩ := ih next
    exact ⟨r, .cons first rest, last⟩

/-- The simulation rule where the matching step is chosen among those with the right label. -/
theorem Trace.realise {σ' α' : Type*} (R' : σ' → α' → σ' → Prop) (related : σ → σ' → Prop) (label : α' → α)
    (matched : ∀ s a t p, related s p → R s a t → ∃ a' q, label a' = a ∧ R' p a' q ∧ related t q) {s t : σ} {p : σ'}
    {as : List α} (start : related s p) (h : Trace R s as t) :
    ∃ as' q, as'.map label = as ∧ Trace R' p as' q ∧ related t q := by
  induction h generalizing p with
  | nil => exact ⟨[], p, rfl, .nil p, start⟩
  | cons step _ ih =>
    obtain ⟨a', q, rfl, first, next⟩ := matched _ _ _ _ start step
    obtain ⟨as', r, rfl, rest, last⟩ := ih next
    exact ⟨a' :: as', r, rfl, .cons first rest, last⟩

/-- **The ranking rule.** A state that waits is left for a good one after at most as many counted steps as its rank, if
each counted step that is not good lowers the rank and no other step raises it. -/
theorem Trace.reaches_of_rank (waits good : σ → Prop) (counted : α → Bool) (rank : σ → Nat)
    (positive : ∀ s, waits s → 0 < rank s)
    (lowers : ∀ s a t, waits s → R s a t → counted a = true → good t ∨ waits t ∧ rank t < rank s)
    (keeps : ∀ s a t, waits s → R s a t → counted a = false → waits t ∧ rank t ≤ rank s)
    {s u : σ} {as : List α} (start : waits s) (h : Trace R s as u) (enough : rank s ≤ as.countP counted) :
    ∃ before after t, as = before ++ after ∧ Trace R s before t ∧ good t ∧ before.countP counted ≤ rank s := by
  induction h with
  | nil s =>
    have := positive s start
    simp only [List.countP_nil] at enough
    omega
  | @cons s t u a as step rest ih =>
    have ranked := positive s start
    rw [List.countP_cons] at enough
    cases counts : counted a with
    | true =>
      rw [if_pos counts] at enough
      rcases lowers s a t start step counts with done | ⟨waiting, less⟩
      · refine ⟨[a], as, t, rfl, .cons step (.nil t), done, ?_⟩
        rw [List.countP_singleton, if_pos counts]
        exact ranked
      · obtain ⟨before, after, v, rfl, trace, reached, bound⟩ := ih waiting (by omega)
        refine ⟨a :: before, after, v, rfl, .cons step trace, reached, ?_⟩
        rw [List.countP_cons, if_pos counts]
        omega
    | false =>
      rw [counts] at enough
      obtain ⟨waiting, le⟩ := keeps s a t start step counts
      obtain ⟨before, after, v, rfl, trace, reached, bound⟩ := ih waiting (by simp at enough; omega)
      refine ⟨a :: before, after, v, rfl, .cons step trace, reached, ?_⟩
      rw [List.countP_cons, counts]
      simp
      omega

end Trace

/-- A run of a step function is a trace of the relation it defines. -/
theorem run_trace {ε σ α : Type*} {step : σ → α → Except ε σ} {s t : σ} {as : List α} :
    run step s as = .ok t ↔ Trace (fun s a t => step s a = .ok t) s as t := by
  constructor
  · intro ran
    induction as generalizing s with
    | nil =>
      cases ran
      exact .nil _
    | cons a as ih =>
      obtain ⟨u, first, rest⟩ := run_cons_ok.mp ran
      exact .cons first (ih rest)
  · intro trace
    induction trace with
    | nil => rfl
    | cons step _ ih => exact run_cons_ok.mpr ⟨_, step, ih⟩

end Lib
