import Mathlib

/-!
# A ledger of accounts with reused holders

An account is opened at a holder, amounts are posted to the accounts open at a holder, and closing a
holder closes what is open there. A holder may be opened again, so a ledger lists every account that
was ever opened. The lemmas say how the accounts open at one holder and the total of the closed
accounts change; nothing assumes that a holder has at most one open account.
-/

namespace Lib
set_option autoImplicit false

structure Account (ι M : Type*) where
  holder : ι
  amount : M
  closed : Bool
deriving DecidableEq

/-- Every account ever opened, oldest first. -/
abbrev Ledger (ι M : Type*) := List (Account ι M)

variable {ι M : Type*}

def Account.isOpenAt [DecidableEq ι] (holder : ι) (a : Account ι M) : Bool := decide (a.holder = holder) && !a.closed

def Account.post [DecidableEq ι] [Add M] (holder : ι) (amount : M) (a : Account ι M) : Account ι M :=
  if a.isOpenAt holder then { a with amount := a.amount + amount } else a

def Account.close [DecidableEq ι] (holder : ι) (a : Account ι M) : Account ι M :=
  if a.isOpenAt holder then { a with closed := true } else a

namespace Ledger

/-- Open an account with nothing posted to it. -/
def enter [Zero M] (ledger : Ledger ι M) (holder : ι) : Ledger ι M := ledger ++ [⟨holder, 0, false⟩]

def post [DecidableEq ι] [Add M] (ledger : Ledger ι M) (holder : ι) (amount : M) : Ledger ι M :=
  ledger.map (Account.post holder amount)

def close [DecidableEq ι] (ledger : Ledger ι M) (holder : ι) : Ledger ι M := ledger.map (Account.close holder)

def openAt [DecidableEq ι] (ledger : Ledger ι M) (holder : ι) : List (Account ι M) :=
  ledger.filter (Account.isOpenAt holder)

/-- What was posted to the accounts that are closed by now. -/
def closedTotal [Add M] [Zero M] (ledger : Ledger ι M) : M :=
  ((ledger.filter Account.closed).map Account.amount).sum

end Ledger

/-! ## One account -/

section Account

variable [DecidableEq ι] {h h' : ι} {a : Account ι M}

theorem Account.isOpenAt_iff : a.isOpenAt h = true ↔ a.holder = h ∧ a.closed = false := by
  simp [isOpenAt]

theorem Account.post_closed [Add M] {amount : M} : (a.post h amount).closed = a.closed := by
  unfold post
  split <;> rfl

theorem Account.isOpenAt_post [Add M] {amount : M} : (a.post h' amount).isOpenAt h = a.isOpenAt h := by
  unfold post
  split <;> rfl

theorem Account.post_of_ne [Add M] {amount : M} (ne : h ≠ h') (here : a.isOpenAt h = true) :
    a.post h' amount = a := by
  refine if_neg fun there => ne ?_
  exact (isOpenAt_iff.mp here).1.symm.trans (isOpenAt_iff.mp there).1

theorem Account.isOpenAt_close_self : (a.close h).isOpenAt h = false := by
  unfold close
  split
  · simp [isOpenAt]
  · rename_i other
    exact Bool.eq_false_iff.mpr other

theorem Account.isOpenAt_close_of_ne (ne : h ≠ h') : (a.close h').isOpenAt h = a.isOpenAt h := by
  unfold close
  split
  · rename_i here
    have elsewhere : a.holder ≠ h := fun same => ne (same.symm.trans (isOpenAt_iff.mp here).1)
    simp [isOpenAt, elsewhere]
  · rfl

theorem Account.close_of_ne (ne : h ≠ h') (here : a.isOpenAt h = true) : a.close h' = a := by
  refine if_neg fun there => ne ?_
  exact (isOpenAt_iff.mp here).1.symm.trans (isOpenAt_iff.mp there).1

end Account

/-! ## The accounts open at a holder -/

namespace Ledger

section OpenAt

variable [DecidableEq ι] (ledger : Ledger ι M) {h h' : ι}

theorem openAt_enter_self [Zero M] : (ledger.enter h).openAt h = ledger.openAt h ++ [⟨h, 0, false⟩] := by
  simp [openAt, enter, Account.isOpenAt]

theorem openAt_enter_of_ne [Zero M] (ne : h ≠ h') : (ledger.enter h').openAt h = ledger.openAt h := by
  simp [openAt, enter, Account.isOpenAt, ne.symm]

/-- A change of the accounts that opens and closes none at `h`. -/
theorem openAt_map {f : Account ι M → Account ι M} (same : ∀ a, (f a).isOpenAt h = a.isOpenAt h) :
    openAt (ledger.map f) h = (ledger.openAt h).map f := by
  simp only [openAt, List.filter_map, Function.comp_def, same]

theorem openAt_map_id {f : Account ι M → Account ι M} (same : ∀ a, (f a).isOpenAt h = a.isOpenAt h)
    (fixed : ∀ a, a.isOpenAt h = true → f a = a) : openAt (ledger.map f) h = ledger.openAt h := by
  rw [openAt_map ledger same]
  exact (List.map_congr_left fun a member => fixed a (List.mem_filter.mp member).2).trans (List.map_id _)

theorem openAt_post_self [Add M] (amount : M) :
    (ledger.post h amount).openAt h = (ledger.openAt h).map fun a => { a with amount := a.amount + amount } := by
  rw [post, openAt_map ledger fun _ => Account.isOpenAt_post]
  exact List.map_congr_left fun a member => if_pos (List.mem_filter.mp member).2

theorem openAt_post_of_ne [Add M] (amount : M) (ne : h ≠ h') : (ledger.post h' amount).openAt h = ledger.openAt h :=
  openAt_map_id ledger (fun _ => Account.isOpenAt_post) fun _ => Account.post_of_ne ne

theorem openAt_close_self : (ledger.close h).openAt h = [] := by
  refine List.filter_eq_nil_iff.mpr fun a member => ?_
  obtain ⟨a', -, rfl⟩ := List.mem_map.mp member
  rw [Account.isOpenAt_close_self]
  exact Bool.false_ne_true

theorem openAt_close_of_ne (ne : h ≠ h') : (ledger.close h').openAt h = ledger.openAt h :=
  openAt_map_id ledger (fun _ => Account.isOpenAt_close_of_ne ne) fun _ => Account.close_of_ne ne

end OpenAt

/-! ## The total of the closed accounts -/

section ClosedTotal

variable [AddCommMonoid M] (ledger : Ledger ι M) {h : ι}

theorem closedTotal_cons (a : Account ι M) :
    closedTotal (a :: ledger) = (if a.closed then a.amount else 0) + closedTotal ledger := by
  unfold closedTotal
  cases closed : a.closed <;> simp [closed]

theorem closedTotal_enter : (ledger.enter h).closedTotal = ledger.closedTotal := by
  simp [closedTotal, enter]

variable [DecidableEq ι]

theorem closedTotal_post (amount : M) : (ledger.post h amount).closedTotal = ledger.closedTotal := by
  induction ledger with
  | nil => rfl
  | cons a ledger ih =>
    have rest : closedTotal (List.map (Account.post h amount) ledger) = closedTotal ledger := ih
    rw [post, List.map_cons, closedTotal_cons, closedTotal_cons, rest, Account.post_closed]
    cases closed : a.closed with
    | false => rfl
    | true =>
      have shut : ¬ a.isOpenAt h = true := fun here => by simp [Account.isOpenAt, closed] at here
      rw [Account.post, if_neg shut]

/-- **Closing a holder** moves what was posted to its open accounts into the total. -/
theorem closedTotal_close :
    (ledger.close h).closedTotal = ledger.closedTotal + ((ledger.openAt h).map Account.amount).sum := by
  induction ledger with
  | nil => simp [close, openAt, closedTotal]
  | cons a ledger ih =>
    have rest : closedTotal (List.map (Account.close h) ledger) =
        closedTotal ledger + (((List.filter (Account.isOpenAt h) ledger)).map Account.amount).sum := ih
    rw [close, List.map_cons, closedTotal_cons, closedTotal_cons, rest, openAt]
    by_cases here : a.isOpenAt h = true
    · have isOpen := (Account.isOpenAt_iff.mp here).2
      rw [List.filter_cons_of_pos here, Account.close, if_pos here, if_pos rfl, isOpen, if_neg Bool.false_ne_true,
        List.map_cons, List.sum_cons, zero_add, add_left_comm]
    · rw [List.filter_cons_of_neg here, Account.close, if_neg here, add_assoc]

end ClosedTotal

end Ledger

end Lib
