import Mathlib.Tactic.Common

/-! Descent in lists: when every member can only go down finitely often, so can the list as a whole,
whichever member goes down next. -/
namespace Descent

variable {A : Type} {r : A → A → Prop}

/-- One member of the list has gone down. -/
inductive OneDown (r : A → A → Prop) : List A → List A → Prop
  | head {x y : A} {xs : List A} : r y x → OneDown r (y :: xs) (x :: xs)
  | tail {x : A} {xs ys : List A} : OneDown r ys xs → OneDown r (x :: ys) (x :: xs)

theorem acc_cons {x : A} {xs : List A} (hx : Acc r x) (hxs : Acc (OneDown r) xs) :
    Acc (OneDown r) (x :: xs) := by
  induction hx generalizing xs with
  | intro x _ ihx =>
    induction hxs with
    | intro xs hxs ihxs =>
      refine Acc.intro _ fun ys hys => ?_
      cases hys with
      | head hy => exact ihx _ hy (Acc.intro xs hxs)
      | tail htail => exact ihxs _ htail

theorem acc_oneDown {xs : List A} (h : ∀ x ∈ xs, Acc r x) : Acc (OneDown r) xs := by
  induction xs with
  | nil => exact Acc.intro _ fun ys hys => by cases hys
  | cons x xs ih =>
    exact acc_cons (h x (List.mem_cons_self ..)) (ih fun y hy => h y (List.mem_cons_of_mem _ hy))

theorem oneDown_set {xs : List A} {k : ℕ} {x y : A} (hk : xs[k]? = some x) (h : r y x) :
    OneDown r (xs.set k y) xs := by
  induction xs generalizing k with
  | nil => cases hk
  | cons z zs ih =>
    cases k with
    | zero =>
      cases hk
      exact .head h
    | succ k => exact .tail (ih hk)

end Descent
