import Mathlib.Tactic.Common
import Mathlib.Data.List.Induction

/-! Collectors: values that consume items one by one, until an item is refused or no
more items are wanted. -/
namespace Feeding

variable {S T X Y E F : Type}

/-- When a collector wants more, and how it takes one item. -/
structure Collector (S X E : Type) where
  wants : S → Bool
  add : S → X → Except E S

/-- Feeds items in order. Items after the last wanted one are ignored. -/
def Collector.feed (c : Collector S X E) : S → List X → Except E S
  | s, [] => .ok s
  | s, x :: xs => if c.wants s then (c.add s x).bind fun s' => c.feed s' xs else .ok s

/-- Feeding came to an end: an item was refused, or no more items are wanted. -/
def Collector.Stops (c : Collector S X E) (s : S) (xs : List X) : Prop :=
  ∀ s', c.feed s xs = .ok s' → c.wants s' = false

instance (c : Collector S X E) (s : S) (xs : List X) : Decidable (c.Stops s xs) :=
  match h : c.feed s xs with
  | .error e => isTrue fun s' h' => by rw [h] at h'; cases h'
  | .ok s' =>
    if hw : c.wants s' = false then isTrue fun t h' => by rw [h] at h'; cases h'; exact hw
    else isFalse fun hs => hw (hs s' h)

variable {c : Collector S X E} {d : Collector T Y F}

theorem feed_of_not_wants {s : S} (h : c.wants s = false) (xs : List X) :
    c.feed s xs = .ok s := by
  cases xs <;> simp [Collector.feed,h]

theorem feed_append (s : S) (xs ys : List X) :
    c.feed s (xs ++ ys) = (c.feed s xs).bind fun s' => c.feed s' ys := by
  induction xs generalizing s with
  | nil => rfl
  | cons x xs ih =>
    by_cases hw : c.wants s = true
    · simp only [List.cons_append,Collector.feed,hw,if_true]
      cases c.add s x with
      | error e => rfl
      | ok s' => exact ih s'
    · rw [Bool.not_eq_true] at hw
      simp only [feed_of_not_wants hw,Except.bind]

theorem feed_snoc (s : S) (xs : List X) (x : X) :
    c.feed s (xs ++ [x]) = (c.feed s xs).bind fun s' =>
      if c.wants s' then c.add s' x else .ok s' := by
  rw [feed_append]
  congr 1
  funext s'
  simp only [Collector.feed]
  split
  · cases c.add s' x <;> rfl
  · rfl

/-- Once feeding has stopped, further items change nothing. -/
theorem Collector.Stops.feed_append {s : S} {xs : List X} (h : c.Stops s xs) (ys : List X) :
    c.feed s (xs ++ ys) = c.feed s xs := by
  rw [Feeding.feed_append]
  cases hf : c.feed s xs with
  | error e => rfl
  | ok s' => exact feed_of_not_wants (h s' hf) ys

theorem Collector.Stops.append {s : S} {xs : List X} (h : c.Stops s xs) (ys : List X) :
    c.Stops s (xs ++ ys) := by
  intro s' hf
  rw [h.feed_append] at hf
  exact h s' hf

theorem not_stops_iff {s : S} {xs : List X} :
    ¬ c.Stops s xs ↔ ∃ s', c.feed s xs = .ok s' ∧ c.wants s' = true := by
  constructor
  · intro h
    simp only [Collector.Stops,not_forall,Bool.not_eq_false] at h
    obtain ⟨s',hf,hw⟩ := h
    exact ⟨s',hf,hw⟩
  · rintro ⟨s',hf,hw⟩ h
    rw [h s' hf] at hw
    cases hw

/-- Reached from `s` by items it wanted and took. -/
inductive Collector.Reach (c : Collector S X E) (s : S) : S → Prop
  | refl : Reach c s s
  | add {a b : S} {x : X} : Reach c s a → c.wants a = true → c.add a x = .ok b → Reach c s b

theorem reach_feed {s s' : S} {xs : List X} (h : c.feed s xs = .ok s') : c.Reach s s' := by
  induction xs using List.reverseRecOn generalizing s' with
  | nil => cases h; exact .refl
  | append_singleton xs x ih =>
    rw [feed_snoc] at h
    cases hf : c.feed s xs with
    | error e => rw [hf] at h; cases h
    | ok a =>
      rw [hf] at h
      simp only [Except.bind] at h
      split at h
      · rename_i hw; exact .add (ih hf) hw h
      · cases h; exact ih hf

/-- Two results agree: related values, or related errors. -/
inductive Corresponds (R : S → T → Prop) (Q : E → F → Prop) : Except E S → Except F T → Prop
  | ok {s : S} {t : T} : R s t → Corresponds R Q (.ok s) (.ok t)
  | error {e : E} {f : F} : Q e f → Corresponds R Q (.error e) (.error f)

variable {R : S → T → Prop} {Q : E → F → Prop} {a : Except E S} {b : Except F T}

theorem Corresponds.of_ok {s : S} (h : Corresponds R Q a b) (ha : a = .ok s) :
    ∃ t, b = .ok t ∧ R s t := by
  cases h with
  | ok h => cases ha; exact ⟨_,rfl,h⟩
  | error h => cases ha

theorem Corresponds.of_error {e : E} (h : Corresponds R Q a b) (ha : a = .error e) :
    ∃ f, b = .error f ∧ Q e f := by
  cases h with
  | ok h => cases ha
  | error h => cases ha; exact ⟨_,rfl,h⟩

theorem Corresponds.symm (h : Corresponds R Q a b) :
    Corresponds (fun t s => R s t) (fun f e => Q e f) b a := by
  cases h with
  | ok h => exact .ok h
  | error h => exact .error h

/-- The simulation rule: collectors that agree item by item agree on whole feeds. -/
theorem feed_simulates (f : X → Y) (hwants : ∀ s t, R s t → c.wants s = d.wants t)
    (hadd : ∀ s t x, R s t → c.wants s = true → Corresponds R Q (c.add s x) (d.add t (f x)))
    {s : S} {t : T} (hR : R s t) (xs : List X) :
    Corresponds R Q (c.feed s xs) (d.feed t (xs.map f)) := by
  induction xs generalizing s t with
  | nil => exact .ok hR
  | cons x xs ih =>
    by_cases hw : c.wants s = true
    · have hx := hadd s t x hR hw
      simp only [Collector.feed,List.map_cons,← hwants s t hR,hw,if_true]
      generalize c.add s x = a at hx
      generalize d.add t (f x) = b at hx
      cases hx with
      | ok h => exact ih h
      | error h => exact .error h
    · rw [Bool.not_eq_true] at hw
      rw [feed_of_not_wants hw,feed_of_not_wants (hwants s t hR ▸ hw)]
      exact .ok hR

end Feeding
