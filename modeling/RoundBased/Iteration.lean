import Mathlib.Tactic.Common

/-! Iterators: a state and a `next` that may fail. An adaptor is described by the items it returns,
given those of the iterators it is made of. -/
namespace Iteration

variable {E S T A B : Type}

/-- What `next` does to the state, and the item it returns. -/
abbrev Next (E S A : Type) := S → Except E (S × Option A)

/-- The next calls return these items. -/
inductive Steps (next : Next E S A) : S → List A → S → Prop
  | nil {s : S} : Steps next s [] s
  | cons {s m s' : S} {x : A} {xs : List A} :
      next s = .ok (m,some x) → Steps next m xs s' → Steps next s (x :: xs) s'

/-- The next calls return these items, and the call after the last one returns none. -/
def Yields (next : Next E S A) (s : S) (xs : List A) : Prop :=
  ∃ m s', Steps next s xs m ∧ next m = .ok (s',none)

section Rules

variable {next : Next E S A} {s m s' : S} {x : A} {xs ys : List A}

theorem Steps.append (h : Steps next s xs m) (h' : Steps next m ys s') :
    Steps next s (xs ++ ys) s' := by
  induction h with
  | nil => exact h'
  | cons hx _ ih => exact .cons hx (ih h')

theorem Yields.nil (h : next s = .ok (s',none)) : Yields next s [] := ⟨s,s',.nil,h⟩

theorem Yields.cons (hx : next s = .ok (m,some x)) (h : Yields next m xs) :
    Yields next s (x :: xs) := by
  obtain ⟨m',s',hsteps,hnone⟩ := h
  exact ⟨m',s',.cons hx hsteps,hnone⟩

theorem Steps.congr (h : next s = next s') (hs : Steps next s' (x :: xs) m) :
    Steps next s (x :: xs) m := by
  cases hs with
  | cons hx htail => exact .cons (h.trans hx) htail

theorem Yields.append (h : Steps next s xs m) (h' : Yields next m ys) :
    Yields next s (xs ++ ys) := by
  obtain ⟨m',s',hsteps,hnone⟩ := h'
  exact ⟨m',s',h.append hsteps,hnone⟩

theorem yields_nil_iff : Yields next s [] ↔ ∃ s', next s = .ok (s',none) := by
  constructor
  · rintro ⟨m,s',hsteps,hnone⟩
    cases hsteps
    exact ⟨s',hnone⟩
  · rintro ⟨s',h⟩
    exact .nil h

theorem yields_cons_iff :
    Yields next s (x :: xs) ↔ ∃ m, next s = .ok (m,some x) ∧ Yields next m xs := by
  constructor
  · rintro ⟨m',s',hsteps,hnone⟩
    cases hsteps with
    | cons hx htail => exact ⟨_,hx,m',s',htail,hnone⟩
  · rintro ⟨m,hx,h⟩
    exact .cons hx h

theorem yields_congr (h : next s = next s') : Yields next s xs ↔ Yields next s' xs := by
  cases xs with
  | nil => rw [yields_nil_iff,yields_nil_iff,h]
  | cons x xs => rw [yields_cons_iff,yields_cons_iff,h]

/-- An iterator that has come to a failing call never gets to its end. -/
theorem Steps.not_yields {e : E} (h : Steps next s xs m) (he : next m = .error e) (ys : List A) :
    ¬ Yields next s ys := by
  induction h generalizing ys with
  | nil =>
    rintro ⟨m',s',hsteps,hnone⟩
    cases hsteps with
    | nil => rw [he] at hnone; cases hnone
    | cons hx _ => rw [he] at hx; cases hx
  | cons hx _ ih =>
    cases ys with
    | nil =>
      intro hy
      obtain ⟨s',hnone⟩ := yields_nil_iff.mp hy
      rw [hx] at hnone
      cases hnone
    | cons y ys =>
      intro hy
      obtain ⟨m',hy,htail⟩ := yields_cons_iff.mp hy
      rw [hx] at hy
      cases hy
      exact ih he ys htail

end Rules

/-- The items of a list. -/
def list : Next E (List A) A
  | [] => .ok ([],none)
  | x :: xs => .ok (xs,some x)

theorem steps_list (xs ys : List A) : Steps (list : Next E (List A) A) (xs ++ ys) xs ys := by
  induction xs with
  | nil => exact .nil
  | cons x xs ih => exact .cons rfl ih

theorem yields_list (xs : List A) : Yields (list : Next E (List A) A) xs xs := by
  have hsteps := steps_list (E := E) xs []
  rw [List.append_nil] at hsteps
  exact ⟨[],[],hsteps,rfl⟩

/-- A single item. -/
def once : Next E (Option A) A := fun s => .ok (none,s)

theorem yields_once (x : A) : Yields (once : Next E (Option A) A) (some x) [x] :=
  .cons rfl (.nil rfl)

/-- At most as many items as the counter tells. -/
def take (next : Next E S A) : Next E (ℕ × S) A
  | (0,s) => .ok ((0,s),none)
  | (k + 1,s) =>
    match next s with
    | .error e => .error e
    | .ok (s',x) => .ok ((k,s'),x)

theorem Yields.take {next : Next E S A} {s : S} {xs : List A} (h : Yields next s xs) (k : ℕ) :
    Yields (take next) (k,s) (xs.take k) := by
  induction k generalizing s xs with
  | zero => exact .nil rfl
  | succ k ih =>
    cases xs with
    | nil =>
      obtain ⟨s',hnone⟩ := yields_nil_iff.mp h
      exact .nil (by rw [Iteration.take,hnone])
    | cons x xs =>
      obtain ⟨m,hx,htail⟩ := yields_cons_iff.mp h
      exact .cons (by rw [Iteration.take,hx]) (ih htail)

/-- Passes over `k` items, and returns the one after them. -/
def nth (next : Next E S A) : ℕ → S → Except E (S × Option A)
  | 0,s => next s
  | k + 1,s =>
    match next s with
    | .error e => .error e
    | .ok (s',none) => .ok (s',none)
    | .ok (s',some _) => nth next k s'

/-- The counter tells how many items the first call passes over. -/
def skip (next : Next E S A) : Next E (ℕ × S) A := fun (k,s) =>
  match nth next k s with
  | .error e => .error e
  | .ok (s',x) => .ok ((0,s'),x)

theorem Steps.skip {next : Next E S A} {s m : S} {xs : List A} (h : Steps next s xs m) :
    Steps (skip next) (0,s) xs (0,m) := by
  induction h with
  | nil => exact .nil
  | cons hx _ ih => exact .cons (by simp only [Iteration.skip,nth,hx]) ih

theorem Yields.skip {next : Next E S A} {s : S} {xs : List A} (h : Yields next s xs) (k : ℕ) :
    Yields (skip next) (k,s) (xs.drop k) := by
  induction k generalizing s xs with
  | zero =>
    obtain ⟨m,s',hsteps,hnone⟩ := h
    exact ⟨(0,m),(0,s'),hsteps.skip,by simp only [Iteration.skip,nth,hnone]⟩
  | succ k ih =>
    cases xs with
    | nil =>
      obtain ⟨s',hnone⟩ := yields_nil_iff.mp h
      have hnext : Iteration.skip next (k + 1,s) = .ok ((0,s'),none) := by
        simp only [Iteration.skip,nth,hnone]
      exact .nil hnext
    | cons x xs =>
      obtain ⟨m,hx,htail⟩ := yields_cons_iff.mp h
      -- the first call passes over `x` as well
      have hfirst : Iteration.skip next (k + 1,s) = Iteration.skip next (k,m) := by
        simp only [Iteration.skip,nth,hx]
      rw [List.drop_succ_cons,yields_congr hfirst]
      exact ih htail

/-- The items of the first iterator and then those of the second. The first one is dropped when it
has returned none. -/
def chain (a : Next E S A) (b : Next E T A) : Next E (Option S × T) A
  | (none,t) =>
    match b t with
    | .error e => .error e
    | .ok (t',x) => .ok ((none,t'),x)
  | (some s,t) =>
    match a s with
    | .error e => .error e
    | .ok (s',some x) => .ok ((some s',t),some x)
    | .ok (_,none) =>
      match b t with
      | .error e => .error e
      | .ok (t',x) => .ok ((none,t'),x)

section Chain

variable {a : Next E S A} {b : Next E T A} {s s' : S} {t t' : T} {xs ys : List A}

theorem Steps.chain_left (h : Steps a s xs s') : Steps (chain a b) (some s,t) xs (some s',t) := by
  induction h with
  | nil => exact .nil
  | cons hx _ ih => exact .cons (by simp only [chain,hx]) ih

theorem Steps.chain_right (h : Steps b t xs t') : Steps (chain a b) (none,t) xs (none,t') := by
  induction h with
  | nil => exact .nil
  | cons hx _ ih => exact .cons (by simp only [chain,hx]) ih

theorem chain_of_done (h : a s = .ok (s',none)) : chain a b (some s,t) = chain a b (none,t) := by
  simp only [chain,h]

theorem Yields.chain_right (h : Yields b t xs) : Yields (chain a b) (none,t) xs := by
  obtain ⟨m,t',hsteps,hnone⟩ := h
  exact ⟨(none,m),(none,t'),hsteps.chain_right,by simp only [Iteration.chain,hnone]⟩

theorem Yields.chain (ha : Yields a s xs) (hb : Yields b t ys) :
    Yields (chain a b) (some s,t) (xs ++ ys) := by
  obtain ⟨m,s',hsteps,hnone⟩ := ha
  have hdone : Yields (Iteration.chain a b) (some m,t) ys :=
    (yields_congr (chain_of_done hnone)).mpr hb.chain_right
  exact .append hsteps.chain_left hdone

end Chain

/-- Pairs of items, as long as both return one. The first iterator is polled first. -/
def zip (a : Next E S A) (b : Next E T B) : Next E (S × T) (A × B) := fun (s,t) =>
  match a s with
  | .error e => .error e
  | .ok (s',none) => .ok ((s',t),none)
  | .ok (s',some x) =>
    match b t with
    | .error e => .error e
    | .ok (t',y) => .ok ((s',t'),y.map fun y => (x,y))

section Zip

variable {a : Next E S A} {b : Next E T B} {s s' : S} {t t' : T} {xs : List A} {ys : List B}

theorem Steps.zip (ha : Steps a s xs s') (hb : Steps b t ys t') (hlen : xs.length = ys.length) :
    Steps (zip a b) (s,t) (xs.zip ys) (s',t') := by
  induction ha generalizing t ys with
  | nil =>
    rw [List.length_eq_zero_iff.mp hlen.symm] at hb
    cases hb
    exact .nil
  | cons hx _ ih =>
    cases hb with
    | nil => cases hlen
    | cons hy hb =>
      refine .cons ?_ (ih hb (Nat.succ.inj hlen))
      simp only [Iteration.zip,hx,hy,Option.map_some]

/-- The first iterator has returned an item that is lost, as the second has none. -/
theorem zip_of_done {x : A} (ha : a s = .ok (s',some x)) (hb : b t = .ok (t',none)) :
    zip a b (s,t) = .ok ((s',t'),none) := by
  simp only [zip,ha,hb,Option.map_none]

theorem zip_of_left_done (ha : a s = .ok (s',none)) : zip a b (s,t) = .ok ((s',t),none) := by
  simp only [zip,ha]

theorem zip_of_error {e : E} (ha : a s = .error e) : zip a b (s,t) = .error e := by
  simp only [zip,ha]

end Zip

/-- The items under a function. -/
def map (f : A → B) (next : Next E S A) : Next E S B := fun s =>
  match next s with
  | .error e => .error e
  | .ok (s',x) => .ok (s',x.map f)

section Map

variable {next : Next E S A} {s s' : S} {xs : List A}

theorem Steps.map (f : A → B) (h : Steps next s xs s') :
    Steps (map f next) s (xs.map f) s' := by
  induction h with
  | nil => exact .nil
  | cons hx _ ih => exact .cons (by simp only [Iteration.map,hx,Option.map_some]) ih

theorem map_of_done (f : A → B) (h : next s = .ok (s',none)) : map f next s = .ok (s',none) := by
  simp only [map,h,Option.map_none]

theorem map_of_error {e : E} (f : A → B) (h : next s = .error e) : map f next s = .error e := by
  simp only [map,h]

end Map

/-- A loop over the items, for so many calls at most. -/
def fold (f : B → A → B) (next : Next E S A) : ℕ → S → B → Except E B
  | 0,_,b => .ok b
  | k + 1,s,b =>
    match next s with
    | .error e => .error e
    | .ok (_,none) => .ok b
    | .ok (s',some x) => fold f next k s' (f b x)

/-- A loop that may make more calls than there are items goes to the end. -/
theorem Yields.fold {next : Next E S A} {s : S} {xs : List A} (h : Yields next s xs)
    (f : B → A → B) {k : ℕ} (hk : xs.length < k) (b : B) :
    fold f next k s b = .ok (xs.foldl f b) := by
  induction xs generalizing k s b with
  | nil =>
    obtain ⟨s',hnone⟩ := yields_nil_iff.mp h
    cases k with
    | zero => cases hk
    | succ k => simp only [Iteration.fold,hnone,List.foldl_nil]
  | cons x xs ih =>
    obtain ⟨m,hx,htail⟩ := yields_cons_iff.mp h
    cases k with
    | zero => cases hk
    | succ k =>
      simp only [Iteration.fold,hx,List.foldl_cons]
      exact ih htail (Nat.lt_of_succ_lt_succ hk) (f b x)

/-- An iterator: its state and its `next`. -/
structure Iter (E S A : Type) where
  next : Next E S A
  state : S

namespace Iter

/-- Driven to the end, the iterator returns these items. -/
def Yields (it : Iter E S A) (xs : List A) : Prop := Iteration.Yields it.next it.state xs

def ofList (xs : List A) : Iter E (List A) A := ⟨Iteration.list,xs⟩

def once (x : A) : Iter E (Option A) A := ⟨Iteration.once,some x⟩

def take (it : Iter E S A) (k : ℕ) : Iter E (ℕ × S) A := ⟨Iteration.take it.next,(k,it.state)⟩

def skip (it : Iter E S A) (k : ℕ) : Iter E (ℕ × S) A := ⟨Iteration.skip it.next,(k,it.state)⟩

def chain (a : Iter E S A) (b : Iter E T A) : Iter E (Option S × T) A :=
  ⟨Iteration.chain a.next b.next,(some a.state,b.state)⟩

def zip (a : Iter E S A) (b : Iter E T B) : Iter E (S × T) (A × B) :=
  ⟨Iteration.zip a.next b.next,(a.state,b.state)⟩

def map (it : Iter E S A) (f : A → B) : Iter E S B := ⟨Iteration.map f it.next,it.state⟩

end Iter
end Iteration
