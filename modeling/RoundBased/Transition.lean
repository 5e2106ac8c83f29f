import Mathlib.Tactic.Common

/-! Labelled transition systems: runs, reachable states and the induction rule for
invariants. A step is a relation, so nondeterministic and partial systems fit. -/
namespace Transition

variable {S L : Type}

/-- One initial state and the labelled steps. -/
structure System (S L : Type) where
  init : S
  step : S → L → S → Prop

/-- `Run sys a ls b`: the labels `ls`, oldest first, lead from `a` to `b`. -/
inductive Run (sys : System S L) (a : S) : List L → S → Prop
  | refl : Run sys a [] a
  | snoc {ls : List L} {b c : S} {l : L} :
      Run sys a ls b → sys.step b l c → Run sys a (ls ++ [l]) c

/-- The states a run from the initial state can end in. -/
def System.Reachable (sys : System S L) (s : S) : Prop := ∃ ls, Run sys sys.init ls s

theorem System.reachable_init (sys : System S L) : sys.Reachable sys.init := ⟨[],.refl⟩

theorem System.Reachable.next {sys : System S L} {s t : S} {l : L} (h : sys.Reachable s)
    (hs : sys.step s l t) : sys.Reachable t := by
  obtain ⟨ls,hr⟩ := h
  exact ⟨ls ++ [l],.snoc hr hs⟩

/-- What one step preserves, a whole run preserves. -/
theorem Run.preserves {sys : System S L} {a b : S} {ls : List L} {P : S → Prop}
    (h : Run sys a ls b) (hstep : ∀ s l t, P s → sys.step s l t → P t) (ha : P a) : P b := by
  induction h with
  | refl => exact ha
  | snoc _ hs ih => exact hstep _ _ _ ih hs

/-- The invariant rule: initial and inductive implies true in every reachable state. -/
theorem System.Reachable.invariant {sys : System S L} {P : S → Prop} {s : S}
    (h : sys.Reachable s) (h0 : P sys.init)
    (hstep : ∀ s l t, P s → sys.step s l t → P t) : P s := by
  obtain ⟨ls,hr⟩ := h
  exact hr.preserves hstep h0

/-- The invariant rule with the labels of the run so far in view. -/
theorem Run.invariant {sys : System S L} {a b : S} {ls : List L} {P : List L → S → Prop}
    (h : Run sys a ls b) (h0 : P [] a)
    (hstep : ∀ ls s l t, Run sys a ls s → P ls s → sys.step s l t → P (ls ++ [l]) t) :
    P ls b := by
  induction h with
  | refl => exact h0
  | snoc hr hs ih => exact hstep _ _ _ _ hr ih hs

theorem Run.append {sys : System S L} {a b c : S} {ls ks : List L}
    (h : Run sys a ls b) (hk : Run sys b ks c) : Run sys a (ls ++ ks) c := by
  induction hk with
  | refl => simpa using h
  | snoc _ hs ih => rw [← List.append_assoc]; exact .snoc ih hs

/-- Where the invariant holds, it is kept and every step takes something off the measure. -/
structure System.Decreases (sys : System S L) (Inv : S → Prop) (measure : S → ℕ) : Prop where
  keeps : ∀ s l t, Inv s → sys.step s l t → Inv t
  lt : ∀ s l t, Inv s → sys.step s l t → measure t < measure s

/-- There are no more steps than the measure counts. -/
theorem System.Decreases.length_le {sys : System S L} {Inv : S → Prop} {measure : S → ℕ} {a b : S}
    {ls : List L} (h : sys.Decreases Inv measure) (hr : Run sys a ls b) (ha : Inv a) :
    ls.length + measure b ≤ measure a := by
  have hb := hr.invariant (P := fun ls b => Inv b ∧ ls.length + measure b ≤ measure a)
    ⟨ha,by simp⟩ fun ls s l t _ hs hstep => by
      have hlt := h.lt s l t hs.1 hstep
      refine ⟨h.keeps s l t hs.1 hstep,?_⟩
      rw [List.length_append,List.length_singleton]
      omega
  exact hb.2

/-- A run can go on until no step is possible. -/
theorem System.Decreases.ends {sys : System S L} {Inv : S → Prop} {measure : S → ℕ} {a : S}
    (h : sys.Decreases Inv measure) (ha : Inv a) :
    ∃ ls b, Run sys a ls b ∧ Inv b ∧ ∀ l t, ¬ sys.step b l t := by
  generalize hm : measure a = m
  induction m using Nat.strongRecOn generalizing a with
  | _ m ih =>
    by_cases hstep : ∃ l t, sys.step a l t
    · obtain ⟨l,t,hs⟩ := hstep
      obtain ⟨ls,b,hr,hb,hrest⟩ := ih _ (hm ▸ h.lt a l t ha hs) (h.keeps a l t ha hs) rfl
      exact ⟨[l] ++ ls,b,(Run.snoc .refl hs).append hr,hb,hrest⟩
    · exact ⟨[],a,.refl,ha,fun l t hs => hstep ⟨l,t,hs⟩⟩

end Transition
