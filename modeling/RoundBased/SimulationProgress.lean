import RoundBased.SimulationTermination

/-! Runs of the simulation in which every call leaves less to do. If they come to no deadlock they
end, and they end as their last step does. -/
namespace RoundBased
open Transition

variable {P O M : Type}

namespace Simulation

/-- The run ends from here, with such an outcome. -/
def Ends [Build] (machine : StateMachine P O M) (Post : Outcome O → Prop)
    (s : Simulation P O M) : Prop :=
  ∃ fuel o, run machine fuel s = some o ∧ Post o

/-- With `m` left to do the next step ends the run, calls no party, or leaves less to do. -/
inductive MovesOn [Build] (machine : StateMachine P O M) (Post : Outcome O → Prop)
    (Inv : ℕ → Simulation P O M → Prop) (m : ℕ) (s : Simulation P O M) : Prop
  | stops {o : Outcome O} : s.step machine = some (.stops o) → Post o → MovesOn machine Post Inv m s
  | idles {phase : Phase} {e : Option (SimEvent O M)} : Idles s phase →
      s.step machine = some (.goesOn { s with phase := phase } e) →
      Inv m { s with phase := phase } → MovesOn machine Post Inv m s
  | calls {s' : Simulation P O M} {e : Option (SimEvent O M)} {m' : ℕ} : m' < m →
      s.step machine = some (.goesOn s' e) → Inv m' s' → MovesOn machine Post Inv m s

/-- Wherever the invariant holds, with so much left to do, the run makes progress. -/
structure Progresses [Build] (machine : StateMachine P O M) (Post : Outcome O → Prop)
    (Inv : ℕ → Simulation P O M → Prop) : Prop where
  steady : ∀ {m s}, Inv m s → s.Steady
  free : ∀ {m s}, Inv m s → ¬ s.Deadlocked
  step : ∀ {m s}, Inv m s → MovesOn machine Post Inv m s

section Progresses

variable [Build] {machine : StateMachine P O M} {Post : Outcome O → Prop}
  {Inv : ℕ → Simulation P O M → Prop} {m : ℕ} {s s' : Simulation P O M}

theorem Ends.of_goesOn {e : Option (SimEvent O M)} (hs : s.step machine = some (.goesOn s' e))
    (h : s'.Ends machine Post) : s.Ends machine Post := by
  obtain ⟨fuel,o,hrun,ho⟩ := h
  exact ⟨fuel + 1,o,by simp only [run,hs,hrun],ho⟩

theorem ends_of_stops {o : Outcome O} (hs : s.step machine = some (.stops o)) (ho : Post o) :
    s.Ends machine Post :=
  ⟨1,o,by simp only [run,hs],ho⟩

/-- The run ends, or the next step calls no party. -/
theorem Progresses.next (hp : Progresses machine Post Inv) (h : Inv m s)
    (hless : ∀ m' < m, ∀ t, Inv m' t → t.Ends machine Post) :
    s.Ends machine Post ∨ ∃ phase, Idles s phase ∧ Inv m { s with phase := phase } ∧
      (Ends machine Post { s with phase := phase } → s.Ends machine Post) := by
  cases hp.step h with
  | stops hs ho => exact .inl (ends_of_stops hs ho)
  | idles hidle hs hinv => exact .inr ⟨_,hidle,hinv,fun hends => hends.of_goesOn hs⟩
  | calls hlt hs hinv => exact .inl ((hless _ hlt _ hinv).of_goesOn hs)

/-- The loop for a party: the run ends, or the party is blocked and the next one follows. -/
theorem Progresses.thisParty (hp : Progresses machine Post Inv) {iter : PartyIter} {i : UInt16}
    {pos : ℕ} (h : Inv m s) (hless : ∀ m' < m, ∀ t, Inv m' t → t.Ends machine Post)
    (hphase : s.phase = .thisParty iter i pos) :
    s.Ends machine Post ∨ s.Blocked i pos ∧ Inv m { s with phase := .nextParty iter } ∧
      (Ends machine Post { s with phase := .nextParty iter } → s.Ends machine Post) := by
  rcases hp.next h hless with hends | ⟨phase,hidle,hinv,hback⟩
  · exact .inl hends
  rw [Idles,hphase] at hidle
  rcases hidle with ⟨hblocked,rfl⟩ | ⟨party,hparty,rfl⟩
  · exact .inr ⟨hblocked,hinv,hback⟩
  · -- the call of an active party is not idle
    rcases hp.next hinv hless with hends | ⟨phase,hidle,_,_⟩
    · exact .inl (hback hends)
    · exact absurd hparty (hidle.1 party false)

/-- The rest of a pass, by induction on the parties that are left in it: the run ends, or the pass
comes to its end without a call and these parties are blocked. -/
theorem Progresses.nextParty (hp : Progresses machine Post Inv) {iter : PartyIter} (h : Inv m s)
    (hless : ∀ m' < m, ∀ t, Inv m' t → t.Ends machine Post)
    (hphase : s.phase = .nextParty iter) :
    s.Ends machine Post ∨ Inv m { s with phase := .pass } ∧
      (Ends machine Post { s with phase := .pass } → s.Ends machine Post) ∧
      ∀ pos ∈ iter.2, s.Blocked (.ofNat pos) pos := by
  generalize hl : iter.2 = l
  induction l generalizing s iter with
  | nil =>
    rcases hp.next h hless with hends | ⟨phase,hidle,hinv,hback⟩
    · exact .inl hends
    rw [Idles,hphase] at hidle
    rcases hidle with ⟨_,rfl⟩ | ⟨_,_,_,hcons,_⟩
    · exact .inr ⟨hinv,hback,fun pos hpos => by cases hpos⟩
    · rw [hl] at hcons
      cases hcons
  | cons pos rest ih =>
    rcases hp.next h hless with hends | ⟨phase,hidle,hinv,hback⟩
    · exact .inl hends
    rw [Idles,hphase] at hidle
    rcases hidle with ⟨hnil,_⟩ | ⟨iter',i,pos',hcons,rfl⟩
    · rw [hl] at hnil
      cases hnil
    rw [hl] at hcons
    obtain ⟨rfl,hrest⟩ := List.cons.inj hcons
    have hi : i = .ofNat pos := (hp.steady hinv).stands.1
    subst hi
    rcases hp.thisParty hinv hless rfl with hends | ⟨hblocked,hinv',hback'⟩
    · exact .inl (hback hends)
    rcases ih hinv' rfl hrest.symm with hends | ⟨hpass,hback'',hall⟩
    · exact .inl (hback (hback' hends))
    refine .inr ⟨hpass,fun hends => hback (hback' (hback'' hends)),fun p hmem => ?_⟩
    rcases List.mem_cons.mp hmem with rfl | hmem
    · exact hblocked
    · exact hall p hmem

/-- A pass that calls no party would be a deadlock. -/
theorem Progresses.pass (hp : Progresses machine Post Inv) (h : Inv m s)
    (hless : ∀ m' < m, ∀ t, Inv m' t → t.Ends machine Post) (hphase : s.phase = .pass) :
    s.Ends machine Post := by
  cases hp.step h with
  | stops hs ho => exact ends_of_stops hs ho
  | calls hlt hs hinv => exact (hless _ hlt _ hinv).of_goesOn hs
  | idles hidle hs hinv =>
    rw [Idles,hphase] at hidle
    subst hidle
    have hleft : 0 < s.partiesLeft := by
      by_contra hnone
      rw [Simulation.step,hphase] at hs
      simp only [if_neg hnone] at hs
      cases hs
    rcases hp.nextParty hinv hless rfl with hends | ⟨_,_,hall⟩
    · exact hends.of_goesOn hs
    · refine absurd ⟨hphase,hleft,fun pos party w hparty => ?_⟩ (hp.free h)
      have hlt := (List.getElem?_eq_some_iff.mp hparty).1
      exact hall pos (List.mem_range.mpr hlt) party w hparty

/-- Wherever the invariant holds the run ends, by induction on what is left to do. -/
theorem Progresses.ends (hp : Progresses machine Post Inv) (h : Inv m s) :
    s.Ends machine Post := by
  induction m using Nat.strong_induction_on generalizing s with
  | _ m ih =>
    have hless : ∀ m' < m, ∀ t, Inv m' t → t.Ends machine Post := fun m' hlt t ht => ih m' hlt ht
    have hnext : ∀ iter, Inv m { s with phase := .nextParty iter } →
        Ends machine Post { s with phase := .nextParty iter } := by
      intro iter hinv
      rcases hp.nextParty hinv hless rfl with hends | ⟨hpass,hback,_⟩
      · exact hends
      · exact hback (hp.pass hpass hless rfl)
    cases hphase : s.phase with
    | pass => exact hp.pass h hless hphase
    | nextParty iter =>
      have hsame : ({ s with phase := .nextParty iter } : Simulation P O M) = s := by rw [← hphase]
      rw [← hsame]
      exact hnext iter (by rwa [hsame])
    | thisParty iter i pos =>
      rcases hp.thisParty h hless hphase with hends | ⟨_,hinv,hback⟩
      · exact hends
      · exact hback (hnext iter hinv)
    | proceed iter i pos =>
      rcases hp.next h hless with hends | ⟨phase,hidle,hinv,hback⟩
      · exact hends
      rw [Idles,hphase] at hidle
      obtain ⟨_,rfl⟩ := hidle
      exact hback (hnext iter hinv)

end Progresses

/-- A run that ends comes to a state whose step ends it. -/
theorem stops_of_run [Build] {machine : StateMachine P O M} (parties : List P) {o : Outcome O}
    (fuel : ℕ) {s : Simulation P O M} (h : run machine fuel s = some o) :
    ∃ es s', Run (running machine parties) s es s' ∧ s'.step machine = some (.stops o) := by
  induction fuel generalizing s with
  | zero => cases h
  | succ fuel ih =>
    rw [run] at h
    split at h
    · cases h
    · rename_i s' e hs
      obtain ⟨es,t,hrun,ht⟩ := ih h
      have hfirst : Run (running machine parties) s [e] s' := Run.snoc .refl hs
      exact ⟨_,t,hfirst.append hrun,ht⟩
    · rename_i hs
      cases h
      exact ⟨[],s,.refl,hs⟩

end Simulation
end RoundBased
