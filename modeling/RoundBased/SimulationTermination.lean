import Mathlib.Tactic.IntervalCases
import RoundBased.Descent
import RoundBased.SimulationDelivery

/-! When the simulation of parties that take finitely many steps returns. -/
namespace RoundBased
open Transition Iteration Descent

variable {P O M : Type}

/-- Whatever messages the party is given, its calls return and it takes finitely many steps. -/
inductive FinitelyMany (machine : StateMachine P O M) : P → Prop
  | intro {party : P} (returns : ∃ r, machine.proceed party = some r)
      (sends : ∀ party' msg, machine.proceed party = some (party',.sendMsg msg) →
        FinitelyMany machine party')
      (yields : ∀ party', machine.proceed party = some (party',.yielded) →
        FinitelyMany machine party')
      (receives : ∀ party' msg party'', machine.proceed party = some (party',.needsOneMoreMessage) →
        machine.receivedMsg party' msg = (party'',.ok ()) → FinitelyMany machine party'') :
      FinitelyMany machine party

/-- A call takes the party down. -/
inductive Down (machine : StateMachine P O M) : Party P O → Party P O → Prop
  | sends {party party' : P} {msg : Outgoing M} :
      machine.proceed party = some (party',.sendMsg msg) →
      Down machine (.active party' false) (.active party false)
  | yields {party party' : P} : machine.proceed party = some (party',.yielded) →
      Down machine (.active party' false) (.active party false)
  | waits {party party' : P} : machine.proceed party = some (party',.needsOneMoreMessage) →
      Down machine (.active party' true) (.active party false)
  | outputs {party party' : P} {out : O} : machine.proceed party = some (party',.output out) →
      Down machine (.finished out) (.active party false)
  | receives {party party' : P} {msg : Incoming M} :
      machine.receivedMsg party msg = (party',.ok ()) →
      Down machine (.active party' false) (.active party true)

/-- The party will take finitely many steps, also if it waits. -/
def Fine (machine : StateMachine P O M) : Party P O → Prop
  | .active party false => FinitelyMany machine party
  | .active party true => ∀ msg party', machine.receivedMsg party msg = (party',.ok ()) →
      FinitelyMany machine party'
  | .finished _ => True

section Down

variable {machine : StateMachine P O M} {p q : Party P O}

theorem Fine.down (h : Fine machine p) (hd : Down machine q p) : Fine machine q := by
  cases hd with
  | sends hm => obtain ⟨_,hs,_,_⟩ := h; exact hs _ _ hm
  | yields hm => obtain ⟨_,_,hy,_⟩ := h; exact hy _ hm
  | waits hm => obtain ⟨_,_,_,hr⟩ := h; exact fun msg party' => hr _ msg party' hm
  | outputs => trivial
  | receives hm => exact h _ _ hm

theorem acc_finished (out : O) : Acc (Down machine) (.finished out) :=
  Acc.intro _ fun q hq => by cases hq

theorem acc_active {party : P} (h : FinitelyMany machine party) :
    Acc (Down machine) (.active party false) := by
  induction h with
  | intro _ _ _ _ ihs ihy ihr =>
    refine Acc.intro _ fun q hq => ?_
    cases hq with
    | sends hm => exact ihs _ _ hm
    | yields hm => exact ihy _ hm
    | outputs => exact acc_finished _
    | waits hm =>
      refine Acc.intro _ fun q hq => ?_
      cases hq with
      | receives hr => exact ihr _ _ _ hm hr

theorem Fine.acc (h : Fine machine p) : Acc (Down machine) p := by
  cases p with
  | finished out => exact acc_finished out
  | active party w =>
    cases w with
    | false => exact acc_active h
    | true =>
      refine Acc.intro _ fun q hq => ?_
      cases hq with
      | receives hr => exact acc_active (h _ _ hr)

end Down

namespace Simulation

/-- A party whose `proceed` is called next does not wait for a message. -/
def Awake (s : Simulation P O M) : Prop :=
  ∀ iter i pos, s.phase = .proceed iter i pos → ∀ party w,
    s.parties[pos]? = some (.active party w) → w = false

theorem Stepped.awake [Build] {machine : StateMachine P O M} {s s' : Simulation P O M}
    {e : Option (SimEvent O M)} (hs : Stepped machine s e s') : s'.Awake := by
  intro iter i pos hp party w hw
  cases hs with
  | resumes _ hparty =>
    cases hp
    change s.parties[_]? = _ at hw
    rw [hparty] at hw
    cases hw
    rfl
  | receives _ hparty _ _ =>
    cases hp
    have hlt := (List.getElem?_eq_some_iff.mp hparty).1
    simp only [setParty,List.getElem?_set_self hlt] at hw
    cases hw
    rfl
  | pass => cases hp
  | passOver => cases hp
  | party => cases hp
  | blocked => cases hp
  | sends => cases hp
  | waits => cases hp
  | outputs => cases hp
  | yields => cases hp
  | inactive => cases hp

theorem run_awake [Build] {machine : StateMachine P O M} {parties : List P}
    {es : List (Option (SimEvent O M))} {s : Simulation P O M}
    (hrun : Run (running machine parties) (start parties) es s) : s.Awake := by
  cases hrun with
  | refl =>
    intro iter i pos hp
    cases hp
  | snoc _ hs => exact (stepped_of_step hs).awake

/-- The phase a step leads to that calls no party. -/
def Idles (s : Simulation P O M) (phase : Phase) : Prop :=
  match s.phase with
  | .pass => phase = .nextParty (0,List.range s.parties.length)
  | .nextParty iter => (iter.2 = [] ∧ phase = .pass) ∨
      ∃ iter' i pos, iter.2 = pos :: iter'.2 ∧ phase = .thisParty iter' i pos
  | .thisParty iter i pos => (s.Blocked i pos ∧ phase = .nextParty iter) ∨
      ∃ party, s.parties[pos]? = some (.active party false) ∧ phase = .proceed iter i pos
  | .proceed iter _ pos => (∀ party w, s.parties[pos]? ≠ some (.active party w)) ∧
      phase = .nextParty iter

/-- A step is idle or takes a party down. -/
theorem Stepped.idle_or_down [Build] {machine : StateMachine P O M}
    {s s' : Simulation P O M} {e : Option (SimEvent O M)} (h : s.Awake)
    (hs : Stepped machine s e s') :
    (∃ phase, Idles s phase ∧ s' = { s with phase := phase }) ∨
    ∃ pos p q, s.parties[pos]? = some p ∧ Down machine q p ∧ s'.parties = s.parties.set pos q := by
  cases hs with
  | pass hp _ => exact .inl ⟨_,by rw [Idles,hp],rfl⟩
  | passOver hp hz => exact .inl ⟨_,by rw [Idles,hp]; exact .inl ⟨zip_none hz,rfl⟩,rfl⟩
  | party hp hz =>
    exact .inl ⟨_,by rw [Idles,hp]; exact .inr ⟨_,_,_,(zip_some hz).2.1,rfl⟩,rfl⟩
  | blocked hp hb => exact .inl ⟨_,by rw [Idles,hp]; exact .inl ⟨hb,rfl⟩,rfl⟩
  | resumes hp hparty => exact .inl ⟨_,by rw [Idles,hp]; exact .inr ⟨_,hparty,rfl⟩,rfl⟩
  | inactive hp hparty => exact .inl ⟨_,by rw [Idles,hp]; exact ⟨hparty,rfl⟩,rfl⟩
  | receives hp hparty hq hm => exact .inr ⟨_,_,_,hparty,.receives hm,rfl⟩
  | sends hp hparty hm hq =>
    have hw := h _ _ _ hp _ _ hparty
    subst hw
    exact .inr ⟨_,_,_,hparty,.sends hm,rfl⟩
  | waits hp hparty hm =>
    have hw := h _ _ _ hp _ _ hparty
    subst hw
    exact .inr ⟨_,_,_,hparty,.waits hm,rfl⟩
  | outputs hp hparty hm hleft =>
    have hw := h _ _ _ hp _ _ hparty
    subst hw
    exact .inr ⟨_,_,_,hparty,.outputs hm,rfl⟩
  | yields hp hparty hm =>
    have hw := h _ _ _ hp _ _ hparty
    subst hw
    exact .inr ⟨_,_,_,hparty,.yields hm,rfl⟩

/-- At the start of a pass some parties are not finished, and they all wait with empty queues. -/
def Deadlocked (s : Simulation P O M) : Prop :=
  s.phase = .pass ∧ 0 < s.partiesLeft ∧ ∀ pos, s.Blocked (.ofNat pos) pos

/-- The run returns from here, with the outputs or with an error. -/
def Returns [Build] (machine : StateMachine P O M) (s : Simulation P O M) : Prop :=
  ∃ fuel res, run machine fuel s = some (.returned res)

section Returning

variable [Build] {machine : StateMachine P O M} {parties : List P} {s s' : Simulation P O M}

theorem Returns.of_goesOn {e : Option (SimEvent O M)} (hs : s.step machine = some (.goesOn s' e))
    (h : s'.Returns machine) : s.Returns machine := by
  obtain ⟨fuel,res,hrun⟩ := h
  exact ⟨fuel + 1,res,by simp only [run,hs,hrun]⟩

theorem returns_of_stops {res : Except SimError (List O)}
    (hs : s.step machine = some (.stops (.returned res))) : s.Returns machine :=
  ⟨1,res,by simp only [run,hs]⟩

theorem Returns.of_run {es : List (Option (SimEvent O M))} (h : s.Returns machine)
    (hrun : Run (running machine parties) s es s') : s'.Returns machine := by
  induction hrun with
  | refl => exact h
  | snoc _ hs ih =>
    obtain ⟨fuel,res,hret⟩ := ih
    have hs' : step machine _ = some (.goesOn _ _) := hs
    cases fuel with
    | zero => cases hret
    | succ fuel => exact ⟨fuel,res,by simpa only [run,hs'] using hret⟩

theorem not_returns_of_panics {p : Panic} (hs : s.step machine = some (.stops (.panicked p))) :
    ¬ s.Returns machine := by
  rintro ⟨fuel,res,hrun⟩
  cases fuel with
  | zero => cases hrun
  | succ fuel =>
    rw [run,hs] at hrun
    cases hrun

/-- Nothing has moved since a deadlock. -/
structure Stuck (s : Simulation P O M) : Prop where
  steady : s.Steady
  left : 0 < s.partiesLeft
  blocked : ∀ pos, s.Blocked (.ofNat pos) pos
  phase : ∀ iter i pos, s.phase ≠ .proceed iter i pos

/-- A run that is stuck goes on for ever, or a counter overflows. -/
theorem Stuck.next (h : Stuck s) : (∃ s' e, s.step machine = some (.goesOn s' e) ∧ Stuck s') ∨
    ∃ p, s.step machine = some (.stops (.panicked p)) := by
  have hempty : ∀ {iter i pos party}, s.phase = .thisParty iter i pos →
      s.parties[pos]? = some (.active party true) → s.messagesQueue.queue[i.toNat]? = some [] := by
    intro iter i pos party hp hparty
    have hstands := h.steady.stands
    rw [hp] at hstands
    rw [hstands.1]
    exact (h.blocked pos party true hparty).2
  cases hstep : s.step machine with
  | none =>
    obtain ⟨iter,i,pos,_,_,hp,_⟩ := step_none hstep
    exact absurd hp (h.phase iter i pos)
  | some next =>
    cases next with
    | goesOn s' e =>
      have hs := stepped_of_step hstep
      have hsteady := hs.steady h.steady
      refine .inl ⟨s',e,rfl,?_⟩
      cases hs with
      | pass => exact ⟨hsteady,h.left,h.blocked,fun _ _ _ hp => by cases hp⟩
      | passOver => exact ⟨hsteady,h.left,h.blocked,fun _ _ _ hp => by cases hp⟩
      | party => exact ⟨hsteady,h.left,h.blocked,fun _ _ _ hp => by cases hp⟩
      | blocked => exact ⟨hsteady,h.left,h.blocked,fun _ _ _ hp => by cases hp⟩
      | resumes _ hparty => cases (h.blocked _ _ _ hparty).1
      | receives hp hparty hq _ =>
        obtain ⟨rest,hget,_⟩ := recvNextMsg_some hq
        rw [hempty hp hparty] at hget
        cases hget
      | sends hp => exact absurd hp (h.phase _ _ _)
      | waits hp => exact absurd hp (h.phase _ _ _)
      | outputs hp => exact absurd hp (h.phase _ _ _)
      | yields hp => exact absurd hp (h.phase _ _ _)
      | inactive hp => exact absurd hp (h.phase _ _ _)
    | stops o =>
      have hs := stopped_of_step hstep
      cases hs with
      | done _ hnot => exact absurd h.left hnot
      | counter => exact .inr ⟨_,rfl⟩
      | index => exact .inr ⟨_,rfl⟩
      | refused hp hparty hq _ =>
        obtain ⟨rest,hget,_⟩ := recvNextMsg_some hq
        rw [hempty hp hparty] at hget
        cases hget
      | send hp => exact absurd hp (h.phase _ _ _)
      | unknown hp => exact absurd hp (h.phase _ _ _)
      | left hp => exact absurd hp (h.phase _ _ _)
      | failed hp => exact absurd hp (h.phase _ _ _)

/-- A deadlocked run makes one pass after the other. -/
theorem Stuck.not_returns (h : Stuck s) : ¬ s.Returns machine := by
  rintro ⟨fuel,res,hrun⟩
  induction fuel generalizing s with
  | zero => cases hrun
  | succ fuel ih =>
    rcases h.next with ⟨s',e,hs,hstuck⟩ | ⟨p,hs⟩
    · rw [run,hs] at hrun
      exact ih hstuck hrun
    · exact not_returns_of_panics hs ⟨fuel + 1,res,hrun⟩

omit [Build] in
theorem Deadlocked.stuck (hsteady : s.Steady) (h : s.Deadlocked) : Stuck s :=
  ⟨hsteady,h.2.1,h.2.2,fun _ _ _ hp => by rw [h.1] at hp; cases hp⟩

end Returning

section Descending

variable [Build] {machine : StateMachine P O M} {parties : List P} {s : Simulation P O M}

/-- A point of a run whose parties all take finitely many steps. -/
structure Runs (machine : StateMachine P O M) (parties : List P) (s : Simulation P O M) : Prop where
  reachable : (running machine parties).Reachable s
  fine : ∀ p ∈ s.parties, Fine machine p

/-- The run of the parties neither comes to a deadlock nor advances a counter beyond its top. -/
def Healthy (machine : StateMachine P O M) (parties : List P) : Prop :=
  ∀ es s, Run (running machine parties) (start parties) es s →
    ¬ s.Deadlocked ∧ ¬ s.Overflows machine

/-- The run returns from every point at which a party is down. -/
def Below (machine : StateMachine P O M) (parties : List P) (ps : List (Party P O)) : Prop :=
  ∀ s, Runs machine parties s → OneDown (Down machine) s.parties ps → s.Returns machine

/-- The run returns, or the next step is idle. -/
theorem Runs.idle_or_returns (hg : Healthy (O := O) machine parties)
    (h : Runs machine parties s) (hb : Below machine parties s.parties) :
    s.Returns machine ∨ ∃ phase, Idles s phase ∧ Runs machine parties { s with phase := phase } ∧
      (Returns machine { s with phase := phase } → s.Returns machine) := by
  obtain ⟨⟨es,hrun⟩,hfine⟩ := h
  have hsteady := (run_steady hrun).1
  cases hstep : s.step machine with
  | none =>
    obtain ⟨iter,i,pos,party,w,hp,hparty,hnone⟩ := step_none hstep
    have hw := run_awake hrun _ _ _ hp _ _ hparty
    subst hw
    obtain ⟨⟨r,hr⟩,_,_,_⟩ := hfine _ (List.mem_of_getElem? hparty)
    rw [hnone] at hr
    cases hr
  | some next =>
    cases next with
    | stops o =>
      cases o with
      | returned res => exact .inl (returns_of_stops hstep)
      | panicked p =>
        exact absurd (hsteady.panics hstep) (hg es s hrun).2
    | goesOn s' e =>
      have hreach : (running machine parties).Reachable s' := System.Reachable.next ⟨es,hrun⟩ hstep
      rcases (stepped_of_step hstep).idle_or_down (run_awake hrun) with ⟨phase,hidle,rfl⟩ |
        ⟨pos,p,q,hget,hdown,hset⟩
      · exact .inr ⟨phase,hidle,⟨hreach,hfine⟩,fun hret => hret.of_goesOn hstep⟩
      · refine .inl ((hb s' ⟨hreach,fun x hx => ?_⟩ (hset ▸ oneDown_set hget hdown)).of_goesOn hstep)
        rw [hset] at hx
        rcases List.mem_or_eq_of_mem_set hx with hx | rfl
        · exact hfine x hx
        · exact (hfine p (List.mem_of_getElem? hget)).down hdown

/-- The loop for a party: the run returns, or the party is blocked and the next one follows. -/
theorem Runs.thisParty (hg : Healthy (O := O) machine parties)
    {iter : PartyIter} {i : UInt16} {pos : ℕ} (h : Runs machine parties s)
    (hb : Below machine parties s.parties) (hp : s.phase = .thisParty iter i pos) :
    s.Returns machine ∨ s.Blocked i pos ∧ Runs machine parties { s with phase := .nextParty iter } ∧
      (Returns machine { s with phase := .nextParty iter } → s.Returns machine) := by
  rcases h.idle_or_returns hg hb with hret | ⟨phase,hidle,hruns,hback⟩
  · exact .inl hret
  rw [Idles,hp] at hidle
  rcases hidle with ⟨hblocked,rfl⟩ | ⟨party,hparty,rfl⟩
  · exact .inr ⟨hblocked,hruns,hback⟩
  · left
    rcases hruns.idle_or_returns hg hb with hret | ⟨phase,hidle,_,_⟩
    · exact hback hret
    · exact absurd hparty (hidle.1 party false)

/-- The rest of a pass: the run returns, or the pass ends without a call and the parties that were
left are blocked. -/
theorem Runs.nextParty (hg : Healthy (O := O) machine parties)
    {iter : PartyIter} (h : Runs machine parties s) (hb : Below machine parties s.parties)
    (hp : s.phase = .nextParty iter) :
    s.Returns machine ∨ Runs machine parties { s with phase := .pass } ∧
      (Returns machine { s with phase := .pass } → s.Returns machine) ∧
      ∀ pos ∈ iter.2, s.Blocked (.ofNat pos) pos := by
  generalize hl : iter.2 = l
  induction l generalizing s iter with
  | nil =>
    rcases h.idle_or_returns hg hb with hret | ⟨phase,hidle,hruns,hback⟩
    · exact .inl hret
    rw [Idles,hp] at hidle
    rcases hidle with ⟨_,rfl⟩ | ⟨_,_,_,hcons,_⟩
    · exact .inr ⟨hruns,hback,fun pos hpos => by cases hpos⟩
    · rw [hl] at hcons
      cases hcons
  | cons pos rest ih =>
    rcases h.idle_or_returns hg hb with hret | ⟨phase,hidle,hruns,hback⟩
    · exact .inl hret
    rw [Idles,hp] at hidle
    rcases hidle with ⟨hnil,_⟩ | ⟨iter',i,pos',hcons,rfl⟩
    · rw [hl] at hnil
      cases hnil
    rw [hl] at hcons
    obtain ⟨rfl,hrest⟩ := List.cons.inj hcons
    have hi : i = .ofNat pos := by
      obtain ⟨es,hrun⟩ := hruns.reachable
      exact (run_steady hrun).1.stands.1
    subst hi
    rcases hruns.thisParty hg hb rfl with hret | ⟨hblocked,hruns',hback'⟩
    · exact .inl (hback hret)
    rcases ih hruns' hb rfl hrest.symm with hret | ⟨hpass,hback'',hall⟩
    · exact .inl (hback (hback' hret))
    refine .inr ⟨hpass,fun hret => hback (hback' (hback'' hret)),fun p hmem => ?_⟩
    rcases List.mem_cons.mp hmem with rfl | hmem
    · exact hblocked
    · exact hall p hmem

theorem Steady.done (h : s.Steady) (hp : s.phase = .pass) (hleft : ¬ 0 < s.partiesLeft) :
    s.Returns machine := by
  have hcount : s.parties.countP Party.isActive = 0 := by
    rw [← h.left]
    omega
  obtain ⟨outs,houts,_⟩ := collect_finished hcount
  have hstep : s.step machine = some (.stops (.returned (.ok outs))) := by
    simp only [step,hp,if_neg hleft,houts]
  exact returns_of_stops hstep

/-- A pass without a deadlock makes a call, or it is the last one. -/
theorem Runs.pass (hg : Healthy (O := O) machine parties) (h : Runs machine parties s)
    (hb : Below machine parties s.parties) (hp : s.phase = .pass) : s.Returns machine := by
  obtain ⟨es,hrun⟩ := h.reachable
  by_cases hleft : 0 < s.partiesLeft
  · rcases h.idle_or_returns hg hb with hret | ⟨phase,hidle,hruns,hback⟩
    · exact hret
    rw [Idles,hp] at hidle
    subst hidle
    rcases hruns.nextParty hg hb rfl with hret | ⟨_,_,hall⟩
    · exact hback hret
    · refine absurd ⟨hp,hleft,fun pos party w hparty => ?_⟩ (hg es s hrun).1
      have hlt := (List.getElem?_eq_some_iff.mp hparty).1
      exact hall pos (List.mem_range.mpr hlt) party w hparty
  · exact (run_steady hrun).1.done hp hleft

/-- From every point of a run whose parties cannot go down for ever, the run returns. -/
theorem Runs.returns (hg : Healthy (O := O) machine parties)
    {ps : List (Party P O)} (hacc : Acc (OneDown (Down machine)) ps)
    (h : Runs machine parties s) (hps : s.parties = ps) : s.Returns machine := by
  induction hacc generalizing s with
  | intro ps _ ih =>
    subst hps
    have hb : Below machine parties s.parties := fun t ht hdown => ih _ hdown ht rfl
    have hnext : ∀ iter, Runs machine parties { s with phase := .nextParty iter } →
        Returns machine { s with phase := .nextParty iter } := by
      intro iter hruns
      rcases hruns.nextParty hg hb rfl with hret | ⟨hpass,hback,_⟩
      · exact hret
      · exact hback (hpass.pass hg hb rfl)
    cases hp : s.phase with
    | pass => exact h.pass hg hb hp
    | nextParty iter =>
      have hsame : ({ s with phase := .nextParty iter } : Simulation P O M) = s := by rw [← hp]
      have hret := hnext iter (by rw [hsame]; exact h)
      rwa [hsame] at hret
    | thisParty iter i pos =>
      rcases h.thisParty hg hb hp with hret | ⟨_,hruns,hback⟩
      · exact hret
      · exact hback (hnext iter hruns)
    | proceed iter i pos =>
      rcases h.idle_or_returns hg hb with hret | ⟨phase,hidle,hruns,hback⟩
      · exact hret
      rw [Idles,hp] at hidle
      obtain ⟨_,rfl⟩ := hidle
      exact hback (hnext iter hruns)

theorem runs_start (hf : ∀ party ∈ parties, FinitelyMany machine party) :
    Runs machine parties (start parties) := by
  refine ⟨⟨[],.refl⟩,fun p hp => ?_⟩
  obtain ⟨party,hparty,rfl⟩ := List.mem_map.mp hp
  exact hf party hparty

end Descending

/-- Parties that take finitely many steps: their run returns if and only if it comes to no deadlock,
and no counter overflows. -/
theorem run_returns_iff [Build] (machine : StateMachine P O M) {parties : List P}
    (hf : ∀ party ∈ parties, FinitelyMany machine party) :
    (start parties).Returns machine ↔ Healthy machine parties := by
  constructor
  · intro hret es s hrun
    have hsteady := (run_steady hrun).1
    have hs := hret.of_run hrun
    exact ⟨fun hd => (hd.stuck hsteady).not_returns hs,
      fun ho => not_returns_of_panics (hsteady.overflows ho) hs⟩
  · intro hg
    have hruns := runs_start hf
    have hacc := acc_oneDown fun p hp => (hruns.fine p hp).acc
    exact hruns.returns hg hacc rfl

/-- A party that waits for one message, or has got it. -/
def follower : StateMachine Bool Unit Unit where
  proceed
    | true => some (true,.output ())
    | false => some (false,.needsOneMoreMessage)
  receivedMsg _ _ := (true,.ok ())

theorem follower_finitelyMany (party : Bool) : FinitelyMany follower party := by
  have htrue : FinitelyMany follower true :=
    .intro ⟨_,rfl⟩ (fun _ _ h => by cases h) (fun _ h => by cases h) fun _ _ _ h => by cases h
  cases party with
  | true => exact htrue
  | false =>
    refine .intro ⟨_,rfl⟩ (fun _ _ h => by cases h) (fun _ h => by cases h) ?_
    intro party' msg party'' _ hr
    cases hr
    exact htrue

/-- The first party has left, the second one waits for it. -/
def abandoned : Simulation Bool Unit Unit where
  parties := [.finished (),.active false true]
  messagesQueue := ⟨[[],[]],0⟩
  partiesLeft := 1
  phase := .pass

theorem run_abandoned (fuel : ℕ) :
    letI : Build := .debug
    run follower (fuel + 6) abandoned = run follower fuel abandoned := rfl

theorem abandoned_forever (fuel : ℕ) :
    letI : Build := .debug
    run follower fuel abandoned = none := by
  let _ : Build := .debug
  induction fuel using Nat.strongRecOn with
  | ind fuel ih =>
    by_cases hpass : fuel < 6
    · interval_cases fuel <;> rfl
    · have hsplit : fuel = fuel - 6 + 6 := by omega
      rw [hsplit]
      exact (run_abandoned (fuel - 6)).trans (ih (fuel - 6) (by omega))

/-- One party aborts, the other waits for its message: both take finitely many steps, but the
simulation repeats its pass for ever. -/
theorem never_returns :
    letI : Build := .debug
    (∀ party, FinitelyMany follower party) ∧ ∀ fuel, run follower fuel (start [true,false]) = none := by
  let _ : Build := .debug
  refine ⟨follower_finitelyMany,fun fuel => ?_⟩
  by_cases hfirst : fuel < 9
  · interval_cases fuel <;> rfl
  · have hsplit : fuel = fuel - 9 + 9 := by omega
    rw [hsplit]
    exact abandoned_forever (fuel - 9)

/-- A party that broadcasts and one that waits for a message. -/
def greeter : StateMachine (Option Bool) Unit ℕ where
  proceed
    | some true => some (none,.sendMsg (.allParties 7))
    | some false => some (some false,.needsOneMoreMessage)
    | none => some (none,.output ())
  receivedMsg _ _ := (none,.ok ())

theorem greeter_finitelyMany (party : Option Bool) : FinitelyMany greeter party := by
  have hnone : FinitelyMany greeter none :=
    .intro ⟨_,rfl⟩ (fun _ _ h => by cases h) (fun _ h => by cases h) fun _ _ _ h => by cases h
  match party with
  | none => exact hnone
  | some true =>
    refine .intro ⟨_,rfl⟩ (fun _ _ h => ?_) (fun _ h => by cases h) fun _ _ _ h => by cases h
    cases h
    exact hnone
  | some false =>
    refine .intro ⟨_,rfl⟩ (fun _ _ h => by cases h) (fun _ h => by cases h) fun _ _ _ _ hr => ?_
    cases hr
    exact hnone

/-- The first party has to wait until the second one has had its turn. -/
theorem healthy_two :
    letI : Build := .debug
    Healthy greeter [some false,some true] := by
  let _ : Build := .debug
  exact (run_returns_iff greeter fun party _ => greeter_finitelyMany party).mp
    ⟨30,.ok [(),()],rfl⟩

end Simulation
end RoundBased
