import RoundBased.SimulationQueues

/-! The steps of the simulation: all that they can do, where a run can stand, and when a counter
overflows, for any number of parties. -/
namespace RoundBased
open Transition Iteration

variable {P O M : Type}

def Party.isActive : Party P O → Bool
  | .active _ _ => true
  | .finished _ => false

namespace Simulation

/-- The party at the position cannot go on: it is finished, or waits with an empty queue. -/
def Blocked (s : Simulation P O M) (i : UInt16) (pos : ℕ) : Prop :=
  ∀ party w, s.parties[pos]? = some (.active party w) →
    w = true ∧ s.messagesQueue.queue[i.toNat]? = some []

/-- All that a step can do when the run goes on. -/
inductive Stepped [Build] (machine : StateMachine P O M) (s : Simulation P O M) :
    Option (SimEvent O M) → Simulation P O M → Prop
  | pass (hp : s.phase = .pass) (hleft : 0 < s.partiesLeft) :
      Stepped machine s none { s with phase := .nextParty (0,List.range s.parties.length) }
  | passOver {iter iter' : PartyIter} (hp : s.phase = .nextParty iter)
      (hz : zip U16.nextFrom list iter = .ok (iter',none)) :
      Stepped machine s none { s with phase := .pass }
  | party {iter iter' : PartyIter} {i : UInt16} {pos : ℕ} (hp : s.phase = .nextParty iter)
      (hz : zip U16.nextFrom list iter = .ok (iter',some (i,pos))) :
      Stepped machine s none { s with phase := .thisParty iter' i pos }
  | blocked {iter : PartyIter} {i : UInt16} {pos : ℕ} (hp : s.phase = .thisParty iter i pos)
      (hb : s.Blocked i pos) : Stepped machine s none { s with phase := .nextParty iter }
  | resumes {iter : PartyIter} {i : UInt16} {pos : ℕ} {party : P}
      (hp : s.phase = .thisParty iter i pos)
      (hparty : s.parties[pos]? = some (.active party false)) :
      Stepped machine s none { s with phase := .proceed iter i pos }
  | receives {iter : PartyIter} {i : UInt16} {pos : ℕ} {party party' : P}
      {queue : MessagesQueue M} {msg : Incoming M} (hp : s.phase = .thisParty iter i pos)
      (hparty : s.parties[pos]? = some (.active party true))
      (hq : s.messagesQueue.recvNextMsg i = .ok (queue,some msg))
      (hm : machine.receivedMsg party msg = (party',.ok ())) :
      Stepped machine s (some (.received pos i msg)) { s.setParty pos (.active party' false) with
        messagesQueue := queue, phase := .proceed iter i pos }
  | sends {iter : PartyIter} {i : UInt16} {pos : ℕ} {party party' : P} {w : Bool}
      {queue : MessagesQueue M} {msg : Outgoing M} (hp : s.phase = .proceed iter i pos)
      (hparty : s.parties[pos]? = some (.active party w))
      (hm : machine.proceed party = some (party',.sendMsg msg))
      (hq : s.messagesQueue.sendMessage i msg = .ok (queue,.ok ())) :
      Stepped machine s (some (.proceeded pos i (.sendMsg msg)))
        { s.setParty pos (.active party' w) with
          messagesQueue := queue, phase := .thisParty iter i pos }
  | waits {iter : PartyIter} {i : UInt16} {pos : ℕ} {party party' : P} {w : Bool}
      (hp : s.phase = .proceed iter i pos) (hparty : s.parties[pos]? = some (.active party w))
      (hm : machine.proceed party = some (party',.needsOneMoreMessage)) :
      Stepped machine s (some (.proceeded pos i .needsOneMoreMessage))
        { s.setParty pos (.active party' true) with phase := .thisParty iter i pos }
  | outputs {iter : PartyIter} {i : UInt16} {pos : ℕ} {party party' : P} {w : Bool} {out : O}
      {left : ℕ} (hp : s.phase = .proceed iter i pos)
      (hparty : s.parties[pos]? = some (.active party w))
      (hm : machine.proceed party = some (party',.output out))
      (hleft : Usize.sub s.partiesLeft 1 = .ok left) :
      Stepped machine s (some (.proceeded pos i (.output out))) { s.setParty pos (.finished out) with
        partiesLeft := left, phase := .nextParty iter }
  | yields {iter : PartyIter} {i : UInt16} {pos : ℕ} {party party' : P} {w : Bool}
      (hp : s.phase = .proceed iter i pos) (hparty : s.parties[pos]? = some (.active party w))
      (hm : machine.proceed party = some (party',.yielded)) :
      Stepped machine s (some (.proceeded pos i .yielded))
        { s.setParty pos (.active party' w) with phase := .thisParty iter i pos }
  | inactive {iter : PartyIter} {i : UInt16} {pos : ℕ} (hp : s.phase = .proceed iter i pos)
      (hparty : ∀ party w, s.parties[pos]? ≠ some (.active party w)) :
      Stepped machine s none { s with phase := .nextParty iter }

theorem recvNextMsg_none {queue queue' : MessagesQueue M} {i : UInt16}
    (h : queue.recvNextMsg i = .ok (queue',none)) : queue.queue[i.toNat]? = some [] := by
  unfold MessagesQueue.recvNextMsg at h
  split at h
  · cases h
  · assumption
  · cases h

theorem recvNextMsg_some {queue queue' : MessagesQueue M} {i : UInt16} {msg : Incoming M}
    (h : queue.recvNextMsg i = .ok (queue',some msg)) :
    ∃ rest, queue.queue[i.toNat]? = some (msg :: rest) ∧
      queue' = { queue with queue := queue.queue.set i.toNat rest } := by
  unfold MessagesQueue.recvNextMsg at h
  split at h
  · cases h
  · cases h
  · rename_i hq
    cases h
    exact ⟨_,hq,rfl⟩

theorem recvNextMsg_total {queue : MessagesQueue M} {i : UInt16}
    (h : i.toNat < queue.queue.length) : ∃ r, queue.recvNextMsg i = .ok r := by
  simp only [MessagesQueue.recvNextMsg,List.getElem?_eq_getElem h]
  cases queue.queue[i.toNat] with
  | nil => exact ⟨_,rfl⟩
  | cons msg rest => exact ⟨_,rfl⟩

section Calls

variable [Build] {machine : StateMachine P O M} {s s' : Simulation P O M} {iter : PartyIter}
  {i : UInt16} {pos : ℕ} {party party' : P} {w : Bool} {queue : MessagesQueue M} {msg : Incoming M}
  {res : ProceedResult O M} {e : Option (SimEvent O M)}

theorem stepped_of_deliver (hp : s.phase = .thisParty iter i pos)
    (hparty : s.parties[pos]? = some (.active party true))
    (hq : s.messagesQueue.recvNextMsg i = .ok (queue,some msg))
    (h : deliver machine { s with messagesQueue := queue } iter i pos party msg = .goesOn s' e) :
    Stepped machine s e s' := by
  unfold deliver at h
  split at h
  · rename_i hm
    cases h
    exact .receives hp hparty hq hm
  · cases h

theorem stepped_of_handle (hp : s.phase = .proceed iter i pos)
    (hparty : s.parties[pos]? = some (.active party w))
    (hm : machine.proceed party = some (party',res))
    (h : handle s iter i pos party' w res = .goesOn s' e) : Stepped machine s e s' := by
  unfold handle at h
  cases res with
  | sendMsg msg =>
    simp only at h
    split at h
    · cases h
    · cases h
    · rename_i hq
      cases h
      exact .sends hp hparty hm hq
  | needsOneMoreMessage => cases h; exact .waits hp hparty hm
  | output out =>
    simp only at h
    split at h
    · cases h
    · rename_i hleft
      cases h
      exact .outputs hp hparty hm hleft
  | yielded => cases h; exact .yields hp hparty hm
  | error err => cases h

end Calls

theorem stepped_of_step [Build] {machine : StateMachine P O M} {s s' : Simulation P O M}
    {e : Option (SimEvent O M)} (h : s.step machine = some (.goesOn s' e)) :
    Stepped machine s e s' := by
  unfold step at h
  split at h
  · rename_i hp
    split at h
    · rename_i hleft
      cases h
      exact .pass hp hleft
    · cases h
  · rename_i iter hp
    split at h
    · cases h
    · rename_i hz
      cases h
      exact .passOver hp hz
    · rename_i hz
      cases h
      exact .party hp hz
  · rename_i iter i pos hp
    split at h
    · rename_i party hparty
      split at h
      · cases h
      · rename_i hq
        exact stepped_of_deliver hp hparty hq (Option.some.inj h)
      · rename_i hq
        cases h
        refine .blocked hp fun party' w hw => ?_
        rw [hparty] at hw
        cases hw
        exact ⟨rfl,recvNextMsg_none hq⟩
    · rename_i hparty
      cases h
      exact .resumes hp hparty
    · rename_i hnot1 hnot2
      cases h
      refine .blocked hp fun party w hw => ?_
      cases w with
      | true => exact absurd hw (hnot1 party)
      | false => exact absurd hw (hnot2 party)
  · rename_i iter i pos hp
    split at h
    · rename_i party w hparty
      obtain ⟨⟨party',res⟩,hm,h⟩ := Option.map_eq_some_iff.mp h
      exact stepped_of_handle hp hparty hm h
    · rename_i hnot
      cases h
      exact .inactive hp hnot

/-- All the ways in which a step ends the run. -/
inductive Stopped [Build] (machine : StateMachine P O M) (s : Simulation P O M) : Outcome O → Prop
  | done (hp : s.phase = .pass) (hleft : ¬ 0 < s.partiesLeft) :
      Stopped machine s (collect s.parties)
  | counter {iter : PartyIter} {p : Panic} (hp : s.phase = .nextParty iter)
      (hz : zip U16.nextFrom list iter = .error p) : Stopped machine s (.panicked p)
  | index {iter : PartyIter} {i : UInt16} {pos : ℕ} {p : Panic}
      (hp : s.phase = .thisParty iter i pos) (hq : s.messagesQueue.recvNextMsg i = .error p) :
      Stopped machine s (.panicked p)
  | refused {iter : PartyIter} {i : UInt16} {pos : ℕ} {party party' : P}
      {queue : MessagesQueue M} {msg msg' : Incoming M} (hp : s.phase = .thisParty iter i pos)
      (hparty : s.parties[pos]? = some (.active party true))
      (hq : s.messagesQueue.recvNextMsg i = .ok (queue,some msg))
      (hm : machine.receivedMsg party msg = (party',.error msg')) :
      Stopped machine s (.returned (.error .saveIncomingMsg))
  | send {iter : PartyIter} {i : UInt16} {pos : ℕ} {party party' : P} {w : Bool}
      {msg : Outgoing M} {p : Panic} (hp : s.phase = .proceed iter i pos)
      (hparty : s.parties[pos]? = some (.active party w))
      (hm : machine.proceed party = some (party',.sendMsg msg))
      (hq : s.messagesQueue.sendMessage i msg = .error p) : Stopped machine s (.panicked p)
  | unknown {iter : PartyIter} {i : UInt16} {pos : ℕ} {party party' : P} {w : Bool}
      {queue : MessagesQueue M} {msg : Outgoing M} {err : SimError}
      (hp : s.phase = .proceed iter i pos) (hparty : s.parties[pos]? = some (.active party w))
      (hm : machine.proceed party = some (party',.sendMsg msg))
      (hq : s.messagesQueue.sendMessage i msg = .ok (queue,.error err)) :
      Stopped machine s (.returned (.error err))
  | left {iter : PartyIter} {i : UInt16} {pos : ℕ} {party party' : P} {w : Bool} {out : O}
      {p : Panic} (hp : s.phase = .proceed iter i pos)
      (hparty : s.parties[pos]? = some (.active party w))
      (hm : machine.proceed party = some (party',.output out))
      (hleft : Usize.sub s.partiesLeft 1 = .error p) : Stopped machine s (.panicked p)
  | failed {iter : PartyIter} {i : UInt16} {pos : ℕ} {party party' : P} {w : Bool}
      {err : ExecutionError} (hp : s.phase = .proceed iter i pos)
      (hparty : s.parties[pos]? = some (.active party w))
      (hm : machine.proceed party = some (party',.error err)) :
      Stopped machine s (.returned (.error (.executionError err)))

section Calls

variable [Build] {machine : StateMachine P O M} {s : Simulation P O M} {iter : PartyIter}
  {i : UInt16} {pos : ℕ} {party party' : P} {w : Bool} {queue : MessagesQueue M} {msg : Incoming M}
  {res : ProceedResult O M} {o : Outcome O}

theorem stopped_of_deliver (hp : s.phase = .thisParty iter i pos)
    (hparty : s.parties[pos]? = some (.active party true))
    (hq : s.messagesQueue.recvNextMsg i = .ok (queue,some msg))
    (h : deliver machine { s with messagesQueue := queue } iter i pos party msg = .stops o) :
    Stopped machine s o := by
  unfold deliver at h
  split at h
  · cases h
  · rename_i hm
    cases h
    exact .refused hp hparty hq hm

theorem stopped_of_handle (hp : s.phase = .proceed iter i pos)
    (hparty : s.parties[pos]? = some (.active party w))
    (hm : machine.proceed party = some (party',res))
    (h : handle s iter i pos party' w res = .stops o) : Stopped machine s o := by
  unfold handle at h
  cases res with
  | sendMsg msg =>
    simp only at h
    split at h
    · rename_i hq
      cases h
      exact .send hp hparty hm hq
    · rename_i hq
      cases h
      exact .unknown hp hparty hm hq
    · cases h
  | needsOneMoreMessage => cases h
  | output out =>
    simp only at h
    split at h
    · rename_i hleft
      cases h
      exact .left hp hparty hm hleft
    · cases h
  | yielded => cases h
  | error err =>
    cases h
    exact .failed hp hparty hm

end Calls

theorem stopped_of_step [Build] {machine : StateMachine P O M} {s : Simulation P O M}
    {o : Outcome O} (h : s.step machine = some (.stops o)) : Stopped machine s o := by
  unfold step at h
  split at h
  · rename_i hp
    split at h
    · cases h
    · rename_i hleft
      cases h
      exact .done hp hleft
  · rename_i iter hp
    split at h
    · rename_i hz
      cases h
      exact .counter hp hz
    · cases h
    · cases h
  · rename_i iter i pos hp
    split at h
    · rename_i party hparty
      split at h
      · rename_i hq
        cases h
        exact .index hp hq
      · rename_i hq
        exact stopped_of_deliver hp hparty hq (Option.some.inj h)
      · cases h
    · cases h
    · cases h
  · rename_i iter i pos hp
    split at h
    · rename_i party w hparty
      obtain ⟨⟨party',res⟩,hm,h⟩ := Option.map_eq_some_iff.mp h
      exact stopped_of_handle hp hparty hm h
    · cases h

/-- The run does not go on if a call of `proceed` never returns. -/
theorem step_none [Build] {machine : StateMachine P O M} {s : Simulation P O M}
    (h : s.step machine = none) : ∃ iter i pos party w, s.phase = .proceed iter i pos ∧
      s.parties[pos]? = some (.active party w) ∧ machine.proceed party = none := by
  unfold step at h
  split at h
  · split at h <;> cases h
  · split at h <;> cases h
  · split at h
    · split at h <;> cases h
    · cases h
    · cases h
  · rename_i iter i pos hp
    split at h
    · rename_i party w hparty
      exact ⟨iter,i,pos,party,w,hp,hparty,Option.map_eq_none_iff.mp h⟩
    · cases h

theorem zip_some [Build] {iter iter' : PartyIter} {i : UInt16} {pos : ℕ}
    (h : zip U16.nextFrom list iter = .ok (iter',some (i,pos))) :
    iter.1 = i ∧ iter.2 = pos :: iter'.2 ∧ iter'.1 = i + 1 := by
  obtain ⟨start,positions⟩ := iter
  cases hadd : U16.add start 1 with
  | error p => simp [zip,U16.nextFrom,hadd] at h
  | ok after =>
    cases positions with
    | nil => simp [zip,U16.nextFrom,hadd,list] at h
    | cons p ps =>
      simp only [zip,U16.nextFrom,hadd,list,Option.map_some,Except.ok.injEq,Prod.mk.injEq,
        Option.some.injEq] at h
      obtain ⟨rfl,rfl,rfl⟩ := h
      exact ⟨rfl,rfl,U16.add_one_ok hadd⟩

theorem zip_none [Build] {iter iter' : PartyIter}
    (h : zip U16.nextFrom list iter = .ok (iter',none)) : iter.2 = [] := by
  obtain ⟨start,positions⟩ := iter
  cases hadd : U16.add start 1 with
  | error p => simp [zip,U16.nextFrom,hadd] at h
  | ok after =>
    cases positions with
    | nil => rfl
    | cons p ps => simp [zip,U16.nextFrom,hadd,list] at h

theorem countP_set_active {parties : List (Party P O)} {pos : ℕ} {party : P} {w : Bool}
    (hp : parties[pos]? = some (.active party w)) (q : Party P O) :
    (parties.set pos q).countP Party.isActive =
      parties.countP Party.isActive - 1 + if q.isActive then 1 else 0 := by
  obtain ⟨hlt,hget⟩ := List.getElem?_eq_some_iff.mp hp
  rw [List.countP_set hlt,hget]
  rfl

theorem collect_finished {parties : List (Party P O)} (h : parties.countP Party.isActive = 0) :
    ∃ outs, collect parties = .returned (.ok outs) ∧ parties = outs.map .finished := by
  induction parties with
  | nil => exact ⟨[],rfl,rfl⟩
  | cons party parties ih =>
    cases party with
    | active party w => simp [Party.isActive] at h
    | finished out =>
      obtain ⟨outs,houts,hmap⟩ := ih (by simpa [Party.isActive] using h)
      exact ⟨out :: outs,by simp [collect,houts],by simp [hmap]⟩

/-- The iterator stands before the party at `k`, the counter may have wrapped around. -/
def upTo (n k : ℕ) : PartyIter := (.ofNat k,List.range' k (n - k))

/-- Where a run can stand. -/
def Stands (n : ℕ) : Phase → Prop
  | .pass => True
  | .nextParty iter => ∃ k, k ≤ n ∧ iter = upTo n k
  | .thisParty iter i pos => i = .ofNat pos ∧ pos < n ∧ iter = upTo n (pos + 1)
  | .proceed iter i pos => i = .ofNat pos ∧ pos < n ∧ iter = upTo n (pos + 1)

/-- What holds at every point of a run. -/
structure Steady (s : Simulation P O M) : Prop where
  queues : s.messagesQueue.queue.length = s.parties.length
  stands : Stands s.parties.length s.phase
  left : s.partiesLeft = s.parties.countP Party.isActive

theorem steady_start (parties : List P) : Steady (start parties : Simulation P O M) := by
  refine ⟨by simp [start,MessagesQueue.new],trivial,?_⟩
  have hall : ∀ party ∈ parties.map fun party => (.active party false : Party P O),
      party.isActive = true := by
    intro party hparty
    obtain ⟨_,_,rfl⟩ := List.mem_map.mp hparty
    rfl
  have hcount := List.countP_eq_length.mpr hall
  rw [List.length_map] at hcount
  exact hcount.symm

theorem upTo_next [Build] {n k : ℕ} {iter : PartyIter} {i : UInt16} {pos : ℕ}
    (hz : zip U16.nextFrom list (upTo n k) = .ok (iter,some (i,pos))) :
    i = .ofNat pos ∧ pos < n ∧ iter = upTo n (pos + 1) := by
  obtain ⟨hi,hps,hafter⟩ := zip_some hz
  cases hleft : n - k with
  | zero =>
    rw [upTo,hleft] at hps
    cases hps
  | succ m =>
    rw [upTo,hleft,List.range'_succ] at hps
    obtain ⟨rfl,hrest⟩ := List.cons.inj hps
    have hm : n - (k + 1) = m := by omega
    refine ⟨hi.symm,by omega,Prod.ext ?_ ?_⟩
    · rw [hafter,← hi]
      exact (UInt16.ofNat_add k 1).symm
    · rw [upTo,hm]
      exact hrest.symm

theorem Steady.left_pos {s : Simulation P O M} (h : s.Steady) {pos : ℕ} {party : P} {w : Bool}
    (hparty : s.parties[pos]? = some (.active party w)) : 1 ≤ s.partiesLeft := by
  rw [h.left]
  exact List.countP_pos_iff.mpr ⟨_,List.mem_of_getElem? hparty,rfl⟩

theorem Steady.set_active {s : Simulation P O M} (h : s.Steady) {pos : ℕ} {party : P} {w : Bool}
    (hparty : s.parties[pos]? = some (.active party w)) {q : Party P O} (hq : q.isActive = true) :
    s.partiesLeft = (s.parties.set pos q).countP Party.isActive := by
  have hpos := h.left_pos hparty
  rw [countP_set_active hparty,← h.left,hq,if_pos rfl]
  omega

theorem Stepped.parties_length [Build] {machine : StateMachine P O M} {s s' : Simulation P O M}
    {e : Option (SimEvent O M)} (hs : Stepped machine s e s') :
    s'.parties.length = s.parties.length := by
  cases hs <;> simp [setParty]

/-- Every step leaves the run steady. -/
theorem Stepped.steady [Build] {machine : StateMachine P O M} {s s' : Simulation P O M}
    {e : Option (SimEvent O M)} (hs : Stepped machine s e s') (h : s.Steady) : s'.Steady := by
  have hstands := h.stands
  cases hs with
  | pass hp _ =>
    refine ⟨h.queues,⟨0,Nat.zero_le _,?_⟩,h.left⟩
    rw [upTo,List.range_eq_range',Nat.sub_zero]
    rfl
  | passOver => exact ⟨h.queues,trivial,h.left⟩
  | party hp hz =>
    rw [hp] at hstands
    obtain ⟨k,_,rfl⟩ := hstands
    exact ⟨h.queues,upTo_next hz,h.left⟩
  | blocked hp _ =>
    rw [hp] at hstands
    exact ⟨h.queues,⟨_,hstands.2.1,hstands.2.2⟩,h.left⟩
  | resumes hp hparty =>
    rw [hp] at hstands
    exact ⟨h.queues,hstands,h.left⟩
  | receives hp hparty hq hm =>
    rw [hp] at hstands
    obtain ⟨rest,_,rfl⟩ := recvNextMsg_some hq
    exact ⟨by simpa [setParty] using h.queues,by simpa [setParty,Stands] using hstands,
      h.set_active hparty rfl⟩
  | sends hp hparty hm hq =>
    rw [hp] at hstands
    refine ⟨?_,by simpa [setParty,Stands] using hstands,h.set_active hparty rfl⟩
    simpa [setParty,MessagesQueue.sendMessage_length hq] using h.queues
  | waits hp hparty hm =>
    rw [hp] at hstands
    exact ⟨by simpa [setParty] using h.queues,by simpa [setParty,Stands] using hstands,
      h.set_active hparty rfl⟩
  | outputs hp hparty hm hl =>
    rw [hp] at hstands
    rw [Usize.sub_of_le (h.left_pos hparty)] at hl
    cases hl
    refine ⟨by simpa [setParty] using h.queues,⟨_,?_,by simpa [setParty] using hstands.2.2⟩,?_⟩
    · simp only [setParty,List.length_set]
      exact hstands.2.1
    · change _ = (s.parties.set _ _).countP Party.isActive
      rw [countP_set_active hparty,← h.left]
      rfl
  | yields hp hparty hm =>
    rw [hp] at hstands
    exact ⟨by simpa [setParty] using h.queues,by simpa [setParty,Stands] using hstands,
      h.set_active hparty rfl⟩
  | inactive hp _ =>
    rw [hp] at hstands
    exact ⟨h.queues,⟨_,hstands.2.1,hstands.2.2⟩,h.left⟩

theorem run_steady [Build] {machine : StateMachine P O M} {parties : List P}
    {es : List (Option (SimEvent O M))} {s : Simulation P O M}
    (hrun : Run (running machine parties) (start parties) es s) :
    s.Steady ∧ s.parties.length = parties.length := by
  induction hrun with
  | refl => exact ⟨steady_start parties,by simp [start]⟩
  | snoc _ hs ih =>
    have hstep := stepped_of_step hs
    exact ⟨hstep.steady ih.1,hstep.parties_length.trans ih.2⟩

theorem Steady.index_lt {s : Simulation P O M} (h : s.Steady) {pos : ℕ}
    (hpos : pos < s.parties.length) :
    (UInt16.ofNat pos).toNat < s.messagesQueue.queue.length := by
  rw [h.queues,UInt16.toNat_ofNat']
  exact Nat.lt_of_le_of_lt (Nat.mod_le _ _) hpos

/-- The next step advances a checked counter beyond its top: that of the parties or, for a
broadcast, that of the queues at 65535, or there are too few ids left for what is sent. -/
def Overflows [Build] (machine : StateMachine P O M) (s : Simulation P O M) : Prop :=
  Build.overflowChecks = true ∧ ((∃ iter, s.phase = .nextParty iter ∧ iter.1.toNat = 65535) ∨
    ∃ iter i pos party w party' msg, s.phase = .proceed iter i pos ∧
      s.parties[pos]? = some (.active party w) ∧
      machine.proceed party = some (party',.sendMsg msg) ∧
      ((65535 ≤ s.parties.length ∧ msg.recipient.isP2p = false) ∨
        2 ^ 64 ≤ s.messagesQueue.nextId.toNat + idsTaken s.parties.length msg))

/-- A run only panics if a counter overflows. -/
theorem Steady.panics [Build] {machine : StateMachine P O M} {s : Simulation P O M}
    (h : s.Steady) {p : Panic} (hs : s.step machine = some (.stops (.panicked p))) :
    s.Overflows machine := by
  have hcases := stopped_of_step hs
  have hstands := h.stands
  generalize ho : Outcome.panicked p = o at hcases
  cases hcases with
  | done hp hleft =>
    rw [h.left] at hleft
    obtain ⟨outs,houts,_⟩ := collect_finished (Nat.eq_zero_of_not_pos hleft)
    rw [houts] at ho
    cases ho
  | @counter iter _ hp hz =>
    by_contra hc
    have hnext : U16.add iter.1 1 = .ok (iter.1 + 1) := U16.add_one_total fun hb => by
      have htop := iter.1.toNat_lt
      have hne : iter.1.toNat ≠ 65535 := fun he => hc ⟨hb,.inl ⟨iter,hp,he⟩⟩
      omega
    obtain ⟨first,positions⟩ := iter
    cases positions with
    | nil => simp [zip,U16.nextFrom,hnext,list] at hz
    | cons pos positions => simp [zip,U16.nextFrom,hnext,list] at hz
  | index hp hq =>
    rw [hp] at hstands
    obtain ⟨rfl,hlt,_⟩ := hstands
    obtain ⟨r,hr⟩ := recvNextMsg_total (h.index_lt hlt)
    rw [hq] at hr
    cases hr
  | refused => cases ho
  | @send iter i pos party party' w msg _ hp hparty hm hq =>
    rw [hp] at hstands
    obtain ⟨rfl,hlt,_⟩ := hstands
    by_contra hc
    have htotal : ∃ r, s.messagesQueue.sendMessage (.ofNat pos) msg = .ok r := by
      refine MessagesQueue.sendMessage_total (h.index_lt hlt) fun hb => ?_
      rw [h.queues]
      have hroom : ¬ ((65535 ≤ s.parties.length ∧ msg.recipient.isP2p = false) ∨
          2 ^ 64 ≤ s.messagesQueue.nextId.toNat + idsTaken s.parties.length msg) :=
        fun hx => hc ⟨hb,.inr ⟨_,_,_,_,_,_,_,hp,hparty,hm,hx⟩⟩
      obtain ⟨hn,hids⟩ := not_or.mp hroom
      refine ⟨?_,Nat.lt_of_not_le hids⟩
      cases hp2p : msg.recipient.isP2p with
      | true => exact .inr rfl
      | false => exact .inl (Nat.lt_of_not_le fun hle => hn ⟨hle,hp2p⟩)
    obtain ⟨r,hr⟩ := htotal
    rw [hq] at hr
    cases hr
  | unknown => cases ho
  | left hp hparty hm hleft =>
    rw [Usize.sub_of_le (h.left_pos hparty)] at hleft
    cases hleft
  | failed => cases ho

/-- If a counter overflows the run panics at once. -/
theorem Steady.overflows [Build] {machine : StateMachine P O M} {s : Simulation P O M}
    (h : s.Steady) (ho : s.Overflows machine) :
    s.step machine = some (.stops (.panicked .overflow)) := by
  obtain ⟨hb,⟨iter,hp,htop⟩ | ⟨iter,i,pos,party,w,party',msg,hp,hparty,hm,hsend⟩⟩ := ho
  · have hz : zip U16.nextFrom list iter = .error .overflow :=
      zip_of_error (U16.nextFrom_top hb htop)
    simp only [step,hp,hz]
  · have hstands := h.stands
    rw [hp] at hstands
    obtain ⟨rfl,hlt,_⟩ := hstands
    have hq : s.messagesQueue.sendMessage (.ofNat pos) msg = .error .overflow := by
      rw [← h.queues] at hsend
      rcases hsend with ⟨hn,hp2p⟩ | hids
      · exact MessagesQueue.sendMessage_top hb hn hp2p
      · exact MessagesQueue.sendMessage_exhausted hb (h.index_lt hlt) hids
    simp only [step,hp,hparty,hm,Option.map_some,handle,hq]

end Simulation
end RoundBased
