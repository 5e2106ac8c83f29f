import RoundBased.SimulationSteps

/-! The parties of the simulation under their indexes: every step, and the counters that are zipped
with the parties and with the queues. -/
namespace RoundBased
open Transition Iteration

variable {P O M : Type}

/-- The position of the party that is called is the index it is run under. -/
def SimEvent.InPlace : SimEvent O M → Prop
  | .received pos i _ => i.toNat = pos
  | .proceeded pos i _ => i.toNat = pos

namespace Simulation

/-- The iterator stands before the party at `k`. -/
def Before (n k : ℕ) (iter : PartyIter) : Prop :=
  iter.1.toNat = k ∧ iter.2 = List.range' k (n - k)

/-- Where a run with `n` parties can stand: every party is taken under its own position. -/
def Placed (n : ℕ) : Phase → Prop
  | .pass => True
  | .nextParty iter => ∃ k, k ≤ n ∧ Before n k iter
  | .thisParty iter i pos => i.toNat = pos ∧ pos < n ∧ Before n (pos + 1) iter
  | .proceed iter i pos => i.toNat = pos ∧ pos < n ∧ Before n (pos + 1) iter

structure WellFormed (n : ℕ) (s : Simulation P O M) : Prop where
  parties : s.parties.length = n
  queues : s.messagesQueue.queue.length = n
  placed : Placed n s.phase
  left : s.partiesLeft = s.parties.countP Party.isActive

theorem before_iff {n k : ℕ} (hk : k ≤ 65535) {iter : PartyIter} :
    Before n k iter ↔ iter = upTo n k := by
  have hnat : (UInt16.ofNat k).toNat = k := by
    rw [UInt16.toNat_ofNat']
    exact Nat.mod_eq_of_lt (Nat.lt_succ_of_le hk)
  constructor
  · rintro ⟨hi,hl⟩
    exact Prod.ext (by rw [← hi]; exact UInt16.ofNat_toNat.symm) hl
  · rintro rfl
    exact ⟨hnat,rfl⟩

theorem index_iff {i : UInt16} {pos : ℕ} (hpos : pos ≤ 65535) : i.toNat = pos ↔ i = .ofNat pos := by
  constructor
  · rintro rfl
    exact UInt16.ofNat_toNat.symm
  · rintro rfl
    rw [UInt16.toNat_ofNat']
    exact Nat.mod_eq_of_lt (Nat.lt_succ_of_le hpos)

/-- With at most 65535 parties the indexes are the positions. -/
theorem placed_iff {n : ℕ} (hn : n ≤ 65535) {phase : Phase} : Placed n phase ↔ Stands n phase := by
  have hone : ∀ {iter : PartyIter} {i : UInt16} {pos : ℕ},
      (i.toNat = pos ∧ pos < n ∧ Before n (pos + 1) iter) ↔
        i = .ofNat pos ∧ pos < n ∧ iter = upTo n (pos + 1) := by
    intro iter i pos
    constructor
    · rintro ⟨hi,hlt,hb⟩
      exact ⟨(index_iff (by omega)).mp hi,hlt,(before_iff (by omega)).mp hb⟩
    · rintro ⟨hi,hlt,hb⟩
      exact ⟨(index_iff (by omega)).mpr hi,hlt,(before_iff (by omega)).mpr hb⟩
  cases phase with
  | pass => exact Iff.rfl
  | nextParty iter => exact exists_congr fun k => and_congr_right fun hk => before_iff (by omega)
  | thisParty iter i pos => exact hone
  | proceed iter i pos => exact hone

theorem wellFormed_iff {n : ℕ} (hn : n ≤ 65535) {s : Simulation P O M} :
    WellFormed n s ↔ s.Steady ∧ s.parties.length = n := by
  constructor
  · rintro ⟨hlen,hqueues,hplaced,hleft⟩
    subst hlen
    exact ⟨⟨hqueues,(placed_iff hn).mp hplaced,hleft⟩,rfl⟩
  · rintro ⟨⟨hqueues,hstands,hleft⟩,rfl⟩
    exact ⟨rfl,hqueues,(placed_iff hn).mpr hstands,hleft⟩

/-- Every step leaves the run well-formed, and calls a party under its own position. -/
theorem Stepped.wellFormed [Build] {n : ℕ} (hn : n ≤ 65535) {machine : StateMachine P O M}
    {s s' : Simulation P O M} {e : Option (SimEvent O M)} (h : WellFormed n s)
    (hs : Stepped machine s e s') : WellFormed n s' ∧ ∀ ev ∈ e, ev.InPlace := by
  obtain ⟨hsteady,hlen⟩ := (wellFormed_iff hn).mp h
  have hplaced := h.placed
  refine ⟨(wellFormed_iff hn).mpr ⟨hs.steady hsteady,hs.parties_length.trans hlen⟩,?_⟩
  cases hs with
  | pass => simp
  | passOver => simp
  | party => simp
  | blocked => simp
  | resumes => simp
  | inactive => simp
  | receives hp =>
    rw [hp] at hplaced
    simpa [SimEvent.InPlace] using hplaced.1
  | sends hp =>
    rw [hp] at hplaced
    simpa [SimEvent.InPlace] using hplaced.1
  | waits hp =>
    rw [hp] at hplaced
    simpa [SimEvent.InPlace] using hplaced.1
  | outputs hp =>
    rw [hp] at hplaced
    simpa [SimEvent.InPlace] using hplaced.1
  | yields hp =>
    rw [hp] at hplaced
    simpa [SimEvent.InPlace] using hplaced.1

theorem run_wellFormed [Build] {machine : StateMachine P O M} {parties : List P}
    (hn : parties.length ≤ 65535) {es : List (Option (SimEvent O M))} {s : Simulation P O M}
    (hrun : Run (running machine parties) (start parties) es s) :
    WellFormed parties.length s ∧ ∀ e ∈ es, ∀ ev ∈ e, ev.InPlace := by
  induction hrun with
  | refl => exact ⟨(wellFormed_iff hn).mpr ⟨steady_start parties,by simp [start]⟩,by simp⟩
  | snoc _ hs ih =>
    obtain ⟨hwf,hall⟩ := ih
    obtain ⟨hwf',hev⟩ := (stepped_of_step hs).wellFormed hn hwf
    refine ⟨hwf',fun e he => ?_⟩
    rcases List.mem_append.mp he with he | he
    · exact hall e he
    · rw [List.mem_singleton.mp he]
      exact hev

/-- The next step advances no `u16` counter beyond its top: there are fewer than 65535 parties, or
the pass is not at its end and nothing is broadcast. -/
def Fits (machine : StateMachine P O M) (n : ℕ) (s : Simulation P O M) : Prop :=
  n < 65535 ∨ (∀ iter, s.phase = .nextParty iter → iter.2 ≠ []) ∧
    ∀ iter i pos party w party' msg, s.phase = .proceed iter i pos →
      s.parties[pos]? = some (.active party w) →
      machine.proceed party = some (party',.sendMsg msg) → msg.recipient.isP2p = true

/-- The next step sends to more parties than there are ids left. -/
def UsesUpIds [Build] (machine : StateMachine P O M) (s : Simulation P O M) : Prop :=
  Build.overflowChecks = true ∧ ∃ iter i pos party w party' msg, s.phase = .proceed iter i pos ∧
    s.parties[pos]? = some (.active party w) ∧
    machine.proceed party = some (party',.sendMsg msg) ∧
    2 ^ 64 ≤ s.messagesQueue.nextId.toNat + idsTaken s.messagesQueue.queue.length msg

/-- A run that fits only panics when the ids are used up. -/
theorem WellFormed.panics [Build] {machine : StateMachine P O M} {n : ℕ} {s : Simulation P O M}
    (h : WellFormed n s) (hn : n ≤ 65535) (hf : s.Fits machine n) {p : Panic}
    (hs : s.step machine = some (.stops (.panicked p))) : s.UsesUpIds machine := by
  have hplaced := h.placed
  obtain ⟨hb,⟨iter,hp,htop⟩ | ⟨iter,i,pos,party,w,party',msg,hp,hparty,hm,hsend⟩⟩ :=
    ((wellFormed_iff hn).mp h).1.panics hs
  · rw [hp] at hplaced
    obtain ⟨k,hk,hstart,hl⟩ := hplaced
    have hnil : n - k = 0 := by omega
    rw [hnil] at hl
    rcases hf with hlt | ⟨hend,_⟩
    · omega
    · exact absurd hl (hend _ hp)
  · rcases hsend with ⟨htop,hbroadcast⟩ | hids
    · rw [h.parties] at htop
      rcases hf with hlt | ⟨_,hp2p⟩
      · omega
      · rw [hp2p _ _ _ _ _ _ _ hp hparty hm] at hbroadcast
        cases hbroadcast
    · rw [h.parties,← h.queues] at hids
      exact ⟨hb,_,_,_,_,_,_,_,hp,hparty,hm,hids⟩

/-- Without room for the counters the run panics at once. -/
theorem WellFormed.overflows [Build] {machine : StateMachine P O M} {n : ℕ} {s : Simulation P O M}
    (h : WellFormed n s) (hn : n ≤ 65535) (hb : Build.overflowChecks = true)
    (hf : ¬ s.Fits machine n) : s.step machine = some (.stops (.panicked .overflow)) := by
  refine ((wellFormed_iff hn).mp h).1.overflows ⟨hb,?_⟩
  rw [Fits,not_or] at hf
  obtain ⟨htop,hf⟩ := hf
  have hplaced := h.placed
  by_cases hend : ∃ iter, s.phase = .nextParty iter ∧ iter.2 = []
  · obtain ⟨iter,hp,hnil⟩ := hend
    rw [hp] at hplaced
    obtain ⟨k,hk,hstart,hl⟩ := hplaced
    have hlen := congrArg List.length (hl.symm.trans hnil)
    rw [List.length_range',List.length_nil] at hlen
    exact .inl ⟨iter,hp,by omega⟩
  · right
    by_contra hc
    refine hf ⟨fun iter hp hnil => hend ⟨iter,hp,hnil⟩,?_⟩
    intro iter i pos party w party' msg hp hparty hm
    by_contra hp2p
    rw [Bool.not_eq_true] at hp2p
    exact hc ⟨iter,i,pos,party,w,party',msg,hp,hparty,hm,.inl ⟨by rw [h.parties]; omega,hp2p⟩⟩

/-- How the queues change: a send adds the copies that are due to each party, a message that is
received is the first one of the party's own queue. -/
def Addressed (n : ℕ) (s : Simulation P O M) (e : Option (SimEvent O M)) (s' : Simulation P O M) :
    Prop :=
  match e with
  | some (.proceeded _ i (.sendMsg msg)) => ∀ k < n, ∃ adds : List (Incoming M),
      s'.messagesQueue.queue[k]? = s.messagesQueue.queue[k]?.map (· ++ adds) ∧
      adds.map Incoming.content = copies i msg k
  | some (.received pos _ msg) => ∃ rest, s.messagesQueue.queue[pos]? = some (msg :: rest) ∧
      s'.messagesQueue.queue = s.messagesQueue.queue.set pos rest
  | _ => s'.messagesQueue = s.messagesQueue

theorem Stepped.addressed [Build] {n : ℕ} (hn : n ≤ 65535) {machine : StateMachine P O M}
    {s s' : Simulation P O M} {e : Option (SimEvent O M)} (h : WellFormed n s)
    (hs : Stepped machine s e s') : Addressed n s e s' := by
  have hev := (hs.wellFormed hn h).2
  cases hs with
  | receives hp hparty hq hm =>
    have hi := hev _ rfl
    obtain ⟨rest,hget,rfl⟩ := recvNextMsg_some hq
    rw [SimEvent.InPlace] at hi
    rw [hi] at hget
    exact ⟨rest,hget,by rw [← hi]⟩
  | sends hp hparty hm hq =>
    intro k hk
    obtain ⟨adds,ha⟩ := MessagesQueue.sendMessage_ok hq (by rw [h.queues]; exact hn)
    have hlen : k < adds.length := by rw [ha.length,h.queues]; exact hk
    refine ⟨adds[k],?_,ha.content_eq k hlen⟩
    have hlen' : k < s.messagesQueue.queue.length := by rw [h.queues]; exact hk
    rw [ha.queues_eq,List.getElem?_zipWith,List.getElem?_eq_getElem hlen',
      List.getElem?_eq_getElem hlen]
    rfl
  | pass => exact rfl
  | passOver => exact rfl
  | party => exact rfl
  | blocked => exact rfl
  | resumes => exact rfl
  | waits => exact rfl
  | outputs => exact rfl
  | yields => exact rfl
  | inactive => exact rfl

/-- At every point of a run of `n` parties, every party is called, addressed and recorded as sender
under its own position. The next step panics exactly if a `u16` counter is advanced beyond its top,
as long as there are ids left. -/
theorem indexes_in_place [Build] (machine : StateMachine P O M) (n : UInt16) (init : UInt16 → P)
    {es : List (Option (SimEvent O M))} {s : Simulation P O M}
    (hrun : Run (running machine ((U16.count 0 n.toNat).map init)) (fromFn n init) es s) :
    (∀ e ∈ es, ∀ ev ∈ e, ev.InPlace) ∧
    (∀ e s', s.step machine = some (.goesOn s' e) →
      (∀ ev ∈ e, ev.InPlace) ∧ Addressed n.toNat s e s') ∧
    (s.Fits machine n.toNat → ∀ p, s.step machine = some (.stops (.panicked p)) →
      s.UsesUpIds machine) ∧
    (Build.overflowChecks = true → ¬ s.Fits machine n.toNat →
      s.step machine = some (.stops (.panicked .overflow))) := by
  have hlen : ((U16.count 0 n.toNat).map init).length = n.toNat := by
    rw [List.length_map,U16.length_count]
  have hn : n.toNat ≤ 65535 := Nat.le_of_lt_succ n.toNat_lt
  obtain ⟨hwf,hall⟩ := run_wellFormed (by rw [hlen]; exact hn) hrun
  rw [hlen] at hwf
  refine ⟨hall,fun e s' hs => ?_,fun hf p => hwf.panics hn hf,fun hb hf => hwf.overflows hn hb hf⟩
  have hstep := stepped_of_step hs
  exact ⟨(hstep.wellFormed hn hwf).2,hstep.addressed hn hwf⟩

/-- The first three steps of a run get to the first call of `proceed`. -/
theorem run_start [Build] (machine : StateMachine P O M) (party : P) (parties : List P) (fuel : ℕ) :
    run machine (fuel + 3) (start (party :: parties)) = run machine fuel
      { start (party :: parties) with phase := .proceed (1,List.range' 1 parties.length) 0 0 } := by
  have hrange : List.range (parties.length + 1) = 0 :: List.range' 1 parties.length := by
    rw [List.range_eq_range',List.range'_succ]
  have hnext : U16.nextFrom 0 = .ok (1,some 0) := U16.nextFrom_of_lt (by decide)
  have hpass : step machine (start (party :: parties)) = some (.goesOn
      { start (party :: parties) with phase := .nextParty (0,0 :: List.range' 1 parties.length) }
      none) := by
    simp [step,start,hrange]
  simp only [run,hpass]
  simp only [step,zip,hnext,list,Option.map_some,start,List.map_cons,List.getElem?_cons_zero]

/-- Every party broadcasts first. -/
def broadcaster : StateMachine Unit Unit Unit where
  proceed _ := some ((),.sendMsg (.allParties ()))
  receivedMsg _ _ := ((),.ok ())

theorem fromFn_cons (n : UInt16) (init : UInt16 → P) (hn : 0 < n.toNat) :
    ∃ ps : List P, (fromFn n init : Simulation P O M) = start (init 0 :: ps) ∧
      ps.length + 1 = n.toNat := by
  have hcount : U16.count 0 n.toNat = 0 :: U16.count 1 (n.toNat - 1) := by
    have hsucc := U16.count_succ 0 (n.toNat - 1)
    rwa [Nat.sub_add_cancel hn] at hsucc
  refine ⟨(U16.count 1 (n.toNat - 1)).map init,?_,?_⟩
  · rw [fromFn,hcount,List.map_cons]
  · rw [List.length_map,U16.length_count,Nat.sub_add_cancel hn]

theorem run_broadcaster [Build] (hb : Build.overflowChecks = true) {parties : List Unit}
    (hn : parties.length + 1 = 65535) :
    run broadcaster 4 (start (() :: parties)) = some (.panicked .overflow) := by
  have hlen : (start (() :: parties) : Simulation Unit Unit Unit).messagesQueue.queue.length =
      65535 := by
    simpa [start,MessagesQueue.new] using hn
  have hsend : (start (() :: parties) : Simulation Unit Unit Unit).messagesQueue.sendMessage 0
      (.allParties ()) = .error .overflow :=
    MessagesQueue.sendMessage_top hb (Nat.le_of_eq hlen.symm) rfl
  have hhead : (start (() :: parties) : Simulation Unit Unit Unit).parties[0]? =
      some (.active () false) := rfl
  rw [run_start]
  simp only [run,step,hhead,broadcaster,Option.map_some,handle,hsend]

theorem broadcast_overflows :
    letI : Build := .debug
    run broadcaster 4 (fromFn 65535 fun _ => ()) = some (.panicked .overflow) := by
  let _ : Build := .debug
  obtain ⟨parties,hstart,hlen⟩ := fromFn_cons (P := Unit) (O := Unit) (M := Unit) 65535
    (fun _ => ()) (by decide)
  rw [hstart]
  exact run_broadcaster rfl hlen

/-- Three parties that broadcast, before the second call. -/
theorem indexes_in_place_three :
    letI : Build := .debug
    let s : Simulation Unit Unit Unit := (trace broadcaster 5 (fromFn 3 fun _ => ())).2
    s.messagesQueue.queue.map List.length = [0,1,1] ∧ s.Fits broadcaster 3 ∧
      ∀ p, s.step broadcaster = some (.stops (.panicked p)) → s.UsesUpIds broadcaster := by
  let _ : Build := .debug
  intro s
  have hfits : s.Fits broadcaster 3 := .inl (by decide)
  have hrun := run_trace broadcaster ((U16.count 0 3).map fun _ => ()) 5 (fromFn 3 fun _ => ())
  obtain ⟨_,_,hpanics,_⟩ := indexes_in_place broadcaster 3 (fun _ => ()) hrun
  exact ⟨by decide,hfits,hpanics hfits⟩

end Simulation
end RoundBased
