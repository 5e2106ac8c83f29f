import RoundBased.PartyRuns
import RoundBased.SimulationDelivery

/-! The state machine of a party, as the simulation calls it. -/
namespace RoundBased
open Interaction RoundsRouter Transition Simulation

variable {ι M A : Type} {St : ι → Type} [∀ k, RoundStore (St k)]

/-- A panic is not caught: the call that panics does not return. -/
def ProceedResult.checked : ProceedResult (Except Panic A) M → Option (ProceedResult A M)
  | .sendMsg msg => some (.sendMsg msg)
  | .needsOneMoreMessage => some .needsOneMoreMessage
  | .output (.ok a) => some (.output a)
  | .output (.error _) => none
  | .yielded => some .yielded
  | .error err => some (.error err)

variable [ProtocolMsg M] [∀ k, RoundMsg M (RoundInfo.Msg (St k))] [TypeIds St]

/-- The state machines of the parties, as long as the fuel is enough for a poll. -/
def partyMachine [Build] (fuel : ℕ) :
    StateMachine (StateMachineImpl (PartyTask St M A) M) A M where
  proceed st :=
    ((wrapped PartyTask.resume fuel).proceed st).bind fun r => r.2.checked.map fun res => (r.1,res)
  receivedMsg := StateMachineImpl.receivedMsg

/-- How the party and its node fare in a call of `proceed`. -/
inductive Proceeded (n : UInt16) (start : PartyIndex → Node St DeliveryErr M A) (i : PartyIndex)
    (net : Network St DeliveryErr M A) (st : StateMachineImpl (PartyTask St M A) M)
    (rest : Multiset (Packet M)) (fuel : ℕ) :
    Option (StateMachineImpl (PartyTask St M A) M × ProceedResult A M) → Prop
  | panics {net' : Network St DeliveryErr M A} {p : Panic} : Moved n start i net net' →
      net'.Panics i p → Proceeded n start i net st rest fuel none
  | outOfFuel {net' : Network St DeliveryErr M A} : Moved n start i net net' →
      (∀ K c, (net'.nodes i).history.length ≤ K →
        fuel ≤ work K c (net.nodes i) st.future st.sharedState) →
      Proceeded n start i net st rest fuel none
  | output {net' : Network St DeliveryErr M A} {st' : StateMachineImpl (PartyTask St M A) M}
      {a : A} : Moved n start i net net' → (net'.nodes i).activity = .running (.ret a) →
      (net'.inFlight : Multiset (Packet M)) = slotPackets n i st'.sharedState + rest →
      (∀ o, st'.sharedState.outgoingMsg = some o → (net'.nodes i).Unflushed o) →
      Proceeded n start i net st rest fuel (some (st',.output a))
  | sendMsg {net' : Network St DeliveryErr M A} {st' : StateMachineImpl (PartyTask St M A) M}
      {msg : Outgoing M} : Moved n start i net net' → st'.exhausted = false →
      Backs n i net' st'.future st'.sharedState (sentPackets n i msg + rest) →
      Quiet st'.future st'.sharedState → msg ∈ (net'.nodes i).sent →
      (∀ K c, (net'.nodes i).history.length ≤ K →
        work K c (net'.nodes i) st'.future st'.sharedState + c ≤
          work K c (net.nodes i) st.future st.sharedState) →
      Proceeded n start i net st rest fuel (some (st',.sendMsg msg))
  | needsOneMoreMessage {net' : Network St DeliveryErr M A}
      {st' : StateMachineImpl (PartyTask St M A) M} {k : Reply M → PartyTask St M A} :
      Moved n start i net net' → st'.exhausted = false →
      Backs n i net' st'.future st'.sharedState rest → Quiet st'.future st'.sharedState →
      st'.future = .awaiting .next k → st'.sharedState.incomingMsg = none →
      (∀ K c, (net'.nodes i).history.length ≤ K →
        work K c (net'.nodes i) st'.future st'.sharedState ≤
          work K c (net.nodes i) st.future st.sharedState) →
      Proceeded n start i net st rest fuel (some (st',.needsOneMoreMessage))
  | yielded {net' : Network St DeliveryErr M A} {st' : StateMachineImpl (PartyTask St M A) M} :
      Moved n start i net net' → st'.exhausted = false →
      Backs n i net' st'.future st'.sharedState rest → Quiet st'.future st'.sharedState →
      (∀ K c, (net'.nodes i).history.length ≤ K →
        work K c (net'.nodes i) st'.future st'.sharedState <
          work K c (net.nodes i) st.future st.sharedState) →
      Proceeded n start i net st rest fuel (some (st',.yielded))

section Proceed

variable [Build] {n i : UInt16} {start : PartyIndex → Node St DeliveryErr M A}
  {net : Network St DeliveryErr M A} {st : StateMachineImpl (PartyTask St M A) M}
  {rest : Multiset (Packet M)} {fuel : ℕ}

omit [Build] in
/-- The driver takes a message from its slot. -/
theorem Backs.proceeded_send {net' : Network St DeliveryErr M A}
    {t : ProtocolFuture (PartyTask St M A) M} {inc : Option (Incoming M)} {msg : Outgoing M}
    {rest : Multiset (Packet M)}
    (h : Backs n i net' t ⟨inc,some msg,false,true,false⟩ rest) :
    Backs n i net' t ⟨inc,none,false,false,false⟩ (sentPackets n i msg + rest) where
  shows := h.shows
  flight := by
    rw [h.flight]
    simp [slotPackets,add_assoc]
  unflushed o ho := by cases ho

theorem Backs.proceed (hi : i < n) (hex : st.exhausted = false)
    (h : Backs n i net st.future st.sharedState rest) (hq : Quiet st.future st.sharedState) :
    Proceeded n start i net st rest fuel ((partyMachine fuel).proceed st) := by
  have hfares : Fares n start i net st.future st.sharedState rest fuel _ := h.poll fuel hi hq
  simp only [partyMachine,wrapped,StateMachineImpl.proceed,hex,Bool.false_eq_true,if_false]
  generalize st.future.poll PartyTask.resume fuel st.sharedState = r at hfares
  cases hfares with
  | outOfFuel hmoved hfuel => exact .outOfFuel hmoved hfuel
  | panicked hmoved hp => exact .panics hmoved hp
  | returned hmoved hact hflight hunflushed => exact .output hmoved hact hflight hunflushed
  | pending hmoved hbacks hwaits hwork =>
    cases hwaits with
    | @send _ inc msg hrun =>
      have hpend : (⟨inc,some msg,false,true,false⟩ : SharedState M).proceedPending (O := Except Panic A) =
          .ok (⟨inc,none,false,false,false⟩,.sendMsg msg) := by
        simp [SharedState.proceedPending,SharedState.executorTakesOutgoingMsg]
      simp only [Option.map_some,hpend,Except.map,Option.bind_some,ProceedResult.checked]
      refine .sendMsg hmoved rfl hbacks.proceeded_send ⟨rfl,rfl,fun hr => by cases hr⟩
        (hbacks.unflushed _ rfl).sent fun K c hK => ?_
      have hle := (hwork K c hK).1
      simp only [work,load,Option.elim] at hle ⊢
      omega
    | recv =>
      exact .needsOneMoreMessage hmoved rfl hbacks ⟨rfl,rfl,fun _ => ⟨rfl,_,rfl⟩⟩ rfl rfl
        fun K c hK => (hwork K c hK).1
    | yields =>
      exact .yielded hmoved rfl (hbacks.congr rfl rfl) ⟨rfl,rfl,fun hr => by cases hr⟩
        fun K c hK => (hwork K c hK).2 rfl

end Proceed

end RoundBased
