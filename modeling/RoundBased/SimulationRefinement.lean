import RoundBased.PartyMachine
import RoundBased.ScheduleIndependence
import RoundBased.SimulationPackets
import RoundBased.SimulationTermination

/-! The synchronous simulation of parties that run programs is a run of the network: it is one of the
orders in which the messages can be delivered. -/
namespace RoundBased
open Interaction RoundsRouter Transition Simulation

variable {ι M A : Type} {St : ι → Type} [∀ k, RoundStore (St k)] [ProtocolMsg M]
  [∀ k, RoundMsg M (RoundInfo.Msg (St k))] [TypeIds St]

/-- The node stands where the state machine of the party does. -/
structure Node.StandsFor (node : Node St DeliveryErr M A)
    (st : StateMachineImpl (PartyTask St M A) M) (wantsOneMoreMsg : Bool) : Prop where
  running : st.exhausted = false
  shows : node.Shows st.future
  quiet : Quiet st.future st.sharedState
  unflushed : ∀ o, st.sharedState.outgoingMsg = some o → node.Pends st.future o
  waits : wantsOneMoreMsg = true → st.sharedState.incomingMsg = none ∧
    ∃ k, st.future = .awaiting .next k

/-- The packet is of a message that its sender has enqueued, and not flushed. -/
def Network.Unflushed (n : UInt16) (net : Network St DeliveryErr M A) (packet : Packet M) : Prop :=
  ∃ o, packet ∈ sentPackets n packet.sender o ∧ (net.nodes packet.sender).Unflushed o

/-- The network stands where the simulation does. Of the messages in flight, those are lost to the
simulation whose recipient is finished, or whose sender is and has not flushed them. -/
structure Mirrors (n : UInt16) (s : Simulation (StateMachineImpl (PartyTask St M A) M) A M)
    (net : Network St DeliveryErr M A) (lost : Multiset (Packet M)) : Prop where
  active : ∀ (pos : ℕ) st w, s.parties[pos]? = some (.active st w) →
    (net.nodes (.ofNat pos)).StandsFor st w
  finished : ∀ (pos : ℕ) out, s.parties[pos]? = some (.finished out) →
    (net.nodes (.ofNat pos)).activity = .running (.ret out)
  flight : (net.inFlight : Multiset (Packet M)) =
    ∑ pos ∈ Finset.range n.toNat, s.packetsAt n pos + lost
  lost : ∀ packet ∈ lost, (∃ out, s.parties[packet.recipient.toNat]? = some (.finished out)) ∨
    (∃ out, s.parties[packet.sender.toNat]? = some (.finished out)) ∧ net.Unflushed n packet

section Mirrors

variable {n : UInt16} {start : PartyIndex → Node St DeliveryErr M A}
  {s s' : Simulation (StateMachineImpl (PartyTask St M A) M) A M}
  {net net' : Network St DeliveryErr M A} {lost lost' : Multiset (Packet M)} {pos : ℕ}
  {st : StateMachineImpl (PartyTask St M A) M} {w : Bool}

theorem Mirrors.backs (h : Mirrors n s net lost) (hpos : pos < n.toNat)
    (hparty : s.parties[pos]? = some (.active st w)) :
    Backs n (.ofNat pos) net st.future st.sharedState
      (((s.messagesQueue.queue.getD pos []).map fun msg => msg.packetTo (.ofNat pos)) +
        s.restOf n pos lost) where
  shows := (h.active pos st w hparty).shows
  flight := by
    rw [h.flight,packets_eq hpos,Simulation.packetsAt,hparty,add_assoc]
    rfl
  unflushed := (h.active pos st w hparty).unflushed

/-- What holds of the party at the position. -/
def Node.StandsAs (node : Node St DeliveryErr M A) :
    Party (StateMachineImpl (PartyTask St M A) M) A → Prop
  | .active st w => node.StandsFor st w
  | .finished out => node.activity = .running (.ret out)

/-- One party and its node move on. -/
theorem Mirrors.move (h : Mirrors n s net lost) (hlen : s.parties.length = n.toNat)
    (hpos : pos < n.toNat) (hparty : s.parties[pos]? = some (.active st w))
    (hmoved : Moved n start (.ofNat pos) net net')
    {q : Party (StateMachineImpl (PartyTask St M A) M) A} (hset : s'.parties = s.parties.set pos q)
    (hq : (net'.nodes (.ofNat pos)).StandsAs q)
    (hflight : (net'.inFlight : Multiset (Packet M)) =
      ∑ j ∈ Finset.range n.toNat, s'.packetsAt n j + lost')
    (hlost : ∀ packet ∈ lost', packet ∈ lost ∨ (∃ out, q = .finished out) ∧
      (packet.recipient.toNat = pos ∨ packet.sender.toNat = pos ∧ net'.Unflushed n packet)) :
    Mirrors n s' net' lost' := by
  have hget : ∀ (j : ℕ) p, s'.parties[j]? = some p → (j = pos ∧ p = q) ∨
      (j ≠ pos ∧ s.parties[j]? = some p ∧ net'.nodes (.ofNat j) = net.nodes (.ofNat j)) := by
    intro j p hj
    rw [hset,List.getElem?_set] at hj
    by_cases hjpos : pos = j
    · rw [if_pos hjpos] at hj
      split at hj
      · exact .inl ⟨hjpos.symm,(Option.some.inj hj).symm⟩
      · cases hj
    · rw [if_neg hjpos] at hj
      have hlt := (List.getElem?_eq_some_iff.mp hj).1
      rw [hlen] at hlt
      exact .inr ⟨Ne.symm hjpos,hj,hmoved.others _ (ofNat_ne hpos hlt (Ne.symm hjpos))⟩
  refine ⟨fun j st' w' hj => ?_,fun j out hj => ?_,hflight,fun packet hmem => ?_⟩
  · rcases hget j _ hj with ⟨rfl,rfl⟩ | ⟨_,hold,hnode⟩
    · exact hq
    · rw [hnode]
      exact h.active j st' w' hold
  · rcases hget j _ hj with ⟨rfl,rfl⟩ | ⟨_,hold,hnode⟩
    · exact hq
    · rw [hnode]
      exact h.finished j out hold
  · -- who has finished stays so
    have hstays : ∀ (j : ℕ) out, s.parties[j]? = some (.finished out) →
        j ≠ pos ∧ s'.parties[j]? = some (.finished out) := by
      intro j out hout
      have hne : pos ≠ j := by
        rintro rfl
        rw [hparty] at hout
        cases hout
      exact ⟨Ne.symm hne,by rw [hset,List.getElem?_set_ne hne]; exact hout⟩
    rcases hlost packet hmem with hold | ⟨⟨out,rfl⟩,hnew⟩
    · rcases h.lost packet hold with ⟨out,hout⟩ | ⟨⟨out,hout⟩,o,hsent,hunflushed⟩
      · exact .inl ⟨out,(hstays _ out hout).2⟩
      · obtain ⟨hne,hout'⟩ := hstays _ out hout
        have hsender : packet.sender ≠ .ofNat pos := by
          intro he
          rw [he,UInt16.toNat_ofNat_of_lt' (Nat.lt_trans hpos n.toNat_lt)] at hne
          exact hne rfl
        exact .inr ⟨⟨out,hout'⟩,o,hsent,by rwa [hmoved.others _ hsender]⟩
    · have hself : s'.parties[pos]? = some (.finished out) := by
        rw [hset,List.getElem?_set_self (hlen ▸ hpos)]
      rcases hnew with hrecipient | ⟨hsender,hunflushed⟩
      · exact .inl ⟨out,by rw [hrecipient]; exact hself⟩
      · exact .inr ⟨⟨out,by rw [hsender]; exact hself⟩,hunflushed⟩

/-- When all parties of the simulation have finished, all nodes have, with their outputs. -/
theorem Mirrors.finished_all {outs : List A} (h : Mirrors n s net lost)
    (hlen : s.parties.length = n.toNat) (houts : s.parties = outs.map Party.finished) :
    outs.length = n.toNat ∧ ∀ p < n, ∃ out, outs[p.toNat]? = some out ∧
      (net.nodes p).activity = .running (.ret out) := by
  have hn : outs.length = n.toNat := by
    rw [← hlen,houts,List.length_map]
  refine ⟨hn,fun p hp => ?_⟩
  have hlt : p.toNat < outs.length := by
    rw [hn]
    exact UInt16.lt_iff_toNat_lt.mp hp
  have hout : outs[p.toNat]? = some outs[p.toNat] := List.getElem?_eq_getElem hlt
  have hparty : s.parties[p.toNat]? = some (.finished outs[p.toNat]) := by
    rw [houts,List.getElem?_map,hout]
    rfl
  have hact := h.finished _ _ hparty
  rw [UInt16.ofNat_toNat] at hact
  exact ⟨_,hout,hact⟩

end Mirrors

/-! How much is left to do. -/

/-- What is left to do for a party. -/
def Party.left (K c : ℕ) (node : Node St DeliveryErr M A) :
    Option (Party (StateMachineImpl (PartyTask St M A) M) A) → ℕ
  | some (.active st w) => work K c node st.future st.sharedState + if w then 1 else 2
  | _ => 0

omit [ProtocolMsg M] [∀ k, RoundMsg M (RoundInfo.Msg (St k))] [TypeIds St] in
theorem Party.left_active {K c : ℕ} {node : Node St DeliveryErr M A}
    (st : StateMachineImpl (PartyTask St M A) M) (w : Bool) :
    Party.left K c node (some (.active st w)) =
      work K c node st.future st.sharedState + if w then 1 else 2 := rfl

omit [ProtocolMsg M] [∀ k, RoundMsg M (RoundInfo.Msg (St k))] [TypeIds St] in
theorem Party.left_finished {K c : ℕ} {node : Node St DeliveryErr M A} (a : A) :
    Party.left K c node (some (.finished a)) = 0 := rfl

/-- What is left to do for parties whose programs make `K` calls at most. It includes the ids. -/
def Simulation.left (K : ℕ) (n : UInt16)
    (s : Simulation (StateMachineImpl (PartyTask St M A) M) A M)
    (net : Network St DeliveryErr M A) : ℕ :=
  ∑ pos ∈ Finset.range n.toNat,
    Party.left K (6 * n.toNat + 1) (net.nodes (.ofNat pos)) s.parties[pos]? +
  5 * ∑ pos ∈ Finset.range n.toNat, (s.messagesQueue.queue.getD pos []).length +
  s.messagesQueue.nextId.toNat

/-- A call of a party, that the network follows. -/
structure Followed (n : UInt16) (start : PartyIndex → Node St DeliveryErr M A)
    (s : Simulation (StateMachineImpl (PartyTask St M A) M) A M) (net : Network St DeliveryErr M A)
    (s' : Simulation (StateMachineImpl (PartyTask St M A) M) A M)
    (net' : Network St DeliveryErr M A) : Prop where
  moved : ∃ i < n, Moved n start i net net'
  mirrors : ∃ lost, Mirrors n s' net' lost
  descends : ∀ K, (∀ j < n, (net'.nodes j).history.length ≤ K) →
    s.messagesQueue.nextId.toNat + n.toNat < 2 ^ 64 → s'.left K n net' < s.left K n net

section Step

variable {n : UInt16} {start : PartyIndex → Node St DeliveryErr M A}
  {s s' : Simulation (StateMachineImpl (PartyTask St M A) M) A M}
  {net net' : Network St DeliveryErr M A} {lost lost' : Multiset (Packet M)} {pos : ℕ}
  {st : StateMachineImpl (PartyTask St M A) M} {w : Bool}

theorem Mirrors.congr (h : Mirrors n s net lost) (hparties : s'.parties = s.parties)
    (hqueue : s'.messagesQueue = s.messagesQueue) : Mirrors n s' net lost where
  active pos st w := by rw [hparties]; exact h.active pos st w
  finished pos out := by rw [hparties]; exact h.finished pos out
  flight := by
    simp only [packetsAt,hparties,hqueue]
    exact h.flight
  lost packet := by rw [hparties]; exact h.lost packet

omit [ProtocolMsg M] [∀ k, RoundMsg M (RoundInfo.Msg (St k))] [TypeIds St] in
theorem ofNat_lt (hpos : pos < n.toNat) : UInt16.ofNat pos < n := by
  rw [UInt16.lt_iff_toNat_lt,UInt16.toNat_ofNat_of_lt' (Nat.lt_trans hpos n.toNat_lt)]
  exact hpos

theorem parties_left_move (K c : ℕ) (hlen : s.parties.length = n.toNat) (hpos : pos < n.toNat)
    {p q : Party (StateMachineImpl (PartyTask St M A) M) A} (hparty : s.parties[pos]? = some p)
    (hmoved : Moved n start (.ofNat pos) net net') (hset : s'.parties = s.parties.set pos q) :
    ∑ j ∈ Finset.range n.toNat, Party.left K c (net'.nodes (.ofNat j)) s'.parties[j]? +
      Party.left K c (net.nodes (.ofNat pos)) (some p) =
    ∑ j ∈ Finset.range n.toNat, Party.left K c (net.nodes (.ofNat j)) s.parties[j]? +
      Party.left K c (net'.nodes (.ofNat pos)) (some q) := by
  have hmove := sum_range_move
    (f := fun j => Party.left K c (net.nodes (.ofNat j)) s.parties[j]?)
    (g := fun j => Party.left K c (net'.nodes (.ofNat j)) s'.parties[j]?) hpos
    fun j hj hne => by
      rw [hset,List.getElem?_set_ne (Ne.symm hne),hmoved.others _ (ofNat_ne hpos hj hne)]
  have hself : s'.parties[pos]? = some q := by
    rw [hset,List.getElem?_set_self (by rw [hlen]; exact hpos)]
  rwa [hself,hparty] at hmove

omit [ProtocolMsg M] in
theorem slotPackets_accept {i : UInt16} {state : SharedState M} (h : state.incomingMsg = none)
    (msg : Incoming M) : slotPackets n i { state with incomingMsg := some msg, wantsRecvMsg := false } =
      msg.packetTo i ::ₘ slotPackets n i state := by
  simp [slotPackets,h]

omit [ProtocolMsg M] in
theorem mem_slotPackets {i : UInt16} {state : SharedState M} {packet : Packet M}
    (h : packet ∈ slotPackets n i state) :
    packet.recipient = i ∨ ∃ o, state.outgoingMsg = some o ∧ packet ∈ sentPackets n i o := by
  rcases Multiset.mem_add.mp h with hin | hout
  · cases hmsg : state.incomingMsg with
    | none =>
      rw [hmsg] at hin
      cases Multiset.notMem_zero _ hin
    | some msg =>
      rw [hmsg] at hin
      rw [Multiset.mem_singleton.mp hin]
      exact .inl rfl
  · cases hmsg : state.outgoingMsg with
    | none =>
      rw [hmsg] at hout
      cases Multiset.notMem_zero _ hout
    | some o =>
      rw [hmsg] at hout
      exact .inr ⟨o,rfl,hout⟩

omit [ProtocolMsg M] in
theorem sender_of_sentPackets {i : UInt16} {o : Outgoing M} {packet : Packet M}
    (h : packet ∈ sentPackets n i o) : packet.sender = i := by
  obtain ⟨j,_,rfl⟩ := List.mem_map.mp h
  rfl

omit [ProtocolMsg M] [∀ k, RoundMsg M (RoundInfo.Msg (St k))] [TypeIds St] in
theorem work_accept {S : Type} {K c : ℕ} {node : Node St DeliveryErr M A}
    {t : ProtocolFuture S M} {state : SharedState M} (h : state.incomingMsg = none)
    (msg : Incoming M) :
    work K c node t { state with incomingMsg := some msg, wantsRecvMsg := false } =
      work K c node t state + 3 := by
  simp [work,load,h,add_assoc]

/-- A party that waits takes the first message of its queue. -/
theorem Mirrors.receives [Build] {fuel : ℕ} {queue : MessagesQueue M} {msg : Incoming M}
    {st' : StateMachineImpl (PartyTask St M A) M} {i : UInt16} (h : Mirrors n s net lost)
    (hwf : WellFormed n.toNat s) (hi : i.toNat = pos) (hpos : pos < n.toNat)
    (hparty : s.parties[pos]? = some (.active st true))
    (hq : s.messagesQueue.recvNextMsg i = .ok (queue,some msg))
    (hm : (partyMachine fuel).receivedMsg st msg = (st',.ok ()))
    (hset : s'.parties = s.parties.set pos (.active st' false)) (hqueue : s'.messagesQueue = queue) :
    Followed n start s net s' net := by
  have hmoved : Moved n start (.ofNat pos) net net := .refl
  have hnode := h.active pos st true hparty
  obtain ⟨hnone,k,hfuture⟩ := hnode.waits rfl
  obtain ⟨rest,hget,rfl⟩ := recvNextMsg_some hq
  rw [hi] at hget hqueue
  have hst' : st' = { st with sharedState := { st.sharedState with
      incomingMsg := some msg, wantsRecvMsg := false } } := by
    simp [partyMachine,StateMachineImpl.receivedMsg,SharedState.executorReceivedMsg,hnone] at hm
    exact hm.symm
  have hlt : pos < s.messagesQueue.queue.length := by
    rw [hwf.queues]
    exact hpos
  have hget' : s.messagesQueue.queue.getD pos [] = msg :: rest := by
    rw [List.getD_eq_getElem?_getD,hget]
    rfl
  have hself : s'.messagesQueue.queue.getD pos [] = rest := by
    rw [hqueue,List.getD_eq_getElem?_getD,List.getElem?_set_self hlt]
    rfl
  have hothers : ∀ j, j ≠ pos →
      s'.messagesQueue.queue.getD j [] = s.messagesQueue.queue.getD j [] := by
    intro j hj
    rw [hqueue,List.getD_eq_getElem?_getD,List.getElem?_set_ne (Ne.symm hj),
      List.getD_eq_getElem?_getD]
  subst hst'
  refine ⟨⟨_,ofNat_lt hpos,hmoved⟩,⟨lost,?_⟩,fun K _ _ => ?_⟩
  · refine h.move hwf.parties hpos hparty hmoved hset ?_ ?_ fun packet hmem => .inl hmem
    · exact ⟨hnode.running,hnode.shows,⟨hnode.quiet.send_unset,hnode.quiet.yielded_unset,
        fun hr => by cases hr⟩,hnode.unflushed,fun hf => by cases hf⟩
    · -- the message goes from the queue to the slot
      refine packets_of_set hset hwf.parties hpos hothers ?_
      have hflight := (h.backs hpos hparty).flight
      rw [hget',List.map_cons,← Multiset.cons_coe] at hflight
      rw [hself,hflight,Party.packets,slotPackets_accept hnone,Multiset.cons_add,Multiset.cons_add,
        Multiset.add_cons]
  · have hparties := parties_left_move K (6 * n.toNat + 1) hwf.parties hpos hparty hmoved hset
    have hqueues := sum_range_move (f := fun j => (s.messagesQueue.queue.getD j []).length)
      (g := fun j => (s'.messagesQueue.queue.getD j []).length) hpos
      fun j _ hne => by rw [hothers j hne]
    rw [hself,hget',List.length_cons] at hqueues
    have hid : s'.messagesQueue.nextId = s.messagesQueue.nextId := by rw [hqueue]
    rw [Party.left_active,Party.left_active,work_accept hnone] at hparties
    simp only [Bool.false_eq_true,if_true,if_false] at hparties
    simp only [Simulation.left,hid]
    omega

theorem Mirrors.proceeds {st' : StateMachineImpl (PartyTask St M A) M} {w' : Bool}
    (h : Mirrors n s net lost) (hwf : WellFormed n.toNat s) (hpos : pos < n.toNat)
    (hparty : s.parties[pos]? = some (.active st false)) (hmoved : Moved n start (.ofNat pos) net net')
    (hset : s'.parties = s.parties.set pos (.active st' w'))
    (hqueue : s'.messagesQueue = s.messagesQueue)
    (hbacks : Backs n (.ofNat pos) net' st'.future st'.sharedState
      (((s.messagesQueue.queue.getD pos []).map fun msg => msg.packetTo (.ofNat pos)) +
        s.restOf n pos lost))
    (hnode : (net'.nodes (.ofNat pos)).StandsFor st' w')
    (hwork : ∀ K c, (net'.nodes (.ofNat pos)).history.length ≤ K →
      work K c (net'.nodes (.ofNat pos)) st'.future st'.sharedState + (if w' then 1 else 2) <
        work K c (net.nodes (.ofNat pos)) st.future st.sharedState + 2) :
    Followed n start s net s' net' := by
  refine ⟨⟨_,ofNat_lt hpos,hmoved⟩,⟨lost,?_⟩,fun K hK _ => ?_⟩
  · refine h.move hwf.parties hpos hparty hmoved hset hnode ?_ fun packet hmem => .inl hmem
    refine packets_of_set hset hwf.parties hpos (fun j _ => by rw [hqueue]) ?_
    rw [hqueue]
    exact hbacks.flight
  · have hparties := parties_left_move K (6 * n.toNat + 1) hwf.parties hpos hparty hmoved hset
    have hlt := hwork K (6 * n.toNat + 1) (hK _ (ofNat_lt hpos))
    rw [Party.left_active,Party.left_active] at hparties
    simp only [Bool.false_eq_true,if_false] at hparties
    simp only [Simulation.left,hqueue]
    omega

/-- A party outputs. The messages in its slots are lost. -/
theorem Mirrors.outputs {st' : StateMachineImpl (PartyTask St M A) M} {a : A}
    (h : Mirrors n s net lost) (hwf : WellFormed n.toNat s) (hpos : pos < n.toNat)
    (hparty : s.parties[pos]? = some (.active st false)) (hmoved : Moved n start (.ofNat pos) net net')
    (hset : s'.parties = s.parties.set pos (.finished a))
    (hqueue : s'.messagesQueue = s.messagesQueue)
    (hact : (net'.nodes (.ofNat pos)).activity = .running (.ret a))
    (hflight : (net'.inFlight : Multiset (Packet M)) = slotPackets n (.ofNat pos) st'.sharedState +
      (((s.messagesQueue.queue.getD pos []).map fun msg => msg.packetTo (.ofNat pos)) +
        s.restOf n pos lost))
    (hunflushed : ∀ o, st'.sharedState.outgoingMsg = some o →
      (net'.nodes (.ofNat pos)).Unflushed o) :
    Followed n start s net s' net' := by
  have hnat : (UInt16.ofNat pos).toNat = pos :=
    UInt16.toNat_ofNat_of_lt' (Nat.lt_trans hpos n.toNat_lt)
  refine ⟨⟨_,ofNat_lt hpos,hmoved⟩,⟨slotPackets n (.ofNat pos) st'.sharedState + lost,?_⟩,
    fun K hK _ => ?_⟩
  · refine h.move hwf.parties hpos hparty hmoved hset hact ?_ fun packet hmem => ?_
    · refine packets_of_set hset hwf.parties hpos (fun j _ => by rw [hqueue]) ?_
      have hnone : Party.packets n (.ofNat pos) (some (.finished a) :
          Option (Party (StateMachineImpl (PartyTask St M A) M) A)) = 0 := rfl
      rw [hqueue,hflight,restOf_add,hnone,zero_add,add_left_comm]
    · rcases Multiset.mem_add.mp hmem with hslot | hold
      · refine .inr ⟨⟨a,rfl⟩,?_⟩
        rcases mem_slotPackets hslot with hrecipient | ⟨o,ho,hsent⟩
        · exact .inl (by rw [hrecipient,hnat])
        · have hsender := sender_of_sentPackets hsent
          rw [← hsender] at hsent
          exact .inr ⟨by rw [hsender,hnat],o,hsent,hsender ▸ hunflushed o ho⟩
      · exact .inl hold
  · have hparties := parties_left_move K (6 * n.toNat + 1) hwf.parties hpos hparty hmoved hset
    rw [Party.left_active,Party.left_finished] at hparties
    simp only [Bool.false_eq_true,if_false] at hparties
    simp only [Simulation.left,hqueue]
    omega

/-- A message that a party sends goes from its slot to the queues. -/
theorem Mirrors.sends [Build] {st' : StateMachineImpl (PartyTask St M A) M} {msg : Outgoing M}
    {queue : MessagesQueue M} (h : Mirrors n s net lost) (hwf : WellFormed n.toNat s)
    (hpos : pos < n.toNat) (hparty : s.parties[pos]? = some (.active st false))
    (hmoved : Moved n start (.ofNat pos) net net')
    (hset : s'.parties = s.parties.set pos (.active st' false))
    (hq : s.messagesQueue.sendMessage (.ofNat pos) msg = .ok (queue,.ok ()))
    (hqueue : s'.messagesQueue = queue)
    (hbacks : Backs n (.ofNat pos) net' st'.future st'.sharedState (sentPackets n (.ofNat pos) msg +
      (((s.messagesQueue.queue.getD pos []).map fun msg => msg.packetTo (.ofNat pos)) +
        s.restOf n pos lost)))
    (hnode : (net'.nodes (.ofNat pos)).StandsFor st' false)
    (hwork : ∀ K c, (net'.nodes (.ofNat pos)).history.length ≤ K →
      work K c (net'.nodes (.ofNat pos)) st'.future st'.sharedState + c ≤
        work K c (net.nodes (.ofNat pos)) st.future st.sharedState) :
    Followed n start s net s' net' := by
  obtain ⟨adds,hadds,hsent,hids⟩ := sendMessage_packets hq hwf.queues
  refine ⟨⟨_,ofNat_lt hpos,hmoved⟩,⟨lost,?_⟩,fun K hK hid => ?_⟩
  · refine h.move hwf.parties hpos hparty hmoved hset hnode ?_ fun packet hmem => .inl hmem
    -- the party is called first
    let called := { s with parties := s.parties.set pos (.active st' false) }
    have hcalled : called.parties = s.parties.set pos (.active st' false) := rfl
    have hsame : slotPackets n (.ofNat pos) st'.sharedState +
        (((s.messagesQueue.queue.getD pos []).map fun msg => msg.packetTo (.ofNat pos)) +
          s.restOf n pos lost) = ∑ j ∈ Finset.range n.toNat, called.packetsAt n j + lost :=
      packets_of_set hcalled hwf.parties hpos (fun _ _ => rfl) rfl
    have hall : ∑ j ∈ Finset.range n.toNat, s'.packetsAt n j = sentPackets n (.ofNat pos) msg +
        ∑ j ∈ Finset.range n.toNat, called.packetsAt n j := by
      rw [← hsent,← Finset.sum_add_distrib]
      refine Finset.sum_congr rfl fun j hj => ?_
      rw [packetsAt,packetsAt,hset,hqueue,hadds j (Finset.mem_range.mp hj),List.map_append,
        ← Multiset.coe_add,← add_assoc,add_comm]
    rw [hall,add_assoc,← hsame,hbacks.flight,add_left_comm]
  · have hparties := parties_left_move K (6 * n.toNat + 1) hwf.parties hpos hparty hmoved hset
    have hle := hwork K (6 * n.toNat + 1) (hK _ (ofNat_lt hpos))
    rw [Party.left_active,Party.left_active] at hparties
    have hlengths : ∑ j ∈ Finset.range n.toNat, (s'.messagesQueue.queue.getD j []).length =
        ∑ j ∈ Finset.range n.toNat, (s.messagesQueue.queue.getD j []).length +
          Multiset.card (sentPackets n (.ofNat pos) msg) := by
      rw [← hsent,Multiset.card_sum,← Finset.sum_add_distrib]
      refine Finset.sum_congr rfl fun j hj => ?_
      rw [hqueue,hadds j (Finset.mem_range.mp hj),List.length_append,Multiset.coe_card,
        List.length_map]
    have hcard := card_sentPackets n (.ofNat pos) msg
    have hnext := hids hid
    simp only [Simulation.left,hlengths]
    rw [hqueue]
    omega

theorem Mirrors.called [Build] (fuel : ℕ) (start : PartyIndex → Node St DeliveryErr M A)
    {iter : PartyIter} {i : UInt16} (h : Mirrors n s net lost) (hwf : WellFormed n.toNat s)
    (hawake : s.Awake) (hp : s.phase = .proceed iter i pos)
    (hparty : s.parties[pos]? = some (.active st w)) :
    i = .ofNat pos ∧ pos < n.toNat ∧ w = false ∧ Proceeded n start (.ofNat pos) net st
      (((s.messagesQueue.queue.getD pos []).map fun msg => msg.packetTo (.ofNat pos)) +
        s.restOf n pos lost) fuel ((partyMachine fuel).proceed st) := by
  have hplaced := hwf.placed
  rw [hp] at hplaced
  obtain ⟨rfl,hpos,_⟩ := hplaced
  have hnode := h.active _ st w hparty
  exact ⟨UInt16.ofNat_toNat.symm,hpos,hawake _ _ _ hp _ _ hparty,
    (h.backs hpos hparty).proceed (ofNat_lt hpos) hnode.running hnode.quiet⟩

/-- A step of the simulation calls no party, or the network follows it. -/
theorem Mirrors.step [Build] {fuel : ℕ} {e : Option (SimEvent A M)} (h : Mirrors n s net lost)
    (hwf : WellFormed n.toNat s) (hawake : s.Awake) (hs : Stepped (partyMachine fuel) s e s') :
    (∃ phase, Idles s phase ∧ s' = { s with phase := phase }) ∨
      ∃ net', Followed n start s net s' net' := by
  have hproceed : ∀ {iter i pos st w r}, s.phase = .proceed iter i pos →
      s.parties[pos]? = some (.active st w) → (partyMachine fuel).proceed st = r →
      i = .ofNat pos ∧ pos < n.toNat ∧ w = false ∧ Proceeded n start (.ofNat pos) net st
        (((s.messagesQueue.queue.getD pos []).map fun msg => msg.packetTo (.ofNat pos)) +
          s.restOf n pos lost) fuel r := by
    rintro iter i pos st w _ hp hparty rfl
    exact h.called fuel start hwf hawake hp hparty
  cases hs with
  | pass hp _ => exact .inl ⟨_,by rw [Idles,hp],rfl⟩
  | passOver hp hz => exact .inl ⟨_,by rw [Idles,hp]; exact .inl ⟨zip_none hz,rfl⟩,rfl⟩
  | party hp hz =>
    exact .inl ⟨_,by rw [Idles,hp]; exact .inr ⟨_,_,_,(zip_some hz).2.1,rfl⟩,rfl⟩
  | blocked hp hb => exact .inl ⟨_,by rw [Idles,hp]; exact .inl ⟨hb,rfl⟩,rfl⟩
  | resumes hp hparty => exact .inl ⟨_,by rw [Idles,hp]; exact .inr ⟨_,hparty,rfl⟩,rfl⟩
  | inactive hp hparty => exact .inl ⟨_,by rw [Idles,hp]; exact ⟨hparty,rfl⟩,rfl⟩
  | receives hp hparty hq hm =>
    have hplaced := hwf.placed
    rw [hp] at hplaced
    obtain ⟨hi,hpos,_⟩ := hplaced
    exact .inr ⟨net,h.receives hwf hi hpos hparty hq hm rfl rfl⟩
  | sends hp hparty hm hq =>
    obtain ⟨rfl,hpos,rfl,hcall⟩ := hproceed hp hparty hm
    cases hcall with
    | @sendMsg net' _ _ hmoved hex hbacks hquiet _ hwork =>
      exact .inr ⟨net',h.sends hwf hpos hparty hmoved rfl hq rfl hbacks
        ⟨hex,hbacks.shows,hquiet,hbacks.unflushed,fun hf => by cases hf⟩ hwork⟩
  | waits hp hparty hm =>
    obtain ⟨rfl,hpos,rfl,hcall⟩ := hproceed hp hparty hm
    cases hcall with
    | @needsOneMoreMessage net' _ k hmoved hex hbacks hquiet hfuture hnone hwork =>
      refine .inr ⟨net',h.proceeds hwf hpos hparty hmoved rfl rfl hbacks
        ⟨hex,hbacks.shows,hquiet,hbacks.unflushed,fun _ => ⟨hnone,k,hfuture⟩⟩ fun K c hK => ?_⟩
      have hle := hwork K c hK
      rw [if_pos rfl]
      omega
  | outputs hp hparty hm hleft =>
    obtain ⟨rfl,hpos,rfl,hcall⟩ := hproceed hp hparty hm
    cases hcall with
    | @output net' _ _ hmoved hact hflight hunflushed =>
      exact .inr ⟨net',h.outputs hwf hpos hparty hmoved rfl rfl hact hflight hunflushed⟩
  | yields hp hparty hm =>
    obtain ⟨rfl,hpos,rfl,hcall⟩ := hproceed hp hparty hm
    cases hcall with
    | @yielded net' _ hmoved hex hbacks hquiet hwork =>
      refine .inr ⟨net',h.proceeds hwf hpos hparty hmoved rfl rfl hbacks
        ⟨hex,hbacks.shows,hquiet,hbacks.unflushed,fun hf => by cases hf⟩ fun K c hK => ?_⟩
      have hlt := hwork K c hK
      simp only [Bool.false_eq_true,if_false]
      omega

end Step

/-! Runs of the simulation. -/

/-- The state machine of a party that starts as its node. -/
def Node.party (node : Node St DeliveryErr M A) : StateMachineImpl (PartyTask St M A) M :=
  wrapProtocol node.task

/-- The state machines of parties that start as these nodes. -/
def stateMachines (n : UInt16) (start : PartyIndex → Node St DeliveryErr M A) :
    List (StateMachineImpl (PartyTask St M A) M) :=
  (U16.count 0 n.toNat).map fun i => (start i).party

/-- The simulation of parties that start as these nodes. -/
def simulationOf (n : UInt16) (start : PartyIndex → Node St DeliveryErr M A) :
    Simulation (StateMachineImpl (PartyTask St M A) M) A M :=
  fromFn n fun i => (start i).party

section Runs

variable {n : UInt16} {start : PartyIndex → Node St DeliveryErr M A} {fuel : ℕ}
  {s : Simulation (StateMachineImpl (PartyTask St M A) M) A M}
  {es : List (Option (SimEvent A M))}

omit [ProtocolMsg M] [∀ k, RoundMsg M (RoundInfo.Msg (St k))] [TypeIds St] in
theorem length_stateMachines : (stateMachines n start).length = n.toNat := by
  rw [stateMachines,List.length_map,U16.length_count]

omit [ProtocolMsg M] [∀ k, RoundMsg M (RoundInfo.Msg (St k))] [TypeIds St] in
theorem simulationOf_parties (pos : ℕ) (p : Party (StateMachineImpl (PartyTask St M A) M) A)
    (h : (simulationOf n start).parties[pos]? = some p) :
    p = .active (start (.ofNat pos)).party false := by
  simp only [simulationOf,fromFn,Simulation.start,U16.count,List.getElem?_map,
    Option.map_eq_some_iff] at h
  obtain ⟨_,⟨_,⟨x,hx,rfl⟩,rfl⟩,rfl⟩ := h
  obtain ⟨_,hget⟩ := List.getElem?_eq_some_iff.mp hx
  rw [List.getElem_range',Nat.zero_add,Nat.one_mul] at hget
  rw [hget]

theorem mirrors_start : Mirrors n (simulationOf n start) (network n start).init 0 where
  active pos st w hp := by
    cases simulationOf_parties pos _ hp
    exact ⟨rfl,.running,⟨rfl,rfl,fun hr => by cases hr⟩,fun o ho => (by cases ho),
      fun hf => by cases hf⟩
  finished pos out hp := by cases simulationOf_parties pos _ hp
  flight := by
    rw [add_zero]
    refine (Finset.sum_eq_zero fun pos _ => ?_).symm
    have hqueue : (simulationOf n start).messagesQueue.queue.getD pos [] = [] := by
      simp only [simulationOf,fromFn,Simulation.start,MessagesQueue.new,List.getD_eq_getElem?_getD,
        List.getElem?_replicate]
      split <;> rfl
    rw [packetsAt,hqueue]
    cases hp : (simulationOf n start).parties[pos]? with
    | none => rfl
    | some p =>
      cases simulationOf_parties pos p hp
      rfl
  lost packet hmem := (Multiset.notMem_zero _ hmem).elim

variable [Build]

theorem run_mirrors (hrun : Run (running (partyMachine fuel) (stateMachines n start))
      (simulationOf n start) es s) :
    WellFormed n.toNat s ∧
      ∃ net lost, (network n start).Reachable net ∧ Mirrors n s net lost := by
  have hn : n.toNat ≤ 65535 := Nat.le_of_lt_succ n.toNat_lt
  have hwf : ∀ {es s}, Run (running (partyMachine fuel) (stateMachines n start))
      (simulationOf n start) es s → WellFormed n.toNat s := by
    intro es s hrun
    have hwf := (run_wellFormed (by rw [length_stateMachines]; exact hn) hrun).1
    rwa [length_stateMachines] at hwf
  refine ⟨hwf hrun,?_⟩
  apply hrun.invariant (P := fun _ s => ∃ net lost, (network n start).Reachable net ∧
    Mirrors n s net lost)
  · exact ⟨_,0,(network n start).reachable_init,mirrors_start⟩
  · rintro es s e s' hrun ⟨net,lost,hreach,hmirrors⟩ hs
    rcases hmirrors.step (hwf hrun) (run_awake hrun) (stepped_of_step hs) with
      ⟨phase,_,rfl⟩ | ⟨net',hnet⟩
    · exact ⟨net,lost,hreach,hmirrors.congr rfl rfl⟩
    · obtain ⟨i,_,hmoved⟩ := hnet.moved
      obtain ⟨lost',hmirrors'⟩ := hnet.mirrors
      exact ⟨net',lost',hmoved.reachable hreach,hmirrors'⟩

/-- The simulation is one of the runs of the network: wherever it stands the network can stand, with
the same messages in flight but for those lost to the simulation, and when it returns all parties
have finished there with the same outputs. -/
theorem refines_network (hrun : Run (running (partyMachine fuel) (stateMachines n start))
      (simulationOf n start) es s) :
    ∃ net lost, (network n start).Reachable net ∧ Mirrors n s net lost ∧
      ∀ outs, s.step (partyMachine fuel) = some (.stops (.returned (.ok outs))) →
        outs.length = n.toNat ∧ ∀ p < n, ∃ out, outs[p.toNat]? = some out ∧
          (net.nodes p).activity = .running (.ret out) := by
  obtain ⟨hwf,net,lost,hreach,hmirrors⟩ := run_mirrors hrun
  refine ⟨net,lost,hreach,hmirrors,fun outs hstop => ?_⟩
  exact hmirrors.finished_all hwf.parties (collect_ok (ok_of_stopped (stopped_of_step hstop)))

end Runs

namespace RandomGeneration

/-- Broadcasts a commitment, and returns those of the others. -/
def exchange (p : PartyIndex) :
    NodeProg (fun k : RoundKind => RoundInput k.Msg) DeliveryErr Msg (List CommitMsg) :=
  .call (.send ⟨.allParties false,announced p .round1⟩) fun _ =>
    .call (.complete .round1) fun commitments => .ret (othersMsgs commitments)

/-- Only the first round is registered. -/
def collectingFirst (p : PartyIndex) : RoundsRouter Msg fun k : RoundKind => RoundInput k.Msg :=
  ((addInputs p 2 (fun _ => .broadcast false) [.round1] .new).toOption).getD .new

def exchanging (p : PartyIndex) :
    Node (fun k : RoundKind => RoundInput k.Msg) DeliveryErr Msg (List CommitMsg) :=
  Node.start (collectingFirst p) (exchange p)

/-- The simulation of the two parties after so many steps. -/
def exchangedAfter (k : ℕ) : Simulation
    (StateMachineImpl (PartyTask (fun k : RoundKind => RoundInput k.Msg) Msg (List CommitMsg)) Msg)
    (List CommitMsg) Msg :=
  letI : Build := .debug
  (trace (partyMachine 20) k (simulationOf 2 exchanging)).2

/-- After its last step each of the two nodes has got the commitment of the other. -/
theorem refines_network_exchange :
    ∃ net lost, (network 2 exchanging).Reachable net ∧ Mirrors 2 (exchangedAfter 22) net lost ∧
      ∀ p < 2, ∃ out, [(heard 0).1,(heard 1).1][p.toNat]? = some out ∧
        (net.nodes p).activity = .running (.ret out) := by
  let _ : Build := .debug
  obtain ⟨net,lost,hreach,hmirrors,hreturns⟩ := refines_network (run_trace (partyMachine 20)
    (stateMachines 2 exchanging) 22 (simulationOf 2 exchanging))
  exact ⟨net,lost,hreach,hmirrors,(hreturns _ rfl).2⟩

end RandomGeneration

end RoundBased
