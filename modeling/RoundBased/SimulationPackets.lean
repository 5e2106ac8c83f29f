import Mathlib.Algebra.BigOperators.Group.Finset.Basic
import RoundBased.PartyRuns
import RoundBased.SimulationDelivery

/-! Where the messages of the simulation are: in the slots of the parties and in their queues. -/
namespace RoundBased
open Simulation

variable {M : Type}

/-- What is summed up over the parties, when only one of them changes. -/
theorem sum_range_move {f g : ℕ → ℕ} {N pos : ℕ} (hpos : pos < N)
    (h : ∀ j < N, j ≠ pos → g j = f j) :
    ∑ j ∈ Finset.range N, g j + f pos = ∑ j ∈ Finset.range N, f j + g pos := by
  rw [← Finset.add_sum_erase _ f (Finset.mem_range.mpr hpos),
    ← Finset.add_sum_erase _ g (Finset.mem_range.mpr hpos)]
  have hrest : ∑ j ∈ (Finset.range N).erase pos, g j = ∑ j ∈ (Finset.range N).erase pos, f j := by
    refine Finset.sum_congr rfl fun j hj => ?_
    obtain ⟨hne,hmem⟩ := Finset.mem_erase.mp hj
    exact h j (Finset.mem_range.mp hmem) hne
  omega

variable {S O : Type} {n i : UInt16}

/-- The messages in the slots of a party that is not finished. -/
def Party.packets (n i : UInt16) : Option (Party (StateMachineImpl S M) O) → Multiset (Packet M)
  | some (.active st _) => slotPackets n i st.sharedState
  | _ => 0

/-- The messages in the slots and in the queue of the party at the position. -/
def Simulation.packetsAt (n : UInt16) (s : Simulation (StateMachineImpl S M) O M) (pos : ℕ) :
    Multiset (Packet M) :=
  Party.packets n (.ofNat pos) s.parties[pos]? +
    (s.messagesQueue.queue.getD pos []).map fun msg => msg.packetTo (.ofNat pos)

/-- The messages of the others, and those that are lost. -/
def Simulation.restOf (n : UInt16) (s : Simulation (StateMachineImpl S M) O M) (pos : ℕ)
    (lost : Multiset (Packet M)) : Multiset (Packet M) :=
  ∑ j ∈ (Finset.range n.toNat).erase pos, s.packetsAt n j + lost

variable {s s' : Simulation (StateMachineImpl S M) O M} {lost : Multiset (Packet M)} {pos : ℕ}

theorem Simulation.packets_eq (hpos : pos < n.toNat) :
    ∑ j ∈ Finset.range n.toNat, s.packetsAt n j + lost = s.packetsAt n pos + s.restOf n pos lost := by
  rw [restOf,← add_assoc,Finset.add_sum_erase _ _ (Finset.mem_range.mpr hpos)]

theorem Simulation.restOf_add (more : Multiset (Packet M)) :
    s.restOf n pos (more + lost) = more + s.restOf n pos lost := by
  rw [restOf,restOf,add_left_comm]

theorem Simulation.restOf_congr (h : ∀ j, j ≠ pos → s'.packetsAt n j = s.packetsAt n j) :
    s'.restOf n pos lost = s.restOf n pos lost := by
  rw [restOf,restOf,Finset.sum_congr rfl fun j hj => h j (Finset.ne_of_mem_erase hj)]

theorem ofNat_eq_iff {j : ℕ} (hj : j < n.toNat) : UInt16.ofNat j = i ↔ j = i.toNat := by
  constructor
  · rintro rfl
    rw [UInt16.toNat_ofNat_of_lt' (Nat.lt_trans hj n.toNat_lt)]
  · rintro rfl
    exact UInt16.ofNat_toNat

theorem ofNat_ne {j : ℕ} (hpos : pos < n.toNat) (hj : j < n.toNat) (hne : j ≠ pos) :
    UInt16.ofNat j ≠ .ofNat pos := by
  intro he
  rw [ofNat_eq_iff hj,UInt16.toNat_ofNat_of_lt' (Nat.lt_trans hpos n.toNat_lt)] at he
  exact hne he

/-- The packets of a message are those of the copies that the parties get. -/
theorem sentPackets_eq (n i : UInt16) (msg : Outgoing M) :
    sentPackets n i msg = ∑ j ∈ Finset.range n.toNat,
      (((copies i msg j).map fun x => ⟨.ofNat j,x.1,x.2.1,x.2.2⟩ : List (Packet M)) :
        Multiset (Packet M)) := by
  have hone : ∀ j < n.toNat, ((([UInt16.ofNat j].filter fun j => msg.recipient.reaches j &&
      (msg.recipient.isP2p || j ≠ i)).map fun j => ⟨j,i,msg.recipient.msgType,msg.msg⟩ :
        List (Packet M)) : Multiset (Packet M)) =
      ((copies i msg j).map fun x => ⟨.ofNat j,x.1,x.2.1,x.2.2⟩ : List (Packet M)) := by
    intro j hj
    obtain ⟨recipient,m⟩ := msg
    cases recipient with
    | allParties reliable =>
      by_cases hji : j = i.toNat
      · simp [copies,MessageDestination.isP2p,hji]
      · have hne : UInt16.ofNat j ≠ i := fun he => hji ((ofNat_eq_iff hj).mp he)
        simp [copies,MessageDestination.isP2p,MessageDestination.reaches,
          MessageDestination.msgType,hne,hji]
    | oneParty destination =>
      by_cases hjd : j = destination.toNat
      · simp [copies,MessageDestination.isP2p,MessageDestination.reaches,
          MessageDestination.msgType,hjd]
      · have hne : destination ≠ UInt16.ofNat j := fun he => hjd ((ofNat_eq_iff hj).mp he.symm)
        simp [copies,MessageDestination.reaches,hne,hjd]
  have hall : ∀ k ≤ n.toNat, (((((List.range k).map UInt16.ofNat).filter fun j =>
      msg.recipient.reaches j && (msg.recipient.isP2p || j ≠ i)).map fun j =>
        ⟨j,i,msg.recipient.msgType,msg.msg⟩ : List (Packet M)) : Multiset (Packet M)) =
      ∑ j ∈ Finset.range k,
        (((copies i msg j).map fun x => ⟨.ofNat j,x.1,x.2.1,x.2.2⟩ : List (Packet M)) :
          Multiset (Packet M)) := by
    intro k hk
    induction k with
    | zero => rfl
    | succ k ih =>
      rw [Finset.sum_range_succ,← ih (by omega),← hone k (by omega),Multiset.coe_add,
        List.range_succ,List.map_append,List.filter_append,List.map_append,List.map_singleton]
  exact hall n.toNat (Nat.le_refl _)

theorem card_sentPackets (n i : UInt16) (msg : Outgoing M) :
    Multiset.card (sentPackets n i msg) ≤ n.toNat := by
  rw [sentPackets,packets,Multiset.coe_card,List.length_map]
  refine (List.length_filter_le ..).trans ?_
  rw [partiesOf,List.length_map,List.length_range]

theorem sendMessage_packets [Build] {queue queue' : MessagesQueue M} {msg : Outgoing M}
    (h : queue.sendMessage i msg = .ok (queue',.ok ())) (hlen : queue.queue.length = n.toNat) :
    ∃ adds : ℕ → List (Incoming M),
      (∀ j < n.toNat, queue'.queue.getD j [] = queue.queue.getD j [] ++ adds j) ∧
      ∑ j ∈ Finset.range n.toNat,
        ((((adds j).map fun msg => msg.packetTo (.ofNat j) : List (Packet M))) :
          Multiset (Packet M)) = sentPackets n i msg ∧
      (queue.nextId.toNat + n.toNat < 2 ^ 64 →
        queue'.nextId.toNat ≤ queue.nextId.toNat + n.toNat) := by
  have hn : queue.queue.length ≤ 65535 := by
    rw [hlen]
    exact Nat.le_of_lt_succ n.toNat_lt
  obtain ⟨adds,ha⟩ := MessagesQueue.sendMessage_ok h hn
  have hadds : adds.length = n.toNat := ha.length.trans hlen
  have hcontent : ∀ j < n.toNat, (adds.getD j []).map Incoming.content = copies i msg j := by
    intro j hj
    have hlt : j < adds.length := hadds ▸ hj
    rw [List.getD_eq_getElem?_getD,List.getElem?_eq_getElem hlt]
    exact ha.content_eq j hlt
  have hpackets : ∑ j ∈ Finset.range n.toNat,
      ((((adds.getD j []).map fun msg => msg.packetTo (.ofNat j) : List (Packet M))) :
        Multiset (Packet M)) = sentPackets n i msg := by
    rw [sentPackets_eq]
    refine Finset.sum_congr rfl fun j hj => ?_
    rw [← hcontent j (Finset.mem_range.mp hj),List.map_map]
    rfl
  refine ⟨fun j => adds.getD j [],fun j hj => ?_,hpackets,fun hids => ?_⟩
  · have hlt : j < adds.length := hadds ▸ hj
    have hlt' : j < queue.queue.length := hlen ▸ hj
    simp only [ha.queues_eq,List.getD_eq_getElem?_getD,List.getElem?_zipWith,
      List.getElem?_eq_getElem hlt,List.getElem?_eq_getElem hlt']
    rfl
  · have hcount : adds.flatten.length ≤ n.toNat := by
      have hcard := congrArg Multiset.card hpackets
      rw [Multiset.card_sum] at hcard
      simp only [Multiset.coe_card,List.length_map] at hcard
      have hsum : adds.flatten.length = ∑ j ∈ Finset.range n.toNat, (adds.getD j []).length := by
        have hlen := congrArg List.length (flatMap_getD (fun m : Incoming M => m) adds)
        rw [List.length_flatMap,List.length_map,hadds] at hlen
        simp only [List.length_map] at hlen
        exact hlen.symm
      rw [hsum,hcard]
      exact card_sentPackets ..
    obtain ⟨_,hid⟩ := ha.ids (by omega)
    omega

theorem Simulation.packetsAt_of_set {q : Party (StateMachineImpl S M) O}
    (hset : s'.parties = s.parties.set pos q) (hpos : pos < s.parties.length) :
    Simulation.packetsAt n s' pos = Party.packets n (.ofNat pos) (some q) +
      (s'.messagesQueue.queue.getD pos []).map fun msg => msg.packetTo (.ofNat pos) := by
  rw [Simulation.packetsAt,hset,List.getElem?_set_self hpos]

theorem Simulation.packetsAt_of_ne {q : Party (StateMachineImpl S M) O}
    (hset : s'.parties = s.parties.set pos q)
    (hqueue : ∀ j, j ≠ pos → s'.messagesQueue.queue.getD j [] = s.messagesQueue.queue.getD j [])
    (j : ℕ) (hj : j ≠ pos) : s'.packetsAt n j = s.packetsAt n j := by
  rw [Simulation.packetsAt,Simulation.packetsAt,hset,List.getElem?_set_ne (Ne.symm hj),hqueue j hj]

/-- The flight when only one party and its queue change. -/
theorem Simulation.packets_of_set {q : Party (StateMachineImpl S M) O}
    (hset : s'.parties = s.parties.set pos q) (hlen : s.parties.length = n.toNat)
    (hpos : pos < n.toNat)
    (hqueue : ∀ j, j ≠ pos → s'.messagesQueue.queue.getD j [] = s.messagesQueue.queue.getD j [])
    {flight : Multiset (Packet M)} (hflight : flight = Party.packets n (.ofNat pos) (some q) +
      (((s'.messagesQueue.queue.getD pos []).map fun msg => msg.packetTo (.ofNat pos)) +
        s.restOf n pos lost)) :
    flight = ∑ j ∈ Finset.range n.toNat, s'.packetsAt n j + lost := by
  rw [Simulation.packets_eq hpos,Simulation.restOf_congr (packetsAt_of_ne hset hqueue),
    packetsAt_of_set hset (by rw [hlen]; exact hpos),hflight,add_assoc]

end RoundBased
