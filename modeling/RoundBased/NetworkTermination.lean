import Mathlib.Algebra.BigOperators.Group.Finset.Piecewise
import RoundBased.SimulationCompleteness

/-! A network of programs that take the rounds in turn comes to rest, in whatever order its parties
go on and its messages are delivered. -/
namespace RoundBased
open Interaction RoundsRouter Transition

variable {ι M A IoErr : Type} {St : ι → Type} [∀ k, RoundStore (St k)]

section Sums

variable {α : Type} {n p q : UInt16} {o : Outgoing M} {loopback : Bool}

theorem sum_parties_update (f : α → ℕ) (nodes : PartyIndex → α) (hp : p < n) (node : α) :
    ∑ q ∈ (partiesOf n).toFinset, f (Function.update nodes p node q) + f (nodes p) =
      ∑ q ∈ (partiesOf n).toFinset, f (nodes q) + f node := by
  have hmem : p ∈ (partiesOf n).toFinset := List.mem_toFinset.mpr (mem_partiesOf.mpr hp)
  have hupdate : ∀ q, f (Function.update nodes p node q) =
      Function.update (fun q => f (nodes q)) p (f node) q := by
    intro q
    by_cases hq : q = p
    · rw [hq,Function.update_self,Function.update_self]
    · rw [Function.update_of_ne hq,Function.update_of_ne hq]
  have hsum := Finset.sum_eq_add_sum_sdiff_singleton_of_mem hmem fun q => f (nodes q)
  rw [Finset.sum_congr rfl fun q _ => hupdate q,Finset.sum_update_of_mem hmem,hsum]
  omega

theorem card_partiesOf (n : UInt16) : (partiesOf n).toFinset.card = n.toNat := by
  rw [List.toFinset_card_of_nodup (nodup_partiesOf n),partiesOf,List.length_map,List.length_range]

theorem length_packets_le : (packets n p loopback o).length ≤ n.toNat := by
  have hle := List.length_filter_le
    (fun j => o.recipient.reaches j && (loopback || j ≠ p)) (partiesOf n)
  rw [packets,List.length_map]
  rwa [partiesOf,List.length_map,List.length_range] at hle

end Sums

/-- What is left to do for a party that makes `K` calls at most, when a call may send `n` packets. -/
def Node.remaining (K n : ℕ) (self : Node St IoErr M A) : ℕ :=
  (n + 2) * (K - self.history.length) +
    match self.activity with
    | .running _ => 1
    | .reading _ _ => 0

/-- What is left to do: the calls of the parties, and the packets to be read. -/
def Network.remaining (K : ℕ) (n : UInt16) (net : Network St IoErr M A) : ℕ :=
  ∑ p ∈ (partiesOf n).toFinset, (net.nodes p).remaining K n.toNat + net.inFlight.length

section Remaining

variable {K n : ℕ} {self node : Node St IoErr M A}

theorem Node.remaining_running {prog : NodeProg St IoErr M A} (h : self.activity = .running prog) :
    self.remaining K n = (n + 2) * (K - self.history.length) + 1 := by
  rw [remaining,h]

theorem Node.remaining_reading {k : ι} {cont : RoundResult (St k) IoErr → NodeProg St IoErr M A}
    (h : self.activity = .reading k cont) :
    self.remaining K n = (n + 2) * (K - self.history.length) := by
  rw [remaining,h]
  rfl

/-- An answer takes off enough for the packets of a message. -/
theorem Node.remaining_answered (h : node.history.length = self.history.length + 1)
    (hK : node.history.length ≤ K) : node.remaining K n + n < self.remaining K n := by
  have hnode : node.remaining K n ≤ (n + 2) * (K - node.history.length) + 1 := by
    unfold remaining
    split <;> omega
  have hself : (n + 2) * (K - self.history.length) ≤ self.remaining K n := Nat.le_add_right ..
  have hone : K - self.history.length = K - node.history.length + 1 := by omega
  rw [hone,Nat.mul_add_one] at hself
  omega

variable [∀ k, RoundMsg M (RoundInfo.Msg (St k))] [TypeIds St]

/-- The call is answered, or it is that of a round that is not completed yet. -/
theorem Node.act_remaining {out : List (Outgoing M)} (h : self.act = some (.ok (node,out)))
    (hK : node.history.length ≤ K) : node.remaining K n + out.length * n < self.remaining K n := by
  obtain ⟨c,cont,hact,hcall⟩ := act_cases h
  have hanswer : ∀ (self : Node St IoErr M A) (c : Call ι M)
      (cont : PartyAnswer St IoErr M c → NodeProg St IoErr M A) (ans : PartyAnswer St IoErr M c),
      (self.answer c cont ans).history.length = self.history.length + 1 := by
    intro self c cont ans
    rw [answer,List.length_append,List.length_singleton]
  cases c with
  | complete k =>
    simp only [call] at hcall
    cases hr : (checkCompleted self.router (⟨⟩ : Round k) :
        Checked (RoundsRouter M St × Except (Round k) (RoundResult (St k) IoErr))) with
    | error p => rw [hr] at hcall; cases hcall
    | ok r =>
      rw [hr] at hcall
      cases hcall
      obtain ⟨router,w | res⟩ := r
      · rw [remaining_running hact,remaining_reading (k := k) rfl]
        exact Nat.lt_succ_of_le (Nat.le_of_eq (by simp [settle]))
      · have hlt := remaining_answered (n := n) (hanswer _ (.complete k) cont res) hK
        exact Nat.lt_of_le_of_lt (by simp [settle]) hlt
  | send msg =>
    cases hcall
    exact Nat.lt_of_le_of_lt (by simp) (remaining_answered (hanswer ..) hK)
  | enqueue msg =>
    cases hcall
    exact Nat.lt_of_le_of_lt (by simp) (remaining_answered (hanswer ..) hK)
  | flush =>
    cases hcall
    exact Nat.lt_of_le_of_lt (by simp) (remaining_answered (hanswer ..) hK)
  | yieldNow =>
    cases hcall
    exact Nat.lt_of_le_of_lt (by simp) (remaining_answered (hanswer ..) hK)

variable [ProtocolMsg M]

theorem Node.read_remaining {incoming : Incoming M} (h : self.read incoming = some (.ok node))
    (hK : node.history.length ≤ K) : node.remaining K n ≤ self.remaining K n := by
  obtain ⟨k,cont,⟨router,w | res⟩,hact,_,rfl⟩ := read_cases h
  · rw [remaining_reading hact,remaining_reading (k := k) rfl]
    exact Nat.le_of_eq rfl
  · refine Nat.le_of_lt (Nat.lt_of_le_of_lt (Nat.le_add_right _ n) (remaining_answered ?_ hK))
    simp [settle,answer]

end Remaining

section Rest

variable [ProtocolMsg M] [∀ k, RoundMsg M (RoundInfo.Msg (St k))] [TypeIds St] {K : ℕ} {n : UInt16}
  {start : PartyIndex → Node St IoErr M A} {net net' : Network St IoErr M A}

/-- Every step takes something off, as long as no party makes more calls. -/
theorem Network.remaining_lt {e : NetworkEvent M} (hs : (network n start).step net e net')
    (hK : ∀ p < n, (net'.nodes p).history.length ≤ K) : net'.remaining K n < net.remaining K n := by
  cases e with
  | acts p loopback =>
    obtain ⟨hp,node,out,hact,rfl⟩ := hs
    have hnode := hK p hp
    simp only [Function.update_self] at hnode
    have hlt := Node.act_remaining (n := n.toNat) hact hnode
    have hsum := sum_parties_update (Node.remaining K n.toNat) net.nodes hp node
    have hpackets : (out.flatMap (packets n p loopback)).length ≤ out.length * n.toNat := by
      rw [List.length_flatMap]
      have hle := List.sum_le_card_nsmul (out.map fun o => (packets n p loopback o).length) n.toNat
        fun x hx => by
          obtain ⟨o,_,rfl⟩ := List.mem_map.mp hx
          exact length_packets_le
      rwa [List.length_map,Nat.nsmul_eq_mul] at hle
    simp only [remaining,List.length_append]
    omega
  | delivers packet id =>
    obtain ⟨hp,before,after,node,hflight,hread,rfl⟩ := hs
    have hnode := hK _ hp
    simp only [Function.update_self] at hnode
    have hle := Node.read_remaining (n := n.toNat) hread hnode
    have hsum := sum_parties_update (Node.remaining K n.toNat) net.nodes hp node
    simp only [remaining,hflight,List.length_append,List.length_cons]
    omega

variable [∀ k, RefusesUnchanged M (RoundInfo.Msg (St k))] {plan : Plan St}
  {Q : PartyIndex → A → Prop} {l0 : PartyIndex → Ledger M St} {prog : PartyIndex → NodeProg St IoErr M A}

theorem decreases_of_inTurn (ha : Arranged plan n l0 prog start)
    (hprog : ∀ p < n, InTurn plan n p (Q p) plan.kinds (prog p)) :
    (network n start).Decreases (FaultFree plan n l0 prog)
      (Network.remaining (2 * plan.kinds.length) n) where
  keeps _ _ _ h hs := h.step ha hs
  lt _ _ _ h hs := Network.remaining_lt hs fun _ hp => (h.step ha hs).history_le hprog hp

end Rest

namespace RandomGeneration

end RandomGeneration

end RoundBased
