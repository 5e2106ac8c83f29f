import Mathlib.Data.List.Perm.Subperm
import RoundBased.Node

/-! A network that loses and duplicates nothing, but delivers in any order. A message is in
flight until its recipient reads it. -/
namespace RoundBased
open Transition

/-- A message on its way to one party. -/
structure Packet (M : Type) where
  recipient : PartyIndex
  sender : PartyIndex
  msgType : MessageType
  msg : M
  deriving DecidableEq, Repr

/-- The message as it is received, with the identifier the delivery layer chooses. -/
def Packet.incoming {M : Type} (self : Packet M) (id : MsgId) : Incoming M :=
  ⟨id,self.sender,self.msgType,self.msg⟩

def MessageDestination.msgType : MessageDestination → MessageType
  | allParties reliable => .broadcast reliable
  | oneParty _ => .p2p

/-- The message is meant for the party. -/
def MessageDestination.reaches (j : PartyIndex) : MessageDestination → Bool
  | allParties _ => true
  | oneParty recipient => recipient = j

/-- The indices below `n`. -/
def partiesOf (n : UInt16) : List PartyIndex := (List.range n.toNat).map UInt16.ofNat

theorem mem_partiesOf {n j : UInt16} : j ∈ partiesOf n ↔ j < n := by
  simp only [partiesOf,List.mem_map,List.mem_range,UInt16.lt_iff_toNat_lt]
  constructor
  · rintro ⟨x,hx,rfl⟩
    rwa [UInt16.toNat_ofNat_of_lt' (Nat.lt_trans hx n.toNat_lt)]
  · intro h
    exact ⟨j.toNat,h,UInt16.ofNat_toNat⟩

theorem lt_two {p : PartyIndex} (h : p < 2) : p = 0 ∨ p = 1 := by
  rw [UInt16.lt_iff_toNat_lt] at h
  have h2 : (2 : UInt16).toNat = 2 := rfl
  have hp : p.toNat = 0 ∨ p.toNat = 1 := by omega
  exact hp.imp (fun h => UInt16.toNat_inj.mp h) (fun h => UInt16.toNat_inj.mp h)

theorem nodup_partiesOf (n : UInt16) : (partiesOf n).Nodup := by
  refine (List.nodup_range).map_on fun x hx y hy h => ?_
  have hx' := UInt16.toNat_ofNat_of_lt' (Nat.lt_trans (List.mem_range.mp hx) n.toNat_lt)
  have hy' := UInt16.toNat_ofNat_of_lt' (Nat.lt_trans (List.mem_range.mp hy) n.toNat_lt)
  rw [← hx',h,hy']

variable {ι M A : Type} {St : ι → Type} [∀ k, RoundStore (St k)] {IoErr : Type}

/-- The packets of a message sent by party `p` of `n`. Its own copy may be looped back. -/
def packets (n p : UInt16) (loopback : Bool) (o : Outgoing M) : List (Packet M) :=
  ((partiesOf n).filter fun j => o.recipient.reaches j && (loopback || j ≠ p)).map fun j =>
    ⟨j,p,o.recipient.msgType,o.msg⟩

/-- The parties, and the messages nobody has read yet. -/
structure Network {ι : Type} (St : ι → Type) [∀ k, RoundStore (St k)] (IoErr M A : Type) where
  nodes : PartyIndex → Node St IoErr M A
  inFlight : List (Packet M)

inductive NetworkEvent (M : Type)
  | acts (p : PartyIndex) (loopback : Bool)
  | delivers (packet : Packet M) (id : MsgId)

variable [ProtocolMsg M] [∀ k, RoundMsg M (RoundInfo.Msg (St k))] [TypeIds St]

/-- A party makes a call, or it reads one of the messages in flight. -/
def network (n : UInt16) (start : PartyIndex → Node St IoErr M A) :
    System (Network St IoErr M A) (NetworkEvent M) where
  init := ⟨start,[]⟩
  step net e net' :=
    match e with
    | .acts p loopback => p < n ∧ ∃ node out, (net.nodes p).act = some (.ok (node,out)) ∧
      net' = ⟨Function.update net.nodes p node,
        net.inFlight ++ out.flatMap (packets n p loopback)⟩
    | .delivers packet id => packet.recipient < n ∧ ∃ before after node,
      net.inFlight = before ++ packet :: after ∧
      (net.nodes packet.recipient).read (packet.incoming id) = some (.ok node) ∧
      net' = ⟨Function.update net.nodes packet.recipient node,before ++ after⟩

theorem step_advances {n : UInt16} {start : PartyIndex → Node St IoErr M A}
    {net net' : Network St IoErr M A} {e : NetworkEvent M}
    (h : (network n start).step net e net') :
    ∃ q < n, ∃ node, net'.nodes = Function.update net.nodes q node ∧
      (net.nodes q).Advances node := by
  cases e with
  | acts q loopback =>
    obtain ⟨hq,node,out,hact,rfl⟩ := h
    exact ⟨q,hq,node,rfl,Node.act_advances hact⟩
  | delivers packet id =>
    obtain ⟨hq,before,after,node,_,hread,rfl⟩ := h
    exact ⟨packet.recipient,hq,node,rfl,Node.read_advances hread⟩

/-- Carries out the events, as long as they are possible. -/
def Network.exec [DecidableEq M] (n : UInt16) (net : Network St IoErr M A) :
    List (NetworkEvent M) → Option (Network St IoErr M A)
  | [] => some net
  | .acts p loopback :: es =>
    if p < n then
      match (net.nodes p).act with
      | some (.ok (node,out)) => Network.exec n ⟨Function.update net.nodes p node,
          net.inFlight ++ out.flatMap (packets n p loopback)⟩ es
      | _ => none
    else none
  | .delivers packet id :: es =>
    if packet.recipient < n ∧ packet ∈ net.inFlight then
      match (net.nodes packet.recipient).read (packet.incoming id) with
      | some (.ok node) => Network.exec n ⟨Function.update net.nodes packet.recipient node,
          net.inFlight.erase packet⟩ es
      | _ => none
    else none

theorem Network.exec_run [DecidableEq M] {n : UInt16} {start : PartyIndex → Node St IoErr M A}
    {net net' : Network St IoErr M A} {es : List (NetworkEvent M)}
    (h : net.exec n es = some net') : Run (network n start) net es net' := by
  induction es generalizing net with
  | nil => cases h; exact .refl
  | cons e es ih =>
    have hfirst : ∀ {mid}, (network n start).step net e mid → mid.exec n es = some net' →
        Run (network n start) net (e :: es) net' :=
      fun hstep hrest => (Run.snoc .refl hstep).append (ih hrest)
    cases e with
    | acts p loopback =>
      simp only [exec] at h
      split at h
      · rename_i hp
        split at h
        · rename_i node out hact
          exact hfirst ⟨hp,node,out,hact,rfl⟩ h
        · cases h
      · cases h
    | delivers packet id =>
      simp only [exec] at h
      split at h
      · rename_i hp
        obtain ⟨hp,hmem⟩ := hp
        split at h
        · rename_i node hread
          obtain ⟨before,after,_,hsplit,herase⟩ := List.exists_erase_eq hmem
          rw [herase] at h
          exact hfirst ⟨hp,before,after,node,hsplit,hread,rfl⟩ h
        · cases h
      · cases h

theorem Network.exec_reachable [DecidableEq M] {n : UInt16}
    {start : PartyIndex → Node St IoErr M A} {net net' : Network St IoErr M A}
    {es : List (NetworkEvent M)} (h : net.exec n es = some net')
    (hr : (network n start).Reachable net) : (network n start).Reachable net' := by
  obtain ⟨es0,hrun⟩ := hr
  exact ⟨es0 ++ es,hrun.append (exec_run h)⟩

/-! Every message that was sent is accounted for. -/
section Account

/-- The messages from `j` that `p` has read, and those that are in flight. -/
def Network.account (net : Network St IoErr M A) (p j : PartyIndex) : List (MessageType × M) :=
  (((net.nodes p).received.filter fun msg => msg.sender = j).map fun msg =>
    (msg.msgType,msg.msg)) ++
  ((net.inFlight.filter fun packet => packet.recipient = p ∧ packet.sender = j).map
    fun packet => (packet.msgType,packet.msg))

/-- The messages for `p` among those sent. -/
def addressed (p : PartyIndex) (sent : List (Outgoing M)) : List (MessageType × M) :=
  (sent.filter fun o => o.recipient.reaches p).map fun o => (o.recipient.msgType,o.msg)

variable {n : UInt16} {net net' : Network St IoErr M A}

omit [ProtocolMsg M] [∀ k, RoundMsg M (RoundInfo.Msg (St k))] [TypeIds St] in
theorem filter_packets (n p : UInt16) (loopback : Bool) (o : Outgoing M) (q j : PartyIndex) :
    ((packets n p loopback o).filter fun packet => packet.recipient = q ∧ packet.sender = j).map
      (fun packet => (packet.msgType,packet.msg)) =
    if p = j ∧ q < n ∧ (loopback || q ≠ p) then addressed q [o] else [] := by
  have hsplit : ((packets n p loopback o).filter fun packet =>
      packet.recipient = q ∧ packet.sender = j).map (fun packet => (packet.msgType,packet.msg)) =
      ((partiesOf n).filter fun x => (o.recipient.reaches q && (loopback || q ≠ p)) ∧ p = j ∧
        x = q).map fun _ => (o.recipient.msgType,o.msg) := by
    rw [packets,List.filter_map,List.map_map,List.filter_filter]
    congr 1
    apply List.filter_congr
    intro x _
    by_cases hx : x = q <;> by_cases hj : p = j <;> simp [hx,hj]
  rw [hsplit]
  by_cases h : p = j ∧ q < n ∧ (loopback || q ≠ p)
  · obtain ⟨rfl,hq,hl⟩ := h
    rw [if_pos ⟨rfl,hq,hl⟩]
    by_cases hr : o.recipient.reaches q = true
    · have hcount : (partiesOf n).count q = 1 :=
        List.count_eq_one_of_mem (nodup_partiesOf n) (mem_partiesOf.mpr hq)
      have hone : ((partiesOf n).filter fun x => (o.recipient.reaches q && (loopback || q ≠ p)) ∧
          p = p ∧ x = q) = [q] := by
        rw [hr,hl,← List.replicate_one,← hcount,← List.filter_beq]
        apply List.filter_congr
        intro x _
        by_cases hx : x = q <;> simp [hx]
      rw [hone]
      simp [addressed,hr]
    · simp [addressed,hr]
  · rw [if_neg h,List.map_eq_nil_iff,List.filter_eq_nil_iff]
    intro x hx hx'
    rw [decide_eq_true_eq] at hx'
    obtain ⟨hl,hj,rfl⟩ := hx'
    rw [Bool.and_eq_true] at hl
    exact h ⟨hj,mem_partiesOf.mp hx,hl.2⟩

omit [ProtocolMsg M] [∀ k, RoundMsg M (RoundInfo.Msg (St k))] [TypeIds St] in
theorem addressed_append (p : PartyIndex) (xs ys : List (Outgoing M)) :
    addressed p (xs ++ ys) = addressed p xs ++ addressed p ys := by
  simp [addressed]

omit [ProtocolMsg M] [∀ k, RoundMsg M (RoundInfo.Msg (St k))] [TypeIds St] in
/-- What is put in flight for a party is what is addressed to it. -/
theorem filter_flatMap_packets (n p : UInt16) (loopback : Bool) (out : List (Outgoing M))
    (q j : PartyIndex) :
    ((out.flatMap (packets n p loopback)).filter fun packet =>
      packet.recipient = q ∧ packet.sender = j).map
        (fun packet => (packet.msgType,packet.msg)) =
    if p = j ∧ q < n ∧ (loopback || q ≠ p) then addressed q out else [] := by
  induction out with
  | nil => simp [addressed]
  | cons o out ih =>
    rw [List.flatMap_cons,List.filter_append,List.map_append,filter_packets,ih]
    split
    · exact (addressed_append q [o] out).symm
    · rfl

/-- What `p` has read from `j` or is in flight was sent, once, and from another party
nothing is missing. -/
structure Accounts (n : UInt16) (net : Network St IoErr M A) (p j : PartyIndex) : Prop where
  subperm : (net.account p j).Subperm (addressed p (net.nodes j).sent)
  perm : p < n → p ≠ j → (net.account p j).Perm (addressed p (net.nodes j).sent)

theorem accounts_init (start : PartyIndex → Node St IoErr M A)
    (h : ∀ p, (start p).received = [] ∧ (start p).history = []) (p j : PartyIndex) :
    Accounts n (network n start).init p j := by
  have ha : (network n start).init.account p j = [] := by
    simp [Network.account,network,(h p).1]
  have hs : addressed p ((network n start).init.nodes j).sent = [] := by
    simp [addressed,network,Node.sent,(h j).2]
  refine ⟨?_,fun _ _ => ?_⟩
  · rw [ha]
    exact List.nil_subperm
  · rw [ha,hs]

omit [ProtocolMsg M] [∀ k, RoundMsg M (RoundInfo.Msg (St k))] [TypeIds St] in
theorem Accounts.congr {p j : PartyIndex} (h : Accounts n net p j)
    (ha : (net'.account p j).Perm (net.account p j))
    (hs : (net'.nodes j).sent = (net.nodes j).sent) : Accounts n net' p j := by
  refine ⟨?_,fun hp hne => ?_⟩
  · rw [hs]
    exact ha.subperm.trans h.subperm
  · rw [hs]
    exact ha.trans (h.perm hp hne)

/-- One step keeps the account. -/
theorem Accounts.step {start : PartyIndex → Node St IoErr M A} {e : NetworkEvent M}
    (h : ∀ p j, Accounts n net p j) (hs : (network n start).step net e net') (p j : PartyIndex) :
    Accounts n net' p j := by
  cases e with
  | acts q loopback =>
    obtain ⟨hq,node,out,hact,rfl⟩ := hs
    obtain ⟨hreceived,hsent⟩ := Node.act_received hact
    have hrecv : ∀ x, (Function.update net.nodes q node x).received = (net.nodes x).received := by
      intro x
      by_cases hx : x = q
      · rw [hx,Function.update_self,hreceived]
      · rw [Function.update_of_ne hx]
    have haccount : (⟨Function.update net.nodes q node,net.inFlight ++ out.flatMap
        (packets n q loopback)⟩ : Network St IoErr M A).account p j = net.account p j ++
          if q = j ∧ p < n ∧ (loopback || p ≠ q) then addressed p out else [] := by
      simp only [Network.account,hrecv,List.filter_append,List.map_append,filter_flatMap_packets,
        List.append_assoc]
    by_cases hj : j = q
    · subst hj
      have hnode : (Function.update net.nodes j node j).sent = (net.nodes j).sent ++ out := by
        rw [Function.update_self,hsent]
      refine ⟨?_,fun hp hne => ?_⟩
      · rw [haccount,hnode,addressed_append]
        refine (h p j).subperm.append ?_
        split
        · exact List.Subperm.refl _
        · exact List.nil_subperm
      · rw [haccount,hnode,addressed_append,if_pos ⟨rfl,hp,by simp [hne]⟩]
        exact ((h p j).perm hp hne).append_right _
    · rw [if_neg fun hc => hj hc.1.symm,List.append_nil] at haccount
      exact (h p j).congr (by rw [haccount]) (congrArg Node.sent (Function.update_of_ne hj ..))
  | delivers packet id =>
    obtain ⟨hq,before,after,node,hflight,hread,rfl⟩ := hs
    obtain ⟨hreceived,hsent⟩ := Node.read_received hread
    have hnode : ∀ x, (Function.update net.nodes packet.recipient node x).sent =
        (net.nodes x).sent := by
      intro x
      by_cases hx : x = packet.recipient
      · rw [hx,Function.update_self,hsent]
      · rw [Function.update_of_ne hx]
    refine (h p j).congr ?_ (hnode j)
    simp only [Network.account,hflight,List.filter_append,List.filter_cons,List.map_append]
    by_cases hp : p = packet.recipient
    · subst hp
      rw [Function.update_self,hreceived]
      by_cases hj : packet.sender = j
      · subst hj
        simp only [List.filter_append,List.map_append,Packet.incoming,List.filter_cons,
          List.filter_nil,decide_true,if_true,and_self,List.map_cons,List.map_nil,
          List.append_assoc,List.singleton_append]
        exact (List.perm_middle.symm).append_left _
      · simp [hj,Packet.incoming]
    · simp [Function.update_of_ne hp,Ne.symm hp]

end Account
end RoundBased
