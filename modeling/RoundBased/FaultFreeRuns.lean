import RoundBased.FaultFree

/-! Runs of networks in which all programs keep to a plan. Whatever the order of delivery,
every party stays as it should be. -/
namespace RoundBased
open Interaction RoundsRouter Transition

/-- A relation that holds inside each class holds between elements of one class. -/
theorem pairwise_of_filter {α β : Type} [DecidableEq β] {R : α → α → Prop} {f : α → β}
    {l : List α} (h : ∀ b, (l.filter fun a => f a = b).Pairwise R) :
    l.Pairwise fun a b => f a = f b → R a b := by
  induction l with
  | nil => exact List.Pairwise.nil
  | cons a l ih =>
    refine List.pairwise_cons.mpr ⟨fun b hb hab => ?_,ih fun c => ?_⟩
    · have ha := h (f a)
      rw [List.filter_cons_of_pos (by simp),List.pairwise_cons] at ha
      exact ha.1 b (List.mem_filter.mpr ⟨hb,by simp [hab]⟩)
    · exact (h c).sublist (((List.sublist_cons_self a l)).filter _)

variable {ι M A : Type} {St : ι → Type} [∀ k, RoundStore (St k)] {IoErr : Type}
  [ProtocolMsg M] [∀ k, RoundMsg M (RoundInfo.Msg (St k))]
  {plan : Plan St} {n p : UInt16}

/-- How the parties start: their rounds are registered, and their programs keep to the plan. -/
structure Arranged (plan : Plan St) (n : UInt16) (l0 : PartyIndex → Ledger M St)
    (prog : PartyIndex → NodeProg St IoErr M A) (start : PartyIndex → Node St IoErr M A) :
    Prop where
  idle : ∀ p, (start p).received = [] ∧ (start p).history = []
  begins : ∀ p < n, start p = Node.start (l0 p).router (prog p)
  prepared : ∀ p < n, Prepared plan n p (l0 p)
  orderly : ∀ p < n, Orderly plan n p (prog p)

/-- Among the messages that one party sends to `p`, no two are of one round. -/
theorem addressed_pairwise (hp : p < n) {sent : List (Outgoing M)}
    (h : sent.Pairwise (Disjoint n)) :
    (addressed p sent).Pairwise fun a b => round a.2 ≠ round b.2 := by
  rw [addressed,List.pairwise_map]
  refine (h.filter _).imp_of_mem fun {a b} ha hb hab he => ?_
  have hrb := (List.mem_filter.mp hb).2
  rw [hab he p hp (List.mem_filter.mp ha).2] at hrb
  cases hrb

/-- Messages sent once to each party can be read. -/
theorem readable_of_subperm {sent : PartyIndex → List (Outgoing M)} {received : List (Incoming M)}
    (hp : p < n) (hbelongs : ∀ j, ∀ o ∈ sent j, j < n ∧ Belongs plan j o.recipient.msgType o.msg)
    (hdisjoint : ∀ j, (sent j).Pairwise (Disjoint n))
    (hsub : ∀ j, ((received.filter fun msg => msg.sender = j).map fun msg =>
      (msg.msgType,msg.msg)).Subperm (addressed p (sent j))) : Readable plan n received := by
  constructor
  · intro msg hmsg
    have hmem : (msg.msgType,msg.msg) ∈ (received.filter fun m => m.sender = msg.sender).map
        fun m => (m.msgType,m.msg) :=
      List.mem_map_of_mem (f := fun m : Incoming M => (m.msgType,m.msg))
        (List.mem_filter.mpr ⟨hmsg,by simp⟩)
    obtain ⟨o,ho,he⟩ := List.mem_map.mp ((hsub msg.sender).subset hmem)
    obtain ⟨hty,hm⟩ := Prod.mk.inj he
    have hb := hbelongs msg.sender o (List.mem_filter.mp ho).1
    rwa [hty,hm] at hb
  · apply pairwise_of_filter
    intro j
    -- in whatever order they come
    obtain ⟨l,hl,hsubl⟩ := hsub j
    have hpair := (hl.pairwise_iff fun {a b} hab => Ne.symm hab).mp
      ((addressed_pairwise hp (hdisjoint j)).sublist hsubl)
    rwa [List.pairwise_map] at hpair

variable {l0 : PartyIndex → Ledger M St} {prog : PartyIndex → NodeProg St IoErr M A}
  {start : PartyIndex → Node St IoErr M A} {net net' : Network St IoErr M A}

/-- Every party is sound, and no message is lost or duplicated. -/
structure FaultFree (plan : Plan St) (n : UInt16) (l0 : PartyIndex → Ledger M St)
    (prog : PartyIndex → NodeProg St IoErr M A) (net : Network St IoErr M A) : Prop where
  accounts : ∀ p j, Accounts n net p j
  outside : ∀ p, ¬ p < n → (net.nodes p).history = []
  sound : ∀ p < n, Sound plan n p (l0 p) (prog p) (net.nodes p)

section FaultFree

theorem FaultFree.sent (h : FaultFree plan n l0 prog net) (ha : Arranged plan n l0 prog start)
    (j : PartyIndex) :
    (∀ o ∈ (net.nodes j).sent, j < n ∧ Belongs plan j o.recipient.msgType o.msg) ∧
      (net.nodes j).sent.Pairwise (Disjoint n) := by
  by_cases hj : j < n
  · have hsound := h.sound j hj
    obtain ⟨hbelongs,hdisjoint⟩ := (ha.orderly j hj).sent hsound.runs hsound.succeeds
    exact ⟨fun o ho => ⟨hj,hbelongs o ho⟩,hdisjoint⟩
  · have hnone : (net.nodes j).sent = [] := by rw [Node.sent,h.outside j hj,List.filterMap_nil]
    rw [hnone]
    exact ⟨fun o ho => (by cases ho),List.Pairwise.nil⟩

omit [ProtocolMsg M] in
theorem addressed_subset {sent sent' : List (Outgoing M)} (h : sent ⊆ sent') :
    addressed p sent ⊆ addressed p sent' := by
  intro x hx
  obtain ⟨o,ho,rfl⟩ := List.mem_map.mp hx
  obtain ⟨hsent,hreach⟩ := List.mem_filter.mp ho
  exact List.mem_map_of_mem (List.mem_filter.mpr ⟨h hsent,hreach⟩)

theorem FaultFree.addressed_of_received (h : FaultFree plan n l0 prog net) {msg : Incoming M}
    (hmsg : msg ∈ (net.nodes p).received) :
    (msg.msgType,msg.msg) ∈ addressed p (net.nodes msg.sender).sent := by
  apply (h.accounts p msg.sender).subperm.subset
  apply List.mem_append_left
  exact List.mem_map_of_mem (f := fun m : Incoming M => (m.msgType,m.msg))
    (List.mem_filter.mpr ⟨hmsg,by simp⟩)

theorem FaultFree.readable (h : FaultFree plan n l0 prog net) (ha : Arranged plan n l0 prog start)
    (hp : p < n) {more : List (Incoming M)}
    (hmore : ∀ j, ((more.filter fun msg => msg.sender = j).map fun msg =>
      (msg.msgType,msg.msg)).Subperm
        ((net.inFlight.filter fun packet => packet.recipient = p ∧ packet.sender = j).map
          fun packet => (packet.msgType,packet.msg))) :
    Readable plan n ((net.nodes p).received ++ more) := by
  refine readable_of_subperm hp (fun j => (h.sent ha j).1) (fun j => (h.sent ha j).2) fun j => ?_
  rw [List.filter_append,List.map_append]
  exact ((List.Subperm.refl _).append (hmore j)).trans (h.accounts p j).subperm

theorem FaultFree.readable_received (h : FaultFree plan n l0 prog net) (ha : Arranged plan n l0 prog start)
    (hp : p < n) : Readable plan n (net.nodes p).received := by
  have hr : Readable plan n ((net.nodes p).received ++ []) :=
    h.readable ha hp fun j => List.nil_subperm
  rwa [List.append_nil] at hr

theorem FaultFree.readable_packet (h : FaultFree plan n l0 prog net) (ha : Arranged plan n l0 prog start)
    {packet : Packet M} (hmem : packet ∈ net.inFlight) (hp : packet.recipient < n) (id : MsgId) :
    Readable plan n ((net.nodes packet.recipient).received ++ [packet.incoming id]) := by
  apply h.readable ha hp
  intro j
  by_cases hj : packet.sender = j
  · have hfly : (packet.msgType,packet.msg) ∈ (net.inFlight.filter fun x =>
        x.recipient = packet.recipient ∧ x.sender = j).map fun x => (x.msgType,x.msg) :=
      List.mem_map_of_mem (f := fun x : Packet M => (x.msgType,x.msg))
        (List.mem_filter.mpr ⟨hmem,by simp [hj]⟩)
    simpa [Packet.incoming,hj] using List.singleton_subperm_iff.mpr hfly
  · simp [Packet.incoming,hj,List.nil_subperm]

variable [TypeIds St]

/-- A party that runs its program can go on. -/
theorem FaultFree.act (h : FaultFree plan n l0 prog net) (ha : Arranged plan n l0 prog start) (hp : p < n)
    {c : Call ι M} {cont : PartyAnswer St IoErr M c → NodeProg St IoErr M A}
    (hact : (net.nodes p).activity = .running (.call c cont)) :
    ∃ node out, (net.nodes p).act = some (.ok (node,out)) ∧
      Sound plan n p (l0 p) (prog p) node :=
  (h.sound p hp).call (ha.prepared p hp) (ha.orderly p hp) (h.readable_received ha hp) hact

variable [∀ k, RefusesUnchanged M (RoundInfo.Msg (St k))]

/-- A party that waits can read any message in flight. -/
theorem FaultFree.read (h : FaultFree plan n l0 prog net) (ha : Arranged plan n l0 prog start)
    {packet : Packet M} (hmem : packet ∈ net.inFlight) (hp : packet.recipient < n) (id : MsgId)
    {k : ι} {cont : RoundResult (St k) IoErr → NodeProg St IoErr M A}
    (hact : (net.nodes packet.recipient).activity = .reading k cont) :
    ∃ node, (net.nodes packet.recipient).read (packet.incoming id) = some (.ok node) ∧
      Sound plan n packet.recipient (l0 packet.recipient) (prog packet.recipient) node :=
  (h.sound _ hp).read (ha.prepared _ hp) (ha.orderly _ hp) (h.readable_packet ha hmem hp id) hact

omit [∀ k, RefusesUnchanged M (RoundInfo.Msg (St k))] in
theorem FaultFree.init (ha : Arranged plan n l0 prog start) :
    FaultFree plan n l0 prog (network n start).init where
  accounts := accounts_init _ ha.idle
  outside p _ := (ha.idle p).2
  sound p hp := by
    show Sound plan n p (l0 p) (prog p) (start p)
    rw [ha.begins p hp]
    exact (ha.prepared p hp).sound

theorem FaultFree.step (h : FaultFree plan n l0 prog net) (ha : Arranged plan n l0 prog start)
    {e : NetworkEvent M} (hs : (network n start).step net e net') : FaultFree plan n l0 prog net' := by
  -- the party that takes the step stays sound, the others do not change
  suffices hnodes : ∃ q < n, ∃ node, net'.nodes = Function.update net.nodes q node ∧
      Sound plan n q (l0 q) (prog q) node by
    obtain ⟨q,hq,node,hnet,hsound⟩ := hnodes
    refine ⟨Accounts.step h.accounts hs,fun x hx => ?_,fun x hx => ?_⟩
    · have hne : x ≠ q := fun he => hx (he ▸ hq)
      rw [hnet,Function.update_of_ne hne]
      exact h.outside x hx
    · rw [hnet]
      by_cases hxq : x = q
      · subst hxq
        rwa [Function.update_self]
      · rw [Function.update_of_ne hxq]
        exact h.sound x hx
  cases e with
  | acts q loopback =>
    obtain ⟨hq,node,out,hact,rfl⟩ := hs
    obtain ⟨c,cont,hrun,_⟩ := Node.act_cases hact
    obtain ⟨node',out',hact',hsound⟩ := h.act ha hq hrun
    rw [hact] at hact'
    cases hact'
    exact ⟨q,hq,node,rfl,hsound⟩
  | delivers packet id =>
    obtain ⟨hq,before,after,node,hflight,hread,rfl⟩ := hs
    obtain ⟨k,cont,r,hact,_⟩ := Node.read_cases hread
    obtain ⟨node',hread',hsound⟩ := h.read ha (by rw [hflight]; simp) hq id hact
    rw [hread] at hread'
    cases hread'
    exact ⟨packet.recipient,hq,node,rfl,hsound⟩

/-- In every reachable state the network is fault-free. -/
theorem faultFree_of_reachable (ha : Arranged plan n l0 prog start)
    (h : (network n start).Reachable net) : FaultFree plan n l0 prog net :=
  h.invariant (FaultFree.init ha) fun _ _ _ hs hstep => hs.step ha hstep

end FaultFree
end RoundBased
