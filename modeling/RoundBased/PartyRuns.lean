import Mathlib.Algebra.Order.Group.Multiset
import RoundBased.PartyProtocol

/-! Polling a party is a run of the network: each of its futures that is ready is a step of its node,
and the messages in its slots are in flight. -/
namespace RoundBased
open Interaction RoundsRouter Transition

variable {ι M A : Type} {St : ι → Type} [∀ k, RoundStore (St k)]

/-- The message on its way to the party. -/
def Incoming.packetTo (msg : Incoming M) (i : PartyIndex) : Packet M :=
  ⟨i,msg.sender,msg.msgType,msg.msg⟩

/-- The packets of a message sent by party `i` of `n`. Only a p2p message gets back to its sender. -/
def sentPackets (n i : UInt16) (msg : Outgoing M) : Multiset (Packet M) :=
  packets n i msg.recipient.isP2p msg

/-- The messages in the slots of party `i`. -/
def slotPackets (n i : UInt16) (s : SharedState M) : Multiset (Packet M) :=
  (s.incomingMsg.elim 0 fun msg => {msg.packetTo i}) + s.outgoingMsg.elim 0 (sentPackets n i)

/-- How much a future counts for: the more, the more is left to do. -/
def ProtocolFuture.weight {S : Type} : ProtocolFuture S M → ℕ
  | .running _ => 2
  | .awaiting (.send none) _ => 3
  | .awaiting (.yieldNow ⟨false⟩) _ => 1
  | .awaiting _ _ => 0

/-- What is left to do before the next call of the program is answered. A message that waits to be
sent counts for `c`. -/
def load {S : Type} (c : ℕ) (t : ProtocolFuture S M) (s : SharedState M) : ℕ :=
  t.weight + s.outgoingMsg.elim 0 (fun _ => c) + s.incomingMsg.elim 0 fun _ => 3

/-- What is left to do for a party whose program makes `K` calls at most. -/
def work {S : Type} (K c : ℕ) (node : Node St DeliveryErr M A) (t : ProtocolFuture S M)
    (s : SharedState M) : ℕ :=
  (c + 4) * (K - node.history.length) + load c t s

section Work

variable {S : Type} {K c : ℕ} {node node' : Node St DeliveryErr M A} {t t' : ProtocolFuture S M}
  {s s' : SharedState M}

theorem work_lt (hh : node.history.length ≤ node'.history.length) (h : load c t' s' < load c t s) :
    work K c node' t' s' < work K c node t s := by
  have hmul : (c + 4) * (K - node'.history.length) ≤ (c + 4) * (K - node.history.length) :=
    Nat.mul_le_mul_left _ (by omega)
  unfold work
  omega

theorem load_le (c : ℕ) (t : ProtocolFuture S M) (s : SharedState M) : load c t s ≤ c + 6 := by
  have hweight : t.weight ≤ 3 := by
    unfold ProtocolFuture.weight
    split <;> omega
  have hout : s.outgoingMsg.elim 0 (fun _ => c) ≤ c := by cases s.outgoingMsg <;> simp
  have hinc : s.incomingMsg.elim 0 (fun _ => 3) ≤ 3 := by cases s.incomingMsg <;> simp
  unfold load
  omega

theorem work_le (K c : ℕ) (node : Node St DeliveryErr M A) (t : ProtocolFuture S M)
    (s : SharedState M) : work K c node t s ≤ (c + 4) * K + load c t s := by
  have hmul : (c + 4) * (K - node.history.length) ≤ (c + 4) * K :=
    Nat.mul_le_mul_left _ (Nat.sub_le ..)
  unfold work
  omega

theorem work_lt_of_answer (hh : node.history.length + 1 ≤ node'.history.length)
    (hK : node'.history.length ≤ K) (h : load c t' s' < load c t s + (c + 4)) :
    work K c node' t' s' < work K c node t s := by
  have hmul : (c + 4) * (K - node'.history.length + 1) ≤ (c + 4) * (K - node.history.length) :=
    Nat.mul_le_mul_left _ (by omega)
  rw [Nat.mul_add_one] at hmul
  unfold work
  omega

end Work

/-- Sending a message flushes it. -/
def Call.flushes : Call ι M → Bool
  | .send _ => true
  | .flush => true
  | .complete _ => false
  | .enqueue _ => false
  | .yieldNow => false

/-- The message was enqueued, and nothing was flushed since. -/
def Node.Unflushed (node : Node St DeliveryErr M A) (o : Outgoing M) : Prop :=
  ∃ before after, node.history = before ++ ⟨.enqueue o,.ok ()⟩ :: after ∧
    ∀ event ∈ after, event.1.flushes = false

section Unflushed

variable {node node' : Node St DeliveryErr M A} {o : Outgoing M}

theorem Node.Unflushed.mem (h : node.Unflushed o) : ⟨.enqueue o,.ok ()⟩ ∈ node.history := by
  obtain ⟨before,after,hhistory,_⟩ := h
  rw [hhistory]
  exact List.mem_append_right _ (List.mem_cons_self ..)

theorem Node.Unflushed.answer (h : node.Unflushed o) {c : Call ι M} (hc : c.flushes = false)
    (cont : PartyAnswer St DeliveryErr M c → NodeProg St DeliveryErr M A)
    (ans : PartyAnswer St DeliveryErr M c) : (node.answer c cont ans).Unflushed o := by
  obtain ⟨before,after,hhistory,hafter⟩ := h
  refine ⟨before,after ++ [⟨c,ans⟩],?_,fun event hmem => ?_⟩
  · rw [Node.answer,hhistory,List.append_assoc,List.cons_append]
  · rcases List.mem_append.mp hmem with hold | hnew
    · exact hafter event hold
    · rw [List.mem_singleton.mp hnew]
      exact hc

theorem Node.unflushed_enqueue
    (cont : Except DeliveryErr Unit → NodeProg St DeliveryErr M A) :
    (node.answer (.enqueue o) cont (.ok ())).Unflushed o :=
  ⟨node.history,[],rfl,fun _ hmem => (by cases hmem)⟩

end Unflushed

variable [ProtocolMsg M] [∀ k, RoundMsg M (RoundInfo.Msg (St k))] [TypeIds St]

/-- The next thing party `i` does panics, or it does when it reads one of the messages in flight. -/
def Network.Panics (net : Network St DeliveryErr M A) (i : PartyIndex) (p : Panic) : Prop :=
  (net.nodes i).Panics p ∨ ∃ packet ∈ net.inFlight, packet.recipient = i ∧
    ∃ id, (net.nodes i).read (packet.incoming id) = some (.error p)

/-- Some steps of party `i`. -/
structure Moved (n : UInt16) (start : PartyIndex → Node St DeliveryErr M A) (i : PartyIndex)
    (net net' : Network St DeliveryErr M A) : Prop where
  run : ∃ ls, Run (network n start) net ls net'
  others : ∀ j, j ≠ i → net'.nodes j = net.nodes j
  history : ∃ more, (net'.nodes i).history = (net.nodes i).history ++ more

section Moved

variable {n i : UInt16} {start : PartyIndex → Node St DeliveryErr M A}
  {net net' net'' : Network St DeliveryErr M A}

theorem Moved.refl : Moved n start i net net :=
  ⟨⟨[],.refl⟩,fun _ _ => rfl,[],(List.append_nil _).symm⟩

theorem Moved.trans (h : Moved n start i net net') (h' : Moved n start i net' net'') :
    Moved n start i net net'' where
  run := by
    obtain ⟨ls,hrun⟩ := h.run
    obtain ⟨ls',hrun'⟩ := h'.run
    exact ⟨ls ++ ls',hrun.append hrun'⟩
  others j hj := (h'.others j hj).trans (h.others j hj)
  history := by
    obtain ⟨more,hmore⟩ := h.history
    obtain ⟨more',hmore'⟩ := h'.history
    exact ⟨more ++ more',by rw [hmore',hmore,List.append_assoc]⟩

theorem Moved.reachable (h : Moved n start i net net') (hr : (network n start).Reachable net) :
    (network n start).Reachable net' := by
  obtain ⟨ls,hrun⟩ := hr
  obtain ⟨ls',hrun'⟩ := h.run
  exact ⟨ls ++ ls',hrun.append hrun'⟩

theorem Moved.length_le (h : Moved n start i net net') :
    (net.nodes i).history.length ≤ (net'.nodes i).history.length := by
  obtain ⟨more,hmore⟩ := h.history
  rw [hmore,List.length_append]
  exact Nat.le_add_right ..

omit [ProtocolMsg M] [∀ k, RoundMsg M (RoundInfo.Msg (St k))] [TypeIds St] in
theorem Node.Advances.history {self node : Node St DeliveryErr M A} (h : self.Advances node) :
    ∃ more, node.history = self.history ++ more := by
  cases h with
  | waits hhistory _ => exact ⟨[],by rw [hhistory,List.append_nil]⟩
  | answered ans _ hhistory _ => exact ⟨_,hhistory⟩

omit [ProtocolMsg M] [∀ k, RoundMsg M (RoundInfo.Msg (St k))] [TypeIds St] in
theorem Network.update_self (net : Network St DeliveryErr M A) (i : PartyIndex)
    (node : Node St DeliveryErr M A) (inFlight : List (Packet M)) :
    (⟨Function.update net.nodes i node,inFlight⟩ : Network St DeliveryErr M A).nodes i = node :=
  Function.update_self ..

theorem moved_of_act (hi : i < n) {node : Node St DeliveryErr M A} {out : List (Outgoing M)}
    (hact : (net.nodes i).act = some (.ok (node,out))) (loopback : Bool) :
    Moved n start i net ⟨Function.update net.nodes i node,
      net.inFlight ++ out.flatMap (packets n i loopback)⟩ where
  run := ⟨[.acts i loopback],.snoc .refl ⟨hi,node,out,hact,rfl⟩⟩
  others j hj := Function.update_of_ne hj ..
  history := by
    rw [Network.update_self]
    exact (Node.act_advances hact).history

theorem moved_of_read (hi : i < n) {node : Node St DeliveryErr M A} {msg : Incoming M}
    (hread : (net.nodes i).read msg = some (.ok node)) {before after : List (Packet M)}
    (hflight : net.inFlight = before ++ msg.packetTo i :: after) :
    Moved n start i net ⟨Function.update net.nodes i node,before ++ after⟩ where
  run := ⟨[.delivers (msg.packetTo i) msg.id],.snoc .refl ⟨hi,before,after,node,hflight,hread,rfl⟩⟩
  others j hj := Function.update_of_ne hj ..
  history := by
    rw [Network.update_self]
    exact (Node.read_advances hread).history

/-- Completing rounds without waiting changes nothing else. -/
theorem moved_of_settles (hi : i < n) {node : Node St DeliveryErr M A}
    (h : (net.nodes i).Settles node) :
    Moved n start i net ⟨Function.update net.nodes i node,net.inFlight⟩ := by
  induction h with
  | refl =>
    rw [Function.update_eq_self]
    exact .refl
  | @tail mid node _ hact ih =>
    have hmid : ((⟨Function.update net.nodes i mid,net.inFlight⟩ :
        Network St DeliveryErr M A).nodes i).act = some (.ok (node,[])) := by
      rw [Network.update_self]
      exact hact.act
    have hboth := ih.trans (moved_of_act hi hmid false)
    rwa [List.flatMap_nil,List.append_nil,Function.update_idem] at hboth

end Moved

omit [ProtocolMsg M] [∀ k, RoundMsg M (RoundInfo.Msg (St k))] [TypeIds St] in
theorem Node.Unflushed.settle {node : Node St DeliveryErr M A} {o : Outgoing M} (h : node.Unflushed o)
    (j : ι) (cont : RoundResult (St j) DeliveryErr → NodeProg St DeliveryErr M A)
    (r : RoundsRouter M St × Except (Round j) (RoundResult (St j) DeliveryErr)) :
    (node.settle j cont r).Unflushed o := by
  obtain ⟨router,w | res⟩ := r
  · exact h
  · have hrouter : ({ node with router := router } : Node St DeliveryErr M A).Unflushed o := h
    exact hrouter.answer (c := .complete j) rfl cont res

omit [ProtocolMsg M] in
theorem Node.Unflushed.settles {node node' : Node St DeliveryErr M A} {o : Outgoing M}
    (h : node.Unflushed o) (hs : node.Settles node') : node'.Unflushed o := by
  induction hs with
  | refl => exact h
  | tail _ hchecks ih =>
    obtain ⟨j,cont,r,_,_,rfl⟩ := hchecks
    exact ih.settle j cont r

/-- The party has sent the message in its slot. It still waits for the message to be flushed, unless
it only enqueued it. -/
def Node.Pends (node : Node St DeliveryErr M A) (t : ProtocolFuture (PartyTask St M A) M)
    (o : Outgoing M) : Prop :=
  ((∃ k, t = .awaiting (.send none) k) ∧ ⟨.send o,.ok ()⟩ ∈ node.history) ∨ node.Unflushed o

omit [ProtocolMsg M] [∀ k, RoundMsg M (RoundInfo.Msg (St k))] [TypeIds St] in
theorem Node.Pends.sent {node : Node St DeliveryErr M A} {t : ProtocolFuture (PartyTask St M A) M}
    {o : Outgoing M} (h : node.Pends t o) : o ∈ node.sent := by
  rcases h with ⟨_,hsend⟩ | henqueue
  · exact List.mem_filterMap.mpr ⟨_,hsend,rfl⟩
  · exact List.mem_filterMap.mpr ⟨_,henqueue.mem,rfl⟩

/-- The network stands where the party does. Of the messages in flight those that are not in its
slots are the rest. -/
structure Backs (n : UInt16) (i : PartyIndex) (net : Network St DeliveryErr M A)
    (t : ProtocolFuture (PartyTask St M A) M) (s : SharedState M) (rest : Multiset (Packet M)) :
    Prop where
  shows : (net.nodes i).Shows t
  flight : (net.inFlight : Multiset (Packet M)) = slotPackets n i s + rest
  unflushed : ∀ o, s.outgoingMsg = some o → (net.nodes i).Pends t o

/-- How the party and its node advance. -/
inductive Advanced (n : UInt16) (start : PartyIndex → Node St DeliveryErr M A) (i : PartyIndex)
    (net : Network St DeliveryErr M A) (t : ProtocolFuture (PartyTask St M A) M) (s : SharedState M)
    (rest : Multiset (Packet M)) : ProtocolFuture (PartyTask St M A) M × SharedState M ×
      Progress (Except Panic A) × List (PartyEvent M) → Prop
  | returned {net' : Network St DeliveryErr M A} {a : A} : Moved n start i net net' →
      (net'.nodes i).activity = .running (.ret a) →
      (net'.inFlight : Multiset (Packet M)) = slotPackets n i s + rest →
      (∀ o, s.outgoingMsg = some o → (net'.nodes i).Unflushed o) →
      Advanced n start i net t s rest (t,s,.returned (.ok a),[])
  | panicked {net' : Network St DeliveryErr M A} {p : Panic} : Moved n start i net net' →
      net'.Panics i p → Advanced n start i net t s rest (t,s,.returned (.error p),[])
  | goesOn {net' : Network St DeliveryErr M A} {t' : ProtocolFuture (PartyTask St M A) M}
      {s' : SharedState M} {es : List (PartyEvent M)} : Moved n start i net net' →
      Backs n i net' t' s' rest → Quiet t' s' →
      (∀ K c, (net'.nodes i).history.length ≤ K →
        work K c (net'.nodes i) t' s' < work K c (net.nodes i) t s) →
      Advanced n start i net t s rest (t',s',.goesOn,es)
  | fails {router : RoundsRouter M St} {p : Panic} {s' : SharedState M} {es : List (PartyEvent M)} :
      net.Panics i p → (∀ K c, 0 < work K c (net.nodes i) t s) →
      Advanced n start i net t s rest (.running ⟨router,.running (.throw p)⟩,s',.goesOn,es)
  | pending {net' : Network St DeliveryErr M A} {t' : ProtocolFuture (PartyTask St M A) M}
      {s' : SharedState M} {es : List (PartyEvent M)} : Moved n start i net net' →
      Backs n i net' t' s' rest → Waits t' s' →
      (∀ K c, (net'.nodes i).history.length ≤ K →
        work K c (net'.nodes i) t' s' ≤ work K c (net.nodes i) t s ∧
        (s'.yielded = true → work K c (net'.nodes i) t' s' < work K c (net.nodes i) t s)) →
      Advanced n start i net t s rest (t',s',.pending,es)

section Advance

variable {n i : UInt16} {start : PartyIndex → Node St DeliveryErr M A}
  {net : Network St DeliveryErr M A} {t : ProtocolFuture (PartyTask St M A) M}
  {s s' : SharedState M} {rest : Multiset (Packet M)} {inc : Option (Incoming M)}
  {msg : Outgoing M} {future : PartyFuture M} {k : Reply M → PartyTask St M A}

theorem Backs.congr (h : Backs n i net t s rest) (hi : s'.incomingMsg = s.incomingMsg)
    (ho : s'.outgoingMsg = s.outgoingMsg) : Backs n i net t s' rest where
  shows := h.shows
  flight := by rw [slotPackets,hi,ho]; exact h.flight
  unflushed o := by rw [ho]; exact h.unflushed o

theorem Backs.enqueued (h : Backs n i net t s rest)
    (ht : ∀ k, t ≠ .awaiting (.send none) k) {o : Outgoing M} (ho : s.outgoingMsg = some o) :
    (net.nodes i).Unflushed o :=
  (h.unflushed o ho).resolve_left fun hsend => hsend.1.elim ht

/-- The protocol makes its next call, or it ends. -/
theorem Backs.running {x : PartyTask St M A} (hi : i < n) (h : Backs n i net (.running x) s rest)
    (hq : Quiet (.running x) s) : Advanced n start i net (.running x) s rest
      ((ProtocolFuture.running x).advance PartyTask.resume s) := by
  have hx : x = (net.nodes i).task := by
    cases h.shows
    rfl
  subst hx
  have hresumes := resumes_resume (net.nodes i)
  have henqueued : ∀ {node o}, (net.nodes i).Settles node → s.outgoingMsg = some o →
      ((⟨Function.update net.nodes i node,net.inFlight⟩ : Network St DeliveryErr M A).nodes
        i).Unflushed o := by
    intro node o hsettles ho
    rw [Network.update_self]
    exact (h.enqueued (fun k hk => by cases hk) ho).settles hsettles
  simp only [ProtocolFuture.advance]
  generalize (net.nodes i).task.resume = r at hresumes
  cases hresumes with
  | returns hsettles hact =>
    have hmoved : Moved n start i net _ := moved_of_settles hi hsettles
    refine .returned hmoved ?_ h.flight fun o ho => henqueued hsettles ho
    rwa [Network.update_self]
  | panics hsettles hp =>
    refine .panicked (moved_of_settles hi hsettles) (.inl ?_)
    rwa [Network.update_self]
  | @calls node c k hsettles hmakes =>
    have hmoved : Moved n start i net _ := moved_of_settles hi hsettles
    refine .goesOn hmoved ⟨?_,h.flight,fun o ho => .inr (henqueued hsettles ho)⟩
      ⟨hq.send_unset,hq.yielded_unset,fun hr => ?_⟩ fun K c' _ => ?_
    · rw [Network.update_self]
      exact .awaiting hmakes
    · obtain ⟨_,_,hk⟩ := hq.recv hr
      cases hk
    · refine work_lt hmoved.length_le ?_
      have hweight : (ProtocolFuture.awaiting c.future k).weight < 2 := by
        cases c <;> simp [PartyCall.future,ProtocolFuture.weight]
      simp only [load,ProtocolFuture.weight] at hweight ⊢
      omega

theorem Backs.full (h : Backs n i net (.awaiting future k) ⟨inc,some msg,false,false,false⟩ rest) :
    Advanced n start i net (.awaiting future k) ⟨inc,some msg,false,false,false⟩ rest
      (.awaiting future k,⟨inc,some msg,false,true,false⟩,.pending,[]) :=
  .pending .refl (h.congr rfl rfl) (.send fun x hx => by cases hx)
    fun _ _ _ => ⟨Nat.le_refl _,fun hy => by cases hy⟩

section Answer

variable {c : Call ι M} {cont : PartyAnswer St DeliveryErr M c → NodeProg St DeliveryErr M A}
  {ans : PartyAnswer St DeliveryErr M c} {out : List (Outgoing M)}
  {t' : ProtocolFuture (PartyTask St M A) M} {loopback : Bool} {es : List (PartyEvent M)}

variable (start) in
theorem Backs.answer (hi : i < n) (h : Backs n i net t s rest)
    (hact : (net.nodes i).act = some (.ok ((net.nodes i).answer c cont ans,out)))
    (hshows : ((net.nodes i).answer c cont ans).Shows t')
    (hslots : slotPackets n i s' = slotPackets n i s + out.flatMap (packets n i loopback))
    (hunflushed : ∀ o, s'.outgoingMsg = some o → ((net.nodes i).answer c cont ans).Pends t' o)
    (hload : ∀ c', load c' t' s' < load c' t s + (c' + 4)) :
    ∃ net', Moved n start i net net' ∧ Backs n i net' t' s' rest ∧
      ∀ K c', (net'.nodes i).history.length ≤ K →
        work K c' (net'.nodes i) t' s' < work K c' (net.nodes i) t s := by
  refine ⟨_,moved_of_act hi hact loopback,⟨?_,?_,?_⟩,fun K c' hK => ?_⟩
  · rwa [Network.update_self]
  · rw [← Multiset.coe_add,h.flight,hslots,add_right_comm]
  · rwa [Network.update_self]
  · rw [Network.update_self] at hK ⊢
    refine work_lt_of_answer ?_ hK (hload c')
    simp [Node.answer]

theorem Backs.answer_goesOn (hi : i < n) (h : Backs n i net t s rest)
    (hact : (net.nodes i).act = some (.ok ((net.nodes i).answer c cont ans,out)))
    (hshows : ((net.nodes i).answer c cont ans).Shows t')
    (hslots : slotPackets n i s' = slotPackets n i s + out.flatMap (packets n i loopback))
    (hunflushed : ∀ o, s'.outgoingMsg = some o → ((net.nodes i).answer c cont ans).Pends t' o)
    (hload : ∀ c', load c' t' s' < load c' t s + (c' + 4)) (hq : Quiet t' s') :
    Advanced n start i net t s rest (t',s',.goesOn,es) := by
  obtain ⟨net',hmoved,hbacks,hwork⟩ := h.answer start hi hact hshows hslots hunflushed hload
  exact .goesOn hmoved hbacks hq hwork

end Answer

omit [ProtocolMsg M] in
theorem slotPackets_send {r w y r' w' y' loopback : Bool} (hl : loopback = msg.recipient.isP2p) :
    slotPackets n i ⟨inc,some msg,r,w,y⟩ =
      slotPackets n i ⟨inc,none,r',w',y'⟩ + [msg].flatMap (packets n i loopback) := by
  subst hl
  simp [slotPackets,sentPackets]

omit [ProtocolMsg M] in
theorem slotPackets_silent (loopback : Bool) : slotPackets n i s =
    slotPackets n i s + ([] : List (Outgoing M)).flatMap (packets n i loopback) :=
  (add_zero _).symm

/-- The message to be sent is put into the empty slot, and its flush waits. -/
theorem Backs.send (hi : i < n)
    (h : Backs n i net (.awaiting (.send (some msg)) k) ⟨inc,none,false,false,false⟩ rest) :
    Advanced n start i net (.awaiting (.send (some msg)) k) ⟨inc,none,false,false,false⟩ rest
      (.awaiting (.send none) k,⟨inc,some msg,false,true,false⟩,.pending,[.fed msg]) := by
  have hmakes : (net.nodes i).Makes (.send msg) k := h.shows.makes
  cases hmakes with
  | @send _ cont hact =>
    have hcall : (net.nodes i).act =
        some (.ok ((net.nodes i).answer (.send msg) cont (.ok ()),[msg])) := by
      rw [Node.act,hact]
      rfl
    have hslots : slotPackets n i ⟨inc,some msg,false,true,false⟩ =
        slotPackets n i ⟨inc,none,false,false,false⟩ +
          [msg].flatMap (packets n i msg.recipient.isP2p) := slotPackets_send rfl
    have hshows : ((net.nodes i).answer (.send msg) cont (.ok ())).Shows (.awaiting (.send none)
        fun reply => ⟨(net.nodes i).router,.running (cont reply.result)⟩) := .flushing rfl
    obtain ⟨net',hmoved,hbacks,hwork⟩ := h.answer start hi hcall hshows hslots
      (fun o ho => .inl ⟨⟨_,rfl⟩,by cases ho; simp [Node.answer]⟩) fun c' => by
        simp only [load,ProtocolFuture.weight,Option.elim]
        omega
    exact .pending hmoved hbacks (.send fun x hx => by cases hx)
      fun K c hK => ⟨Nat.le_of_lt (hwork K c hK),fun _ => hwork K c hK⟩

theorem Backs.feed (hi : i < n)
    (h : Backs n i net (.awaiting (.feed msg) k) ⟨inc,none,false,false,false⟩ rest) :
    Advanced n start i net (.awaiting (.feed msg) k) ⟨inc,none,false,false,false⟩ rest
      (.running (k (.sent (.ok ()))),⟨inc,some msg,false,false,false⟩,.goesOn,[.fed msg]) := by
  have hmakes : (net.nodes i).Makes (.feed msg) k := h.shows.makes
  cases hmakes with
  | @feed _ cont hact =>
    have hcall : (net.nodes i).act =
        some (.ok ((net.nodes i).answer (.enqueue msg) cont (.ok ()),[msg])) := by
      rw [Node.act,hact]
      rfl
    refine h.answer_goesOn hi hcall .running (slotPackets_send rfl) (fun o ho => ?_) (fun c' => ?_)
      ⟨rfl,rfl,fun hr => by cases hr⟩
    · cases ho
      exact .inr (Node.unflushed_enqueue cont)
    · simp only [load,ProtocolFuture.weight,Option.elim]
      omega

theorem Backs.flush (hi : i < n)
    (h : Backs n i net (.awaiting .flush k) ⟨inc,none,false,false,false⟩ rest) :
    Advanced n start i net (.awaiting .flush k) ⟨inc,none,false,false,false⟩ rest
      (.running (k (.sent (.ok ()))),⟨inc,none,false,false,false⟩,.goesOn,[.flushed]) := by
  have hmakes : (net.nodes i).Makes .flush k := h.shows.makes
  cases hmakes with
  | @flush cont hact =>
    have hcall : (net.nodes i).act =
        some (.ok ((net.nodes i).answer .flush cont (.ok ()),[])) := by
      rw [Node.act,hact]
      rfl
    refine h.answer_goesOn hi hcall .running (slotPackets_silent false)
      (fun o ho => by cases ho) (fun c' => ?_) ⟨rfl,rfl,fun hr => by cases hr⟩
    simp only [load,ProtocolFuture.weight,Option.elim]
    omega

theorem Backs.sent (h : Backs n i net (.awaiting (.send none) k) ⟨inc,none,false,false,false⟩ rest) :
    Advanced n start i net (.awaiting (.send none) k) ⟨inc,none,false,false,false⟩ rest
      (.running (k (.sent (.ok ()))),⟨inc,none,false,false,false⟩,.goesOn,[.flushed]) := by
  have htask : k (.sent (.ok ())) = (net.nodes i).task := by
    generalize ht : ProtocolFuture.awaiting (.send none) k = t at h
    cases h.shows with
    | running => cases ht
    | @awaiting c _ _ =>
      injection ht with hc
      cases c <;> cases hc
    | flushing hk =>
      cases ht
      exact hk
    | yielded => cases ht
  refine .goesOn .refl ⟨?_,h.flight,fun o ho => by cases ho⟩ ⟨rfl,rfl,fun hr => by cases hr⟩
    fun K c _ => work_lt (Nat.le_refl _) (by simp [load,ProtocolFuture.weight])
  rw [htask]
  exact .running

theorem Backs.yields {out : Option (Outgoing M)}
    (h : Backs n i net (.awaiting (.yieldNow ⟨false⟩) k) ⟨inc,out,false,false,false⟩ rest) :
    Advanced n start i net (.awaiting (.yieldNow ⟨false⟩) k) ⟨inc,out,false,false,false⟩ rest
      (.awaiting (.yieldNow ⟨true⟩) k,⟨inc,out,false,false,true⟩,.pending,[.yields]) := by
  have hmakes : (net.nodes i).Makes .yieldNow k := h.shows.makes
  have hwork : ∀ K c, work K c (net.nodes i) (.awaiting (.yieldNow ⟨true⟩) k)
      ⟨inc,out,false,false,true⟩ < work K c (net.nodes i) (.awaiting (.yieldNow ⟨false⟩) k)
        ⟨inc,out,false,false,false⟩ := fun K c =>
    work_lt (Nat.le_refl _) (by simp only [load,ProtocolFuture.weight]; omega)
  refine .pending .refl ⟨.yielded hmakes,h.flight,fun o ho => .inr ?_⟩ .yields
    fun K c _ => ⟨Nat.le_of_lt (hwork K c),fun _ => hwork K c⟩
  exact h.enqueued (fun k hk => by cases hk) ho

theorem Backs.resumed {out : Option (Outgoing M)} (hi : i < n)
    (h : Backs n i net (.awaiting (.yieldNow ⟨true⟩) k) ⟨inc,out,false,false,false⟩ rest) :
    Advanced n start i net (.awaiting (.yieldNow ⟨true⟩) k) ⟨inc,out,false,false,false⟩ rest
      (.running (k .resumed),⟨inc,out,false,false,false⟩,.goesOn,[.resumed]) := by
  have hmakes : (net.nodes i).Makes .yieldNow k := by
    generalize ht : ProtocolFuture.awaiting (.yieldNow ⟨true⟩) k = t at h
    cases h.shows with
    | running => cases ht
    | @awaiting c _ _ =>
      injection ht with hc
      cases c <;> cases hc
    | flushing => cases ht
    | yielded hmakes =>
      cases ht
      exact hmakes
  cases hmakes with
  | @yieldNow cont hact =>
    have hcall : (net.nodes i).act = some (.ok ((net.nodes i).answer .yieldNow cont (),[])) := by
      rw [Node.act,hact]
      rfl
    refine h.answer_goesOn hi hcall .running (slotPackets_silent false) (fun o ho => .inr ?_)
      (fun c' => ?_) ⟨rfl,rfl,fun hr => by cases hr⟩
    · exact (h.enqueued (fun k hk => by cases hk) ho).answer (c := .yieldNow) rfl cont ()
    · simp only [load,ProtocolFuture.weight]
      omega

theorem Node.read_of_reading {self : Node St DeliveryErr M A} {j : ι}
    {cont : RoundResult (St j) DeliveryErr → NodeProg St DeliveryErr M A}
    (h : self.activity = .reading j cont) (incoming : Incoming M) :
    self.read incoming = some ((completeTurn self.router (⟨⟩ : Round j) (.ok incoming)).map fun r =>
      ({ self with received := self.received ++ [incoming] }).settle j cont r) := by
  unfold Node.read
  rw [h]

theorem Backs.next {out : Option (Outgoing M)} {incoming : Incoming M} (hi : i < n)
    (h : Backs n i net (.awaiting .next k) ⟨some incoming,out,false,false,false⟩ rest) :
    Advanced n start i net (.awaiting .next k) ⟨some incoming,out,false,false,false⟩ rest
      (.running (k (.received (some (.ok incoming)))),⟨none,out,false,false,false⟩,.goesOn,
        [.handed incoming]) := by
  have hmakes : (net.nodes i).Makes .next k := h.shows.makes
  cases hmakes with
  | @next j cont hact =>
    have hslots : slotPackets n i ⟨some incoming,out,false,false,false⟩ =
        incoming.packetTo i ::ₘ slotPackets n i ⟨none,out,false,false,false⟩ := by
      simp [slotPackets]
    have hflight := h.flight
    rw [hslots,Multiset.cons_add] at hflight
    have hmem : incoming.packetTo i ∈ net.inFlight := by
      rw [← Multiset.mem_coe,hflight]
      exact Multiset.mem_cons_self ..
    have hread := Node.read_of_reading hact incoming
    simp only [Reply.item,PartyTask.turn]
    cases hturn : (completeTurn (net.nodes i).router (⟨⟩ : Round j) (.ok incoming) : Checked
        (RoundsRouter M St × Except (Round j) (RoundResult (St j) DeliveryErr))) with
    | error p =>
      rw [hturn] at hread
      refine .fails (.inr ⟨_,hmem,rfl,incoming.id,hread⟩) fun K c => ?_
      simp only [work,load,Option.elim]
      omega
    | ok r =>
      rw [hturn] at hread
      obtain ⟨before,after,hsplit⟩ := List.append_of_mem hmem
      have hmoved : Moved n start i net _ := moved_of_read hi hread hsplit
      rw [hsplit,← Multiset.coe_add,← Multiset.cons_coe,Multiset.add_cons,
        Multiset.cons_inj_right,Multiset.coe_add] at hflight
      -- whether the round is completed or not
      have hgoesOn : ∀ x : PartyTask St M A,
          x = (({ net.nodes i with
            received := (net.nodes i).received ++ [incoming] } : Node St DeliveryErr M A).settle
              j cont r).task →
          Advanced n start i net (.awaiting .next fun reply : Reply M =>
              PartyTask.turn (net.nodes i).router j cont reply.item)
            ⟨some incoming,out,false,false,false⟩ rest
            (.running x,⟨none,out,false,false,false⟩,.goesOn,[.handed incoming]) := by
        rintro x rfl
        refine .goesOn hmoved ⟨?_,hflight,fun o ho => .inr ?_⟩ ⟨rfl,rfl,fun hr => by cases hr⟩
          fun K c _ => work_lt hmoved.length_le ?_
        · rw [Network.update_self]
          exact .running
        · have hread' : ({ net.nodes i with
              received := (net.nodes i).received ++ [incoming] } : Node St DeliveryErr M A).Unflushed
                o := h.enqueued (fun k hk => by cases hk) ho
          rw [Network.update_self]
          exact hread'.settle j cont r
        · simp only [load,ProtocolFuture.weight,Option.elim]
          omega
      obtain ⟨router,w | res⟩ := r
      · exact hgoesOn _ rfl
      · exact hgoesOn _ rfl

theorem Backs.starved {out : Option (Outgoing M)} {r : Bool}
    (h : Backs n i net (.awaiting .next k) ⟨none,out,r,false,false⟩ rest) :
    Advanced n start i net (.awaiting .next k) ⟨none,out,r,false,false⟩ rest
      (.awaiting .next k,⟨none,out,true,false,false⟩,.pending,[]) :=
  .pending .refl (h.congr rfl rfl) .recv fun _ _ _ => ⟨Nat.le_refl _,fun hy => by cases hy⟩

/-- All the ways to advance, by cases on the future and on the slots. -/
theorem Backs.advance (hi : i < n) (h : Backs n i net t s rest) (hq : Quiet t s) :
    Advanced n start i net t s rest (t.advance PartyTask.resume s) := by
  cases t with
  | running x => exact h.running hi hq
  | awaiting future k =>
    obtain ⟨inc,out,r,w,y⟩ := s
    obtain ⟨hw,hy,hr⟩ := hq
    dsimp only at hw hy hr
    subst hw hy
    cases r with
    | true =>
      obtain ⟨rfl,k',hk⟩ := hr rfl
      cases hk
      exact h.starved
    | false =>
      cases future with
      | send item =>
        cases out with
        | some o => cases item <;> exact h.full
        | none =>
          cases item with
          | none => exact h.sent
          | some msg => exact h.send hi
      | feed msg =>
        cases out with
        | some o => exact h.full
        | none => exact h.feed hi
      | flush =>
        cases out with
        | some o => exact h.full
        | none => exact h.flush hi
      | next =>
        cases inc with
        | some incoming => exact h.next hi
        | none => exact h.starved
      | yieldNow future =>
        obtain ⟨yielded⟩ := future
        cases yielded with
        | false => exact h.yields
        | true => exact h.resumed hi

end Advance

/-- How the party and its node fare in a poll. -/
inductive Fares (n : UInt16) (start : PartyIndex → Node St DeliveryErr M A) (i : PartyIndex)
    (net : Network St DeliveryErr M A) (t : ProtocolFuture (PartyTask St M A) M) (s : SharedState M)
    (rest : Multiset (Packet M)) (fuel : ℕ) : Option (ProtocolFuture (PartyTask St M A) M ×
      SharedState M × Poll (Except Panic A) × List (PartyEvent M)) → Prop
  | outOfFuel {net' : Network St DeliveryErr M A} : Moved n start i net net' →
      (∀ K c, (net'.nodes i).history.length ≤ K → fuel ≤ work K c (net.nodes i) t s) →
      Fares n start i net t s rest fuel none
  | returned {net' : Network St DeliveryErr M A} {t' : ProtocolFuture (PartyTask St M A) M}
      {s' : SharedState M} {es : List (PartyEvent M)} {a : A} : Moved n start i net net' →
      (net'.nodes i).activity = .running (.ret a) →
      (net'.inFlight : Multiset (Packet M)) = slotPackets n i s' + rest →
      (∀ o, s'.outgoingMsg = some o → (net'.nodes i).Unflushed o) →
      Fares n start i net t s rest fuel (some (t',s',.ready (.ok a),es))
  | panicked {net' : Network St DeliveryErr M A} {t' : ProtocolFuture (PartyTask St M A) M}
      {s' : SharedState M} {es : List (PartyEvent M)} {p : Panic} : Moved n start i net net' →
      net'.Panics i p → Fares n start i net t s rest fuel (some (t',s',.ready (.error p),es))
  | pending {net' : Network St DeliveryErr M A} {t' : ProtocolFuture (PartyTask St M A) M}
      {s' : SharedState M} {es : List (PartyEvent M)} : Moved n start i net net' →
      Backs n i net' t' s' rest → Waits t' s' →
      (∀ K c, (net'.nodes i).history.length ≤ K →
        work K c (net'.nodes i) t' s' ≤ work K c (net.nodes i) t s ∧
        (s'.yielded = true → work K c (net'.nodes i) t' s' < work K c (net.nodes i) t s)) →
      Fares n start i net t s rest fuel (some (t',s',.pending,es))

section Poll

variable {n i : UInt16} {start : PartyIndex → Node St DeliveryErr M A}
  {net net' : Network St DeliveryErr M A} {t t' : ProtocolFuture (PartyTask St M A) M}
  {s s' : SharedState M} {rest : Multiset (Packet M)} {fuel : ℕ}

theorem Fares.after {r : Option (ProtocolFuture (PartyTask St M A) M × SharedState M ×
      Poll (Except Panic A) × List (PartyEvent M))} (hmoved : Moved n start i net net')
    (hwork : ∀ K c, (net'.nodes i).history.length ≤ K →
      work K c (net'.nodes i) t' s' < work K c (net.nodes i) t s)
    (h : Fares n start i net' t' s' rest fuel r) (es : List (PartyEvent M)) :
    Fares n start i net t s rest (fuel + 1)
      (r.map fun r => (r.1,r.2.1,r.2.2.1,es ++ r.2.2.2)) := by
  cases h with
  | outOfFuel hmoved' hfuel =>
    refine .outOfFuel (hmoved.trans hmoved') fun K c hK => ?_
    have hlt := hwork K c (hmoved'.length_le.trans hK)
    have hle := hfuel K c hK
    omega
  | returned hmoved' hact hflight hunflushed =>
    exact .returned (hmoved.trans hmoved') hact hflight hunflushed
  | panicked hmoved' hp => exact .panicked (hmoved.trans hmoved') hp
  | pending hmoved' hbacks hwaits hwork' =>
    refine .pending (hmoved.trans hmoved') hbacks hwaits fun K c hK => ?_
    have hlt := hwork K c (hmoved'.length_le.trans hK)
    have hless := Nat.lt_of_le_of_lt (hwork' K c hK).1 hlt
    exact ⟨Nat.le_of_lt hless,fun _ => hless⟩

theorem Backs.poll (fuel : ℕ) (hi : i < n) (h : Backs n i net t s rest) (hq : Quiet t s) :
    Fares n start i net t s rest fuel (t.poll PartyTask.resume fuel s) := by
  induction fuel generalizing net t s with
  | zero => exact .outOfFuel .refl fun _ _ _ => Nat.zero_le _
  | succ fuel ih =>
    have hadvanced : Advanced n start i net t s rest _ := h.advance hi hq
    rw [ProtocolFuture.poll]
    generalize t.advance PartyTask.resume s = r at hadvanced
    cases hadvanced with
    | returned hmoved hact hflight hunflushed => exact .returned hmoved hact hflight hunflushed
    | panicked hmoved hp => exact .panicked hmoved hp
    | pending hmoved hbacks hwaits hwork => exact .pending hmoved hbacks hwaits hwork
    | goesOn hmoved hbacks hquiet hwork => exact (ih hbacks hquiet).after hmoved hwork _
    | fails hp hwork =>
      -- the panic ends the poll
      cases fuel with
      | zero => exact .outOfFuel .refl fun K c _ => hwork K c
      | succ fuel => exact .panicked .refl hp

end Poll

end RoundBased
