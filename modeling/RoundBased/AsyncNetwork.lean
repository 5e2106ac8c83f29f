import RoundBased.AsyncSimulation
import RoundBased.NetworkTermination

/-! The parties of the asynchronous simulation, polled in any order. As long as the buffer of the
channel holds all messages, their runs are runs of the network with its broadcasts looped back. -/
namespace RoundBased
namespace AsyncEnv
open Interaction RoundsRouter Transition

/-- The receivers of a channel are polled for its items. -/
class PolledChannel (C : Type) {T : outParam Type} [BroadcastChannel C T] where
  poll : C → Receiver C → Receiver C × Poll (Option (Except BroadcastStreamRecvError T))

export PolledChannel (poll)

/-- A receiver gets the items one after another, as long as there are no more than the channel has
capacity for. It may have to be polled again. -/
structure Retains (C T : Type) [BroadcastChannel C T] [PolledChannel C] (capacity : ℕ) extends
    Ordered C T where
  position : Receiver C → ℕ
  subscribe_position : ∀ c, position (subscribe c).2 = (items c).length
  polled : ∀ c r, (items c).length ≤ capacity →
    ((poll c r).2 = .pending ∧ position (poll c r).1 = position r) ∨
    ∃ x, (items c)[position r]? = some x ∧ (poll c r).2 = .ready (some (.ok x)) ∧
      position (poll c r).1 = position r + 1
  available : ∀ c r, (items c).length ≤ capacity → position r < (items c).length →
    ∃ k, (poll c ((fun r => (poll c r).1)^[k] r)).2 ≠ .pending

/-- A channel that keeps the last items, at most so many. -/
structure Buffer (capacity : ℕ) (T : Type) where
  items : List T
  receivers : ℕ

namespace Buffer

variable {capacity : ℕ} {T : Type}

instance : BroadcastChannel (Buffer capacity T) T where
  Receiver := ℕ
  subscribe c := (⟨c.items,c.receivers + 1⟩,c.items.length)
  send c x := if c.receivers = 0 then (c,.error ()) else (⟨c.items ++ [x],c.receivers⟩,.ok ())

/-- The item at the position, unless it was overwritten. -/
def recv (c : Buffer capacity T) (r : ℕ) :
    ℕ × Poll (Option (Except BroadcastStreamRecvError T)) :=
  if r + capacity < c.items.length then (c.items.length - capacity,
    .ready (some (.error (.lagged (UInt64.ofNat (c.items.length - capacity - r))))))
  else
    match c.items[r]? with
    | some x => (r + 1,.ready (some (.ok x)))
    | none => (r,.pending)

instance : PolledChannel (Buffer capacity T) where
  poll := recv

theorem recv_kept (c : Buffer capacity T) (h : c.items.length ≤ capacity) (r : ℕ) :
    (c.recv r = (r,.pending) ∧ c.items[r]? = none) ∨
      ∃ x, c.items[r]? = some x ∧ c.recv r = (r + 1,.ready (some (.ok x))) := by
  have hkept : ¬ r + capacity < c.items.length := by omega
  rw [recv,if_neg hkept]
  cases hx : c.items[r]? with
  | none => exact .inl ⟨rfl,rfl⟩
  | some x => exact .inr ⟨x,rfl,rfl⟩

/-- As long as nothing is overwritten. -/
def retains (capacity : ℕ) (T : Type) : Retains (Buffer capacity T) T capacity where
  items := items
  subscribed c := c.receivers ≠ 0
  subscribe_items _ := rfl
  subscribe_subscribed c := Nat.succ_ne_zero c.receivers
  send_ok c x h := by simp [send,h]
  send_items c x h := by simp [send,h]
  send_subscribed c x h := by simp [send,h]
  position r := r
  subscribe_position _ := rfl
  polled c r h := by
    rcases c.recv_kept h r with ⟨hr,_⟩ | ⟨x,hx,hr⟩
    · exact .inl ⟨congrArg Prod.snd hr,congrArg Prod.fst hr⟩
    · exact .inr ⟨x,hx,congrArg Prod.snd hr,congrArg Prod.fst hr⟩
  available c r h hr := by
    rcases c.recv_kept h r with ⟨_,hnone⟩ | ⟨x,_,hx⟩
    · exact absurd (List.getElem?_eq_none_iff.mp hnone) (Nat.not_le_of_lt hr)
    · refine ⟨0,fun hpending => ?_⟩
      have hready : (c.recv r).2 = .pending := hpending
      rw [hx] at hready
      cases hready

end Buffer

section Polling

variable {C M : Type} [BroadcastChannel C (Outgoing (Incoming M))] [PolledChannel C]

/-- Polls the receiver until there is an answer to pass on. -/
def MockedIncoming.pollOn (channel : C) : ℕ → MockedIncoming (Receiver C) →
    Option (MockedIncoming (Receiver C) × Yielded M)
  | 0,_ => none
  | fuel + 1,self =>
    let r := poll channel self.receiver
    let self : MockedIncoming (Receiver C) := { self with receiver := r.1 }
    match r.2 with
    | .pending => some (self,.pending)
    | .ready (some (.ok msg)) =>
      if msg.recipient.isP2p ∧ msg.recipient ≠ .oneParty self.localPartyIdx then
        pollOn channel fuel self
      else some (self,.ready (some (.ok msg.msg)))
    | .ready (some (.error e)) => some (self,.ready (some (.error (.recv e))))
    | .ready none => some (self,.ready none)

/-- What the channel answers to so many polls of the receiver. -/
def answersOf (channel : C) : ℕ → Receiver C → List (Answer M)
  | 0,_ => []
  | k + 1,r => (poll channel r).2 :: answersOf channel k (poll channel r).1

theorem pollNext_receiver {R : Type} (self : MockedIncoming R) (r : R) (answers : List (Answer M)) :
    MockedIncoming.pollNext { self with receiver := r } answers = self.pollNext answers := by
  fun_induction MockedIncoming.pollNext self answers <;> simp_all [MockedIncoming.pollNext]

/-- Over a channel the loop does what it does over the answers of the channel. It goes on as long as
these are skipped. -/
theorem pollNext_answersOf (channel : C) (fuel : ℕ) (self : MockedIncoming (Receiver C)) :
    match self.pollOn channel fuel with
    | some (self',y) => self'.localPartyIdx = self.localPartyIdx ∧ ∃ rest < fuel,
        self.pollNext (answersOf channel fuel self.receiver) =
          (answersOf channel rest self'.receiver,y)
    | none => self.pollNext (answersOf channel fuel self.receiver) = ([],.pending) := by
  induction fuel generalizing self with
  | zero => rfl
  | succ fuel ih =>
    have hfirst : answersOf channel (fuel + 1) self.receiver = (poll channel self.receiver).2 ::
        answersOf channel fuel (poll channel self.receiver).1 := rfl
    rw [hfirst,MockedIncoming.pollOn]
    generalize (poll channel self.receiver).1 = r
    generalize (poll channel self.receiver).2 = answer
    match answer with
    | .pending => exact ⟨rfl,fuel,Nat.lt_succ_self _,rfl⟩
    | .ready none => exact ⟨rfl,fuel,Nat.lt_succ_self _,rfl⟩
    | .ready (some (.error e)) => exact ⟨rfl,fuel,Nat.lt_succ_self _,rfl⟩
    | .ready (some (.ok msg)) =>
      have hloop := ih { self with receiver := r }
      by_cases hskip : msg.recipient.isP2p ∧ msg.recipient ≠ .oneParty self.localPartyIdx
      · have hon : self.pollNext (.ready (some (.ok msg)) :: answersOf channel fuel r) =
            MockedIncoming.pollNext { self with receiver := r } (answersOf channel fuel r) := by
          rw [MockedIncoming.pollNext,if_pos hskip,pollNext_receiver self r]
        rw [hon]
        simp only [if_pos hskip]
        split at hloop
        · obtain ⟨hidx,rest,hrest,hanswers⟩ := hloop
          exact ⟨hidx,rest,Nat.lt_succ_of_lt hrest,hanswers⟩
        · exact hloop
      · simp only [if_neg hskip]
        refine ⟨trivial,fuel,Nat.lt_succ_self _,?_⟩
        rw [MockedIncoming.pollNext,if_neg hskip]

variable {capacity : ℕ} (ch : Retains C (Outgoing (Incoming M)) capacity) {channel : C}

/-- What the party has still to hear. -/
def unheard (channel : C) (self : MockedIncoming (Receiver C)) : List (Incoming M) :=
  heard self.localPartyIdx ((ch.items channel).drop (ch.position self.receiver))

theorem heard_of_skip {p : PartyIndex} {x : Outgoing (Incoming M)}
    (h : x.recipient.isP2p ∧ x.recipient ≠ .oneParty p) : heard p [x] = [] := by
  simp [heard,h.1,h.2]

theorem heard_of_not_skip {p : PartyIndex} {x : Outgoing (Incoming M)}
    (h : ¬ (x.recipient.isP2p ∧ x.recipient ≠ .oneParty p)) : heard p [x] = [x.msg] := by
  have hfor : (!x.recipient.isP2p || x.recipient = .oneParty p) = true := by
    by_contra hc
    simp at hc
    exact h hc
  simp [heard,hfor]

variable {ch} {self self' : MockedIncoming (Receiver C)} {y : Yielded M} {fuel : ℕ}

theorem unheard_of_item {x : Outgoing (Incoming M)} {r : Receiver C}
    (hx : (ch.items channel)[ch.position self.receiver]? = some x)
    (hr : ch.position r = ch.position self.receiver + 1) : unheard ch channel self =
      heard self.localPartyIdx [x] ++ unheard ch channel { self with receiver := r } := by
  obtain ⟨hlt,hget⟩ := List.getElem?_eq_some_iff.mp hx
  rw [unheard,List.drop_eq_getElem_cons hlt,hget,← List.singleton_append,heard_append,unheard,hr]

/-- A poll yields what is to be heard next, or nothing: no error, and the stream does not end. -/
theorem pollOn_spec (hcap : (ch.items channel).length ≤ capacity)
    (hpos : ch.position self.receiver ≤ (ch.items channel).length)
    (h : self.pollOn channel fuel = some (self',y)) :
    self'.localPartyIdx = self.localPartyIdx ∧
    ch.position self'.receiver ≤ (ch.items channel).length ∧
    ((y = .pending ∧ unheard ch channel self' = unheard ch channel self) ∨
      ∃ msg, y = .ready (some (.ok msg)) ∧
        unheard ch channel self = msg :: unheard ch channel self') := by
  induction fuel generalizing self with
  | zero => cases h
  | succ fuel ih =>
    rcases ch.polled channel self.receiver hcap with ⟨hpending,hsame⟩ | ⟨x,hx,hready,hnext⟩
    · simp only [MockedIncoming.pollOn,hpending] at h
      cases h
      refine ⟨rfl,by rwa [hsame],.inl ⟨rfl,?_⟩⟩
      rw [unheard,unheard,hsame]
    · have hunheard := unheard_of_item hx hnext
      have hlt := (List.getElem?_eq_some_iff.mp hx).1
      simp only [MockedIncoming.pollOn,hready] at h
      by_cases hskip : x.recipient.isP2p ∧ x.recipient ≠ .oneParty self.localPartyIdx
      · rw [if_pos hskip] at h
        rw [heard_of_skip hskip,List.nil_append] at hunheard
        rw [hunheard]
        exact ih (by rw [hnext]; exact hlt) h
      · rw [if_neg hskip] at h
        cases h
        rw [heard_of_not_skip hskip] at hunheard
        exact ⟨rfl,by rw [hnext]; exact hlt,.inr ⟨x.msg,rfl,hunheard⟩⟩

/-- Polls without a result. -/
inductive Pends (channel : C) : MockedIncoming (Receiver C) → MockedIncoming (Receiver C) → Prop
  | refl {self : MockedIncoming (Receiver C)} : Pends channel self self
  | step {self mid self' : MockedIncoming (Receiver C)} (fuel : ℕ) :
      self.pollOn channel fuel = some (mid,.pending) → Pends channel mid self' →
      Pends channel self self'

/-- A message comes, if the party polls often enough. -/
def Yields (channel : C) (self : MockedIncoming (Receiver C)) : Prop :=
  ∃ mid self' fuel msg, Pends channel self mid ∧
    mid.pollOn channel fuel = some (self',.ready (some (.ok msg)))

section Yields

variable {x : Outgoing (Incoming M)}

theorem yields_of_pending (hpending : (poll channel self.receiver).2 = .pending)
    (h : Yields channel { self with receiver := (poll channel self.receiver).1 }) :
    Yields channel self := by
  obtain ⟨mid,self',fuel,msg,hpends,hpoll⟩ := h
  have hfirst : self.pollOn channel 1 =
      some ({ self with receiver := (poll channel self.receiver).1 },.pending) := by
    simp only [MockedIncoming.pollOn,hpending]
  exact ⟨mid,self',fuel,msg,.step 1 hfirst hpends,hpoll⟩

theorem yields_of_skip (hready : (poll channel self.receiver).2 = .ready (some (.ok x)))
    (hskip : x.recipient.isP2p ∧ x.recipient ≠ .oneParty self.localPartyIdx)
    (h : Yields channel { self with receiver := (poll channel self.receiver).1 }) :
    Yields channel self := by
  obtain ⟨mid,self',fuel,msg,hpends,hpoll⟩ := h
  have hloop : ∀ fuel, self.pollOn channel (fuel + 1) = MockedIncoming.pollOn channel fuel
      { self with receiver := (poll channel self.receiver).1 } := by
    intro fuel
    simp only [MockedIncoming.pollOn,hready,if_pos hskip]
  cases hpends with
  | refl => exact ⟨self,self',fuel + 1,msg,.refl,(hloop fuel).trans hpoll⟩
  | step fuel' hfirst hrest =>
    exact ⟨mid,self',fuel,msg,.step (fuel' + 1) ((hloop fuel').trans hfirst) hrest,hpoll⟩

theorem yields_of_pass (hready : (poll channel self.receiver).2 = .ready (some (.ok x)))
    (hpass : ¬ (x.recipient.isP2p ∧ x.recipient ≠ .oneParty self.localPartyIdx)) :
    Yields channel self := by
  refine ⟨self,{ self with receiver := (poll channel self.receiver).1 },1,x.msg,.refl,?_⟩
  simp only [MockedIncoming.pollOn,hready,if_neg hpass]

theorem yields_of_item (hx : (ch.items channel)[ch.position self.receiver]? = some x)
    (hready : (poll channel self.receiver).2 = .ready (some (.ok x)))
    (hnext : ch.position (poll channel self.receiver).1 = ch.position self.receiver + 1)
    (h : unheard ch channel self ≠ [])
    (hrest : unheard ch channel { self with receiver := (poll channel self.receiver).1 } ≠ [] →
      Yields channel { self with receiver := (poll channel self.receiver).1 }) :
    Yields channel self := by
  by_cases hskip : x.recipient.isP2p ∧ x.recipient ≠ .oneParty self.localPartyIdx
  · have hunheard := unheard_of_item hx hnext
    rw [heard_of_skip hskip,List.nil_append] at hunheard
    rw [hunheard] at h
    exact yields_of_skip hready hskip (hrest h)
  · exact yields_of_pass hready hskip

/-- Somebody who has still to hear something hears it. -/
theorem yields_of_unheard (hcap : (ch.items channel).length ≤ capacity)
    (h : unheard ch channel self ≠ []) : Yields channel self := by
  generalize hm : (ch.items channel).length - ch.position self.receiver = m
  induction m using Nat.strong_induction_on generalizing self with
  | _ m ihm =>
    have hlt : ch.position self.receiver < (ch.items channel).length := by
      by_contra hle
      apply h
      rw [unheard,List.drop_eq_nil_of_le (Nat.le_of_not_lt hle)]
      rfl
    obtain ⟨k,hk⟩ := ch.available channel self.receiver hcap hlt
    -- on the number of polls after which there is an item
    induction k generalizing self with
    | zero =>
      rcases ch.polled channel self.receiver hcap with ⟨hpending,_⟩ | ⟨x,hx,hready,hnext⟩
      · exact absurd hpending hk
      · exact yields_of_item hx hready hnext h fun hne => ihm _ (by rw [← hm,hnext]; omega) hne rfl
    | succ k ihk =>
      rcases ch.polled channel self.receiver hcap with ⟨hpending,hsame⟩ | ⟨x,hx,hready,hnext⟩
      · have hunheard : unheard ch channel { self with receiver := (poll channel self.receiver).1 } =
            unheard ch channel self := by
          rw [unheard,unheard,hsame]
        rw [Function.iterate_succ_apply] at hk
        have hyields := ihk (by rwa [hunheard]) (by rwa [hsame]) (by rwa [hsame]) hk
        exact yields_of_pending hpending hyields
      · exact yields_of_item hx hready hnext h fun hne => ihm _ (by rw [← hm,hnext]; omega) hne rfl

end Yields

end Polling

/-! All parties are futures that are joined: they are polled in any order. -/
section Env

variable {ι C M A : Type} {St : ι → Type} [∀ k, RoundStore (St k)]
  [BroadcastChannel C (Outgoing (Incoming M))]

/-- The network, what connects the parties to it, and the parties. -/
structure Env (C : Type) {ι : Type} (St : ι → Type) [∀ k, RoundStore (St k)] (M A : Type)
    [BroadcastChannel C (Outgoing (Incoming M))] where
  network : Network C
  deliveries : List (MockedDelivery (Receiver C))
  nodes : PartyIndex → Node St MockedDeliveryError M A

inductive EnvEvent
  | acts (p : PartyIndex)
  | polls (p : PartyIndex) (fuel : ℕ)

namespace Env

def setNode (self : Env C St M A) (p : PartyIndex) (node : Node St MockedDeliveryError M A) :
    Env C St M A :=
  { self with nodes := Function.update self.nodes p node }

/-- The message is handed to the sink of the party. -/
def startSend (self : Env C St M A) (outgoing : MockedOutgoing) (msg : Outgoing M) :
    Env C St M A × Except MockedDeliveryError Unit :=
  let r := outgoing.startSend self.network msg
  ({ self with network := r.1 },r.2)

/-- Connects the parties, which start to run. -/
def connected [Build] (n : UInt16) (channel : C)
    (start : PartyIndex → Node St MockedDeliveryError M A) : Checked (Env C St M A) :=
  ((Network.withChannel channel).connectAll n.toNat).map fun r => ⟨r.1,r.2,start⟩

variable [ProtocolMsg M] [∀ k, RoundMsg M (RoundInfo.Msg (St k))] [TypeIds St]

/-- A party runs its program up to the answer of its next call. -/
def act (self : Env C St M A) (p : PartyIndex) : Option (Checked (Env C St M A)) :=
  match self.deliveries[p.toNat]? with
  | none => none
  | some (_,outgoing) =>
    let node := self.nodes p
    match node.activity with
    | .running (.call (.send msg) cont) =>
      let (self,ans) := self.startSend outgoing msg
      some (.ok (self.setNode p (node.answer (.send msg) cont ans)))
    | .running (.call (.enqueue msg) cont) =>
      let (self,ans) := self.startSend outgoing msg
      some (.ok (self.setNode p (node.answer (.enqueue msg) cont ans)))
    | .running (.call c cont) => some ((node.call c cont).map fun r => self.setNode p r.1)
    | _ => none

variable [PolledChannel C]

/-- A party that waits for messages polls its stream. -/
def poll (self : Env C St M A) (fuel : ℕ) (p : PartyIndex) : Option (Checked (Env C St M A)) :=
  match self.deliveries[p.toNat]? with
  | none => none
  | some (incoming,outgoing) =>
    let node := self.nodes p
    match node.activity with
    | .running _ => none
    | .reading k cont =>
      match incoming.pollOn self.network.channel fuel with
      | none => none
      | some (incoming,yielded) =>
        let self := { self with deliveries := self.deliveries.set p.toNat (incoming,outgoing) }
        match yielded with
        | .pending => some (.ok self)
        | .ready (some (.ok msg)) => (node.read msg).map fun r => r.map (self.setNode p)
        | .ready (some (.error e)) =>
          some (.ok (self.setNode p (node.answer (.complete k) cont (.error (.io e)))))
        | .ready none =>
          some (.ok (self.setNode p (node.answer (.complete k) cont (.error .unexpectedEof))))

end Env

/-- Any of the parties goes on. -/
def joined [ProtocolMsg M] [∀ k, RoundMsg M (RoundInfo.Msg (St k))] [TypeIds St] [PolledChannel C]
    (env : Env C St M A) : System (Env C St M A) EnvEvent where
  init := env
  step self e env' :=
    match e with
    | .acts p => self.act p = some (.ok env')
    | .polls p fuel => self.poll fuel p = some (.ok env')

variable [ProtocolMsg M] [∀ k, RoundMsg M (RoundInfo.Msg (St k))] [TypeIds St] [PolledChannel C]
  {env0 env env' : Env C St M A}

/-- Carries out the events, as long as they are possible. -/
def Env.exec (self : Env C St M A) : List EnvEvent → Option (Env C St M A)
  | [] => some self
  | .acts p :: es =>
    match self.act p with
    | some (.ok self) => self.exec es
    | _ => none
  | .polls p fuel :: es =>
    match self.poll fuel p with
    | some (.ok self) => self.exec es
    | _ => none

theorem Env.exec_run {es : List EnvEvent} (h : env.exec es = some env') :
    Run (joined env0) env es env' := by
  induction es generalizing env with
  | nil =>
    cases h
    exact .refl
  | cons e es ih =>
    cases e with
    | acts p =>
      simp only [exec] at h
      split at h
      · rename_i hact
        exact (Run.snoc .refl hact).append (ih h)
      · cases h
    | polls p fuel =>
      simp only [exec] at h
      split at h
      · rename_i hpoll
        exact (Run.snoc .refl hpoll).append (ih h)
      · cases h

end Env

/-! The messages that the parties have still to hear are those in flight in the network. -/
section Carries

variable {ι C M A : Type} {St : ι → Type} [∀ k, RoundStore (St k)]
  [BroadcastChannel C (Outgoing (Incoming M))] [PolledChannel C] {capacity : ℕ}
  {ch : Retains C (Outgoing (Incoming M)) capacity} {n p q : UInt16}

theorem filter_packets_recipient (hq : q < n) (o : Outgoing M) :
    (packets n p true o).filter (fun packet => packet.recipient = q) =
      if o.recipient.reaches q then [⟨q,p,o.recipient.msgType,o.msg⟩] else [] := by
  have hsplit : (packets n p true o).filter (fun packet => packet.recipient = q) =
      ((partiesOf n).filter fun x => o.recipient.reaches q ∧ x = q).map fun _ =>
        (⟨q,p,o.recipient.msgType,o.msg⟩ : Packet M) := by
    rw [packets,List.filter_map,List.filter_filter]
    refine (List.map_congr_left fun x hx => ?_).trans (congrArg _ (List.filter_congr fun x _ => ?_))
    · have hxq : x = q := by
        have hmem := (List.mem_filter.mp hx).2
        simp at hmem
        exact hmem.1
      rw [hxq]
    · by_cases hx : x = q <;> simp [hx]
  rw [hsplit]
  by_cases hr : o.recipient.reaches q = true
  · have hone : ((partiesOf n).filter fun x => o.recipient.reaches q ∧ x = q) = [q] := by
      have hcount : (partiesOf n).count q = 1 :=
        List.count_eq_one_of_mem (nodup_partiesOf n) (mem_partiesOf.mpr hq)
      rw [← List.replicate_one,← hcount,← List.filter_beq]
      refine List.filter_congr fun x _ => ?_
      by_cases hx : x = q <;> simp [hx,hr]
    rw [hone,if_pos hr]
    rfl
  · rw [if_neg hr,List.map_eq_nil_iff,List.filter_eq_nil_iff]
    simp [hr]

theorem heard_sent {x : Outgoing (Incoming M)} {msg : Outgoing M} (hx : IsSend x (p,msg)) :
    (heard q [x]).map (fun incoming => incoming.packetTo q) =
      if msg.recipient.reaches q then [⟨q,p,msg.recipient.msgType,msg.msg⟩] else [] := by
  obtain ⟨hrecipient,hsender,hmsg,htype⟩ := hx
  have hpacket : x.msg.packetTo q = ⟨q,p,msg.recipient.msgType,msg.msg⟩ := by
    rw [Incoming.packetTo,hsender,hmsg,htype]
    obtain ⟨recipient,m⟩ := msg
    cases recipient <;> rfl
  have hheard : heard q [x] = if msg.recipient.reaches q then [x.msg] else [] := by
    rw [← hrecipient]
    obtain ⟨recipient,incoming⟩ := x
    cases recipient with
    | allParties reliable => rfl
    | oneParty j => by_cases hj : j = q <;> simp [heard,MessageDestination.isP2p,
        MessageDestination.reaches,hj]
  rw [hheard]
  split
  · rw [List.map_singleton,hpacket]
  · rfl

/-- How many messages the parties have sent. -/
def sentCount (n : UInt16) (nodes : PartyIndex → Node St MockedDeliveryError M A) : ℕ :=
  ∑ q ∈ (partiesOf n).toFinset, (nodes q).sent.length

omit [BroadcastChannel C (Outgoing (Incoming M))] [PolledChannel C] in
theorem sentCount_update (nodes : PartyIndex → Node St MockedDeliveryError M A) (hp : p < n)
    {node : Node St MockedDeliveryError M A} {out : List (Outgoing M)}
    (h : node.sent = (nodes p).sent ++ out) :
    sentCount n (Function.update nodes p node) = sentCount n nodes + out.length := by
  have hsum := sum_parties_update (fun node => node.sent.length) nodes hp node
  simp only [h,List.length_append] at hsum
  unfold sentCount
  omega

/-- A network whose parties are those of the simulation. -/
structure Carries (ch : Retains C (Outgoing (Incoming M)) capacity) (n : UInt16)
    (env : Env C St M A) (net : RoundBased.Network St MockedDeliveryError M A) : Prop where
  nodes : net.nodes = env.nodes
  length : env.deliveries.length = n.toNat
  count : (ch.items env.network.channel).length = sentCount n env.nodes
  subscribed : 0 < n.toNat → ch.subscribed env.network.channel
  delivery : ∀ (p : PartyIndex) incoming outgoing,
    env.deliveries[p.toNat]? = some (incoming,outgoing) →
    incoming.localPartyIdx = p ∧ outgoing.localPartyIdx = p ∧
    ch.position incoming.receiver ≤ (ch.items env.network.channel).length ∧
    (net.inFlight.filter fun packet => packet.recipient = p).Perm
      ((unheard ch env.network.channel incoming).map fun msg => msg.packetTo p)

variable {env env' : Env C St M A} {net : RoundBased.Network St MockedDeliveryError M A}
  {incoming : MockedIncoming (Receiver C)} {outgoing : MockedOutgoing}

theorem Carries.lt (h : Carries ch n env net)
    (hd : env.deliveries[p.toNat]? = some (incoming,outgoing)) : p < n := by
  have hlt := (List.getElem?_eq_some_iff.mp hd).1
  rw [h.length] at hlt
  exact UInt16.lt_iff_toNat_lt.mpr hlt

theorem unheard_append {x : Outgoing (Incoming M)} {channel channel' : C}
    (hitems : ch.items channel' = ch.items channel ++ [x])
    (hpos : ch.position incoming.receiver ≤ (ch.items channel).length) :
    unheard ch channel' incoming =
      unheard ch channel incoming ++ heard incoming.localPartyIdx [x] := by
  rw [unheard,hitems,List.drop_append_of_le_length hpos,heard_append]
  rfl

variable [ProtocolMsg M] [∀ k, RoundMsg M (RoundInfo.Msg (St k))] [TypeIds St]

omit [ProtocolMsg M] in
theorem Carries.sends (h : Carries ch n env net)
    (hd : env.deliveries[p.toNat]? = some (incoming,outgoing)) {msg : Outgoing M}
    {node : Node St MockedDeliveryError M A} (hact : (env.nodes p).act = some (.ok (node,[msg]))) :
    (env.startSend outgoing msg).2 = .ok () ∧
    Carries ch n ((env.startSend outgoing msg).1.setNode p node)
      ⟨Function.update net.nodes p node,net.inFlight ++ [msg].flatMap (packets n p true)⟩ := by
  have hp := h.lt hd
  have hpos : 0 < n.toNat := Nat.lt_of_le_of_lt (Nat.zero_le _) (UInt16.lt_iff_toNat_lt.mp hp)
  have hidx := (h.delivery p _ _ hd).2.1
  obtain ⟨network',x,hsend,hsub,hitems,hx⟩ :=
    startSend_spec ch.toOrdered (h.subscribed hpos) outgoing msg
  rw [hidx] at hx
  have henv : env.startSend outgoing msg = ({ env with network := network' },.ok ()) := by
    rw [Env.startSend,hsend]
  rw [henv]
  refine ⟨rfl,by rw [h.nodes]; rfl,h.length,?_,fun _ => hsub,fun q incoming' outgoing' hq => ?_⟩
  · have hcount := sentCount_update env.nodes hp (Node.act_received hact).2
    show (ch.items network'.channel).length = sentCount n (Function.update env.nodes p node)
    rw [hitems,List.length_append,h.count,hcount]
    rfl
  · obtain ⟨hin,hout,hle,hperm⟩ := h.delivery q incoming' outgoing' hq
    refine ⟨hin,hout,?_,?_⟩
    · show _ ≤ (ch.items network'.channel).length
      rw [hitems,List.length_append]
      exact Nat.le_add_right_of_le hle
    · show (List.filter _ (net.inFlight ++ _)).Perm
        (List.map _ (unheard ch network'.channel incoming'))
      rw [unheard_append hitems hle,hin,List.map_append,heard_sent hx,List.flatMap_singleton,
        List.filter_append,filter_packets_recipient (h.lt hq)]
      exact hperm.append_right _

omit [ProtocolMsg M] in
theorem Carries.goesOn (h : Carries ch n env net)
    (hd : env.deliveries[p.toNat]? = some (incoming,outgoing))
    {node : Node St MockedDeliveryError M A} (hact : (env.nodes p).act = some (.ok (node,[]))) :
    Carries ch n (env.setNode p node)
      ⟨Function.update net.nodes p node,net.inFlight ++ [].flatMap (packets n p true)⟩ := by
  refine ⟨by rw [h.nodes]; rfl,h.length,?_,h.subscribed,fun q incoming' outgoing' hq => ?_⟩
  · exact h.count.trans (sentCount_update env.nodes (h.lt hd) (Node.act_received hact).2).symm
  · obtain ⟨hin,hout,hle,hperm⟩ := h.delivery q incoming' outgoing' hq
    refine ⟨hin,hout,hle,?_⟩
    rw [List.flatMap_nil,List.append_nil]
    exact hperm

omit [PolledChannel C] [ProtocolMsg M] in
theorem getElem?_set_cases {deliveries : List (MockedDelivery (Receiver C))}
    {self d : MockedDelivery (Receiver C)} {q : PartyIndex}
    (h : (deliveries.set p.toNat self)[q.toNat]? = some d) :
    (q = p ∧ d = self) ∨ (q ≠ p ∧ deliveries[q.toNat]? = some d) := by
  by_cases hqp : q = p
  · subst hqp
    rw [List.getElem?_set_self'] at h
    cases hget : deliveries[q.toNat]? with
    | none =>
      rw [hget] at h
      cases h
    | some d' =>
      rw [hget] at h
      exact .inl ⟨rfl,(Option.some.inj h).symm⟩
  · have hne : p.toNat ≠ q.toNat := fun he => hqp (UInt16.toNat_inj.mp he).symm
    rw [List.getElem?_set_ne hne] at h
    exact .inr ⟨hqp,h⟩

omit [∀ k, RoundMsg M (RoundInfo.Msg (St k))] [TypeIds St] [ProtocolMsg M] in
theorem Carries.pends (h : Carries ch n env net)
    (hd : env.deliveries[p.toNat]? = some (incoming,outgoing)) {self' : MockedIncoming (Receiver C)}
    (hcap : (ch.items env.network.channel).length ≤ capacity) {fuel : ℕ}
    (hpoll : incoming.pollOn env.network.channel fuel = some (self',.pending)) :
    Carries ch n { env with deliveries := env.deliveries.set p.toNat (self',outgoing) } net := by
  obtain ⟨hin,hout,hle,hperm⟩ := h.delivery p _ _ hd
  obtain ⟨hidx,hle',⟨_,hunheard⟩ | ⟨_,hc,_⟩⟩ := pollOn_spec hcap hle hpoll
  · refine ⟨h.nodes,by simpa using h.length,h.count,h.subscribed,fun q incoming' outgoing' hq => ?_⟩
    rcases getElem?_set_cases hq with ⟨rfl,heq⟩ | ⟨_,hget⟩
    · cases heq
      refine ⟨hidx.trans hin,hout,hle',?_⟩
      show List.Perm _ (List.map _ (unheard ch env.network.channel _))
      rwa [hunheard]
    · exact h.delivery q _ _ hget
  · cases hc

omit [∀ k, RoundMsg M (RoundInfo.Msg (St k))] [TypeIds St] [ProtocolMsg M] in
theorem Carries.mem_inFlight (h : Carries ch n env net)
    (hd : env.deliveries[p.toNat]? = some (incoming,outgoing)) {self' : MockedIncoming (Receiver C)}
    (hcap : (ch.items env.network.channel).length ≤ capacity) {fuel : ℕ} {msg : Incoming M}
    (hpoll : incoming.pollOn env.network.channel fuel = some (self',.ready (some (.ok msg)))) :
    msg.packetTo p ∈ net.inFlight := by
  obtain ⟨_,_,hle,hperm⟩ := h.delivery p _ _ hd
  obtain ⟨_,_,⟨hc,_⟩ | ⟨msg',hmsg,hunheard⟩⟩ := pollOn_spec hcap hle hpoll
  · cases hc
  · cases hmsg
    rw [hunheard,List.map_cons] at hperm
    exact (List.mem_filter.mp (hperm.mem_iff.mpr (List.mem_cons_self ..))).1

theorem Carries.hears (h : Carries ch n env net)
    (hd : env.deliveries[p.toNat]? = some (incoming,outgoing)) {self' : MockedIncoming (Receiver C)}
    (hcap : (ch.items env.network.channel).length ≤ capacity) {fuel : ℕ} {msg : Incoming M}
    (hpoll : incoming.pollOn env.network.channel fuel = some (self',.ready (some (.ok msg))))
    {node : Node St MockedDeliveryError M A} (hread : (env.nodes p).read msg = some (.ok node)) :
    ∃ before after, net.inFlight = before ++ msg.packetTo p :: after ∧
      Carries ch n
        ({ env with deliveries := env.deliveries.set p.toNat (self',outgoing) }.setNode p node)
        ⟨Function.update net.nodes p node,before ++ after⟩ := by
  obtain ⟨hin,hout,hle,hperm⟩ := h.delivery p _ _ hd
  obtain ⟨hidx,hle',⟨hc,_⟩ | ⟨msg',hmsg,hunheard⟩⟩ := pollOn_spec hcap hle hpoll
  · cases hc
  cases hmsg
  rw [hunheard,List.map_cons] at hperm
  obtain ⟨before,after,hflight⟩ := List.append_of_mem (h.mem_inFlight hd hcap hpoll)
  refine ⟨before,after,hflight,by rw [h.nodes]; rfl,by simpa [Env.setNode] using h.length,?_,
    h.subscribed,fun q incoming' outgoing' hq => ?_⟩
  · have hsent : node.sent = (env.nodes p).sent ++ [] :=
      (Node.read_received hread).2.trans (List.append_nil _).symm
    exact h.count.trans (sentCount_update env.nodes (h.lt hd) hsent).symm
  · have hflight' : ∀ q : PartyIndex, q ≠ p →
        (before ++ after).filter (fun packet => packet.recipient = q) =
        net.inFlight.filter fun packet => packet.recipient = q := by
      intro q hq
      have hne : ¬ (msg.packetTo p).recipient = q := fun he => hq he.symm
      rw [hflight,List.filter_append,List.filter_append,List.filter_cons_of_neg (by simpa using hne)]
    rcases getElem?_set_cases hq with ⟨rfl,heq⟩ | ⟨hne,hget⟩
    · cases heq
      refine ⟨hidx.trans hin,hout,hle',?_⟩
      have hmine : (msg.packetTo q).recipient = q := rfl
      rw [hflight,List.filter_append,List.filter_cons_of_pos (by simpa using hmine)] at hperm
      have hrest := List.Perm.cons_inv (List.perm_middle.symm.trans hperm)
      rw [← List.filter_append] at hrest
      exact hrest
    · obtain ⟨hin',hout',hle'',hperm'⟩ := h.delivery q _ _ hget
      refine ⟨hin',hout',hle'',?_⟩
      show (List.filter _ (before ++ after)).Perm _
      rw [hflight' q hne]
      exact hperm'

end Carries

section Refinement

variable {ι C M A : Type} {St : ι → Type} [∀ k, RoundStore (St k)]
  [BroadcastChannel C (Outgoing (Incoming M))] [PolledChannel C] {capacity : ℕ}
  {ch : Retains C (Outgoing (Incoming M)) capacity} {n p q : UInt16} [ProtocolMsg M]
  [∀ k, RoundMsg M (RoundInfo.Msg (St k))] [TypeIds St] {env0 env env' : Env C St M A}
  {net : RoundBased.Network St MockedDeliveryError M A}

omit [BroadcastChannel C (Outgoing (Incoming M))] [PolledChannel C] [ProtocolMsg M] in
theorem call_silent {self node : Node St MockedDeliveryError M A} {c : Call ι M}
    {cont : PartyAnswer St MockedDeliveryError M c → NodeProg St MockedDeliveryError M A}
    {out : List (Outgoing M)} (hs : ∀ msg, c ≠ .send msg) (he : ∀ msg, c ≠ .enqueue msg)
    (h : self.call c cont = .ok (node,out)) : out = [] := by
  cases c with
  | send msg => exact absurd rfl (hs msg)
  | enqueue msg => exact absurd rfl (he msg)
  | complete k =>
    simp only [Node.call] at h
    cases hc : (checkCompleted self.router (⟨⟩ : Round k) :
        Checked (RoundsRouter M St ×
          Except (Round k) (RoundResult (St k) MockedDeliveryError))) with
    | error panic =>
      rw [hc] at h
      cases h
    | ok r =>
      rw [hc] at h
      cases h
      rfl
  | flush =>
    cases h
    rfl
  | yieldNow =>
    cases h
    rfl

omit [PolledChannel C] [ProtocolMsg M] in
theorem Env.act_cases {res : Checked (Env C St M A)} (h : env.act p = some res) :
    ∃ incoming outgoing, env.deliveries[p.toNat]? = some (incoming,outgoing) ∧
    ((∃ msg node, (env.nodes p).act = some (.ok (node,[msg])) ∧
      ((env.startSend outgoing msg).2 = .ok () →
        res = .ok ((env.startSend outgoing msg).1.setNode p node))) ∨
    ∃ r, (env.nodes p).act = some r ∧ res = r.map (fun r => env.setNode p r.1) ∧
      ∀ node out, r = .ok (node,out) → out = []) := by
  unfold Env.act at h
  split at h
  · cases h
  · rename_i incoming outgoing hd
    refine ⟨incoming,outgoing,hd,?_⟩
    dsimp only at h
    split at h
    · rename_i msg cont hact
      have hnode : (env.nodes p).act = some ((env.nodes p).call (.send msg) cont) := by
        rw [Node.act,hact]
      refine .inl ⟨msg,_,hnode,fun hok => ?_⟩
      rw [hok] at h
      exact (Option.some.inj h).symm
    · rename_i msg cont hact
      have hnode : (env.nodes p).act = some ((env.nodes p).call (.enqueue msg) cont) := by
        rw [Node.act,hact]
      refine .inl ⟨msg,_,hnode,fun hok => ?_⟩
      rw [hok] at h
      exact (Option.some.inj h).symm
    · rename_i c cont hs he hact
      have hnode : (env.nodes p).act = some ((env.nodes p).call c cont) := by
        rw [Node.act,hact]
      refine .inr ⟨_,hnode,(Option.some.inj h).symm,fun node out hr => ?_⟩
      refine call_silent (fun msg hc => ?_) (fun msg hc => ?_) hr
      · subst hc
        exact hs msg cont rfl HEq.rfl
      · subst hc
        exact he msg cont rfl HEq.rfl
    · cases h

/-- A poll changes nothing for the parties, or a message in flight is read. -/
theorem Carries.poll_cases (h : Carries ch n env net)
    (hcap : (ch.items env.network.channel).length ≤ capacity) {fuel : ℕ}
    {res : Checked (Env C St M A)} (hpoll : env.poll fuel p = some res) :
    (∃ env', res = .ok env' ∧ Carries ch n env' net) ∨
    p < n ∧ ∃ msg, msg.packetTo p ∈ net.inFlight ∧ ∃ r, (env.nodes p).read msg = some r ∧
      (∀ panic, r = .error panic → res = .error panic) ∧ ∀ node, r = .ok node →
        ∃ env' before after, res = .ok env' ∧ net.inFlight = before ++ msg.packetTo p :: after ∧
        Carries ch n env' ⟨Function.update net.nodes p node,before ++ after⟩ := by
  unfold Env.poll at hpoll
  split at hpoll
  · cases hpoll
  · rename_i incoming outgoing hd
    have hle := (h.delivery p _ _ hd).2.2.1
    cases hact : (env.nodes p).activity with
    | running prog =>
      simp only [hact] at hpoll
      cases hpoll
    | reading k cont =>
      simp only [hact] at hpoll
      split at hpoll
      · cases hpoll
      · rename_i self' yielded hon
        obtain ⟨_,_,⟨rfl,_⟩ | ⟨msg,rfl,_⟩⟩ := pollOn_spec hcap hle hon
        · cases hpoll
          exact .inl ⟨_,rfl,h.pends hd hcap hon⟩
        · have hmem := h.mem_inFlight hd hcap hon
          cases hread : (env.nodes p).read msg with
          | none =>
            rw [Node.read,hact] at hread
            cases hread
          | some r =>
            simp only [hread,Option.map_some] at hpoll
            refine .inr ⟨h.lt hd,msg,hmem,r,hread,?_,fun node hr => ?_⟩
            · intro panic hr
              subst hr
              exact (Option.some.inj hpoll).symm
            · subst hr
              obtain ⟨before,after,hflight,hcarries⟩ := h.hears hd hcap hon hread
              exact ⟨_,before,after,(Option.some.inj hpoll).symm,hflight,hcarries⟩

omit [PolledChannel C] [ProtocolMsg M] in
theorem act_items (ch : Ordered C (Outgoing (Incoming M)))
    (hsub : env.deliveries ≠ [] → ch.subscribed env.network.channel)
    (h : env.act p = some (.ok env')) : ch.subscribed env'.network.channel ∧
      ch.items env.network.channel <+: ch.items env'.network.channel := by
  obtain ⟨incoming,outgoing,hd,hcases⟩ := Env.act_cases h
  have hsub : ch.subscribed env.network.channel := hsub fun hnil => by
    rw [hnil] at hd
    cases hd
  rcases hcases with ⟨msg,node,_,henv⟩ | ⟨r,_,hres,_⟩
  · obtain ⟨network',x,hsend,hsub',hitems,_⟩ := startSend_spec ch hsub outgoing msg
    have hstart : env.startSend outgoing msg = ({ env with network := network' },.ok ()) := by
      rw [Env.startSend,hsend]
    rw [hstart] at henv
    cases henv rfl
    exact ⟨hsub',[x],hitems.symm⟩
  · cases r with
    | error panic => cases hres
    | ok r =>
      cases hres
      exact ⟨hsub,List.prefix_rfl⟩

theorem poll_network {fuel : ℕ} (h : env.poll fuel p = some (.ok env')) :
    env'.network = env.network ∧ env'.deliveries.length = env.deliveries.length := by
  unfold Env.poll at h
  split at h
  · cases h
  · dsimp only at h
    split at h
    · cases h
    · split at h
      · cases h
      · split at h
        · cases h
          exact ⟨rfl,List.length_set⟩
        · cases hread : (env.nodes p).read _ with
          | none => rw [hread] at h; cases h
          | some r =>
            rw [hread] at h
            cases r with
            | error panic => cases h
            | ok node => cases h; exact ⟨rfl,List.length_set⟩
        · cases h
          exact ⟨rfl,List.length_set⟩
        · cases h
          exact ⟨rfl,List.length_set⟩

theorem step_items (ch : Ordered C (Outgoing (Incoming M))) {e : EnvEvent}
    (hsub : env.deliveries ≠ [] → ch.subscribed env.network.channel)
    (hs : (joined env0).step env e env') :
    (env'.deliveries ≠ [] → ch.subscribed env'.network.channel) ∧
      ch.items env.network.channel <+: ch.items env'.network.channel := by
  cases e with
  | acts p =>
    have hact := act_items ch hsub hs
    exact ⟨fun _ => hact.1,hact.2⟩
  | polls p fuel =>
    obtain ⟨hnetwork,hlen⟩ := poll_network hs
    rw [hnetwork]
    refine ⟨fun hne => hsub fun hnil => hne ?_,List.prefix_rfl⟩
    rw [hnil] at hlen
    exact List.length_eq_zero_iff.mp hlen

variable {start : PartyIndex → Node St MockedDeliveryError M A}

variable (start) in
theorem Carries.act_step (h : Carries ch n env net) (hs : env.act p = some (.ok env')) :
    ∃ net', (RoundBased.network n start).step net (.acts p true) net' ∧ Carries ch n env' net' := by
  obtain ⟨incoming,outgoing,hd,⟨msg,node,hact,henv⟩ | ⟨r,hact,hres,hout⟩⟩ := Env.act_cases hs
  · obtain ⟨hok,hcarries⟩ := h.sends hd hact
    cases henv hok
    rw [← h.nodes] at hact
    exact ⟨_,⟨h.lt hd,node,[msg],hact,rfl⟩,hcarries⟩
  · cases r with
    | error panic => cases hres
    | ok r =>
      obtain ⟨node,out⟩ := r
      cases hout _ _ rfl
      cases hres
      have hcarries := h.goesOn hd hact
      rw [← h.nodes] at hact
      exact ⟨_,⟨h.lt hd,node,[],hact,rfl⟩,hcarries⟩

variable (start) in
/-- A step of a party is a step of the network, or nothing came. -/
theorem Carries.step (h : Carries ch n env net)
    (hcap : (ch.items env.network.channel).length ≤ capacity) {e : EnvEvent}
    (hs : (joined env0).step env e env') :
    ∃ es net', Run (RoundBased.network n start) net es net' ∧ Carries ch n env' net' := by
  cases e with
  | acts p =>
    obtain ⟨net',hstep,hcarries⟩ := h.act_step start hs
    exact ⟨[.acts p true],net',.snoc .refl hstep,hcarries⟩
  | polls p fuel =>
    rcases h.poll_cases hcap hs with ⟨env1,henv,hcarries⟩ | ⟨hp,msg,_,r,hread,hpanic,hok⟩
    · cases henv
      exact ⟨[],net,.refl,hcarries⟩
    · cases r with
      | error panic => cases hpanic panic rfl
      | ok node =>
        obtain ⟨env1,before,after,henv,hflight,hcarries⟩ := hok node rfl
        cases henv
        rw [← h.nodes] at hread
        exact ⟨[.delivers (msg.packetTo p) msg.id],_,
          .snoc .refl ⟨hp,before,after,node,hflight,hread,rfl⟩,hcarries⟩

variable (start) in
/-- While the channel holds all messages, a run of the parties is a run of the network. -/
theorem Carries.run (h : Carries ch n env net) {es : List EnvEvent}
    (hrun : Run (joined env0) env es env')
    (hcap : (ch.items env'.network.channel).length ≤ capacity) :
    ∃ es' net', Run (RoundBased.network n start) net es' net' ∧ Carries ch n env' net' := by
  -- what is in the channel at the end bounds what was in it before
  suffices hinv : (env'.deliveries ≠ [] → ch.subscribed env'.network.channel) ∧
      ((ch.items env'.network.channel).length ≤ capacity →
        ∃ es' net', Run (RoundBased.network n start) net es' net' ∧ Carries ch n env' net') from
    hinv.2 hcap
  clear hcap
  induction hrun with
  | refl =>
    refine ⟨fun hne => h.subscribed ?_,fun _ => ⟨[],net,.refl,h⟩⟩
    rw [← h.length]
    exact List.length_pos_iff.mpr hne
  | snoc _ hs ih =>
    obtain ⟨hsub,hkept⟩ := step_items ch.toOrdered ih.1 hs
    refine ⟨hsub,fun hcap => ?_⟩
    have hle := hkept.length_le.trans hcap
    obtain ⟨es,mid,hrun,hmid⟩ := ih.2 hle
    obtain ⟨es',net',hrun',hcarries⟩ := hmid.step start hle hs
    exact ⟨es ++ es',net',hrun.append hrun',hcarries⟩

end Refinement

/-! All parties are connected before they are polled. -/
section Connected

variable {ι C M A : Type} {St : ι → Type} [∀ k, RoundStore (St k)]
  [BroadcastChannel C (Outgoing (Incoming M))] [PolledChannel C] {capacity : ℕ}
  {ch : Retains C (Outgoing (Incoming M)) capacity} [Build]

theorem connectAll_position {k : ℕ} {net net' : Network C}
    {parties : List (MockedDelivery (Receiver C))} (h : net.connectAll k = .ok (net',parties)) :
    ∀ party ∈ parties, ch.position party.1.receiver = (ch.items net.channel).length := by
  induction k generalizing net parties with
  | zero =>
    cases h
    exact fun party hp => by cases hp
  | succ k ih =>
    obtain ⟨⟨net1,party1⟩,hone,hrest⟩ := Checked.bind_eq_ok.mp h
    obtain ⟨⟨net2,rest⟩,hall,hlast⟩ := Checked.bind_eq_ok.mp hrest
    obtain ⟨next,_,hparty⟩ := Checked.bind_eq_ok.mp hone
    cases hparty
    cases hlast
    intro party hmem
    rcases List.mem_cons.mp hmem with rfl | hmem
    · exact ch.subscribe_position net.channel
    · rw [ih hall party hmem]
      exact congrArg List.length (ch.subscribe_items net.channel)

variable {n : UInt16} {channel : C} {start : PartyIndex → Node St MockedDeliveryError M A}

variable (start) in
theorem carries_connected (hempty : ch.items channel = []) (hidle : ∀ p, (start p).history = []) :
    ∃ env, Env.connected n channel start = .ok env ∧ Carries ch n env ⟨start,[]⟩ := by
  have hzero : (Network.withChannel channel).nextPartyIdx.toNat = 0 := rfl
  have hfirst : (Network.withChannel channel).nextPartyIdx.toNat + n.toNat < 65536 := by
    rw [hzero,Nat.zero_add]
    exact n.toNat_lt
  obtain ⟨network',deliveries,hconnect,hlen,hitems,hsub,hidx⟩ :=
    connectAll_spec ch.toOrdered n.toNat hfirst
  have hnone : ch.items network'.channel = [] := hitems.trans hempty
  refine ⟨⟨network',deliveries,start⟩,?_,rfl,hlen,?_,fun hpos => hsub (.inr hpos),
    fun p incoming outgoing hd => ?_⟩
  · rw [Env.connected,hconnect]
    rfl
  · have hsent : ∀ p ∈ (partiesOf n).toFinset, (start p).sent.length = 0 := by
      intro p _
      rw [Node.sent,hidle p]
      rfl
    show (ch.items network'.channel).length = sentCount n start
    rw [hnone,sentCount,Finset.sum_eq_zero hsent]
    rfl
  · obtain ⟨hin,hout⟩ := hidx _ _ hd
    have hown : incoming.localPartyIdx = p := UInt16.toNat_inj.mp (by rw [hin,hzero]; omega)
    have hposition : ch.position incoming.receiver = 0 :=
      (connectAll_position hconnect _ (List.mem_of_getElem? hd)).trans (congrArg List.length hempty)
    refine ⟨hown,hout.trans hown,?_,?_⟩
    · rw [hposition]
      exact Nat.zero_le _
    · show List.Perm _ (List.map _ (unheard ch network'.channel incoming))
      rw [unheard,hnone,List.drop_nil]
      exact .refl _

variable [ProtocolMsg M] [∀ k, RoundMsg M (RoundInfo.Msg (St k))] [TypeIds St]

variable (ch) in
/-- Whatever the order in which the parties are polled, as long as the buffer of the channel holds
all messages they stand as the parties of a reachable state of the network, and each of them has
still to hear what is in flight to it there. -/
theorem async_refines (hempty : ch.items channel = []) (hidle : ∀ p, (start p).history = []) :
    ∃ env0, Env.connected n channel start = .ok env0 ∧ ∀ es env, Run (joined env0) env0 es env →
      (ch.items env.network.channel).length ≤ capacity →
      ∃ net, (RoundBased.network n start).Reachable net ∧ Carries ch n env net := by
  obtain ⟨env0,hconnect,hcarries⟩ := carries_connected (n := n) start hempty hidle
  refine ⟨env0,hconnect,fun es env hrun hcap => ?_⟩
  obtain ⟨es',net,hrun',hnet⟩ := hcarries.run start hrun hcap
  exact ⟨net,⟨es',hrun'⟩,hnet⟩

end Connected

end AsyncEnv

namespace RandomGeneration
open AsyncEnv Interaction Transition

/-- Broadcasts a commitment, and returns those of the others. -/
def asyncExchange (p : PartyIndex) :
    NodeProg (fun k : RoundKind => RoundInput k.Msg) MockedDeliveryError Msg (List CommitMsg) :=
  .call (.send ⟨.allParties false,announced p .round1⟩) fun _ =>
    .call (.complete .round1) fun commitments => .ret (othersMsgs commitments)

def asyncExchanging (p : PartyIndex) :
    Node (fun k : RoundKind => RoundInput k.Msg) MockedDeliveryError Msg (List CommitMsg) :=
  Node.start (collectingFirst p) (asyncExchange p)

/-- The channel has room for a message of each of two parties. -/
def roomForTwo : Buffer 2 (Outgoing (Incoming Msg)) := ⟨[],0⟩

/-- Party 0 gets its own message first. -/
def asyncExchanged : List EnvEvent :=
  [.acts 0,.acts 0,.acts 1,.polls 0 1,.acts 1,.polls 1 1,.polls 0 1]

theorem async_refines_exchange :
    letI : Build := .debug
    ∃ env0 env net, Env.connected 2 roomForTwo asyncExchanging = .ok env0 ∧
      env0.exec asyncExchanged = some env ∧ (RoundBased.network 2 asyncExchanging).Reachable net ∧
      Carries (Buffer.retains 2 (Outgoing (Incoming Msg))) 2 env net := by
  let _ : Build := .debug
  let ch : Retains (Buffer 2 (Outgoing (Incoming Msg))) (Outgoing (Incoming Msg)) 2 :=
    Buffer.retains 2 _
  have hempty : ch.items roomForTwo = [] := rfl
  have hidle : ∀ p, (asyncExchanging p).history = [] := fun _ => rfl
  obtain ⟨env0,hconnect,hruns⟩ := async_refines ch (n := 2) hempty hidle
  have hexec : ((Env.connected 2 roomForTwo asyncExchanging).toOption.bind fun env0 =>
      (env0.exec asyncExchanged).map fun env => env.network.channel.items.length) = some 2 := by
    decide
  rw [hconnect] at hexec
  obtain ⟨env,henv,hlen⟩ := Option.map_eq_some_iff.mp hexec
  obtain ⟨net,hreach,hcarries⟩ := hruns asyncExchanged env (Env.exec_run henv) hlen.le
  exact ⟨env0,env,net,hconnect,henv,hreach,hcarries⟩

end RandomGeneration
end RoundBased
