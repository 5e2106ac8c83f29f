import RoundBased.SharedState
import RoundBased.SimulationQueues

/-! The asynchronous simulation: all messages go through one broadcast channel, and every party
skips those that are not for it. -/
namespace RoundBased
namespace AsyncEnv

/-- What the network uses of a broadcast channel with items `T`. -/
class BroadcastChannel (C : Type) (T : outParam Type) where
  Receiver : Type
  subscribe : C → C × Receiver
  send : C → T → C × Except Unit Unit

export BroadcastChannel (Receiver subscribe send)

/-- The items of a channel: once it has a subscriber it takes every item, in one order. -/
structure Ordered (C T : Type) [BroadcastChannel C T] where
  items : C → List T
  subscribed : C → Prop
  subscribe_items : ∀ c, items (subscribe c).1 = items c
  subscribe_subscribed : ∀ c, subscribed (subscribe c).1
  send_ok : ∀ c x, subscribed c → (send c x).2 = .ok ()
  send_items : ∀ c x, subscribed c → items (send c x).1 = items c ++ [x]
  send_subscribed : ∀ c (x : T), subscribed c → subscribed (send c x).1

/-- The receiver missed items. -/
inductive BroadcastStreamRecvError
  | lagged (skipped : UInt64)
  deriving DecidableEq, Repr

inductive MockedDeliveryError
  | recv (err : BroadcastStreamRecvError)
  | send
  deriving DecidableEq, Repr

/-- Simulated async network. -/
structure Network (C : Type) where
  channel : C
  nextPartyIdx : PartyIndex
  nextMsgId : UInt64

structure MockedIncoming (R : Type) where
  localPartyIdx : PartyIndex
  receiver : R

/-- The channel and the next message id are shared with the network. -/
structure MockedOutgoing where
  localPartyIdx : PartyIndex

abbrev MockedDelivery (R : Type) := MockedIncoming R × MockedOutgoing

variable {C M : Type} [BroadcastChannel C (Outgoing (Incoming M))]

namespace Network

def withChannel (channel : C) : Network C := ⟨channel,0,0⟩

def connectNewParty [Build] (self : Network C) :
    Checked (Network C × MockedDelivery (Receiver C)) := do
  let localPartyIdx := self.nextPartyIdx
  let next ← U16.add self.nextPartyIdx 1
  let r := subscribe self.channel
  return (⟨r.1,next,self.nextMsgId⟩,⟨localPartyIdx,r.2⟩,⟨localPartyIdx⟩)

/-- Connects parties one after another. -/
def connectAll [Build] : ℕ → Network C → Checked (Network C × List (MockedDelivery (Receiver C)))
  | 0,net => .ok (net,[])
  | k + 1,net => do
    let (net,party) ← net.connectNewParty
    let (net,parties) ← connectAll k net
    return (net,party :: parties)

end Network

def MockedOutgoing.startSend (self : MockedOutgoing) (net : Network C) (msg : Outgoing M) :
    Network C × Except MockedDeliveryError Unit :=
  let msgType :=
    match msg.recipient with
    | .allParties reliable => .broadcast reliable
    | .oneParty _ => .p2p
  let r := send net.channel
    (msg.map fun m => (⟨net.nextMsgId,self.localPartyIdx,msgType,m⟩ : Incoming M))
  (⟨r.1,net.nextPartyIdx,net.nextMsgId + 1⟩,r.2.mapError fun _ => .send)

/-- The sends of connected parties in the order in which they are made, unless one fails. -/
def Network.sendAll {R : Type} (parties : List (MockedDelivery R)) :
    Network C → List (PartyIndex × Outgoing M) → Option (Network C)
  | net,[] => some net
  | net,(sender,msg) :: sends =>
    match parties[sender.toNat]? with
    | none => none
    | some (_,outgoing) =>
      match outgoing.startSend net msg with
      | (net,.ok ()) => net.sendAll parties sends
      | (_,.error _) => none

/-- An answer of the receiver to a poll. -/
abbrev Answer (M : Type) :=
  Poll (Option (Except BroadcastStreamRecvError (Outgoing (Incoming M))))

abbrev Yielded (M : Type) := Poll (Option (Except MockedDeliveryError (Incoming M)))

/-- Polls the receiver, which is about to give the answers, until there is one to pass on. -/
def MockedIncoming.pollNext {R : Type} (self : MockedIncoming R) :
    List (Answer M) → List (Answer M) × Yielded M
  | [] => ([],.pending)
  | .pending :: answers => (answers,.pending)
  | .ready (some (.ok msg)) :: answers =>
    if msg.recipient.isP2p ∧ msg.recipient ≠ .oneParty self.localPartyIdx then
      self.pollNext answers
    else (answers,.ready (some (.ok msg.msg)))
  | .ready (some (.error e)) :: answers => (answers,.ready (some (.error (.recv e))))
  | .ready none :: answers => (answers,.ready none)

/-- What a number of polls yield, and the answers that are left. -/
def MockedIncoming.pollTimes {R : Type} (self : MockedIncoming R) :
    ℕ → List (Answer M) → List (Answer M) × List (Yielded M)
  | 0,answers => (answers,[])
  | k + 1,answers =>
    let r := self.pollNext answers
    let rs := self.pollTimes k r.1
    (rs.1,r.2 :: rs.2)

/-- The item an answer brings. -/
def Answer.item? : Answer M → Option (Outgoing (Incoming M))
  | .ready (some (.ok msg)) => some msg
  | _ => none

def Yielded.msg? : Yielded M → Option (Incoming M)
  | .ready (some (.ok msg)) => some msg
  | _ => none

/-- The answers bring all the items, each once and in order. Then the channel may be closed. -/
def Lossless (answers : List (Answer M)) (items : List (Outgoing (Incoming M))) : Prop :=
  ∃ k, answers.filter (fun a => match a with | .pending => false | .ready _ => true) =
    items.map (fun x => .ready (some (.ok x))) ++ List.replicate k (.ready none)

/-! What is polled is what the answers bring for the party. -/
section Polling

variable {R : Type} {self : MockedIncoming R}

/-- The messages among the items that the party does not skip. -/
def heard (p : PartyIndex) (items : List (Outgoing (Incoming M))) : List (Incoming M) :=
  (items.filter fun x => !x.recipient.isP2p || x.recipient = .oneParty p).map Outgoing.msg

theorem heard_append (p : PartyIndex) (xs ys : List (Outgoing (Incoming M))) :
    heard p (xs ++ ys) = heard p xs ++ heard p ys := by
  simp [heard]

/-- A poll yields the next message for the party, unless the receiver has to be waited for. -/
theorem pollNext_spec (self : MockedIncoming R) (answers : List (Answer M)) :
    (self.pollNext answers).2.msg?.toList ++
        heard self.localPartyIdx ((self.pollNext answers).1.filterMap Answer.item?) =
      heard self.localPartyIdx (answers.filterMap Answer.item?) := by
  induction answers with
  | nil => rfl
  | cons a answers ih =>
    cases a with
    | pending => rfl
    | ready res =>
      cases res with
      | none => rfl
      | some res =>
        cases res with
        | error e => rfl
        | ok msg =>
          rw [MockedIncoming.pollNext]
          by_cases hskip : msg.recipient.isP2p ∧ msg.recipient ≠ .oneParty self.localPartyIdx
          · rw [if_pos hskip,ih]
            simp [Answer.item?,heard,hskip.1,hskip.2]
          · rw [if_neg hskip]
            have hfor : (!msg.recipient.isP2p || msg.recipient = .oneParty self.localPartyIdx) = true := by
              by_contra h
              simp at h
              exact hskip h
            simp [Answer.item?,Yielded.msg?,heard,hfor]

theorem pollTimes_spec (self : MockedIncoming R) (k : ℕ) (answers : List (Answer M)) :
    (self.pollTimes k answers).2.filterMap Yielded.msg? ++
        heard self.localPartyIdx ((self.pollTimes k answers).1.filterMap Answer.item?) =
      heard self.localPartyIdx (answers.filterMap Answer.item?) := by
  induction k generalizing answers with
  | zero => rfl
  | succ k ih =>
    have hstep := pollNext_spec self answers
    have hrest := ih (self.pollNext answers).1
    rw [← hstep,← hrest,← List.append_assoc]
    congr 1
    simp only [MockedIncoming.pollTimes,List.filterMap_cons]
    cases (self.pollNext answers).2.msg? <;> rfl

theorem pollTimes_subset (self : MockedIncoming R) (k : ℕ) (answers : List (Answer M)) :
    (self.pollTimes k answers).1 ⊆ answers := by
  have hstep : ∀ answers : List (Answer M), (self.pollNext answers).1 ⊆ answers := by
    intro answers
    fun_induction self.pollNext answers with
    | case1 => exact fun _ h => h
    | case3 _ _ _ ih => exact fun _ h => List.mem_cons_of_mem _ (ih h)
    | _ => exact fun _ h => List.mem_cons_of_mem _ h
  induction k generalizing answers with
  | zero => exact fun _ h => h
  | succ k ih => exact fun _ h => hstep answers (ih _ h)

theorem pollTimes_all {k : ℕ} {answers : List (Answer M)} (h : answers.length ≤ k) :
    (self.pollTimes k answers).1 = [] := by
  have hstep : ∀ answers : List (Answer M),
      (self.pollNext answers).1.length ≤ answers.length - 1 := by
    intro answers
    fun_induction self.pollNext answers with
    | case1 => exact Nat.zero_le _
    | case3 msg answers _ ih => exact Nat.le_trans ih (Nat.sub_le _ _)
    | _ => exact Nat.le_refl _
  induction k generalizing answers with
  | zero => exact List.length_eq_zero_iff.mp (Nat.le_zero.mp h)
  | succ k ih =>
    have hlt := hstep answers
    exact ih (by omega)

theorem pollTimes_error {k : ℕ} {answers : List (Answer M)} {e : MockedDeliveryError}
    (h : .ready (some (.error e)) ∈ (self.pollTimes k answers).2) :
    ∃ e', .ready (some (.error e')) ∈ answers := by
  have hstep : ∀ answers : List (Answer M),
      (self.pollNext answers).2 = .ready (some (.error e)) →
        ∃ e', .ready (some (.error e')) ∈ answers := by
    intro answers hyield
    fun_induction self.pollNext answers with
    | case3 _ _ _ ih =>
      obtain ⟨e',he'⟩ := ih hyield
      exact ⟨e',List.mem_cons_of_mem _ he'⟩
    | case5 e' answers => exact ⟨e',List.mem_cons_self ..⟩
    | _ => cases hyield
  induction k generalizing answers with
  | zero => cases h
  | succ k ih =>
    rcases List.mem_cons.mp h with hfirst | hrest
    · exact hstep answers hfirst.symm
    · obtain ⟨e',he'⟩ := ih hrest
      have hsub := pollTimes_subset self 1 answers
      exact ⟨e',hsub he'⟩

theorem Lossless.item? {answers : List (Answer M)} {items : List (Outgoing (Incoming M))}
    (h : Lossless answers items) : answers.filterMap Answer.item? = items := by
  obtain ⟨k,hk⟩ := h
  have hpending : ∀ answers : List (Answer M), answers.filterMap Answer.item? = (answers.filter
      fun a => match a with | .pending => false | .ready _ => true).filterMap Answer.item? := by
    intro answers
    induction answers with
    | nil => rfl
    | cons a answers ih => cases a <;> simp [List.filterMap_cons,Answer.item?,ih]
  have hnone : (List.replicate k (.ready none : Answer M)).filterMap Answer.item? = [] := by
    induction k with
    | zero => rfl
    | succ k ih => simp [List.replicate_succ,List.filterMap_cons,Answer.item?]
  have hitems : ∀ items : List (Outgoing (Incoming M)),
      (items.map fun x => (.ready (some (.ok x)) : Answer M)).filterMap Answer.item? = items := by
    intro items
    induction items with
    | nil => rfl
    | cons x items ih => rw [List.map_cons,List.filterMap_cons,ih]; rfl
  rw [hpending,hk,List.filterMap_append,hnone,hitems,List.append_nil]

theorem Lossless.no_error {answers : List (Answer M)} {items : List (Outgoing (Incoming M))}
    (h : Lossless answers items) (e : BroadcastStreamRecvError) :
    .ready (some (.error e)) ∉ answers := by
  obtain ⟨k,hk⟩ := h
  intro hmem
  have hready : (.ready (some (.error e)) : Answer M) ∈ answers.filter
      fun a => match a with | .pending => false | .ready _ => true :=
    List.mem_filter.mpr ⟨hmem,rfl⟩
  rw [hk,List.mem_append,List.mem_map,List.mem_replicate] at hready
  rcases hready with ⟨x,_,hx⟩ | ⟨_,hx⟩
  · cases hx
  · cases hx

end Polling

/-! What the parties send is put into the channel, in order. -/
section Sending

/-- The item is what the party of that index sent. -/
def IsSend (x : Outgoing (Incoming M)) (send : PartyIndex × Outgoing M) : Prop :=
  x.recipient = send.2.recipient ∧ x.msg.sender = send.1 ∧ x.msg.msg = send.2.msg ∧
    x.msg.msgType = match send.2.recipient with
      | .allParties reliable => .broadcast reliable
      | .oneParty _ => .p2p

variable {net net' : Network C}

theorem startSend_spec (ch : Ordered C (Outgoing (Incoming M))) (h : ch.subscribed net.channel)
    (outgoing : MockedOutgoing) (msg : Outgoing M) :
    ∃ net' x, outgoing.startSend net msg = (net',.ok ()) ∧ ch.subscribed net'.channel ∧
      ch.items net'.channel = ch.items net.channel ++ [x] ∧ IsSend x (outgoing.localPartyIdx,msg) := by
  refine ⟨(outgoing.startSend net msg).1,_,?_,ch.send_subscribed _ _ h,ch.send_items _ _ h,
    rfl,rfl,rfl,rfl⟩
  have hok := ch.send_ok net.channel (msg.map fun m => (⟨net.nextMsgId,outgoing.localPartyIdx,
    (match msg.recipient with | .allParties reliable => .broadcast reliable | .oneParty _ => .p2p),
    m⟩ : Incoming M)) h
  rw [MockedOutgoing.startSend,hok]
  rfl

theorem connectAll_spec [Build] (ch : Ordered C (Outgoing (Incoming M))) (k : ℕ)
    (hk : net.nextPartyIdx.toNat + k < 65536) :
    ∃ net' parties, net.connectAll k = .ok (net',parties) ∧ parties.length = k ∧
      ch.items net'.channel = ch.items net.channel ∧
      (ch.subscribed net.channel ∨ 0 < k → ch.subscribed net'.channel) ∧
      ∀ (j : ℕ) (party : MockedDelivery (Receiver C)), parties[j]? = some party →
        party.1.localPartyIdx.toNat = net.nextPartyIdx.toNat + j ∧
          party.2.localPartyIdx = party.1.localPartyIdx := by
  induction k generalizing net with
  | zero =>
    refine ⟨net,[],rfl,rfl,rfl,fun h => h.resolve_right (Nat.lt_irrefl 0),fun j party h => ?_⟩
    simp at h
  | succ k ih =>
    have hone : (net.nextPartyIdx + 1).toNat = net.nextPartyIdx.toNat + 1 :=
      U16.toNat_add_one (by omega)
    have hadd : U16.add net.nextPartyIdx 1 = .ok (net.nextPartyIdx + 1) := U16.add_one (by omega)
    let r := subscribe net.channel
    obtain ⟨net',parties,hrest,hlen,hitems,hsub,hidx⟩ :=
      @ih ⟨r.1,net.nextPartyIdx + 1,net.nextMsgId⟩ (by simp only [hone]; omega)
    refine ⟨net',(⟨net.nextPartyIdx,r.2⟩,⟨net.nextPartyIdx⟩) :: parties,?_,by simp [hlen],
      hitems.trans (ch.subscribe_items _),fun _ => hsub (.inl (ch.subscribe_subscribed _)),?_⟩
    · rw [Network.connectAll,Network.connectNewParty,hadd]
      simp only [bind,Except.bind,pure,Except.pure] at hrest ⊢
      rw [hrest]
    · intro j party hj
      cases j with
      | zero => cases hj; exact ⟨rfl,rfl⟩
      | succ j =>
        have hj' := hidx j party (by simpa using hj)
        simp only [hone] at hj'
        exact ⟨by omega,hj'.2⟩

theorem sendAll_spec {R : Type} (ch : Ordered C (Outgoing (Incoming M)))
    {parties : List (MockedDelivery R)}
    (hidx : ∀ (j : ℕ) (party : MockedDelivery R), parties[j]? = some party → party.2.localPartyIdx.toNat = j)
    {sends : List (PartyIndex × Outgoing M)} (hs : ∀ s ∈ sends, s.1.toNat < parties.length)
    (h : ch.subscribed net.channel) :
    ∃ net' new, net.sendAll parties sends = some net' ∧
      ch.items net'.channel = ch.items net.channel ++ new ∧ List.Forall₂ IsSend new sends := by
  induction sends generalizing net with
  | nil => exact ⟨net,[],rfl,(List.append_nil _).symm,.nil⟩
  | cons send sends ih =>
    obtain ⟨sender,msg⟩ := send
    have hlt : sender.toNat < parties.length := hs (sender,msg) (List.mem_cons_self ..)
    have hget := List.getElem?_eq_getElem hlt
    have hown : parties[sender.toNat].2.localPartyIdx = sender :=
      UInt16.toNat_inj.mp (hidx _ _ hget)
    obtain ⟨net1,x,hsend,hsub,hitems,hx⟩ := startSend_spec ch h parties[sender.toNat].2 msg
    obtain ⟨net',new,hrest,hnew,hall⟩ := ih (fun s hmem => hs s (List.mem_cons_of_mem _ hmem)) hsub
    rw [hown] at hx
    refine ⟨net',x :: new,?_,by rw [hnew,hitems,List.append_assoc]; rfl,.cons hx hall⟩
    rw [Network.sendAll,hget]
    simp only [hsend,hrest]

end Sending

end AsyncEnv
end RoundBased
