import RoundBased.AsyncSimulation
import RoundBased.OwnMessages

/-! The two simulated networks deliver the same messages: one copies a message into the queues of
its recipients, the other shows it to all and lets the recipients pick it. -/
namespace RoundBased

variable {M : Type}

theorem Appends.queue {content : ℕ → List (UInt16 × MessageType × M)} {id id' : ℕ}
    {queues queues' adds : List (List (Incoming M))}
    (h : Appends content id id' queues queues' adds) {k : ℕ} {queue : List (Incoming M)}
    (hk : queues[k]? = some queue) : ∃ queue', queues'[k]? = some queue' ∧
      queue'.map Incoming.content = queue.map Incoming.content ++ content k := by
  have hlt := (List.getElem?_eq_some_iff.mp hk).1
  have hadd : k < adds.length := by rw [h.length]; exact hlt
  refine ⟨queue ++ adds[k],?_,?_⟩
  · rw [h.queues_eq,List.getElem?_zipWith,hk,List.getElem?_eq_getElem hadd]
  · rw [List.map_append,h.content_eq k hadd]

/-! The queues of the synchronous simulation. -/
namespace MessagesQueue

/-- The sends of the parties in the order in which they are made, up to one that fails. -/
def sendAll [Build] (self : MessagesQueue M) :
    List (PartyIndex × Outgoing M) → Checked (Except SimError (MessagesQueue M))
  | [] => .ok (.ok self)
  | (sender,msg) :: sends => do
    match ← self.sendMessage sender msg with
    | (self,.ok ()) => self.sendAll sends
    | (_,.error e) => return .error e

/-- A party that receives until its queue is empty has received the messages. -/
inductive Drains (p : PartyIndex) : MessagesQueue M → List (Incoming M) → Prop
  | empty {q : MessagesQueue M} : q.recvNextMsg p = .ok (q,none) → Drains p q []
  | next {q q' : MessagesQueue M} {msg : Incoming M} {msgs : List (Incoming M)} :
      q.recvNextMsg p = .ok (q',some msg) → Drains p q' msgs → Drains p q (msg :: msgs)

theorem drains_queue {q : MessagesQueue M} {p : PartyIndex} {queue : List (Incoming M)}
    (h : q.queue[p.toNat]? = some queue) : Drains p q queue := by
  induction queue generalizing q with
  | nil => exact .empty (by simp only [recvNextMsg,h])
  | cons msg queue ih =>
    have hlt := (List.getElem?_eq_some_iff.mp h).1
    have hrecv : q.recvNextMsg p = .ok ({ q with queue := q.queue.set p.toNat queue },some msg) := by
      simp only [recvNextMsg,h]
    exact .next hrecv (ih (List.getElem?_set_self hlt))

theorem sendAll_spec [Build] {q q' : MessagesQueue M} {sends : List (PartyIndex × Outgoing M)}
    (h : q.sendAll sends = .ok (.ok q')) (hn : q.queue.length ≤ 65535) {k : ℕ}
    {queue : List (Incoming M)} (hk : q.queue[k]? = some queue) :
    ∃ queue', q'.queue[k]? = some queue' ∧ queue'.map Incoming.content =
      queue.map Incoming.content ++ sends.flatMap fun s => copies s.1 s.2 k := by
  induction sends generalizing q queue with
  | nil =>
    cases h
    exact ⟨queue,hk,by simp⟩
  | cons send sends ih =>
    obtain ⟨⟨q1,res⟩,hsend,h⟩ := Checked.bind_eq_ok.mp h
    cases res with
    | error e => cases h
    | ok u =>
      obtain ⟨adds,happ⟩ := sendMessage_ok hsend hn
      obtain ⟨queue1,hk1,hcontent1⟩ := happ.queue hk
      have hlen := sendMessage_length hsend
      obtain ⟨queue',hk',hcontent⟩ := ih h (by omega) hk1
      refine ⟨queue',hk',?_⟩
      rw [hcontent,hcontent1,List.flatMap_cons,List.append_assoc]

section Total

variable [Build] {q : MessagesQueue M} {sender : PartyIndex} {msg : Outgoing M}

theorem sendMessage_accepted {q' : MessagesQueue M} {res : Except SimError Unit}
    (hr : ∀ d, msg.recipient = .oneParty d → d.toNat < q.queue.length)
    (h : q.sendMessage sender msg = .ok (q',res)) : res = .ok () := by
  obtain ⟨recipient,m⟩ := msg
  cases recipient with
  | allParties reliable =>
    obtain ⟨⟨queue,ids⟩,_,h⟩ := Checked.bind_eq_ok.mp h
    obtain ⟨_,_,h⟩ := Checked.bind_eq_ok.mp h
    cases h
    rfl
  | oneParty d =>
    obtain ⟨next,_,h⟩ := Checked.bind_eq_ok.mp h
    rw [List.getElem?_eq_getElem (hr d rfl)] at h
    cases h
    rfl

theorem sendMessage_nextId {q' : MessagesQueue M} {res : Except SimError Unit}
    (hs : sender.toNat < q.queue.length) (hn : q.queue.length < 65535)
    (hids : q.nextId.toNat + idsTaken q.queue.length msg < 2 ^ 64)
    (hb : Build.overflowChecks = true) (h : q.sendMessage sender msg = .ok (q',res)) :
    q'.nextId.toNat ≤ q.nextId.toNat + idsTaken q.queue.length msg := by
  obtain ⟨recipient,m⟩ := msg
  cases recipient with
  | allParties reliable =>
    have hpushes := pushes_all hs
    change q.nextId.toNat + q.queue.length < 2 ^ 64 at hids
    obtain ⟨queue,ids,hpush,hlast⟩ := pushAll_first sender reliable m fun _ => ⟨hn,by omega⟩
    obtain ⟨⟨queue',ids'⟩,hpush',h⟩ := Checked.bind_eq_ok.mp h
    obtain ⟨_,_,h⟩ := Checked.bind_eq_ok.mp h
    cases h
    rw [hpush] at hpush'
    cases hpush'
    change ids.toNat ≤ q.nextId.toNat + q.queue.length
    rw [hlast hb]
    omega
  | oneParty d =>
    change q.nextId.toNat + 1 < 2 ^ 64 at hids
    have hone : (q.nextId + 1).toNat = q.nextId.toNat + 1 := U64.toNat_add_one hids
    obtain ⟨next,hnext,h⟩ := Checked.bind_eq_ok.mp h
    rw [U64.add_one_ok hnext] at h
    have hq' : q'.nextId = q.nextId + 1 := by
      cases hq : q.queue[d.toNat]? <;> rw [hq] at h <;> cases h <;> rfl
    rw [hq',hone]
    exact Nat.le_refl _

/-- How many ids the sends take at most. -/
def idsOf (n : ℕ) (sends : List (PartyIndex × Outgoing M)) : ℕ :=
  (sends.map fun s => idsTaken n s.2).sum

/-- The sends among fewer than 65535 parties are all made, as long as there are ids. -/
theorem sendAll_total {n : ℕ} (hlen : q.queue.length = n) {sends : List (PartyIndex × Outgoing M)}
    (hs : ∀ s ∈ sends, s.1.toNat < n)
    (hr : ∀ s ∈ sends, ∀ d, s.2.recipient = .oneParty d → d.toNat < n) (hn : n < 65535)
    (hids : Build.overflowChecks = true → q.nextId.toNat + idsOf n sends < 2 ^ 64) :
    ∃ q', q.sendAll sends = .ok (.ok q') := by
  induction sends generalizing q with
  | nil => exact ⟨q,rfl⟩
  | cons send sends ih =>
    obtain ⟨sender,msg⟩ := send
    subst hlen
    have hfirst : Build.overflowChecks = true →
        q.nextId.toNat + idsTaken q.queue.length msg < 2 ^ 64 := by
      intro hb
      have h := hids hb
      simp only [idsOf,List.map_cons,List.sum_cons] at h
      omega
    have hsender : sender.toNat < q.queue.length := hs (sender,msg) (List.mem_cons_self ..)
    obtain ⟨⟨q1,res⟩,hsend⟩ := sendMessage_total hsender fun hb => ⟨.inl hn,hfirst hb⟩
    have hres := sendMessage_accepted (hr (sender,msg) (List.mem_cons_self ..)) hsend
    have hlen := sendMessage_length hsend
    obtain ⟨q',hq'⟩ := ih hlen (fun s hmem => hs s (List.mem_cons_of_mem _ hmem))
      (fun s hmem => hr s (List.mem_cons_of_mem _ hmem)) fun hb => by
        have hnext := sendMessage_nextId hsender hn (hfirst hb) hb hsend
        have h := hids hb
        simp only [idsOf,List.map_cons,List.sum_cons] at h
        change q1.nextId.toNat + (sends.map fun s => idsTaken q.queue.length s.2).sum < 2 ^ 64
        omega
    refine ⟨q',?_⟩
    rw [sendAll,hsend,hres]
    exact hq'

theorem sendAll_accepted {sends : List (PartyIndex × Outgoing M)}
    (hr : ∀ s ∈ sends, ∀ d, s.2.recipient = .oneParty d → d.toNat < q.queue.length)
    {res : Except SimError (MessagesQueue M)} (h : q.sendAll sends = .ok res) :
    ∃ q', res = .ok q' := by
  induction sends generalizing q with
  | nil =>
    cases h
    exact ⟨q,rfl⟩
  | cons send sends ih =>
    obtain ⟨⟨q1,res1⟩,hsend,h⟩ := Checked.bind_eq_ok.mp h
    have hres := sendMessage_accepted (hr send (List.mem_cons_self ..)) hsend
    subst hres
    have hlen := sendMessage_length hsend
    exact ih (fun s hs d hd => hlen ▸ hr s (List.mem_cons_of_mem _ hs) d hd) h

end Total

end MessagesQueue

/-! Which of the shared messages a party picks. -/
namespace AsyncEnv

/-- A broadcast of party `p` itself. -/
def IsOwnBroadcast (p : PartyIndex) (msg : Incoming M) : Prop :=
  msg.sender = p ∧ msg.msgType ≠ .p2p

instance (p : PartyIndex) (msg : Incoming M) : Decidable (IsOwnBroadcast p msg) :=
  inferInstanceAs (Decidable (_ ∧ _))

/-- Besides its own broadcasts a party picks what the synchronous simulation copies to it. -/
theorem heard_content {p : PartyIndex} {items : List (Outgoing (Incoming M))}
    {sends : List (PartyIndex × Outgoing M)} (h : List.Forall₂ IsSend items sends) :
    ((heard p items).filter fun msg => ¬ IsOwnBroadcast p msg).map Incoming.content =
      sends.flatMap fun s => copies s.1 s.2 p.toNat := by
  induction h with
  | nil => rfl
  | @cons x send items sends hx _ ih =>
    obtain ⟨sender,recipient,m⟩ := send
    obtain ⟨r,msg⟩ := x
    obtain ⟨hr,hsender,hm,ht⟩ := hx
    simp only at hr hsender hm ht
    subst hr hsender hm
    rw [← List.singleton_append,heard_append,List.filter_append,List.map_append,ih,
      List.flatMap_cons]
    congr 1
    cases r with
    | allParties reliable =>
      simp only at ht
      by_cases hp : msg.sender = p
      · simp [heard,MessageDestination.isP2p,copies,hp,IsOwnBroadcast,ht]
      · have hne : p.toNat ≠ msg.sender.toNat := fun he => hp (UInt16.toNat_inj.mp he).symm
        simp [heard,MessageDestination.isP2p,copies,hp,hne,IsOwnBroadcast,ht,Incoming.content]
    | oneParty d =>
      simp only at ht
      by_cases hd : d = p
      · simp [heard,copies,hd,IsOwnBroadcast,ht,Incoming.content]
      · have hne : p.toNat ≠ d.toNat := fun he => hd (UInt16.toNat_inj.mp he).symm
        simp [heard,MessageDestination.isP2p,copies,hd,hne]

end AsyncEnv

/-! A round input does not look at the ids of the messages, it only reports them. -/

def Incoming.withoutId (msg : Incoming M) : Incoming M := { msg with id := 0 }

def RoundInputError.withoutIds : RoundInputError → RoundInputError
  | attemptToOverwriteReceivedMsg _ sender => attemptToOverwriteReceivedMsg (0,0) sender
  | senderIndexOutOfRange _ sender n => senderIndexOutOfRange 0 sender n
  | mismatchedMessageType _ expected actual => mismatchedMessageType 0 expected actual

def RoundMsgs.withoutIds (self : RoundMsgs M) : RoundMsgs M := { self with ids := [] }

namespace RoundInput

variable {s : RoundInput M}

def withoutIds (self : RoundInput M) : RoundInput M :=
  { self with
    messagesIds := List.replicate (self.n.toNat - 1) 0
    ids_length := List.length_replicate }

theorem addMessage_filled_error {msg : Incoming M} {m : M}
    (ht : isExpectedType s.expectedMsgType msg.msgType = true) (hi : msg.sender ≠ s.i)
    (h : s.messages[slotIndex s.i msg.sender]? = some (some m)) :
    s.addMessage msg = (s,.error (.attemptToOverwriteReceivedMsg
      (s.messagesIds.getD (slotIndex s.i msg.sender) 0,msg.id) msg.sender)) := by
  simp only [addMessage,isExpectedTypeOfMsg,ht,hi,Bool.not_true,Bool.false_eq_true,if_false]
  split <;> simp_all

theorem addMessage_outside {msg : Incoming M}
    (ht : isExpectedType s.expectedMsgType msg.msgType = true) (hi : msg.sender ≠ s.i)
    (h : s.messages[slotIndex s.i msg.sender]? = none) :
    s.addMessage msg = (s,.error (.senderIndexOutOfRange msg.id msg.sender s.n)) := by
  simp only [addMessage,isExpectedTypeOfMsg,ht,hi,Bool.not_true,Bool.false_eq_true,if_false]
  split <;> simp_all

/-- Without ids, a message does what it does with them. -/
theorem addMessage_withoutIds (s : RoundInput M) (msg : Incoming M) :
    s.withoutIds.addMessage msg.withoutId =
      ((s.addMessage msg).1.withoutIds,(s.addMessage msg).2.mapError RoundInputError.withoutIds) := by
  cases ht : isExpectedType s.expectedMsgType msg.msgType with
  | false =>
    have ht' : isExpectedType s.withoutIds.expectedMsgType msg.withoutId.msgType = false := ht
    rw [addMessage_mismatched ht,addMessage_mismatched ht']
    rfl
  | true =>
    have ht' : isExpectedType s.withoutIds.expectedMsgType msg.withoutId.msgType = true := ht
    by_cases hi : msg.sender = s.i
    · have hi' : msg.withoutId.sender = s.withoutIds.i := hi
      rw [addMessage_own ht hi,addMessage_own ht' hi']
      rfl
    have hi' : msg.withoutId.sender ≠ s.withoutIds.i := hi
    let slot := slotIndex s.i msg.sender
    have hslot : s.withoutIds.messages[slotIndex s.withoutIds.i msg.withoutId.sender]? =
        s.messages[slot]? := rfl
    cases hm : s.messages[slot]? with
    | none =>
      rw [addMessage_outside ht hi hm,addMessage_outside ht' hi' (hslot.trans hm)]
      rfl
    | some content =>
      cases content with
      | some m =>
        have hid : (List.replicate (s.n.toNat - 1) (0 : MsgId)).getD slot 0 = 0 := by
          rw [List.getD_eq_getElem?_getD,List.getElem?_replicate]
          split <;> rfl
        rw [addMessage_filled_error ht hi hm,addMessage_filled_error ht' hi' (hslot.trans hm)]
        change (s.withoutIds,Except.error (RoundInputError.attemptToOverwriteReceivedMsg
          ((List.replicate (s.n.toNat - 1) 0).getD slot 0,0) msg.sender)) = _
        rw [hid]
        rfl
      | none =>
        rw [addMessage_vacant ht hi hm,addMessage_vacant ht' hi' (hslot.trans hm)]
        refine Prod.ext ?_ rfl
        simp only [occupy,withoutIds,Incoming.withoutId]
        congr 1
        exact List.set_replicate_self

theorem results_withoutIds (s : RoundInput M) (msgs : List (Incoming M)) :
    (s.results msgs).map (fun r => (r.1.withoutId,r.2.mapError RoundInputError.withoutIds)) =
      s.withoutIds.results (msgs.map Incoming.withoutId) := by
  induction msgs generalizing s with
  | nil => rfl
  | cons msg msgs ih =>
    simp only [results,List.map_cons,addMessage_withoutIds]
    rw [ih]

theorem addAll_withoutIds (s : RoundInput M) (msgs : List (Incoming M)) :
    (s.addAll msgs).withoutIds = s.withoutIds.addAll (msgs.map Incoming.withoutId) := by
  induction msgs generalizing s with
  | nil => rfl
  | cons msg msgs ih =>
    simp only [addAll,List.foldl_cons,List.map_cons,addMessage_withoutIds] at ih ⊢
    exact ih _

theorem output_withoutIds (s : RoundInput M) :
    s.output.toOption.map RoundMsgs.withoutIds =
      s.withoutIds.output.toOption.map RoundMsgs.withoutIds := by
  unfold output withoutIds
  by_cases h : 0 < s.leftMessages
  · simp only [if_pos h]
    rfl
  · simp only [if_neg h]
    rfl

/-- The answers to the messages and what comes of them are the same, but for the ids. The
messages in `skip` are only in the first list, where they change nothing. -/
structure AnswersAlike (s : RoundInput M) (skip : Incoming M → Prop) [DecidablePred skip]
    (msgs msgs' : List (Incoming M)) : Prop where
  results : ((s.results msgs).filter fun r => ¬ skip r.1).map
      (fun r => (r.1.content,r.2.mapError RoundInputError.withoutIds)) =
    (s.results msgs').map fun r => (r.1.content,r.2.mapError RoundInputError.withoutIds)
  skipped : ∀ r ∈ s.results msgs, skip r.1 → r.2 = .ok ()
  wantsMore : (s.addAll msgs).wantsMore = (s.addAll msgs').wantsMore
  output : (s.addAll msgs).output.toOption.map RoundMsgs.withoutIds =
    (s.addAll msgs').output.toOption.map RoundMsgs.withoutIds

theorem answersAlike {skip : Incoming M → Prop} [DecidablePred skip] {msgs msgs' : List (Incoming M)}
    (hskip : ∀ msg ∈ msgs, skip msg →
      msg.sender = s.i ∧ isExpectedType s.expectedMsgType msg.msgType = true)
    (h : (msgs.filter fun msg => ¬ skip msg).map Incoming.content = msgs'.map Incoming.content) :
    AnswersAlike s skip msgs msgs' := by
  obtain ⟨hresults,hstate,hok⟩ := results_filter (s := s) (fun msg => decide (¬ skip msg))
    fun msg hmem hkeep => hskip msg hmem (by simpa using hkeep)
  have hids : (msgs.filter fun msg => ¬ skip msg).map Incoming.withoutId =
      msgs'.map Incoming.withoutId := by
    have hmap := congrArg (List.map fun c : UInt16 × MessageType × M =>
      (⟨0,c.1,c.2.1,c.2.2⟩ : Incoming M)) h
    simp only [List.map_map] at hmap
    exact hmap
  have hstates : (s.addAll msgs).withoutIds = (s.addAll msgs').withoutIds := by
    rw [hstate,addAll_withoutIds,addAll_withoutIds,hids]
  have hwants := congrArg wantsMore hstates
  refine ⟨?_,fun r hr hs => hok r hr (by simp [hs]),hwants,?_⟩
  · have hwithout := results_withoutIds s (msgs.filter fun msg => ¬ skip msg)
    rw [hids,← results_withoutIds s msgs',← hresults] at hwithout
    have hmap := congrArg (List.map fun r : Incoming M × Except RoundInputError Unit =>
      (r.1.content,r.2)) hwithout
    simp only [List.map_map] at hmap
    exact hmap
  · rw [output_withoutIds,hstates,← output_withoutIds]

end RoundInput

namespace AsyncEnv

/-- The senders and the recipients of direct messages are parties. -/
structure Admissible (n : UInt16) (sends : List (PartyIndex × Outgoing M)) : Prop where
  senders : ∀ s ∈ sends, s.1 < n
  recipients : ∀ s ∈ sends, ∀ d, s.2.recipient = .oneParty d → d < n

/-- The messages sent to no one but the party. -/
def directs (p : PartyIndex) (sends : List (PartyIndex × Outgoing M)) :
    List (UInt16 × MessageType × M) :=
  (sends.filter fun s => s.2.recipient = .oneParty p).map fun s => (s.1,.p2p,s.2.msg)

theorem copies_directs (p : PartyIndex) (sends : List (PartyIndex × Outgoing M)) :
    (sends.flatMap fun s => copies s.1 s.2 p.toNat).filter (fun c => c.2.1 = .p2p) =
      directs p sends := by
  induction sends with
  | nil => rfl
  | cons send sends ih =>
    obtain ⟨sender,recipient,m⟩ := send
    rw [List.flatMap_cons,List.filter_append,ih,directs,directs]
    cases recipient with
    | allParties reliable =>
      rw [List.filter_cons_of_neg (by simp)]
      simp only [copies]
      split <;> simp
    | oneParty d =>
      by_cases hd : d = p
      · subst hd
        rw [List.filter_cons_of_pos (by simp)]
        simp [copies]
      · have hne : p.toNat ≠ d.toNat := fun he => hd (UInt16.toNat_inj.mp he).symm
        rw [List.filter_cons_of_neg (by simp [hd])]
        simp [copies,hne]

/-- Party `p` yields `received` in the asynchronous network and receives `queue` in the
synchronous one. -/
structure SameMessages (p : PartyIndex) (sends : List (PartyIndex × Outgoing M))
    (received queue : List (Incoming M)) : Prop where
  content : (received.filter fun msg => ¬ IsOwnBroadcast p msg).map Incoming.content =
    queue.map Incoming.content
  received_directs : (received.filter fun msg => msg.msgType = .p2p).map Incoming.content =
    directs p sends
  queue_directs : (queue.filter fun msg => msg.msgType = .p2p).map Incoming.content =
    directs p sends
  answers : ∀ s : RoundInput M, s.i = p →
    (∀ msg ∈ received, IsOwnBroadcast p msg →
      isExpectedType s.expectedMsgType msg.msgType = true) →
    s.AnswersAlike (IsOwnBroadcast p) received queue

theorem sameMessages {p : PartyIndex} {sends : List (PartyIndex × Outgoing M)}
    {received queue : List (Incoming M)}
    (hr : (received.filter fun msg => ¬ IsOwnBroadcast p msg).map Incoming.content =
      sends.flatMap fun s => copies s.1 s.2 p.toNat)
    (hq : queue.map Incoming.content = sends.flatMap fun s => copies s.1 s.2 p.toNat) :
    SameMessages p sends received queue where
  content := hr.trans hq.symm
  received_directs := by
    have hdirect := congrArg (List.filter fun c => c.2.1 = .p2p) hr
    rw [copies_directs,List.filter_map,List.filter_filter] at hdirect
    rw [← hdirect]
    congr 1
    apply List.filter_congr
    intro msg _
    by_cases ht : msg.msgType = .p2p <;> simp [ht,IsOwnBroadcast,Incoming.content]
  queue_directs := by
    have hdirect := congrArg (List.filter fun c => c.2.1 = .p2p) hq
    rw [copies_directs,List.filter_map] at hdirect
    exact hdirect
  answers s hs ht := RoundInput.answersAlike
    (fun msg hmem hown => ⟨hown.1.trans hs.symm,ht msg hmem hown⟩) (hr.trans hq.symm)

variable {C : Type} [BroadcastChannel C (Outgoing (Incoming M))]

/-- Whatever is sent, a party that polls as often as its receiver has answers hears all there is to
hear: the messages that are put into its queue in the synchronous simulation, and its own broadcasts. -/
theorem same_messages [Build] (ch : Ordered C (Outgoing (Incoming M))) {channel : C}
    (hnew : ch.items channel = []) {n : UInt16} (hn : n.toNat < 65535)
    {sends : List (PartyIndex × Outgoing M)} (hsends : Admissible n sends) {p : PartyIndex}
    (hp : p < n) :
    ∃ net0 net parties incoming outgoing,
      (Network.withChannel channel).connectAll n.toNat = .ok (net0,parties) ∧
      parties.length = n.toNat ∧ parties[p.toNat]? = some (incoming,outgoing) ∧
      net0.sendAll parties sends = some net ∧
      (∀ answers k, Lossless answers (ch.items net.channel) → answers.length ≤ k →
        (incoming.pollTimes k answers).1 = [] ∧
        (∀ e, .ready (some (.error e)) ∉ (incoming.pollTimes k answers).2) ∧
        ∀ res, (MessagesQueue.new n.toNat).sendAll sends = .ok res →
          ∃ q queue, res = .ok q ∧ MessagesQueue.Drains p q queue ∧
            SameMessages p sends ((incoming.pollTimes k answers).2.filterMap Yielded.msg?) queue) ∧
      ((Build.overflowChecks = true → MessagesQueue.idsOf n.toNat sends < 2 ^ 64) →
        ∃ q, (MessagesQueue.new n.toNat).sendAll sends = .ok (.ok q)) := by
  have hpn : p.toNat < n.toNat := UInt16.lt_iff_toNat_lt.mp hp
  have hsenders : ∀ s ∈ sends, s.1.toNat < n.toNat :=
    fun s hs => UInt16.lt_iff_toNat_lt.mp (hsends.senders s hs)
  have hrecipients : ∀ s ∈ sends, ∀ d, s.2.recipient = .oneParty d → d.toNat < n.toNat :=
    fun s hs d hd => UInt16.lt_iff_toNat_lt.mp (hsends.recipients s hs d hd)
  have hlen : (MessagesQueue.new n.toNat : MessagesQueue M).queue.length = n.toNat :=
    List.length_replicate
  have hfirst : (Network.withChannel channel).nextPartyIdx.toNat = 0 := rfl
  have hroom : (Network.withChannel channel).nextPartyIdx.toNat + n.toNat < 65536 := by
    rw [hfirst]
    omega
  obtain ⟨net0,parties,hconnect,hparties,hitems0,hsub,hidx⟩ := connectAll_spec ch n.toNat hroom
  have hown : ∀ (j : ℕ) (party : MockedDelivery (Receiver C)), parties[j]? = some party →
      party.2.localPartyIdx.toNat = j := by
    intro j party hj
    obtain ⟨h1,h2⟩ := hidx j party hj
    rw [h2,h1,hfirst,Nat.zero_add]
  obtain ⟨net,items,hsend,hitems,hall⟩ := sendAll_spec ch hown
    (fun s hs => hparties.symm ▸ hsenders s hs) (hsub (.inr (Nat.zero_lt_of_lt hpn)))
  have hchannel : ch.items net.channel = items := by
    rw [hitems,hitems0]
    change ch.items channel ++ items = items
    rw [hnew,List.nil_append]
  have hget : parties[p.toNat]? = some parties[p.toNat] :=
    List.getElem?_eq_getElem (hparties.symm ▸ hpn)
  generalize parties[p.toNat] = party at hget
  obtain ⟨incoming,outgoing⟩ := party
  obtain ⟨hlocal,_⟩ := hidx _ _ hget
  have hp' : incoming.localPartyIdx = p := by
    apply UInt16.toNat_inj.mp
    rw [hlocal,hfirst,Nat.zero_add]
  refine ⟨net0,net,parties,incoming,outgoing,hconnect,hparties,hget,hsend,?_,fun hids => ?_⟩
  · intro answers k hlossless hk
    rw [hchannel] at hlossless
    have hpolled : (incoming.pollTimes k answers).1 = [] := pollTimes_all hk
    refine ⟨hpolled,fun e he => ?_,fun res hres => ?_⟩
    · obtain ⟨e',he'⟩ := pollTimes_error he
      exact hlossless.no_error e' he'
    · obtain ⟨q,rfl⟩ := MessagesQueue.sendAll_accepted
        (fun s hs d hd => hlen.symm ▸ hrecipients s hs d hd) hres
      have hempty : (MessagesQueue.new n.toNat : MessagesQueue M).queue[p.toNat]? = some [] := by
        rw [MessagesQueue.new,List.getElem?_replicate,if_pos hpn]
      obtain ⟨queue,hqueue,hcontent⟩ := MessagesQueue.sendAll_spec hres (by omega) hempty
      refine ⟨q,queue,rfl,MessagesQueue.drains_queue hqueue,sameMessages ?_ hcontent⟩
      have hheard := pollTimes_spec incoming k answers
      rw [hpolled,hlossless.item?,hp'] at hheard
      have hyields : (incoming.pollTimes k answers).2.filterMap Yielded.msg? = heard p items :=
        (List.append_nil _).symm.trans hheard
      rw [hyields,heard_content hall]
  · refine MessagesQueue.sendAll_total hlen hsenders hrecipients hn fun hb => ?_
    change 0 + _ < _
    rw [Nat.zero_add]
    exact hids hb

section Log

/-- A channel that keeps all its items. -/
structure Log (T : Type) where
  items : List T
  receivers : ℕ

instance {T : Type} : BroadcastChannel (Log T) T where
  Receiver := ℕ
  subscribe c := (⟨c.items,c.receivers + 1⟩,c.receivers)
  send c x := if c.receivers = 0 then (c,.error ()) else (⟨c.items ++ [x],c.receivers⟩,.ok ())

def Log.ordered (T : Type) : Ordered (Log T) T where
  items := Log.items
  subscribed c := c.receivers ≠ 0
  subscribe_items _ := rfl
  subscribe_subscribed c := Nat.succ_ne_zero c.receivers
  send_ok c x h := by simp [send,h]
  send_items c x h := by simp [send,h]
  send_subscribed c x h := by simp [send,h]

/-- Three parties send a broadcast, two direct messages and a message to the sender itself. -/
def mixedSends : List (PartyIndex × Outgoing ℕ) :=
  [(0,.reliableBroadcast 7),(1,.p2p 0 8),(2,.p2p 1 9),(0,.p2p 0 10),(1,.allParties 11)]

theorem mixed_sends_agree :
    letI : Build := .debug
    let ch := Log.ordered (Outgoing (Incoming ℕ))
    ∃ net0 net parties incoming outgoing q queue,
      (Network.withChannel (⟨[],0⟩ : Log (Outgoing (Incoming ℕ)))).connectAll 3 = .ok (net0,parties) ∧
      parties[0]? = some (incoming,outgoing) ∧ net0.sendAll parties mixedSends = some net ∧
      (MessagesQueue.new 3).sendAll mixedSends = .ok (.ok q) ∧ MessagesQueue.Drains 0 q queue ∧
      let answers : List (Answer ℕ) := (ch.items net.channel).map fun x => .ready (some (.ok x))
      SameMessages 0 mixedSends
        ((incoming.pollTimes answers.length answers).2.filterMap Yielded.msg?) queue := by
  let _ : Build := .debug
  let ch := Log.ordered (Outgoing (Incoming ℕ))
  have hadmissible : Admissible 3 mixedSends := by
    refine ⟨by decide,fun s hs d hd => ?_⟩
    simp only [mixedSends,List.mem_cons,List.not_mem_nil,or_false] at hs
    rcases hs with rfl | rfl | rfl | rfl | rfl <;> cases hd <;> decide
  have hempty : ch.items ⟨[],0⟩ = [] := rfl
  obtain ⟨net0,net,parties,incoming,outgoing,hconnect,_,hget,hsend,hsame,htotal⟩ :=
    same_messages ch hempty (n := 3) (by decide) hadmissible (p := 0) (by decide)
  let answers : List (Answer ℕ) := (ch.items net.channel).map fun x => .ready (some (.ok x))
  have hlossless : Lossless answers (ch.items net.channel) := by
    refine ⟨0,?_⟩
    rw [List.replicate_zero,List.append_nil]
    apply List.filter_eq_self.mpr
    intro a ha
    obtain ⟨x,_,rfl⟩ := List.mem_map.mp ha
    rfl
  obtain ⟨q,hq⟩ := htotal fun _ => by decide
  obtain ⟨_,_,h⟩ := hsame answers answers.length hlossless (Nat.le_refl _)
  obtain ⟨q',queue,heq,hdrains,hmessages⟩ := h _ hq
  cases heq
  exact ⟨net0,net,parties,incoming,outgoing,q,queue,hconnect,hget,hsend,hq,hdrains,hmessages⟩

end Log

end AsyncEnv
end RoundBased
