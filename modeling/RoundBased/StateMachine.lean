import RoundBased.Scheduling

/-! The state machine that runs a protocol poll by poll. A protocol is any resumption over
the futures of its party, and the driver calls the machine in any order. -/
namespace RoundBased
open Transition

variable {S M O : Type}

/-- What a protocol can ask its party for. -/
inductive PartyCall (M : Type)
  | send (msg : Outgoing M) | feed (msg : Outgoing M) | flush | next | yieldNow
  deriving DecidableEq, Repr

/-- What the protocol gets. -/
inductive Reply (M : Type)
  | sent (res : Except DeliveryErr Unit)
  | received (item : Option (Except DeliveryErr (Incoming M)))
  | resumed

/-- The futures of the calls. `send` holds its message until it is fed. -/
inductive PartyFuture (M : Type)
  | send (item : Option (Outgoing M)) | feed (item : Outgoing M) | flush | next
  | yieldNow (future : YieldNow)
  deriving DecidableEq, Repr

def PartyCall.future : PartyCall M → PartyFuture M
  | .send msg => .send (some msg)
  | .feed msg => .feed msg
  | .flush => .flush
  | .next => .next
  | .yieldNow => .yieldNow ⟨false⟩

namespace PartyFuture

/-- Waits for the sink to be ready and starts sending. -/
def pollFeed (item : Outgoing M) (s : SharedState M) :
    SharedState M × Poll (Except DeliveryErr Unit) :=
  match s.pollReady with
  | (s,.pending) => (s,.pending)
  | (s,.ready (.error e)) => (s,.ready (.error e))
  | (s,.ready (.ok ())) =>
    let r := s.startSend item
    (r.1,.ready r.2)

def pollFlush (future : PartyFuture M) (s : SharedState M) :
    PartyFuture M × SharedState M × Poll (Reply M) :=
  let r := s.pollFlush
  (future,r.1,r.2.map .sent)

def poll : PartyFuture M → SharedState M → PartyFuture M × SharedState M × Poll (Reply M)
  | .send (some item),s =>
    match pollFeed item s with
    | (s,.pending) => (.send (some item),s,.pending)
    | (s,.ready (.error e)) => (.send none,s,.ready (.sent (.error e)))
    | (s,.ready (.ok ())) => pollFlush (.send none) s
  | .send none,s => pollFlush (.send none) s
  | .feed item,s =>
    let r := pollFeed item s
    (.feed item,r.1,r.2.map .sent)
  | .flush,s => pollFlush .flush s
  | .next,s =>
    let r := s.pollNext
    (.next,r.1,r.2.map .received)
  | .yieldNow future,s =>
    let r := future.poll s
    (.yieldNow r.1,r.2.1,r.2.2.map fun _ => .resumed)

end PartyFuture

/-- A protocol in a state returns, or calls its party and goes on from another state. -/
inductive Resume (S M O : Type)
  | ret (out : O)
  | call (c : PartyCall M) (k : Reply M → S)

/-- The protocol is about to run from a state, or it awaits a future of its party. -/
inductive ProtocolFuture (S M : Type)
  | running (s : S)
  | awaiting (future : PartyFuture M) (k : Reply M → S)

/-- What happens between a protocol and its party. -/
inductive PartyEvent (M : Type)
  | fed (msg : Outgoing M) | flushed | handed (msg : Incoming M) | yields | resumed
  deriving DecidableEq, Repr

/-- What has happened in a poll of `before` that left `after`. -/
def PartyFuture.events (before after : PartyFuture M) : Poll (Reply M) → List (PartyEvent M)
  | .ready reply =>
    match before,reply with
    | .send (some msg),.sent (.ok ()) => [.fed msg,.flushed]
    | .send none,.sent (.ok ()) => [.flushed]
    | .flush,.sent (.ok ()) => [.flushed]
    | .feed msg,.sent (.ok ()) => [.fed msg]
    | .next,.received (some (.ok msg)) => [.handed msg]
    | .yieldNow _,.resumed => [.resumed]
    | _,_ => []
  | .pending =>
    match before,after with
    | .send (some msg),.send none => [.fed msg]
    | .yieldNow ⟨false⟩,.yieldNow ⟨true⟩ => [.yields]
    | _,_ => []

/-- Why a poll of the protocol stopped, if it did. -/
inductive Progress (O : Type)
  | goesOn | pending | returned (out : O)

/-- The protocol runs to its next call, or the future it awaits is polled. -/
def ProtocolFuture.advance (protocol : S → Resume S M O) :
    ProtocolFuture S M → SharedState M → ProtocolFuture S M × SharedState M × Progress O × List (PartyEvent M)
  | .running x,s =>
    match protocol x with
    | .ret out => (.running x,s,.returned out,[])
    | .call c k => (.awaiting c.future k,s,.goesOn,[])
  | .awaiting future k,s =>
    match future.poll s with
    | (future',s,.pending) => (.awaiting future' k,s,.pending,future.events future' .pending)
    | (future',s,.ready reply) =>
      (.running (k reply),s,.goesOn,future.events future' (.ready reply))

/-- Polls the future of the protocol, which runs until it has to wait. -/
def ProtocolFuture.poll (protocol : S → Resume S M O) : ℕ → ProtocolFuture S M → SharedState M →
    Option (ProtocolFuture S M × SharedState M × Poll O × List (PartyEvent M))
  | 0,_,_ => none
  | fuel + 1,task,s =>
    match task.advance protocol s with
    | (task,s,.returned out,es) => some (task,s,.ready out,es)
    | (task,s,.pending,es) => some (task,s,.pending,es)
    | (task,s,.goesOn,es) =>
      (task.poll protocol fuel s).map fun r => (r.1,r.2.1,r.2.2.1,es ++ r.2.2.2)

structure StateMachineImpl (S M : Type) where
  sharedState : SharedState M
  exhausted : Bool
  future : ProtocolFuture S M

def wrapProtocol (start : S) : StateMachineImpl S M := ⟨.new,false,.running start⟩

namespace StateMachineImpl

/-- Resumes the protocol. Also tells what happened between the protocol and its party. -/
def proceed [Build] (protocol : S → Resume S M O) (fuel : ℕ) (self : StateMachineImpl S M) :
    Option (Checked (StateMachineImpl S M × ProceedResult O M × List (PartyEvent M))) :=
  if self.exhausted then some (.ok (self,.error .exhausted,[]))
  else
    (self.future.poll protocol fuel self.sharedState).map fun
      | (task,s,.ready out,es) => .ok (⟨s,true,task⟩,.output out,es)
      | (task,s,.pending,es) => s.proceedPending.map fun r => (⟨r.1,self.exhausted,task⟩,r.2,es)

def receivedMsg (self : StateMachineImpl S M) (msg : Incoming M) :
    StateMachineImpl S M × Except (Incoming M) Unit :=
  let r := self.sharedState.executorReceivedMsg msg
  ({ self with sharedState := r.1 },r.2)

end StateMachineImpl

/-- A call of the driver and its result. -/
inductive DriverCall (O M : Type)
  | proceed (es : List (PartyEvent M)) (res : ProceedResult O M)
  | receivedMsg (msg : Incoming M) (res : Except (Incoming M) Unit)

/-- The machine in the hands of an arbitrary driver. -/
def driven [Build] (protocol : S → Resume S M O) (start : S) :
    System (StateMachineImpl S M) (DriverCall O M) where
  init := wrapProtocol start
  step st c st' :=
    match c with
    | .proceed es res => ∃ fuel, st.proceed protocol fuel = some (.ok (st',res,es))
    | .receivedMsg msg res => st.receivedMsg msg = (st',res)

/-- What an observer of protocol and driver sees. -/
inductive Entry (O M : Type)
  | party (e : PartyEvent M)
  | proceeded (res : ProceedResult O M)
  | accepted (msg : Incoming M)
  | rejected (msg : Incoming M)

def DriverCall.entries : DriverCall O M → List (Entry O M)
  | .proceed es res => es.map .party ++ [.proceeded res]
  | .receivedMsg msg (.ok ()) => [.accepted msg]
  | .receivedMsg msg (.error _) => [.rejected msg]

def logOf (calls : List (DriverCall O M)) : List (Entry O M) := calls.flatMap DriverCall.entries

section Log

def Entry.party? : Entry O M → Option (PartyEvent M)
  | .party e => some e
  | _ => none

def Entry.fed? : Entry O M → Option (Outgoing M)
  | .party (.fed msg) => some msg
  | _ => none

def Entry.sent? : Entry O M → Option (Outgoing M)
  | .proceeded (.sendMsg msg) => some msg
  | _ => none

def Entry.handed? : Entry O M → Option (Incoming M)
  | .party (.handed msg) => some msg
  | _ => none

def Entry.accepted? : Entry O M → Option (Incoming M)
  | .accepted msg => some msg
  | _ => none

/-- The stages of one `yield_now`. -/
inductive YieldStage
  | called | yielded | resumed
  deriving DecidableEq, Repr

def Entry.yield? : Entry O M → Option YieldStage
  | .party .yields => some .called
  | .proceeded .yielded => some .yielded
  | .party .resumed => some .resumed
  | _ => none

/-- Every message that was fed had been returned when a flush completed. -/
def FlushesCover (log : List (Entry O M)) : Prop :=
  ∀ before after, log = before ++ .party .flushed :: after →
    before.filterMap Entry.sent? = before.filterMap Entry.fed?

/-- The stages of the `yield_now` the protocol awaits. -/
def ProtocolFuture.stages (yielded : Bool) : ProtocolFuture S M → List YieldStage
  | .awaiting (.yieldNow ⟨true⟩) _ => if yielded then [.called] else [.called,.yielded]
  | _ => []

end Log

/-- The protocol by itself: every message it feeds is taken, and what it gets is what the
events say. -/
inductive Goes (protocol : S → Resume S M O) :
    ProtocolFuture S M → List (PartyEvent M) → ProtocolFuture S M → Prop
  | refl {t : ProtocolFuture S M} : Goes protocol t [] t
  | call {t : ProtocolFuture S M} {es : List (PartyEvent M)} {x : S} {c : PartyCall M}
      {k : Reply M → S} : Goes protocol t es (.running x) → protocol x = .call c k →
      Goes protocol t es (.awaiting c.future k)
  | send {t : ProtocolFuture S M} {es : List (PartyEvent M)} {msg : Outgoing M} {k : Reply M → S} :
      Goes protocol t es (.awaiting (.send (some msg)) k) →
      Goes protocol t (es ++ [.fed msg]) (.awaiting (.send none) k)
  | sent {t : ProtocolFuture S M} {es : List (PartyEvent M)} {k : Reply M → S} :
      Goes protocol t es (.awaiting (.send none) k) →
      Goes protocol t (es ++ [.flushed]) (.running (k (.sent (.ok ()))))
  | feed {t : ProtocolFuture S M} {es : List (PartyEvent M)} {msg : Outgoing M} {k : Reply M → S} :
      Goes protocol t es (.awaiting (.feed msg) k) →
      Goes protocol t (es ++ [.fed msg]) (.running (k (.sent (.ok ()))))
  | flush {t : ProtocolFuture S M} {es : List (PartyEvent M)} {k : Reply M → S} :
      Goes protocol t es (.awaiting .flush k) →
      Goes protocol t (es ++ [.flushed]) (.running (k (.sent (.ok ()))))
  | next {t : ProtocolFuture S M} {es : List (PartyEvent M)} {k : Reply M → S} (msg : Incoming M) :
      Goes protocol t es (.awaiting .next k) →
      Goes protocol t (es ++ [.handed msg]) (.running (k (.received (some (.ok msg)))))
  | yields {t : ProtocolFuture S M} {es : List (PartyEvent M)} {k : Reply M → S} :
      Goes protocol t es (.awaiting (.yieldNow ⟨false⟩) k) →
      Goes protocol t (es ++ [.yields]) (.awaiting (.yieldNow ⟨true⟩) k)
  | resumed {t : ProtocolFuture S M} {es : List (PartyEvent M)} {k : Reply M → S} :
      Goes protocol t es (.awaiting (.yieldNow ⟨true⟩) k) →
      Goes protocol t (es ++ [.resumed]) (.running (k .resumed))

/-- What the driver has seen is what the protocol has done. -/
structure Follows (protocol : S → Resume S M O) (start : S) (log : List (Entry O M))
    (t : ProtocolFuture S M) (s : SharedState M) : Prop where
  goes : Goes protocol (.running start) (log.filterMap Entry.party?) t
  sent : log.filterMap Entry.sent? ++ s.outgoingMsg.toList = log.filterMap Entry.fed?
  received : log.filterMap Entry.handed? ++ s.incomingMsg.toList = log.filterMap Entry.accepted?
  covered : FlushesCover log
  stages : ∃ m, log.filterMap Entry.yield? =
    (List.replicate m [.called,.yielded,.resumed]).flatten ++ t.stages s.yielded

/-- A protocol that runs makes its next call first. -/
def ProtocolFuture.rank : ProtocolFuture S M → ℕ
  | .running _ => 1
  | .awaiting _ _ => 0

/-- Nothing is scheduled, except that a message may be requested. -/
structure Quiet (t : ProtocolFuture S M) (s : SharedState M) : Prop where
  send_unset : s.wantsSendMsg = false
  yielded_unset : s.yielded = false
  recv : s.wantsRecvMsg = true → s.incomingMsg = none ∧ ∃ k, t = .awaiting .next k

/-- Why a pending protocol waits. -/
inductive Waits : ProtocolFuture S M → SharedState M → Prop
  | send {t : ProtocolFuture S M} {i : Option (Incoming M)} {msg : Outgoing M} :
      (∀ x, t ≠ .running x) → Waits t ⟨i,some msg,false,true,false⟩
  | recv {k : Reply M → S} {o : Option (Outgoing M)} :
      Waits (.awaiting .next k) ⟨none,o,true,false,false⟩
  | yields {k : Reply M → S} {i : Option (Incoming M)} {o : Option (Outgoing M)} :
      Waits (.awaiting (.yieldNow ⟨true⟩) k) ⟨i,o,false,false,true⟩

section Step

variable {protocol : S → Resume S M O} {start : S} {log : List (Entry O M)}
  {t : ProtocolFuture S M} {s : SharedState M} {x : S} {k : Reply M → S}

theorem filterMap_snoc {α β : Type} (f : α → Option β) (l : List α) (a : α) :
    (l ++ [a]).filterMap f = l.filterMap f ++ (f a).toList := by
  rw [List.filterMap_append]
  cases h : f a <;> simp [h]

theorem flushesCover_snoc {e : Entry O M} : FlushesCover (log ++ [e]) ↔ FlushesCover log ∧
    (e = .party .flushed → log.filterMap Entry.sent? = log.filterMap Entry.fed?) := by
  constructor
  · intro h
    refine ⟨fun before after he => h before (after ++ [e]) (by rw [he]; simp),fun he => ?_⟩
    exact h log [] (by rw [he])
  · rintro ⟨hlog,hlast⟩ before after he
    rcases after.eq_nil_or_concat with rfl | ⟨rest,a,rfl⟩
    · obtain ⟨hb,he⟩ := List.append_inj' he rfl
      rw [← hb]
      exact hlast (List.singleton_inj.mp he)
    · rw [List.concat_eq_append,← List.cons_append,← List.append_assoc] at he
      obtain ⟨hb,_⟩ := List.append_inj' he rfl
      exact hlog before rest hb

namespace Follows

variable {t' : ProtocolFuture S M} {s' : SharedState M}

theorem congr (h : Follows protocol start log t s) (hi : s'.incomingMsg = s.incomingMsg)
    (ho : s'.outgoingMsg = s.outgoingMsg) (hy : s'.yielded = s.yielded) :
    Follows protocol start log t s' where
  goes := h.goes
  sent := by rw [ho,h.sent]
  received := by rw [hi,h.received]
  covered := h.covered
  stages := by rw [hy]; exact h.stages

theorem call (h : Follows protocol start log (.running x) s) {c : PartyCall M} {k : Reply M → S}
    (hx : protocol x = .call c k) : Follows protocol start log (.awaiting c.future k) s where
  goes := h.goes.call hx
  sent := h.sent
  received := h.received
  covered := h.covered
  stages := by cases c <;> exact h.stages

/-- What one more entry has to do with the slots and the `yield_now` that is awaited. -/
theorem snoc (h : Follows protocol start log t s) (e : Entry O M)
    (hgo : Goes protocol (.running start) (log.filterMap Entry.party? ++ e.party?.toList) t')
    (hsent : e.sent?.toList ++ s'.outgoingMsg.toList = s.outgoingMsg.toList ++ e.fed?.toList)
    (hreceived : e.handed?.toList ++ s'.incomingMsg.toList =
      s.incomingMsg.toList ++ e.accepted?.toList)
    (hcover : e = .party .flushed → s.outgoingMsg = none)
    (hstages : ∃ m, t.stages s.yielded ++ e.yield?.toList =
      (List.replicate m [.called,.yielded,.resumed]).flatten ++ t'.stages s'.yielded) :
    Follows protocol start (log ++ [e]) t' s' where
  goes := by rwa [filterMap_snoc]
  sent := by
    rw [filterMap_snoc,filterMap_snoc,List.append_assoc,hsent,← List.append_assoc,h.sent]
  received := by
    rw [filterMap_snoc,filterMap_snoc,List.append_assoc,hreceived,← List.append_assoc,h.received]
  covered := by
    refine flushesCover_snoc.mpr ⟨h.covered,fun he => ?_⟩
    have hsent := h.sent
    rwa [hcover he,Option.toList_none,List.append_nil] at hsent
  stages := by
    obtain ⟨m,hm⟩ := h.stages
    obtain ⟨j,hj⟩ := hstages
    refine ⟨m + j,?_⟩
    rw [filterMap_snoc,hm,List.append_assoc,hj,← List.append_assoc,← List.flatten_append,
      List.replicate_append_replicate]

theorem silent (h : Follows protocol start log t s) (e : Entry O M) (hp : e.party? = none)
    (hsent : e.sent? = none) (hfed : e.fed? = none) (hhanded : e.handed? = none)
    (haccepted : e.accepted? = none) (hyield : e.yield? = none) :
    Follows protocol start (log ++ [e]) t s := by
  refine h.snoc e ?_ ?_ ?_ ?_ ⟨0,?_⟩
  · simpa [hp] using h.goes
  · simp [hsent,hfed]
  · simp [hhanded,haccepted]
  · rintro rfl
    cases hp
  · simp [hyield]

theorem fed (h : Follows protocol start log t s) {msg : Outgoing M}
    (ho : s.outgoingMsg = none)
    (hgo : Goes protocol (.running start) (log.filterMap Entry.party? ++ [.fed msg]) t')
    (ht : t.stages s.yielded = t'.stages s.yielded) :
    Follows protocol start (log ++ [.party (.fed msg)]) t' { s with outgoingMsg := some msg } :=
  h.snoc _ hgo (by simp [ho,Entry.sent?,Entry.fed?]) (by simp [Entry.handed?,Entry.accepted?])
    (fun he => by cases he) ⟨0,by simp [ht,Entry.yield?]⟩

theorem flushed (h : Follows protocol start log t s) (ho : s.outgoingMsg = none)
    (hgo : Goes protocol (.running start) (log.filterMap Entry.party? ++ [.flushed]) t')
    (ht : t.stages s.yielded = t'.stages s.yielded) :
    Follows protocol start (log ++ [.party .flushed]) t' s :=
  h.snoc _ hgo (by simp [Entry.sent?,Entry.fed?]) (by simp [Entry.handed?,Entry.accepted?])
    (fun _ => ho) ⟨0,by simp [ht,Entry.yield?]⟩

theorem handed (h : Follows protocol start log (.awaiting .next k) s) {msg : Incoming M}
    (hi : s.incomingMsg = some msg) :
    Follows protocol start (log ++ [.party (.handed msg)])
      (.running (k (.received (some (.ok msg))))) { s with incomingMsg := none } :=
  h.snoc _ (h.goes.next msg) (by simp [Entry.sent?,Entry.fed?])
    (by simp [hi,Entry.handed?,Entry.accepted?]) (fun he => by cases he) ⟨0,rfl⟩

theorem yields (h : Follows protocol start log (.awaiting (.yieldNow ⟨false⟩) k) s) :
    Follows protocol start (log ++ [.party .yields]) (.awaiting (.yieldNow ⟨true⟩) k)
      { s with yielded := true } :=
  h.snoc _ h.goes.yields (by simp [Entry.sent?,Entry.fed?])
    (by simp [Entry.handed?,Entry.accepted?]) (fun he => by cases he) ⟨0,rfl⟩

theorem resumed (h : Follows protocol start log (.awaiting (.yieldNow ⟨true⟩) k) s)
    (hy : s.yielded = false) :
    Follows protocol start (log ++ [.party .resumed]) (.running (k .resumed)) s :=
  h.snoc _ h.goes.resumed (by simp [Entry.sent?,Entry.fed?])
    (by simp [Entry.handed?,Entry.accepted?]) (fun he => by cases he) ⟨1,by rw [hy]; rfl⟩

theorem sendMsg (h : Follows protocol start log t s) {msg : Outgoing M}
    (ho : s.outgoingMsg = some msg) :
    Follows protocol start (log ++ [.proceeded (.sendMsg msg)]) t
      { s with wantsSendMsg := false, outgoingMsg := none } :=
  h.snoc _ (by simpa [Entry.party?] using h.goes) (by simp [ho,Entry.sent?,Entry.fed?])
    (by simp [Entry.handed?,Entry.accepted?]) (fun he => by cases he) ⟨0,by simp [Entry.yield?]⟩

theorem yielded (h : Follows protocol start log (.awaiting (.yieldNow ⟨true⟩) k) s)
    (hy : s.yielded = true) :
    Follows protocol start (log ++ [.proceeded .yielded]) (.awaiting (.yieldNow ⟨true⟩) k)
      { s with yielded := false } :=
  h.snoc _ (by simpa [Entry.party?] using h.goes) (by simp [Entry.sent?,Entry.fed?])
    (by simp [Entry.handed?,Entry.accepted?]) (fun he => by cases he) ⟨0,by rw [hy]; rfl⟩

theorem accepted (h : Follows protocol start log t s) {msg : Incoming M}
    (hi : s.incomingMsg = none) :
    Follows protocol start (log ++ [.accepted msg]) t
      { s with incomingMsg := some msg, wantsRecvMsg := false } :=
  h.snoc _ (by simpa [Entry.party?] using h.goes) (by simp [Entry.sent?,Entry.fed?])
    (by simp [hi,Entry.handed?,Entry.accepted?]) (fun he => by cases he) ⟨0,by simp [Entry.yield?]⟩

end Follows

/-- The protocol advances: it goes on, or it waits. -/
def Advancing (protocol : S → Resume S M O) (start : S) (log : List (Entry O M))
    (t : ProtocolFuture S M) (s : SharedState M) : Prop :=
  ∃ t' s' es, Follows protocol start (log ++ es.map .party) t' s' ∧
    ((t.advance protocol s = (t',s',.goesOn,es) ∧ Quiet t' s' ∧
        1 + t'.rank ≤ 2 * es.length + t.rank) ∨
      (t.advance protocol s = (t',s',.pending,es) ∧ Waits t' s'))

section Advancing

variable {i : Option (Incoming M)} {o : Option (Outgoing M)} {future : PartyFuture M}
  {k : Reply M → S}

theorem quiet_running {x : S} : Quiet (.running x) (⟨i,o,false,false,false⟩ : SharedState M) :=
  ⟨rfl,rfl,fun h => by cases h⟩

theorem advancing_of_full {msg : Outgoing M}
    (hf : Follows protocol start log (.awaiting future k) ⟨i,some msg,false,false,false⟩)
    (hadvance : (ProtocolFuture.awaiting future k).advance protocol ⟨i,some msg,false,false,false⟩ =
      (.awaiting future k,⟨i,some msg,false,true,false⟩,.pending,[])) :
    Advancing protocol start log (.awaiting future k) ⟨i,some msg,false,false,false⟩ := by
  refine ⟨_,_,[],?_,.inr ⟨hadvance,.send (by simp)⟩⟩
  rw [List.map_nil,List.append_nil]
  exact hf.congr rfl rfl rfl

theorem advancing_send {item : Option (Outgoing M)}
    (hf : Follows protocol start log (.awaiting (.send item) k) ⟨i,o,false,false,false⟩) :
    Advancing protocol start log (.awaiting (.send item) k) ⟨i,o,false,false,false⟩ := by
  cases o with
  | some msg => cases item <;> exact advancing_of_full hf rfl
  | none =>
    cases item with
    | none =>
      exact ⟨_,_,[.flushed],hf.flushed rfl hf.goes.sent rfl,.inl ⟨rfl,quiet_running,Nat.le_refl _⟩⟩
    | some item =>
      have hfed := hf.fed rfl hf.goes.send rfl
      exact ⟨.awaiting (.send none) k,⟨i,some item,false,true,false⟩,[.fed item],
        hfed.congr rfl rfl rfl,.inr ⟨rfl,.send (by simp)⟩⟩

theorem advancing_feed {item : Outgoing M}
    (hf : Follows protocol start log (.awaiting (.feed item) k) ⟨i,o,false,false,false⟩) :
    Advancing protocol start log (.awaiting (.feed item) k) ⟨i,o,false,false,false⟩ := by
  cases o with
  | some msg => exact advancing_of_full hf rfl
  | none =>
    exact ⟨_,_,[.fed item],hf.fed rfl hf.goes.feed rfl,.inl ⟨rfl,quiet_running,Nat.le_refl _⟩⟩

theorem advancing_flush
    (hf : Follows protocol start log (.awaiting .flush k) ⟨i,o,false,false,false⟩) :
    Advancing protocol start log (.awaiting .flush k) ⟨i,o,false,false,false⟩ := by
  cases o with
  | some msg => exact advancing_of_full hf rfl
  | none =>
    exact ⟨_,_,[.flushed],hf.flushed rfl hf.goes.flush rfl,.inl ⟨rfl,quiet_running,Nat.le_refl _⟩⟩

/-- Without a message it is requested, unless it was before. -/
theorem advancing_next {r : Bool} (hr : r = true → i = none)
    (hf : Follows protocol start log (.awaiting .next k) ⟨i,o,r,false,false⟩) :
    Advancing protocol start log (.awaiting .next k) ⟨i,o,r,false,false⟩ := by
  cases i with
  | none =>
    have hadvance : (ProtocolFuture.awaiting .next k).advance protocol ⟨none,o,r,false,false⟩ =
        (.awaiting .next k,⟨none,o,true,false,false⟩,.pending,[]) := by
      cases r <;> rfl
    refine ⟨.awaiting .next k,⟨none,o,true,false,false⟩,[],?_,.inr ⟨hadvance,.recv⟩⟩
    rw [List.map_nil,List.append_nil]
    exact hf.congr rfl rfl rfl
  | some msg =>
    cases r with
    | true => cases hr rfl
    | false => exact ⟨_,_,[.handed msg],hf.handed rfl,.inl ⟨rfl,quiet_running,Nat.le_refl _⟩⟩

theorem advancing_yieldNow {yielded : Bool}
    (hf : Follows protocol start log (.awaiting (.yieldNow ⟨yielded⟩) k) ⟨i,o,false,false,false⟩) :
    Advancing protocol start log (.awaiting (.yieldNow ⟨yielded⟩) k) ⟨i,o,false,false,false⟩ := by
  cases yielded with
  | false => exact ⟨_,_,[.yields],hf.yields,.inr ⟨rfl,.yields⟩⟩
  | true => exact ⟨_,_,[.resumed],hf.resumed rfl,.inl ⟨rfl,quiet_running,Nat.le_refl _⟩⟩

end Advancing

/-- The protocol returns, or it makes a call, or the future it awaits advances. -/
theorem advance_cases (hf : Follows protocol start log t s) (hq : Quiet t s) :
    (∃ x out, t = .running x ∧ protocol x = .ret out ∧
      t.advance protocol s = (t,s,.returned out,[])) ∨ Advancing protocol start log t s := by
  obtain ⟨i,o,r,w,y⟩ := s
  obtain ⟨hw,hy,hr⟩ := hq
  dsimp only at hw hy hr
  subst hw hy
  cases t with
  | running x =>
    cases hx : protocol x with
    | ret out => exact .inl ⟨x,out,rfl,hx,by simp only [ProtocolFuture.advance,hx]⟩
    | call c k =>
      refine .inr ⟨.awaiting c.future k,⟨i,o,r,false,false⟩,[],?_,.inl
        ⟨by simp only [ProtocolFuture.advance,hx],?_,Nat.le_refl _⟩⟩
      · rw [List.map_nil,List.append_nil]
        exact hf.call hx
      · refine ⟨rfl,rfl,fun h => ?_⟩
        obtain ⟨_,_,h⟩ := hr h
        cases h
  | awaiting future k =>
    right
    -- only `next` requests messages
    have hfalse : (∀ k', ProtocolFuture.awaiting future k ≠ .awaiting .next k') → r = false := by
      intro hnext
      cases r with
      | false => rfl
      | true =>
        obtain ⟨_,k',hk⟩ := hr rfl
        exact absurd hk (hnext k')
    cases future with
    | next => exact advancing_next (fun h => (hr h).1) hf
    | send item =>
      obtain rfl := hfalse fun k' hk => by cases hk
      exact advancing_send hf
    | feed item =>
      obtain rfl := hfalse fun k' hk => by cases hk
      exact advancing_feed hf
    | flush =>
      obtain rfl := hfalse fun k' hk => by cases hk
      exact advancing_flush hf
    | yieldNow future =>
      obtain rfl := hfalse fun k' hk => by cases hk
      exact advancing_yieldNow hf

/-- A whole poll, by induction on the fuel. -/
theorem poll_cases (fuel : ℕ) (hf : Follows protocol start log t s) (hq : Quiet t s) :
    (t.poll protocol fuel s = none ∧ ∃ (t' : ProtocolFuture S M) (s' : SharedState M)
        (es : List (PartyEvent M)),
      Follows protocol start (log ++ es.map .party) t' s' ∧ fuel ≤ 2 * es.length + t.rank) ∨
    ∃ (t' : ProtocolFuture S M) (s' : SharedState M) (es : List (PartyEvent M)),
      Follows protocol start (log ++ es.map .party) t' s' ∧
      ((∃ x out, t' = .running x ∧ protocol x = .ret out ∧ Quiet t' s' ∧
        t.poll protocol fuel s = some (t',s',.ready out,es)) ∨
      (Waits t' s' ∧ t.poll protocol fuel s = some (t',s',.pending,es))) := by
  induction fuel generalizing t s log with
  | zero =>
    refine .inl ⟨rfl,t,s,[],?_,Nat.zero_le _⟩
    rw [List.map_nil,List.append_nil]
    exact hf
  | succ fuel ih =>
    rcases advance_cases hf hq with ⟨x,out,rfl,hx,hadv⟩ | ⟨t1,s1,es1,hf1,⟨hadv,hq1,hrank⟩ | ⟨hadv,hw⟩⟩
    · refine .inr ⟨_,s,[],?_,.inl ⟨x,out,rfl,hx,hq,by simp only [ProtocolFuture.poll,hadv]⟩⟩
      rw [List.map_nil,List.append_nil]
      exact hf
    · have happend : ∀ es : List (PartyEvent M), log ++ es1.map Entry.party ++ es.map .party =
          log ++ (es1 ++ es).map Entry.party := by
        intro es
        rw [List.map_append,List.append_assoc]
      rcases ih hf1 hq1 with ⟨hpoll,t',s',es,hf',hfuel⟩ | ⟨t',s',es,hf',hcases⟩
      · refine .inl ⟨by simp only [ProtocolFuture.poll,hadv,hpoll,Option.map_none],t',s',es1 ++ es,?_,?_⟩
        · rwa [← happend]
        · rw [List.length_append]
          omega
      · rw [happend] at hf'
        refine .inr ⟨t',s',es1 ++ es,hf',?_⟩
        rcases hcases with ⟨x,out,hx,hret,hq',hpoll⟩ | ⟨hw,hpoll⟩
        · exact .inl ⟨x,out,hx,hret,hq',by simp only [ProtocolFuture.poll,hadv,hpoll,Option.map_some]⟩
        · exact .inr ⟨hw,by simp only [ProtocolFuture.poll,hadv,hpoll,Option.map_some]⟩
    · exact .inr ⟨t1,s1,es1,hf1,.inr ⟨hw,by simp only [ProtocolFuture.poll,hadv]⟩⟩

theorem Waits.proceedPending [Build] (hw : Waits t s) (hf : Follows protocol start log t s) :
    ∃ (s' : SharedState M) (res : ProceedResult O M), s.proceedPending = .ok (s',res) ∧
      Follows protocol start (log ++ [.proceeded res]) t s' ∧ Quiet t s' ∧
      (res = .needsOneMoreMessage → (∃ k, t = .awaiting .next k) ∧ s'.incomingMsg = none) ∧
      (∀ out, res ≠ .output out) ∧ ∀ err, res ≠ .error err := by
  cases hw with
  | send hrun =>
    rename_i i msg
    refine ⟨⟨i,none,false,false,false⟩,.sendMsg msg,?_,hf.sendMsg rfl,⟨rfl,rfl,fun h => (by cases h)⟩,
      fun h => (by cases h),fun out h => (by cases h),fun err h => (by cases h)⟩
    simp [SharedState.proceedPending,SharedState.executorTakesOutgoingMsg]
  | recv =>
    rename_i k o
    refine ⟨_,.needsOneMoreMessage,rfl,hf.silent _ rfl rfl rfl rfl rfl rfl,?_,fun _ => ⟨⟨k,rfl⟩,rfl⟩,
      fun out h => (by cases h),fun err h => (by cases h)⟩
    exact ⟨rfl,rfl,fun _ => ⟨rfl,k,rfl⟩⟩
  | yields =>
    refine ⟨_,.yielded,rfl,hf.yielded rfl,⟨rfl,rfl,fun h => (by cases h)⟩,
      fun h => (by cases h),fun out h => (by cases h),fun err h => (by cases h)⟩

/-- What the result of `proceed` tells about the state before and after. -/
structure Answers (protocol : S → Resume S M O) (st : StateMachineImpl S M)
    (res : ProceedResult O M) (st' : StateMachineImpl S M) : Prop where
  requested : res = .needsOneMoreMessage → (∃ k, st'.future = .awaiting .next k) ∧
    st'.sharedState.incomingMsg = none ∧ ∀ msg, (st'.receivedMsg msg).2 = .ok ()
  output : ∀ out, res = .output out ↔
    st.exhausted = false ∧ ∃ x, st'.future = .running x ∧ protocol x = .ret out
  exhausted : st'.exhausted = true ↔ st.exhausted = true ∨ ∃ out, res = .output out
  error : ∀ err, res = .error err ↔ st.exhausted = true ∧ err = .exhausted
  unchanged : st.exhausted = true → st' = st

/-- One `proceed`, with any fuel. -/
theorem proceed_cases [Build] (fuel : ℕ) {st : StateMachineImpl S M}
    (hf : Follows protocol start log st.future st.sharedState)
    (hq : Quiet st.future st.sharedState) :
    (st.proceed protocol fuel = none ∧ ∃ (t' : ProtocolFuture S M) (s' : SharedState M)
        (es : List (PartyEvent M)),
      Follows protocol start (log ++ es.map .party) t' s' ∧ fuel ≤ 2 * es.length + 1) ∨
    ∃ (st' : StateMachineImpl S M) (res : ProceedResult O M) (es : List (PartyEvent M)),
      st.proceed protocol fuel = some (.ok (st',res,es)) ∧
      Follows protocol start (log ++ (es.map .party ++ [.proceeded res])) st'.future st'.sharedState ∧
      Quiet st'.future st'.sharedState ∧ Answers protocol st res st' := by
  cases hex : st.exhausted with
  | true =>
    refine .inr ⟨st,.error .exhausted,[],by simp only [StateMachineImpl.proceed,hex,if_true],
      hf.silent _ rfl rfl rfl rfl rfl rfl,hq,⟨fun h => (by cases h),fun out => ?_,?_,fun err => ?_,
      fun _ => rfl⟩⟩
    · simp [hex]
    · simp [hex]
    · simp [hex,eq_comm]
  | false =>
    rcases poll_cases fuel hf hq with ⟨hpoll,t',s',es,hf',hfuel⟩ | ⟨t',s',es,hf',hcases⟩
    · refine .inl ⟨by simp [StateMachineImpl.proceed,hex,hpoll],t',s',es,hf',?_⟩
      have hrank : st.future.rank ≤ 1 := by
        cases st.future <;> simp [ProtocolFuture.rank]
      omega
    · right
      rcases hcases with ⟨x,out,rfl,hret,hq',hpoll⟩ | ⟨hw,hpoll⟩
      · refine ⟨⟨s',true,.running x⟩,.output out,es,by simp [StateMachineImpl.proceed,hex,hpoll],
          ?_,hq',⟨fun h => (by cases h),fun out' => ?_,?_,fun err => ?_,fun h => (by simp [hex] at h)⟩⟩
        · rw [← List.append_assoc]
          exact hf'.silent _ rfl rfl rfl rfl rfl rfl
        · simp [hex,hret]
        · simp
        · simp [hex]
      · obtain ⟨s1,res,hpend,hf1,hq1,hneeds,hout,herr⟩ := hw.proceedPending hf'
        refine ⟨⟨s1,false,t'⟩,res,es,by simp [StateMachineImpl.proceed,hex,hpoll,hpend,Except.map],
          ?_,hq1,⟨fun h => ?_,fun out => ?_,?_,fun err => ?_,fun h => (by simp [hex] at h)⟩⟩
        · rw [← List.append_assoc]
          exact hf1
        · obtain ⟨hk,hi⟩ := hneeds h
          refine ⟨hk,hi,fun msg => ?_⟩
          simp [StateMachineImpl.receivedMsg,SharedState.executorReceivedMsg,hi]
        · refine ⟨fun h => absurd h (hout out),fun ⟨_,x,hx,_⟩ => ?_⟩
          dsimp only at hx
          subst hx
          cases hw with
          | send hrun => exact absurd rfl (hrun x)
        · simp [hex,hout]
        · simp [hex,herr]

/-- One `received_msg`: the message is stored, or returned and nothing changes. -/
theorem receivedMsg_cases {st : StateMachineImpl S M}
    (hf : Follows protocol start log st.future st.sharedState)
    (hq : Quiet st.future st.sharedState) (msg : Incoming M) :
    ((st.receivedMsg msg).2 = .ok () ∧
      Follows protocol start (log ++ [.accepted msg]) st.future (st.receivedMsg msg).1.sharedState ∧
      Quiet st.future (st.receivedMsg msg).1.sharedState) ∨
    st.receivedMsg msg = (st,.error msg) := by
  cases hi : st.sharedState.incomingMsg with
  | none =>
    left
    simp only [StateMachineImpl.receivedMsg,SharedState.executorReceivedMsg,hi,Option.isSome_none,
      Bool.false_eq_true,if_false]
    exact ⟨trivial,hf.accepted hi,⟨hq.send_unset,hq.yielded_unset,fun h => by cases h⟩⟩
  | some m =>
    right
    simp [StateMachineImpl.receivedMsg,SharedState.executorReceivedMsg,hi]

end Step

theorem logOf_snoc (calls : List (DriverCall O M)) (c : DriverCall O M) :
    logOf (calls ++ [c]) = logOf calls ++ c.entries := by
  simp [logOf]

theorem follows_wrapProtocol (protocol : S → Resume S M O) (start : S) :
    Follows protocol start ([] : List (Entry O M)) (wrapProtocol start : StateMachineImpl S M).future
      (wrapProtocol start : StateMachineImpl S M).sharedState ∧
    Quiet (wrapProtocol start : StateMachineImpl S M).future
      (wrapProtocol start : StateMachineImpl S M).sharedState := by
  refine ⟨⟨.refl,rfl,rfl,fun before after he => ?_,⟨0,rfl⟩⟩,rfl,rfl,fun h => (by cases h)⟩
  cases before <;> cases he

/-- Whatever the driver does: it sees every message that was fed, except for one that is
fed and not flushed yet, and the protocol gets every message that was accepted, except for
one that it has not asked for yet. -/
theorem drives_protocol [Build] (protocol : S → Resume S M O) (start : S)
    {calls : List (DriverCall O M)} {st : StateMachineImpl S M}
    (h : Run (driven protocol start) (driven protocol start).init calls st) :
    Follows protocol start (logOf calls) st.future st.sharedState ∧
    (∀ fuel, (∃ st' res es, st.proceed protocol fuel = some (.ok (st',res,es)) ∧
        Answers protocol st res st') ∨
      st.proceed protocol fuel = none ∧ ∃ es t, fuel ≤ 2 * es.length + 1 ∧
        Goes protocol (.running start) ((logOf calls).filterMap Entry.party? ++ es) t) ∧
    ∀ msg, (st.receivedMsg msg).2 = .ok () ∨ st.receivedMsg msg = (st,.error msg) := by
  have hinv : Follows protocol start (logOf calls) st.future st.sharedState ∧
      Quiet st.future st.sharedState := by
    apply h.invariant (P := fun calls st => Follows protocol start (logOf calls) st.future
      st.sharedState ∧ Quiet st.future st.sharedState)
    · exact follows_wrapProtocol protocol start
    · rintro calls st c st' _ ⟨hf,hq⟩ hstep
      rw [logOf_snoc]
      cases c with
      | proceed es res =>
        obtain ⟨fuel,hproceed⟩ := hstep
        rcases proceed_cases fuel hf hq with ⟨hnone,_⟩ | ⟨_,_,_,hsome,hf',hq',_⟩
        · rw [hnone] at hproceed
          cases hproceed
        · rw [hsome] at hproceed
          cases hproceed
          exact ⟨hf',hq'⟩
      | receivedMsg msg res =>
        have hres : st.receivedMsg msg = (st',res) := hstep
        rcases receivedMsg_cases hf hq msg with ⟨hok,hf',hq'⟩ | hsame
        · rw [hres] at hok hf' hq'
          cases hok
          have hfuture : st'.future = st.future := congrArg (fun r => r.1.future) hres.symm
          rw [hfuture]
          exact ⟨hf',hq'⟩
        · rw [hres] at hsame
          cases hsame
          exact ⟨hf.silent _ rfl rfl rfl rfl rfl rfl,hq⟩
  obtain ⟨hf,hq⟩ := hinv
  refine ⟨hf,fun fuel => ?_,fun msg => ?_⟩
  · rcases proceed_cases fuel hf hq with ⟨hnone,t,s,es,hf',hfuel⟩ | ⟨st',res,es,hsome,_,_,ha⟩
    · refine .inr ⟨hnone,es,t,hfuel,?_⟩
      have hgoes := hf'.goes
      rw [List.filterMap_append,List.filterMap_map] at hgoes
      have hparty : es.filterMap (Entry.party? ∘ (Entry.party : PartyEvent M → Entry O M)) = es :=
        List.filterMap_some
      rwa [hparty] at hgoes
    · exact .inl ⟨st',res,es,hsome,ha⟩
  · rcases receivedMsg_cases hf hq msg with ⟨hok,_⟩ | hsame
    · exact .inl hok
    · exact .inr hsame

/-- The protocol makes one call and returns. -/
def callOnce (c : PartyCall ℕ) : Bool → Resume Bool ℕ Unit
  | true => .call c fun _ => false
  | false => .ret ()

/-- A message that is fed without a flush and one that was not asked for. -/
theorem unflushed_msg_lost :
    letI : Build := .debug
    ∃ (st : StateMachineImpl Bool ℕ) (msg : Incoming ℕ),
    Run (driven (callOnce (.feed (.allParties 7))) true) (wrapProtocol true)
      [.receivedMsg msg (.ok ()),.proceed [.fed (.allParties 7)] (.output ())] st ∧
    st.exhausted = true ∧
    ∀ log : List (Entry Unit ℕ), log = logOf [.receivedMsg msg (.ok ()),
        .proceed [.fed (.allParties 7)] (.output ())] →
      log.filterMap Entry.sent? ≠ log.filterMap Entry.fed? ∧
      log.filterMap Entry.handed? ≠ log.filterMap Entry.accepted? := by
  let _ : Build := .debug
  let msg : Incoming ℕ := ⟨0,1,.p2p,5⟩
  let st : StateMachineImpl Bool ℕ := ⟨⟨some msg,none,false,false,false⟩,false,.running true⟩
  refine ⟨⟨⟨some msg,some (.allParties 7),false,false,false⟩,true,.running false⟩,msg,?_,rfl,?_⟩
  · have hreceived : Run (driven (callOnce (.feed (.allParties 7))) true) (wrapProtocol true)
        [.receivedMsg msg (.ok ())] st := Run.snoc .refl rfl
    exact .snoc hreceived ⟨3,rfl⟩
  · rintro log rfl
    decide

/-- A message that is sent is returned before the protocol. -/
theorem drives_protocol_send :
    letI : Build := .debug
    ∃ st : StateMachineImpl Bool ℕ,
      Run (driven (callOnce (.send (.allParties 7))) true) (wrapProtocol true)
        [.proceed [.fed (.allParties 7)] (.sendMsg (.allParties 7)),
          .proceed [.flushed] (.output ())] st ∧
      Follows (callOnce (.send (.allParties 7))) true
        (logOf [.proceed [.fed (.allParties 7)] (.sendMsg (.allParties 7)),
          .proceed [.flushed] (.output ())]) st.future st.sharedState := by
  let _ : Build := .debug
  let sent : StateMachineImpl Bool ℕ :=
    ⟨⟨none,none,false,false,false⟩,false,.awaiting (.send none) fun _ => false⟩
  let done : StateMachineImpl Bool ℕ := ⟨⟨none,none,false,false,false⟩,true,.running false⟩
  have hsent : Run (driven (callOnce (.send (.allParties 7))) true) (wrapProtocol true)
      [.proceed [.fed (.allParties 7)] (.sendMsg (.allParties 7))] sent :=
    Run.snoc .refl ⟨2,rfl⟩
  have hdone : Run (driven (callOnce (.send (.allParties 7))) true) (wrapProtocol true)
      [.proceed [.fed (.allParties 7)] (.sendMsg (.allParties 7)),
        .proceed [.flushed] (.output ())] done :=
    .snoc hsent ⟨2,rfl⟩
  exact ⟨done,hdone,(drives_protocol _ _ hdone).1⟩

end RoundBased
