import RoundBased.Delivery
import RoundBased.Transition

/-! State shared by a protocol and the executor that polls it: the two message slots,
the three scheduling flags, and the futures of the protocol that set them. -/
namespace RoundBased

inductive Poll (α : Type)
  | ready (a : α)
  | pending
  deriving DecidableEq, Repr

def Poll.map {α β : Type} (f : α → β) : Poll α → Poll β
  | .ready a => .ready (f a)
  | .pending => .pending

structure SharedState (M : Type) where
  incomingMsg : Option (Incoming M)
  outgoingMsg : Option (Outgoing M)
  wantsRecvMsg : Bool
  wantsSendMsg : Bool
  yielded : Bool
  deriving DecidableEq, Repr

/-- Type guard witnessing that the state it holds has no task scheduled. -/
structure CanSchedule (M : Type) where
  state : SharedState M
  recv_unset : state.wantsRecvMsg = false
  send_unset : state.wantsSendMsg = false
  yielded_unset : state.yielded = false

variable {M : Type}

namespace SharedState

def new : SharedState M := ⟨none,none,false,false,false⟩

/-- Work can only be scheduled when no other task is scheduled. -/
def canSchedule (s : SharedState M) : Poll (CanSchedule M) :=
  if h : s.wantsRecvMsg = false ∧ s.wantsSendMsg = false ∧ s.yielded = false then
    .ready ⟨s,h.1,h.2.1,h.2.2⟩
  else .pending

/-- Puts a message into the sending slot, unless it is occupied. -/
def protocolSavesMsgToBeSent (s : SharedState M) (msg : Outgoing M) :
    SharedState M × Except (Outgoing M) Unit :=
  if s.outgoingMsg.isSome then (s,.error msg)
  else ({ s with outgoingMsg := some msg },.ok ())

/-- Takes the message to be sent, but only if flushing was requested. -/
def executorTakesOutgoingMsg [Build] (s : SharedState M) :
    Checked (SharedState M × Option (Outgoing M)) :=
  if s.wantsSendMsg then
    if Build.debugAssertions && s.outgoingMsg.isNone then .error .assertion
    else .ok ({ s with wantsSendMsg := false, outgoingMsg := none },s.outgoingMsg)
  else .ok (s,none)

def protocolWantsMoreMessages (s : SharedState M) : Bool := s.wantsRecvMsg

def executorReadsAndResetsYieldedFlag (s : SharedState M) : SharedState M × Bool :=
  ({ s with yielded := false },s.yielded)

def executorReceivedMsg (s : SharedState M) (msg : Incoming M) :
    SharedState M × Except (Incoming M) Unit :=
  if s.incomingMsg.isSome then (s,.error msg)
  else ({ s with incomingMsg := some msg, wantsRecvMsg := false },.ok ())

end SharedState

namespace CanSchedule

/-- Ready once the sending slot is emptied. -/
def protocolFlushesOutgoingMsg (self : CanSchedule M) : SharedState M × Poll Unit :=
  if self.state.outgoingMsg.isSome then ({ self.state with wantsSendMsg := true },.pending)
  else (self.state,.ready ())

def protocolNeedsOneMoreMsg (self : CanSchedule M) : SharedState M × Poll (Incoming M) :=
  match self.state.incomingMsg with
  | some msg => ({ self.state with incomingMsg := none },.ready msg)
  | none => ({ self.state with wantsRecvMsg := true },.pending)

def protocolYields (self : CanSchedule M) : SharedState M :=
  { self.state with yielded := true }

end CanSchedule

inductive DeliveryErr
  | notReady
  deriving DecidableEq, Repr

/-! The delivery is a stream of incoming and a sink of outgoing messages. -/
namespace SharedState

def pollNext (s : SharedState M) :
    SharedState M × Poll (Option (Except DeliveryErr (Incoming M))) :=
  match s.canSchedule with
  | .pending => (s,.pending)
  | .ready scheduler =>
    let r := scheduler.protocolNeedsOneMoreMsg
    (r.1,r.2.map fun msg => some (.ok msg))

def pollReady (s : SharedState M) : SharedState M × Poll (Except DeliveryErr Unit) :=
  match s.canSchedule with
  | .pending => (s,.pending)
  | .ready scheduler =>
    let r := scheduler.protocolFlushesOutgoingMsg
    (r.1,r.2.map .ok)

def startSend (s : SharedState M) (msg : Outgoing M) :
    SharedState M × Except DeliveryErr Unit :=
  let r := s.protocolSavesMsgToBeSent msg
  (r.1,r.2.mapError fun _ => .notReady)

def pollFlush (s : SharedState M) : SharedState M × Poll (Except DeliveryErr Unit) :=
  match s.canSchedule with
  | .pending => (s,.pending)
  | .ready scheduler =>
    let r := scheduler.protocolFlushesOutgoingMsg
    (r.1,r.2.map .ok)

def pollClose (s : SharedState M) : SharedState M × Poll (Except DeliveryErr Unit) :=
  (s,.ready (.ok ()))

end SharedState

/-- Future returned by `yield_now`. -/
structure YieldNow where
  yielded : Bool
  deriving DecidableEq, Repr

def YieldNow.poll (self : YieldNow) (s : SharedState M) :
    YieldNow × SharedState M × Poll Unit :=
  if self.yielded then (self,s,.ready ())
  else
    match s.canSchedule with
    | .pending => (self,s,.pending)
    | .ready scheduler => (⟨true⟩,scheduler.protocolYields,.pending)

inductive ExecutionError
  | exhausted
  | pollingUnknownFuture
  deriving DecidableEq, Repr

/-- Tells why protocol execution stopped. -/
inductive ProceedResult (O M : Type)
  | sendMsg (msg : Outgoing M)
  | needsOneMoreMessage
  | output (out : O)
  | yielded
  | error (err : ExecutionError)
  deriving DecidableEq, Repr

/-- What `proceed` does once the protocol future is pending. -/
def SharedState.proceedPending [Build] {O : Type} (s : SharedState M) :
    Checked (SharedState M × ProceedResult O M) :=
  match s.executorTakesOutgoingMsg with
  | .error p => .error p
  | .ok (s,some msg) => .ok (s,.sendMsg msg)
  | .ok (s,none) =>
    if s.protocolWantsMoreMessages then .ok (s,.needsOneMoreMessage)
    else
      match s.executorReadsAndResetsYieldedFlag with
      | (s,true) => .ok (s,.yielded)
      | (s,false) => .ok (s,.error .pollingUnknownFuture)

end RoundBased
