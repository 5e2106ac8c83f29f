import RoundBased.EchoMsg
import RoundBased.RoundInput

/-! Stores of a reliable broadcast round: the main round records what it received, the echo
round collects the hashes of the others. -/
namespace RoundBased
namespace EchoBroadcast

inductive Reason
  | storeReceivedTwoMsgsFromSameParty
  | receivedMainMsgWhenRoundOver
  | unknownSender (i : UInt16) (n : ℕ)
  | ownIndexOutOfBounds (i : UInt16) (n : ℕ)
  | mainRoundFinishedButStoreDoesntOutput
  | handleEcho (err : RoundInputError)
  | mismatchedHash
  | stateGone
  | unexpectedMainRoundState
  | roundMsgClone
  | sendTwice
  | sentMsgFromProto
  | sentNonReliableMsgInReliableRound (dest : MessageDestination) (round : UInt16)
  | sentReliableMsgInNonReliableRound (round : UInt16)
  deriving DecidableEq, Repr

/-- An error in the echo broadcast sub-protocol. -/
structure EchoError where
  reason : Reason
  deriving DecidableEq, Repr

def EchoError.reliabilityCheckFailed (self : EchoError) : Bool :=
  self.reason = .mismatchedHash

/-- An error originated either from the main protocol or from the echo broadcast. -/
inductive Error (E : Type)
  | main (err : E)
  | echo (err : EchoError)
  deriving DecidableEq, Repr

def Error.ofReason {E : Type} (reason : Reason) : Error E := .echo ⟨reason⟩

def TAG : String := "dfns.round_based.echo_broadcast"

/-- What is hashed: all messages of a round, by the index of the sender. -/
structure HashInput (M : Type) where
  tag : String
  msgs : List (Option M)
  round : UInt16
  n : UInt16
  deriving DecidableEq

/-- The hash function. -/
class Digest (H M : Type) where
  hash : HashInput M → H

/-- What is hashed is a digest of itself, without collisions. -/
instance (M : Type) : Digest (HashInput M) M := ⟨id⟩

structure Params where
  i : UInt16
  n : UInt16
  deriving DecidableEq, Repr

variable {H M S : Type} [RoundStore S]

inductive MainRoundState (S : Type) [RoundStore S]
  | ongoing (store : S)
  | output (out : RoundInfo.Output S)
  | finished
  | gone

/-- Store of a main round, with the received messages by the index of the sender. -/
structure MainRound (H M S : Type) [RoundStore S] where
  params : Params
  state : MainRoundState S
  receivedMsgs : List (Option M)

/-- Output of a main round, from which the hash to be sent is computed. -/
structure NeedsOwnMsg (H M S : Type) [RoundStore S] where
  params : Params
  mainRoundOutput : RoundInfo.Output S
  receivedMsgs : List (Option M)

/-- Output of a main round, to be released when all hashes match. -/
structure ReliabilityCheck (H S : Type) [RoundStore S] where
  expectedHash : H
  mainRoundOutput : RoundInfo.Output S

/-- Store of an echo round. -/
structure EchoRound (H S : Type) where
  echoRound : RoundInput H

structure EchoRoundOutput (H S : Type) where
  receivedEchoes : RoundMsgs H

/-- The two stores a reliable broadcast round is split into. -/
def newStores (i n : UInt16) (mainRound : S) : Checked (MainRound H M S × EchoRound H S) :=
  let params := ⟨i,n⟩
  let state :=
    match output mainRound with
    | .ok out => .output out
    | .error store => .ongoing store
  let mainRound := ⟨params,state,List.replicate n.toNat none⟩
  (RoundInput.broadcast i n).map fun echoRound => (mainRound,⟨echoRound⟩)

namespace MainRound

/-- Replaces a store that wants no more messages by its output. -/
def finish (self : MainRound H M S) : MainRound H M S × Except (Error (RoundInfo.Error S)) Unit :=
  match self.state with
  | .ongoing store =>
    match output store with
    | .ok out => ({ self with state := .output out },.ok ())
    | .error _ => ({ self with state := .finished },
        .error (.ofReason .mainRoundFinishedButStoreDoesntOutput))
  | _ => ({ self with state := .gone },.error (.ofReason .unexpectedMainRoundState))

/-- Records the message of a sender that has no message yet. -/
def record [RoundMsg M (RoundInfo.Msg S)] (self : MainRound H M S)
    (incoming : Incoming (RoundInfo.Msg S)) :
    MainRound H M S × Except (Error (RoundInfo.Error S)) Unit :=
  let n := self.receivedMsgs.length
  match self.receivedMsgs[incoming.sender.toNat]? with
  | none => (self,.error (.ofReason (.unknownSender incoming.sender n)))
  | some (some _) => (self,.error (.ofReason .storeReceivedTwoMsgsFromSameParty))
  | some none => ({ self with
      receivedMsgs := self.receivedMsgs.set incoming.sender.toNat
        (some (toProtocolMsg incoming.msg)) },.ok ())

def addMessage [RoundMsg M (RoundInfo.Msg S)] (self : MainRound H M S)
    (incoming : Incoming (RoundInfo.Msg S)) :
    MainRound H M S × Except (Error (RoundInfo.Error S)) Unit :=
  match self.state with
  | .ongoing store =>
    -- we pretend that the message was reliably broadcasted
    let incoming := { incoming with msgType := .broadcast true }
    match cloneIncomingRoundMsg M incoming with
    | none => (self,.error (.ofReason .roundMsgClone))
    | some (incoming1,incoming2) =>
      match RoundStore.addMessage store incoming1 with
      | (store,.error e) => ({ self with state := .ongoing store },.error (.main e))
      | (store,.ok ()) =>
        match ({ self with state := .ongoing store } : MainRound H M S).record incoming2 with
        | (self,.error e) => (self,.error e)
        | (self,.ok ()) => if RoundStore.wantsMore store then (self,.ok ()) else self.finish
  | .gone => (self,.error (.ofReason .stateGone))
  | .output _ | .finished => (self,.error (.ofReason .receivedMainMsgWhenRoundOver))

def wantsMore (self : MainRound H M S) : Bool :=
  match self.state with
  | .ongoing _ => true
  | _ => false

def output (self : MainRound H M S) : Except (MainRound H M S) (NeedsOwnMsg H M S) :=
  match self.state with
  | .output out => .ok ⟨self.params,out,self.receivedMsgs⟩
  | state => .error { self with state := state }

instance [RoundMsg M (RoundInfo.Msg S)] : RoundStore (MainRound H M S) where
  Msg := RoundInfo.Msg S
  Output := NeedsOwnMsg H M S
  Error := Error (RoundInfo.Error S)
  addMessage := addMessage
  wantsMore := wantsMore
  output := output

end MainRound

/-- Completes the received messages with the own one and hashes them. -/
def NeedsOwnMsg.withMyMsg [RoundMsg M (RoundInfo.Msg S)] [Digest H M]
    (self : NeedsOwnMsg H M S) (msg : Option (RoundInfo.Msg S)) :
    Except EchoError (ReliabilityCheck H S × H) :=
  let n := self.receivedMsgs.length
  let i := self.params.i
  if i.toNat < n then
    let hash := Digest.hash {
      tag := TAG
      msgs := self.receivedMsgs.set i.toNat (msg.map (toProtocolMsg (M := M)))
      round := RoundMsg.ROUND M (RoundInfo.Msg S)
      n := self.params.n }
    .ok (⟨hash,self.mainRoundOutput⟩,hash)
  else .error ⟨.ownIndexOutOfBounds i n⟩

def ReliabilityCheck.withEchoOutput [DecidableEq H] (self : ReliabilityCheck H S)
    (echoOutput : EchoRoundOutput H S) : Except EchoError (RoundInfo.Output S) :=
  if echoOutput.receivedEchoes.messages.any (fun h => h ≠ self.expectedHash) then
    .error ⟨.mismatchedHash⟩
  else .ok self.mainRoundOutput

namespace EchoRound

instance : RoundStore (EchoRound H S) where
  Msg := EchoMsg H (RoundInfo.Msg S)
  Output := EchoRoundOutput H S
  Error := EchoError
  addMessage self msg :=
    let r := self.echoRound.addMessage (msg.map EchoMsg.hash)
    (⟨r.1⟩,r.2.mapError fun e => ⟨.handleEcho e⟩)
  wantsMore self := self.echoRound.wantsMore
  output self :=
    match self.echoRound.output with
    | .ok receivedEchoes => .ok ⟨receivedEchoes⟩
    | .error echoRound => .error ⟨echoRound⟩

end EchoRound

/-- Wraps a store and changes its messages to `Main`. -/
structure WithMainMsg (S : Type) where
  store : S

instance : RoundStore (WithMainMsg S) where
  Msg := Main (RoundInfo.Msg S)
  Output := RoundInfo.Output S
  Error := RoundInfo.Error S
  addMessage self msg :=
    let r := addMessage self.store (msg.map Main.msg)
    (⟨r.1⟩,r.2)
  wantsMore self := wantsMore self.store
  output self := (output self.store).mapError .mk

/-- Wraps a store and changes its errors to `Error`. -/
structure WithError (S : Type) where
  store : S

instance : RoundStore (WithError S) where
  Msg := RoundInfo.Msg S
  Output := RoundInfo.Output S
  Error := Error (RoundInfo.Error S)
  addMessage self msg :=
    let r := addMessage self.store msg
    (⟨r.1⟩,r.2.mapError .main)
  wantsMore self := wantsMore self.store
  output self := (output self.store).mapError .mk

/-- The store has the errors of the echo broadcast. -/
class HasEchoError (S : Type) [RoundStore S] : Prop where
  error_eq : RoundInfo.Error S = EchoError

instance : HasEchoError (EchoRound H S) := ⟨rfl⟩

instance [HasEchoError S] : HasEchoError (WithMainMsg S) := ⟨HasEchoError.error_eq (S := S)⟩

instance {P : Type} [Property P] [HasEchoError S] : HasEchoError (WithProp P S) :=
  ⟨HasEchoError.error_eq (S := S)⟩

/-- Wraps a store that has the errors of the echo broadcast, and changes them to `Error`. -/
structure WithEchoError (S E : Type) where
  store : S

instance [HasEchoError S] {E : Type} : RoundStore (WithEchoError S E) where
  Msg := RoundInfo.Msg S
  Output := RoundInfo.Output S
  Error := Error E
  addMessage self msg :=
    let r := addMessage self.store msg
    (⟨r.1⟩,r.2.mapError fun e => .echo (cast HasEchoError.error_eq e))
  wantsMore self := wantsMore self.store
  output self := (output self.store).mapError .mk

end EchoBroadcast
end RoundBased
