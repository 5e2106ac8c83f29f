import RoundBased.Checked

/-! Messages as the delivery layer carries them. -/
namespace RoundBased

/-- Index of a party involved in the protocol. -/
abbrev PartyIndex := UInt16

/-- Identifier the delivery layer gives to a received message. -/
abbrev MsgId := UInt64

inductive MessageType
  | broadcast (reliable : Bool)
  | p2p
  deriving DecidableEq, Repr

structure Incoming (M : Type) where
  id : MsgId
  sender : PartyIndex
  msgType : MessageType
  msg : M
  deriving DecidableEq, Repr

namespace Incoming

variable {M T E : Type}

def map (self : Incoming M) (f : M → T) : Incoming T :=
  ⟨self.id,self.sender,self.msgType,f self.msg⟩

def tryMap (self : Incoming M) (f : M → Except E T) : Except E (Incoming T) :=
  match f self.msg with
  | .ok msg => .ok ⟨self.id,self.sender,self.msgType,msg⟩
  | .error e => .error e

@[simp] theorem map_id (self : Incoming M) (f : M → T) : (self.map f).id = self.id := rfl
@[simp] theorem map_sender (self : Incoming M) (f : M → T) :
    (self.map f).sender = self.sender := rfl
@[simp] theorem map_msgType (self : Incoming M) (f : M → T) :
    (self.map f).msgType = self.msgType := rfl
@[simp] theorem map_msg (self : Incoming M) (f : M → T) : (self.map f).msg = f self.msg := rfl

end Incoming

inductive MessageDestination
  | allParties (reliable : Bool)
  | oneParty (recipient : PartyIndex)
  deriving DecidableEq, Repr

namespace MessageDestination

def isP2p : MessageDestination → Bool
  | oneParty _ => true
  | _ => false

def isBroadcast : MessageDestination → Bool
  | allParties _ => true
  | _ => false

def isReliableBroadcast : MessageDestination → Bool
  | allParties true => true
  | _ => false

theorem isReliableBroadcast_iff (d : MessageDestination) :
    d.isReliableBroadcast = true ↔ d = allParties true := by
  cases d with
  | allParties r => cases r <;> simp [isReliableBroadcast]
  | oneParty p => simp [isReliableBroadcast]

end MessageDestination

structure Outgoing (M : Type) where
  recipient : MessageDestination
  msg : M
  deriving DecidableEq, Repr

namespace Outgoing

variable {M T : Type}

def allParties (msg : M) : Outgoing M := ⟨.allParties false,msg⟩

def reliableBroadcast (msg : M) : Outgoing M := ⟨.allParties true,msg⟩

def p2p (recipient : PartyIndex) (msg : M) : Outgoing M := ⟨.oneParty recipient,msg⟩

def map (self : Outgoing M) (f : M → T) : Outgoing T := ⟨self.recipient,f self.msg⟩

@[simp] theorem map_recipient (self : Outgoing M) (f : M → T) :
    (self.map f).recipient = self.recipient := rfl
@[simp] theorem map_msg (self : Outgoing M) (f : M → T) : (self.map f).msg = f self.msg := rfl

end Outgoing
end RoundBased
