import RoundBased.Delivery

/-! Protocol messages and the round-specific messages they carry. -/
namespace RoundBased

/-- Number of the round that a message originates from. -/
class ProtocolMsg (M : Type) where
  round : M → Checked UInt16

/-- `T` is the message of the round `ROUND` of the protocol with messages `M`. -/
class RoundMsg (M T : Type) where
  ROUND : UInt16
  toProtocolMsg : T → M
  fromProtocolMsg : M → Except M T

export ProtocolMsg (round)
export RoundMsg (toProtocolMsg fromProtocolMsg)

/-- Reading the round number of a message never panics. -/
class LawfulProtocolMsg (M : Type) [ProtocolMsg M] : Prop where
  round_ok : ∀ m : M, ∃ n, round m = .ok n

/-- A message of another round is handed back unchanged. -/
class RefusesUnchanged (M T : Type) [RoundMsg M T] : Prop where
  from_error : ∀ m m' : M, fromProtocolMsg (T := T) m = .error m' → m' = m

/-- What the documentation of `RoundMsg` asks of an implementation. -/
class LawfulRoundMsg (M T : Type) [ProtocolMsg M] [RoundMsg M T] : Prop
    extends RefusesUnchanged M T where
  from_ok_iff : ∀ m : M,
    (∃ t : T, fromProtocolMsg m = .ok t) ↔ round m = .ok (RoundMsg.ROUND M T)
  from_to : ∀ t : T, fromProtocolMsg (toProtocolMsg t : M) = .ok t

/-- Converting a message of the round and back gives the message again. -/
class LosslessRoundMsg (M T : Type) [ProtocolMsg M] [RoundMsg M T] : Prop
    extends LawfulRoundMsg M T where
  to_from : ∀ (m : M) (t : T), fromProtocolMsg m = .ok t → toProtocolMsg t = m

variable {M T : Type} [ProtocolMsg M] [RoundMsg M T]

/-- The message converts to `T` exactly when it is of the round of `T`. -/
def WellRouted (T : Type) [RoundMsg M T] (m : M) : Prop :=
  (∃ t : T, fromProtocolMsg m = .ok t) ↔ round m = .ok (RoundMsg.ROUND M T)

theorem wellRouted (T : Type) [RoundMsg M T] [LawfulRoundMsg M T] (m : M) :
    WellRouted T m :=
  LawfulRoundMsg.from_ok_iff m

theorem round_to [LawfulRoundMsg M T] (t : T) :
    round (toProtocolMsg t : M) = .ok (RoundMsg.ROUND M T) :=
  (LawfulRoundMsg.from_ok_iff _).mp ⟨t,LawfulRoundMsg.from_to t⟩

theorem to_injective [LawfulRoundMsg M T] {s t : T}
    (h : (toProtocolMsg s : M) = toProtocolMsg t) : s = t := by
  have hs := LawfulRoundMsg.from_to (M := M) s
  rw [h,LawfulRoundMsg.from_to] at hs
  exact (Except.ok.inj hs).symm

/-- Duplicates a round message through the protocol message, which can be cloned. -/
def cloneRoundMsg (M : Type) {T : Type} [RoundMsg M T] (roundMsg : T) : Option (T × T) :=
  let protoMsg : M := toProtocolMsg roundMsg
  match fromProtocolMsg protoMsg,fromProtocolMsg protoMsg with
  | .ok roundMsg1,.ok roundMsg2 => some (roundMsg1,roundMsg2)
  | _,_ => none

def cloneIncomingRoundMsg (M : Type) {T : Type} [RoundMsg M T] (incoming : Incoming T) :
    Option (Incoming T × Incoming T) :=
  match cloneRoundMsg M incoming.msg with
  | some (msg1,msg2) => some ({ incoming with msg := msg1 },{ incoming with msg := msg2 })
  | none => none

@[simp] theorem cloneIncomingRoundMsg_eq [LawfulRoundMsg M T] (incoming : Incoming T) :
    cloneIncomingRoundMsg M incoming = some (incoming,incoming) := by
  simp [cloneIncomingRoundMsg,cloneRoundMsg,LawfulRoundMsg.from_to]

end RoundBased
