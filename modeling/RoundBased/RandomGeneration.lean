import RoundBased.EchoMsg
import RoundBased.Ledger
import RoundBased.RoundInput

/-! Messages and rounds of the protocol of random generation. -/
namespace RoundBased

/-- Type identifiers that tell stores of different kinds apart. -/
@[reducible] def TypeIds.ofKinds {ι : Type} [DecidableEq ι] (St : ι → Type) [∀ k, RoundStore (St k)] :
    TypeIds St where
  TypeId := ι ⊕ ι
  decEq := inferInstance
  type
    | .inl k => RoundInfo.Output (St k)
    | .inr k => CompleteRoundError (RoundInfo.Error (St k)) Empty
  output := .inl
  error := .inr
  type_output _ := rfl
  type_error _ := rfl

namespace RandomGeneration

/-- Message from round 1: a commitment. -/
structure CommitMsg where
  commitment : Vector UInt8 32
  deriving DecidableEq

/-- Message from round 2: the randomness of a party. -/
structure DecommitMsg where
  randomness : Vector UInt8 32
  deriving DecidableEq

inductive Msg
  | commitMsg (msg : CommitMsg)
  | decommitMsg (msg : DecommitMsg)
  deriving DecidableEq

/-- As derived, with the first round numbered 0. -/
instance : ProtocolMsg Msg where
  round
    | .commitMsg _ => .ok 0
    | .decommitMsg _ => .ok 1

instance : RoundMsg Msg CommitMsg where
  ROUND := 0
  toProtocolMsg := .commitMsg
  fromProtocolMsg
    | .commitMsg msg => .ok msg
    | msg => .error msg

instance : RoundMsg Msg DecommitMsg where
  ROUND := 1
  toProtocolMsg := .decommitMsg
  fromProtocolMsg
    | .decommitMsg msg => .ok msg
    | msg => .error msg

instance : LawfulProtocolMsg Msg where
  round_ok m := by cases m <;> exact ⟨_,rfl⟩

instance : LawfulRoundMsg Msg CommitMsg where
  from_ok_iff m := by
    cases m with
    | commitMsg msg => exact ⟨fun _ => rfl,fun _ => ⟨msg,rfl⟩⟩
    | decommitMsg msg => exact ⟨fun ⟨_,h⟩ => (by cases h),fun h => (by cases h)⟩
  from_error m m' h := by cases m <;> cases h; rfl
  from_to _ := rfl

instance : LawfulRoundMsg Msg DecommitMsg where
  from_ok_iff m := by
    cases m with
    | commitMsg msg => exact ⟨fun ⟨_,h⟩ => (by cases h),fun h => (by cases h)⟩
    | decommitMsg msg => exact ⟨fun _ => rfl,fun _ => ⟨msg,rfl⟩⟩
  from_error m m' h := by cases m <;> cases h; rfl
  from_to _ := rfl

/-- The two rounds of the protocol. -/
inductive RoundKind
  | round1
  | round2
  deriving DecidableEq

/-- What the parties send in each round. -/
def RoundKind.Msg : RoundKind → Type
  | round1 => CommitMsg
  | round2 => DecommitMsg

instance : ∀ k : RoundKind, RoundMsg Msg k.Msg
  | .round1 => inferInstanceAs (RoundMsg Msg CommitMsg)
  | .round2 => inferInstanceAs (RoundMsg Msg DecommitMsg)

instance : ∀ k : RoundKind, LawfulRoundMsg Msg k.Msg
  | .round1 => inferInstanceAs (LawfulRoundMsg Msg CommitMsg)
  | .round2 => inferInstanceAs (LawfulRoundMsg Msg DecommitMsg)

/-- The stores of the two rounds. -/
abbrev Store (k : RoundKind) : Type := RoundInput k.Msg

instance (k : RoundKind) : RoundMsg Msg (RoundInfo.Msg (Store k)) :=
  inferInstanceAs (RoundMsg Msg k.Msg)

instance (k : RoundKind) : LawfulRoundMsg Msg (RoundInfo.Msg (Store k)) :=
  inferInstanceAs (LawfulRoundMsg Msg k.Msg)

instance : ∀ k : RoundKind, LosslessRoundMsg Msg (RoundInfo.Msg (Store k))
  | .round1 => ⟨fun m t h => by cases m <;> cases h; rfl⟩
  | .round2 => ⟨fun m t h => by cases m <;> cases h; rfl⟩

instance : TypeIds Store := TypeIds.ofKinds Store

instance : EchoBroadcast.ShortProtocolMsg Msg where
  round_lt m := by cases m <;> exact ⟨_,rfl,by decide⟩

instance (k : RoundKind) : EchoBroadcast.ShortRoundMsg Msg (RoundInfo.Msg (Store k)) where
  round_lt := by cases k <;> decide

end RandomGeneration
end RoundBased
