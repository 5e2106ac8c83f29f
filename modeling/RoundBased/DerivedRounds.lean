import RoundBased.DerivedMsgs
import RoundBased.EchoConversion

/-! Protocols with derived messages: cloning a message never fails, nor does the echo broadcast in
converting one. -/
namespace RoundBased
namespace Derive
open Interaction EchoBroadcast WithEchoBroadcast Transition

variable {Ident Ty ι : Type} [DecidableEq Ident] [DecidableEq Ty] [Build]

/-- The messages of all rounds are fields of the enum. -/
class DerivedRounds {Ident Ty ι : Type} (E : DerivedEnum Ident Ty) (El : Ty → Type)
    (St : ι → Type) [∀ k, RoundStore (St k)] where
  ty : ι → E.FieldType
  msg_eq : ∀ k, RoundInfo.Msg (St k) = Field E El (ty k)

variable {E : DerivedEnum Ident Ty} {El : Ty → Type} {St : ι → Type} [∀ k, RoundStore (St k)]
  [DerivedRounds E El St]

/-- The type of the messages of a round. -/
abbrev RoundField (E : DerivedEnum Ident Ty) (El : Ty → Type) (St : ι → Type)
    [∀ k, RoundStore (St k)] [DerivedRounds E El St] (k : ι) : Type :=
  Field E El (DerivedRounds.ty El St k)

omit [DecidableEq Ident] [DecidableEq Ty] [Build] in
theorem msg_eq (E : DerivedEnum Ident Ty) (El : Ty → Type) [DerivedRounds E El St] (k : ι) :
    RoundInfo.Msg (St k) = RoundField E El St k :=
  DerivedRounds.msg_eq k

/-- The generated implementation for the type of the messages of a round. -/
instance (k : ι) : RoundMsg (Value E El) (RoundInfo.Msg (St k)) :=
  cast (congrArg (RoundMsg (Value E El)) (msg_eq E El k).symm)
    (inferInstanceAs (RoundMsg (Value E El) (RoundField E El St k)))

omit [Build] in
theorem lossless_cast {M T T' : Type} [ProtocolMsg M] (h : T = T') {inst : RoundMsg M T}
    (hlaw : LosslessRoundMsg M T) :
    @LosslessRoundMsg M T' _ (cast (congrArg (RoundMsg M) h) inst) := by
  subst h
  exact hlaw

instance (k : ι) : LosslessRoundMsg (Value E El) (RoundInfo.Msg (St k)) :=
  lossless_cast (msg_eq E El k).symm
    (inferInstanceAs (LosslessRoundMsg (Value E El) (RoundField E El St k)))

omit [Build] in
theorem cloneRoundMsg_eq {M T : Type} [ProtocolMsg M] [RoundMsg M T] [LawfulRoundMsg M T] (t : T) :
    cloneRoundMsg M t = some (t,t) := by
  simp only [cloneRoundMsg,LawfulRoundMsg.from_to]

/-- The number of a value, and what the implementation for the type `ty` does with it. -/
structure Agrees (E : DerivedEnum Ident Ty) (El : Ty → Type) (ty : E.FieldType) : Prop where
  round_eq : ∀ m : Value E El, m.ty = ty.1 →
    round m = .ok (RoundMsg.ROUND (Value E El) (Field E El ty))
  from_ok_iff : ∀ m : Value E El, (∃ t : Field E El ty, fromProtocolMsg m = .ok t) ↔
    round m = .ok (RoundMsg.ROUND (Value E El) (Field E El ty))
  from_error : ∀ m : Value E El, round m ≠ .ok (RoundMsg.ROUND (Value E El) (Field E El ty)) →
    (fromProtocolMsg m : Except _ (Field E El ty)) = .error m
  from_to : ∀ t : Field E El ty, fromProtocolMsg (toProtocolMsg t : Value E El) = .ok t
  clone : ∀ t : Field E El ty, cloneRoundMsg (Value E El) t = some (t,t)
  cloneIncoming : ∀ incoming : Incoming (Field E El ty),
    cloneIncomingRoundMsg (Value E El) incoming = some (incoming,incoming)

theorem agrees (ty : E.FieldType) : Agrees E El ty where
  round_eq _ h := round_eq_ROUND h
  from_ok_iff m := LawfulRoundMsg.from_ok_iff m
  from_error m h := by
    cases hfrom : (fromProtocolMsg m : Except _ (Field E El ty)) with
    | ok t => exact absurd ((LawfulRoundMsg.from_ok_iff m).mp ⟨t,hfrom⟩) h
    | error m' => rw [RefusesUnchanged.from_error m m' hfrom]
  from_to t := LawfulRoundMsg.from_to t
  clone t := cloneRoundMsg_eq t
  cloneIncoming incoming := cloneIncomingRoundMsg_eq incoming

/-- For every enum that derives its messages the two generators agree, a message is cloned into
two copies of it, and the echo broadcast never fails to convert a message. -/
theorem derived_messages (E : DerivedEnum Ident Ty) (El : Ty → Type) :
    (∃ out, protocolMsg (.enum E.variants) = .ok out ∧ out.Compiles) ∧
    (∀ ty, Agrees E El ty) ∧
    (∀ m m' : Value E El, m.variant ≠ m'.variant → round m ≠ round m') ∧
    (∀ ty ty' : E.FieldType, ty ≠ ty' → RoundMsg.ROUND (Value E El) (Field E El ty) ≠
      RoundMsg.ROUND (Value E El) (Field E El ty')) ∧
    ∀ {ι H : Type} {St : ι → Type} [∀ k, RoundStore (St k)] [DerivedRounds E El St]
      [Digest H (Value E El)] [DecidableEq H] [TypeIds (SubStore H (Value E El) St)],
      ConversionsSucceed H (Value E El) St := by
  refine ⟨DerivedEnum.accepted,agrees,fun m m' hne he => ?_,fun ty ty' hne he => ?_,?_⟩
  · exact hne (variant_eq_of_round_eq he)
  · exact hne (ROUND_inj he)
  · intro ι H St _ _ _ _ _
    exact conversionsSucceed

end Derive

namespace RandomGeneration
open Derive EchoBroadcast

/-- A name, of a variant or of the type of its field. -/
inductive MsgName
  | commitMsg
  | decommitMsg
  deriving DecidableEq

def MsgName.El : MsgName → Type
  | commitMsg => CommitMsg
  | decommitMsg => DecommitMsg

/-- The enum of the messages, that the macro is applied to. -/
def msgEnum : DerivedEnum MsgName MsgName where
  variants := [⟨.commitMsg,.unnamed [.commitMsg]⟩,⟨.decommitMsg,.unnamed [.decommitMsg]⟩]
  short := by decide
  single variant h := by
    rcases List.mem_pair.mp h with rfl | rfl
    · exact ⟨_,rfl⟩
    · exact ⟨_,rfl⟩
  idents := by decide
  msgTypes := by decide

/-- The field with the messages of the round. -/
def RoundKind.field : RoundKind → msgEnum.FieldType
  | round1 => ⟨.commitMsg,.commitMsg,List.mem_cons_self ..⟩
  | round2 => ⟨.decommitMsg,.decommitMsg,List.mem_cons_of_mem _ (List.mem_singleton_self _)⟩

/-- The messages of the derived enum. -/
abbrev DerivedMsg : Type := Value msgEnum MsgName.El

abbrev DerivedStore (k : RoundKind) : Type := RoundInput (Field msgEnum MsgName.El k.field)

instance : DerivedRounds msgEnum MsgName.El DerivedStore where
  ty := RoundKind.field
  msg_eq _ := rfl

def toMsg : DerivedMsg → Msg
  | ⟨_,.commitMsg,_,msg⟩ => .commitMsg msg
  | ⟨_,.decommitMsg,_,msg⟩ => .decommitMsg msg

/-- The macro gives the messages of a round the number that they have in `Msg`. -/
theorem ROUND_derived [Build] (k : RoundKind) :
    RoundMsg.ROUND DerivedMsg (Field msgEnum MsgName.El k.field) = RoundMsg.ROUND Msg k.Msg := by
  cases k with
  | round1 => rfl
  | round2 => rfl

theorem round_toMsg [Build] (m : DerivedMsg) : round (toMsg m) = round m := by
  have hnumber : ∀ k : RoundKind, m.ty = k.field.1 → round m = .ok (RoundMsg.ROUND Msg k.Msg) := by
    intro k hk
    rw [round_eq_ROUND hk,ROUND_derived]
  obtain ⟨ident,ty,hmem,payload⟩ := m
  cases ty with
  | commitMsg => exact (hnumber .round1 rfl).symm
  | decommitMsg => exact (hnumber .round2 rfl).symm

/-- The digest of the messages as they stand in `Msg`. -/
instance : Digest (HashInput Msg) DerivedMsg where
  hash input := { input with msgs := input.msgs.map (Option.map toMsg) }

theorem derived_messages_generation :
    letI : Build := .debug
    letI : TypeIds (SubStore (HashInput Msg) DerivedMsg DerivedStore) := .ofKinds _
    (∃ out, protocolMsg (.enum msgEnum.variants) = .ok out ∧ out.Compiles) ∧
    (∀ k : RoundKind, Agrees msgEnum MsgName.El k.field) ∧
    ConversionsSucceed (HashInput Msg) DerivedMsg DerivedStore := by
  let _ : Build := .debug
  let _ : TypeIds (SubStore (HashInput Msg) DerivedMsg DerivedStore) := .ofKinds _
  obtain ⟨haccepted,hagrees,_,_,hsucceed⟩ := derived_messages msgEnum MsgName.El
  exact ⟨haccepted,fun k => hagrees k.field,hsucceed⟩

end RandomGeneration
end RoundBased
