import RoundBased.RoundStore

/-! Routes received messages between protocol rounds. Stores of different types live in
one map, so outputs and errors leave it type-erased and are downcast on completion. -/
namespace RoundBased

/-! Errors of the router. -/
inductive TakeOutputError
  | alreadyTaken
  | notReady
  deriving DecidableEq, Repr

structure UnregisteredRound where
  n : UInt16
  witnessProvided : Bool
  deriving DecidableEq, Repr

inductive ApiMisuse
  | unregisteredRound (err : UnregisteredRound)
  deriving DecidableEq, Repr

inductive ImproperRoundStore
  | storeDidntOutput
  deriving DecidableEq, Repr

inductive Bug
  | roundGoneButWitnessExists (n : UInt16)
  | messageFromAnotherRound (expectedRound actualNumber : UInt16)
  | incoherentState (expected justification : String)
  | takeRoundResult (err : TakeOutputError)
  | mismatchedOutputType
  | mismatchedErrorType
  deriving DecidableEq, Repr

inductive RouterError
  | apiMisuse (err : ApiMisuse)
  | improperRoundStore (err : ImproperRoundStore)
  | bug (err : Bug)
  deriving DecidableEq, Repr

/-- Error returned when a round is completed. -/
inductive CompleteRoundError (ProcessErr IoErr : Type)
  | processMsg (err : ProcessErr)
  | router (err : RouterError)
  | io (err : IoErr)
  | unexpectedEof
  deriving DecidableEq, Repr

namespace CompleteRoundError

variable {P I J : Type}

def mapIoErr (self : CompleteRoundError P I) (f : I → J) : CompleteRoundError P J :=
  match self with
  | processMsg e => processMsg e
  | router e => router e
  | io e => io (f e)
  | unexpectedEof => unexpectedEof

def ofBug (err : Bug) : CompleteRoundError P I := router (.bug err)

def ofImproperRoundStore (err : ImproperRoundStore) : CompleteRoundError P I :=
  router (.improperRoundStore err)

def ofUnregisteredRound (err : UnregisteredRound) : CompleteRoundError P I :=
  router (.apiMisuse (.unregisteredRound err))

end CompleteRoundError

/-- What a round ends with. -/
abbrev RoundResult (S : Type) [RoundStore S] (IoErr : Type) :=
  Except (CompleteRoundError (RoundInfo.Error S) IoErr) (RoundInfo.Output S)

/-- Run-time identifiers of the output and the error types of a family of stores. -/
class TypeIds {ι : Type} (St : ι → Type) [∀ k, RoundStore (St k)] where
  TypeId : Type
  decEq : DecidableEq TypeId
  type : TypeId → Type
  output : ι → TypeId
  error : ι → TypeId
  type_output : ∀ k, type (output k) = RoundInfo.Output (St k)
  type_error : ∀ k, type (error k) = CompleteRoundError (RoundInfo.Error (St k)) Empty

variable {ι M : Type} {St : ι → Type} [∀ k, RoundStore (St k)]

section Erasure

variable [TypeIds St]

instance : DecidableEq (TypeIds.TypeId St) := TypeIds.decEq

/-- A value of any type that has an identifier. -/
structure Any (St : ι → Type) [∀ k, RoundStore (St k)] [TypeIds St] where
  id : TypeIds.TypeId St
  value : TypeIds.type id

namespace Any

def ofOutput (k : ι) (out : RoundInfo.Output (St k)) : Any St :=
  ⟨TypeIds.output k,cast (TypeIds.type_output k).symm out⟩

def ofError (k : ι) (err : CompleteRoundError (RoundInfo.Error (St k)) Empty) : Any St :=
  ⟨TypeIds.error k,cast (TypeIds.type_error k).symm err⟩

/-- Fails when the value is of another type. -/
def downcast (self : Any St) (id : TypeIds.TypeId St) :
    Except (Any St) (TypeIds.type id) :=
  if h : self.id = id then .ok (h ▸ self.value) else .error self

def downcastOutput (self : Any St) (k : ι) : Except (Any St) (RoundInfo.Output (St k)) :=
  (self.downcast (TypeIds.output k)).map (cast (TypeIds.type_output k))

def downcastError (self : Any St) (k : ι) :
    Except (Any St) (CompleteRoundError (RoundInfo.Error (St k)) Empty) :=
  (self.downcast (TypeIds.error k)).map (cast (TypeIds.type_error k))

@[simp] theorem downcastOutput_ofOutput (k : ι) (out : RoundInfo.Output (St k)) :
    (ofOutput k out).downcastOutput k = .ok out := by
  simp [downcastOutput,downcast,ofOutput,Except.map]

@[simp] theorem downcastError_ofError (k : ι)
    (err : CompleteRoundError (RoundInfo.Error (St k)) Empty) :
    (ofError k err).downcastError k = .ok err := by
  simp [downcastError,downcast,ofError,Except.map]

end Any
end Erasure

/-- State of one registered round. -/
inductive ProcessRoundMessageImpl (S : Type) [RoundStore S]
  | inProgress (store : S)
  | completed (result : RoundResult S Empty)
  | gone

namespace ProcessRoundMessageImpl

section

variable {S : Type} [RoundStore S]

def new (store : S) : ProcessRoundMessageImpl S :=
  if wantsMore store then inProgress store
  else completed ((output store).mapError fun _ => .ofImproperRoundStore .storeDidntOutput)

def needsMoreMessages : ProcessRoundMessageImpl S → Bool
  | inProgress _ => true
  | _ => false

variable [ProtocolMsg M] [RoundMsg M (RoundInfo.Msg S)]

/-- Hands the message to the store, if it is a message of the store's round. -/
def addToStore (store : S) (msg : Incoming M) :
    Checked (S × Except (CompleteRoundError (RoundInfo.Error S) Empty) Unit) :=
  match msg.tryMap (fromProtocolMsg (T := RoundInfo.Msg S)) with
  | .error msg => (round msg).map fun n => (store,.error (.ofBug
      (.messageFromAnotherRound (RoundMsg.ROUND M (RoundInfo.Msg S)) n)))
  | .ok msg =>
    let r := addMessage store msg
    .ok (r.1,r.2.mapError .processMsg)

/-- `self` is the state that was replaced by `gone`. -/
def outputStore (self : ProcessRoundMessageImpl S) : ProcessRoundMessageImpl S :=
  match self with
  | inProgress store =>
    match output store with
    | .ok out => completed (.ok out)
    | .error _ => completed (.error (.ofImproperRoundStore .storeDidntOutput))
  | _ => completed (.error (.ofBug (.incoherentState "InProgress"
      "we checked at beginning of the function that `state` is InProgress")))

def processMessage (self : ProcessRoundMessageImpl S) (msg : Incoming M) :
    Checked (ProcessRoundMessageImpl S) :=
  match self with
  | inProgress store =>
    (addToStore store msg).map fun
      | (store,.ok ()) =>
        if wantsMore store then inProgress store else outputStore (inProgress store)
      | (_,.error err) => completed (.error err)
  | _ => .ok self

end

variable [TypeIds St]

def takeOutput {k : ι} (self : ProcessRoundMessageImpl (St k)) :
    Checked (ProcessRoundMessageImpl (St k) ×
      Except TakeOutputError (Except (Any St) (Any St))) :=
  match self with
  | inProgress _ => .ok (self,.error .notReady)
  | gone => .ok (self,.error .alreadyTaken)
  | _ =>
    match self with
    | completed (.ok out) => .ok (gone,.ok (.ok (.ofOutput k out)))
    | completed (.error err) => .ok (gone,.ok (.error (.ofError k err)))
    | _ => .error .unreachable

end ProcessRoundMessageImpl

/-- A registered round of any kind. -/
abbrev Boxed (St : ι → Type) [∀ k, RoundStore (St k)] :=
  (k : ι) × ProcessRoundMessageImpl (St k)

/-- Routes received messages between protocol rounds. -/
structure RoundsRouter (M : Type) (St : ι → Type) [∀ k, RoundStore (St k)] where
  rounds : UInt16 → Option (Option (Boxed St))

/-- A witness that a round has been registered in the router. -/
structure Round (k : ι) where

namespace RoundsRouter

variable [ProtocolMsg M] [∀ k, RoundMsg M (RoundInfo.Msg (St k))]

def new : RoundsRouter M St := ⟨fun _ => none⟩

/-- Number of the rounds with stores of kind `k`. -/
abbrev roundOf (M : Type) (St : ι → Type) [∀ k, RoundStore (St k)]
    [∀ k, RoundMsg M (RoundInfo.Msg (St k))] (k : ι) : UInt16 :=
  RoundMsg.ROUND M (RoundInfo.Msg (St k))

def insert (self : RoundsRouter M St) (n : UInt16) (boxed : Boxed St) : RoundsRouter M St :=
  ⟨Function.update self.rounds n (some (some boxed))⟩

def addRound (self : RoundsRouter M St) (k : ι) (messageStore : St k) :
    Checked (RoundsRouter M St × Round k) :=
  let n := roundOf M St k
  if (self.rounds n).isSome then .error (.roundOverridden n)
  else .ok (self.insert n ⟨k,.new messageStore⟩,⟨⟩)

def receivedMsg (self : RoundsRouter M St) (incoming : Incoming M) :
    Checked (RoundsRouter M St × Except UnregisteredRound Unit) :=
  match round incoming.msg with
  | .error p => .error p
  | .ok n =>
    match self.rounds n with
    | none => .ok (self,.error ⟨n,false⟩)
    | some none => .ok (self,.ok ())
    | some (some ⟨k,messageRound⟩) =>
      if messageRound.needsMoreMessages then
        (messageRound.processMessage incoming).map fun messageRound =>
          (self.insert n ⟨k,messageRound⟩,.ok ())
      else .ok (self,.ok ())

variable [TypeIds St]

/-- Downcasts what `takeOutput` returned. -/
def retrieveRoundOutput (k : ι) :
    Except TakeOutputError (Except (Any St) (Any St)) → RoundResult (St k) Empty
  | .ok (.ok any) => (any.downcastOutput k).mapError fun _ => .ofBug .mismatchedOutputType
  | .ok (.error any) =>
    match any.downcastError k with
    | .ok err => .error err
    | .error _ => .error (.ofBug .mismatchedErrorType)
  | .error err => .error (.ofBug (.takeRoundResult err))

/-- Hands the witness back when more messages are needed. -/
def completeRound (self : RoundsRouter M St) {k : ι} (witness : Round k) :
    Checked (RoundsRouter M St × Except (Round k) (RoundResult (St k) Empty)) :=
  let n := roundOf M St k
  match self.rounds n with
  | some (some ⟨j,messageRound⟩) =>
    if messageRound.needsMoreMessages then .ok (self,.error witness)
    else messageRound.takeOutput.map fun r =>
      (self.insert n ⟨j,r.1⟩,.ok (retrieveRoundOutput k r.2))
  | some none => .ok (self,.ok (.error (.ofBug (.roundGoneButWitnessExists n))))
  | none => .ok (self,.ok (.error (.ofUnregisteredRound ⟨n,true⟩)))

end RoundsRouter
end RoundBased
