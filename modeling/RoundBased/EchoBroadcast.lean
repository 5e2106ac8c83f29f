import RoundBased.EchoRounds
import RoundBased.Interaction
import RoundBased.MpcParty

/-! The engine that adds echo broadcast to any engine. Its operations are programs over the
calls of the underlying party. -/
namespace RoundBased

/-- The operations of a protocol executor, for rounds `κ` and messages `M`. Messages sent
through `SendMany` are `enqueue`d, and `flush`ed together. -/
inductive Call (κ M : Type)
  | complete (round : κ)
  | send (msg : Outgoing M)
  | enqueue (msg : Outgoing M)
  | flush
  | yieldNow

/-- The results of the operations. -/
def Answer {κ : Type} (Res : κ → Type) (SendErr : Type) {M : Type} : Call κ M → Type
  | .complete k => Res k
  | .send _ => Except SendErr Unit
  | .enqueue _ => Except SendErr Unit
  | .flush => Except SendErr Unit
  | .yieldNow => Unit

namespace EchoBroadcast
open Interaction RoundsRouter

/-- The rounds of the underlying party. -/
inductive Sub (ι : Type)
  | plain (k : ι)
  | main (k : ι)
  | echo (k : ι)
  deriving DecidableEq

variable {ι H M : Type} {St : ι → Type} [∀ k, RoundStore (St k)]
  [∀ k, RoundMsg M (RoundInfo.Msg (St k))]

/-- The stores of the rounds of the underlying party. -/
def SubStore (H M : Type) {ι : Type} (St : ι → Type) [∀ k, RoundStore (St k)] :
    Sub ι → Type
  | .plain k => WithError (WithMainMsg (St k))
  | .main k => WithMainMsg (MainRound H M (St k))
  | .echo k => WithEchoError (EchoRound H (St k)) (RoundInfo.Error (St k))

instance : ∀ s : Sub ι, RoundStore (SubStore H M St s)
  | .plain k => inferInstanceAs (RoundStore (WithError (WithMainMsg (St k))))
  | .main k => inferInstanceAs (RoundStore (WithMainMsg (MainRound H M (St k))))
  | .echo k =>
    inferInstanceAs (RoundStore (WithEchoError (EchoRound H (St k)) (RoundInfo.Error (St k))))

instance : ∀ s : Sub ι, RoundMsg (Msg H M) (RoundInfo.Msg (SubStore H M St s))
  | .plain k => inferInstanceAs (RoundMsg (Msg H M) (Main (RoundInfo.Msg (St k))))
  | .main k => inferInstanceAs (RoundMsg (Msg H M) (Main (RoundInfo.Msg (St k))))
  | .echo k => inferInstanceAs (RoundMsg (Msg H M) (EchoMsg H (RoundInfo.Msg (St k))))

instance [∀ k, RefusesUnchanged M (RoundInfo.Msg (St k))] :
    ∀ s : Sub ι, RefusesUnchanged (Msg H M) (RoundInfo.Msg (SubStore H M St s))
  | .plain k => inferInstanceAs (RefusesUnchanged (Msg H M) (Main (RoundInfo.Msg (St k))))
  | .main k => inferInstanceAs (RefusesUnchanged (Msg H M) (Main (RoundInfo.Msg (St k))))
  | .echo k => inferInstanceAs (RefusesUnchanged (Msg H M) (EchoMsg H (RoundInfo.Msg (St k))))

/-- Round registration witness. -/
inductive Round (ι : Type)
  | unmodified (round : ι)
  | withReliabilityCheck (round : ι)
  deriving DecidableEq

def Round.kind : Round ι → ι
  | unmodified k => k
  | withReliabilityCheck k => k

/-- An error returned in round completion. -/
inductive CompleteRoundError (CompleteErr SendErr : Type)
  | completeRound (err : CompleteErr)
  | send (err : SendErr)
  | echo (err : EchoError)
  deriving DecidableEq, Repr

/-- The engine, without the underlying party. -/
structure WithEchoBroadcast (M : Type) where
  i : UInt16
  n : UInt16
  sentReliableMsgs : UInt16 → Option (Option M)

def wrap (i n : UInt16) : WithEchoBroadcast M := ⟨i,n,fun _ => none⟩

namespace WithEchoBroadcast

/-- A round that requires reliable broadcast is registered as a main and an echo round. -/
def addRound (self : WithEchoBroadcast M) (router : RoundsRouter (Msg H M) (SubStore H M St))
    (k : ι) (round : St k) :
    Checked (WithEchoBroadcast M × RoundsRouter (Msg H M) (SubStore H M St) × Round ι) :=
  if requiresReliableBroadcast round = some true then do
    let (mainRound,echoRound) ← newStores (H := H) (M := M) self.i self.n round
    let (router,_) ← router.addRound (.main k) ⟨mainRound⟩
    let (router,_) ← router.addRound (.echo k) ⟨echoRound⟩
    let sent := Function.update self.sentReliableMsgs (roundOf M St k) (some none)
    .ok ({ self with sentReliableMsgs := sent },router,.withReliabilityCheck k)
  else do
    let (router,_) ← router.addRound (.plain k) ⟨⟨round⟩⟩
    .ok (self,router,.unmodified k)

def addRounds (self : WithEchoBroadcast M)
    (router : RoundsRouter (Msg H M) (SubStore H M St)) :
    List ((k : ι) × St k) →
      Checked (WithEchoBroadcast M × RoundsRouter (Msg H M) (SubStore H M St))
  | [] => .ok (self,router)
  | r :: rs => do
    let (self,router,_) ← self.addRound router r.1 r.2
    self.addRounds router rs

/-- The message to be handed to the party instead of `outgoing`. -/
def onSend [ProtocolMsg M] (self : WithEchoBroadcast M) (outgoing : Outgoing M) :
    Checked (WithEchoBroadcast M × Except EchoError (Outgoing M)) :=
  (round outgoing.msg).map fun n =>
    match self.sentReliableMsgs n with
    | some slot =>
      if !outgoing.recipient.isReliableBroadcast then
        (self,.error ⟨.sentNonReliableMsgInReliableRound outgoing.recipient n⟩)
      else if slot.isSome then (self,.error ⟨.sendTwice⟩)
      else
        let sent := Function.update self.sentReliableMsgs n (some (some outgoing.msg))
        ({ self with sentReliableMsgs := sent },
          .ok { outgoing with recipient := .allParties false })
    | none =>
      if outgoing.recipient.isReliableBroadcast then
        (self,.error ⟨.sentReliableMsgInNonReliableRound n⟩)
      else (self,.ok outgoing)

section Calls

variable (CErr : Type → Type) (SErr : Type)

/-- Results of completing a round of the underlying party. -/
abbrev SubRes (H M : Type) {ι : Type} (St : ι → Type) [∀ k, RoundStore (St k)]
    [∀ k, RoundMsg M (RoundInfo.Msg (St k))] (s : Sub ι) : Type :=
  Except (CErr (RoundInfo.Error (SubStore H M St s))) (RoundInfo.Output (SubStore H M St s))

/-- Results of completing a round. -/
abbrev Res {ι : Type} (St : ι → Type) [∀ k, RoundStore (St k)] (w : Round ι) : Type :=
  Except (CompleteRoundError (CErr (Error (RoundInfo.Error (St w.kind)))) SErr)
    (RoundInfo.Output (St w.kind))

/-- A program over the underlying party. -/
abbrev PartyProg (H M : Type) {ι : Type} (St : ι → Type) [∀ k, RoundStore (St k)]
    [∀ k, RoundMsg M (RoundInfo.Msg (St k))] (A : Type) : Type :=
  Prog (Call (Sub ι) (Msg H M)) (Answer (SubRes CErr H M St) SErr) Panic A

variable {CErr SErr} [ProtocolMsg M] [Digest H M] [DecidableEq H]

/-- After the echoes of the others were received. -/
def afterEchoRound (self : WithEchoBroadcast M) (k : ι) (check : ReliabilityCheck H (St k)) :
    SubRes CErr H M St (.echo k) →
      PartyProg CErr SErr H M St (WithEchoBroadcast M × Res CErr SErr St (.withReliabilityCheck k))
  | .error err => .ret (self,.error (.completeRound err))
  | .ok echoes =>
    match check.withEchoOutput echoes with
    | .error err => .ret (self,.error (.echo err))
    | .ok out => .ret (self,.ok out)

/-- After the echo was sent. -/
def afterSend (self : WithEchoBroadcast M) (k : ι) (check : ReliabilityCheck H (St k)) :
    Except SErr Unit →
      PartyProg CErr SErr H M St (WithEchoBroadcast M × Res CErr SErr St (.withReliabilityCheck k))
  | .error err => .ret (self,.error (.send err))
  | .ok () => .call (.complete (.echo k)) (self.afterEchoRound k check)

/-- The message sent in the round, converted back from the protocol message. -/
def sentMsg (self : WithEchoBroadcast M) (k : ι) :
    Except EchoError (Option (RoundInfo.Msg (St k))) :=
  match self.sentReliableMsgs (roundOf M St k) with
  | some (some msg) =>
    match (fromProtocolMsg msg : Except M (RoundInfo.Msg (St k))) with
    | .ok msg => .ok (some msg)
    | .error _ => .error ⟨.sentMsgFromProto⟩
  | _ => .ok none

/-- After all messages in the main round were received. -/
def afterMainRound (self : WithEchoBroadcast M) (k : ι) :
    SubRes CErr H M St (.main k) →
      PartyProg CErr SErr H M St (WithEchoBroadcast M × Res CErr SErr St (.withReliabilityCheck k))
  | .error err => .ret (self,.error (.completeRound err))
  | .ok mainOutput =>
    let removed : WithEchoBroadcast M := { self with
      sentReliableMsgs := Function.update self.sentReliableMsgs (roundOf M St k) none }
    match (self.sentMsg k : Except EchoError (Option (RoundInfo.Msg (St k)))) with
    | .error err => .ret (removed,.error (.echo err))
    | .ok sentMsg =>
      match NeedsOwnMsg.withMyMsg (H := H) (M := M) (S := St k) mainOutput sentMsg with
      | .error err => .ret (removed,.error (.echo err))
      | .ok (check,hash) =>
        .call (.send (.allParties (.echo (roundOf M St k) hash))) (removed.afterSend k check)

def complete (self : WithEchoBroadcast M) : (w : Round ι) →
    PartyProg CErr SErr H M St (WithEchoBroadcast M × Res CErr SErr St w)
  | .unmodified k => .call (.complete (.plain k)) fun
    | .error err => .ret (self,.error (.completeRound err))
    | .ok out => .ret (self,.ok out)
  | .withReliabilityCheck k => .call (.complete (.main k)) (self.afterMainRound k)

/-- `send`, and `send` of `SendMany`: both check the message first. -/
def sendWith (self : WithEchoBroadcast M) (outgoing : Outgoing M)
    (sub : Outgoing (Msg H M) → (Except SErr Unit → PartyProg CErr SErr H M St
      (WithEchoBroadcast M × Except (Error SErr) Unit)) → PartyProg CErr SErr H M St
        (WithEchoBroadcast M × Except (Error SErr) Unit)) :
    PartyProg CErr SErr H M St (WithEchoBroadcast M × Except (Error SErr) Unit) :=
  match self.onSend outgoing with
  | .error p => .throw p
  | .ok (self,.error err) => .ret (self,.error (.echo err))
  | .ok (self,.ok outgoing) =>
    sub (outgoing.map .main) fun r => .ret (self,r.mapError .main)

/-- How the engine serves the operations. -/
def serve : Serve (WithEchoBroadcast M) (Call (Round ι) M)
    (Answer (Res CErr SErr St) (Error SErr)) (Call (Sub ι) (Msg H M))
    (Answer (SubRes CErr H M St) SErr) Panic
  | self, .complete w => self.complete w
  | self, .send msg => self.sendWith msg fun msg k => .call (.send msg) k
  | self, .enqueue msg => self.sendWith msg fun msg k => .call (.enqueue msg) k
  | self, .flush => .call .flush fun r => .ret (self,Except.mapError .main r)
  | self, .yieldNow => .call .yieldNow fun _ => .ret (self,())

end Calls
end WithEchoBroadcast
end EchoBroadcast
end RoundBased
