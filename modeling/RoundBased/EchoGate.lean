import RoundBased.Collecting
import RoundBased.EchoDiscipline
import RoundBased.EchoParty

/-! When a reliable round releases its output, against any stream of messages. -/
namespace RoundBased
open Interaction RoundsRouter

/-- Round `none` collects messages `T`, the stores of the other rounds are arbitrary. -/
def Focus (T : Type) {ι : Type} (St : ι → Type) : Option ι → Type
  | none => RoundInput T
  | some k => St k

section Focus

variable {M T ι : Type} {St : ι → Type} [∀ k, RoundStore (St k)]

instance : ∀ k, RoundStore (Focus T St k)
  | none => inferInstanceAs (RoundStore (RoundInput T))
  | some k => inferInstanceAs (RoundStore (St k))

instance [RoundMsg M T] [∀ k, RoundMsg M (RoundInfo.Msg (St k))] :
    ∀ k, RoundMsg M (RoundInfo.Msg (Focus T St k))
  | none => inferInstanceAs (RoundMsg M T)
  | some k => inferInstanceAs (RoundMsg M (RoundInfo.Msg (St k)))

instance [ProtocolMsg M] [RoundMsg M T] [∀ k, RoundMsg M (RoundInfo.Msg (St k))]
    [EchoBroadcast.ShortRoundMsg M T] [∀ k, EchoBroadcast.ShortRoundMsg M (RoundInfo.Msg (St k))] :
    ∀ k, EchoBroadcast.ShortRoundMsg M (RoundInfo.Msg (Focus T St k))
  | none => inferInstanceAs (EchoBroadcast.ShortRoundMsg M T)
  | some k => inferInstanceAs (EchoBroadcast.ShortRoundMsg M (RoundInfo.Msg (St k)))

end Focus

namespace EchoBroadcast
open WithEchoBroadcast

section Registered

variable {ι H M : Type} {St : ι → Type} [∀ k, RoundStore (St k)]
  [∀ k, RoundMsg M (RoundInfo.Msg (St k))] [ProtocolMsg M] {IoErr : Type}

/-- The message belongs to a registered round. -/
def OfRegistered (regs : List ((k : ι) × St k)) (m : Msg H M) : Prop :=
  ∃ reg ∈ regs, m.kind.2 = .ok (roundOf M St reg.1) ∧
    (m.kind.1 = true → requiresReliableBroadcast reg.2 = some true)

variable [Build]

theorem registered_of_kind [ShortProtocolMsg M] [∀ k, ShortRoundMsg M (RoundInfo.Msg (St k))]
    {regs : List ((k : ι) × St k)} {i n : UInt16} {l : Ledger (Msg H M) (SubStore H M St)}
    (hregs : ∀ reg ∈ regs, Registers i n l reg) {m : Msg H M} (hfit : m.Fits)
    (hm : OfRegistered regs m) : ∃ x, round m = .ok x ∧ l.Registered x := by
  obtain ⟨reg,hreg,hkind,hrel⟩ := hm
  have hr := hregs reg hreg
  cases m with
  | echo r hash =>
    refine ⟨_,round_echo hash hfit,?_⟩
    obtain ⟨main,echo,_,_,hecho⟩ := hr.reliable (hrel rfl)
    have hrr : r = roundOf M St reg.1 := Except.ok.inj hkind
    rw [hrr]
    exact Option.isSome_iff_exists.mpr ⟨_,hecho⟩
  | main m =>
    have hlt := ShortRoundMsg.round_lt (M := M) (T := RoundInfo.Msg (St reg.1))
    refine ⟨_,round_main hkind hlt,?_⟩
    by_cases h : requiresReliableBroadcast reg.2 = some true
    · obtain ⟨main,echo,_,hmain,_⟩ := hr.reliable h
      exact Option.isSome_iff_exists.mpr ⟨_,hmain⟩
    · exact Option.isSome_iff_exists.mpr ⟨_,hr.plain h⟩

end Registered

section Gate

variable {ι H M T IoErr : Type} {St : ι → Type} [∀ k, RoundStore (St k)] [RoundMsg M T]
  [∀ k, RoundMsg M (RoundInfo.Msg (St k))] [Build] [ProtocolMsg M]
  [ShortRoundMsg M T] [∀ k, ShortRoundMsg M (RoundInfo.Msg (St k))]
  [TypeIds (SubStore H M (Focus T St))]

/-- The main and the echo messages of the round in the stream. -/
def mainMsgs (T : Type) [RoundMsg M T] (stream : List (Except IoErr (Incoming (Msg H M)))) :
    List (Incoming T) :=
  (itemsOf (Main T) stream stream.length).map fun msg => msg.map Main.msg

def echoMsgs (T : Type) [RoundMsg M T] (stream : List (Except IoErr (Incoming (Msg H M)))) :
    List (Incoming H) :=
  (itemsOf (EchoMsg H T) stream stream.length).map fun msg => msg.map EchoMsg.hash

/-- What the two sub-rounds come to at the end of the stream. -/
def mainVerdict (main : MainRound H M (RoundInput T))
    (stream : List (Except IoErr (Incoming (Msg H M)))) :
    Option (Except (Error RoundInputError) (NeedsOwnMsg H M (RoundInput T))) :=
  verdict main (mainMsgs T stream)

def echoVerdict (T : Type) [RoundMsg M T] (input : RoundInput H)
    (stream : List (Except IoErr (Incoming (Msg H M)))) :
    Option (Except (Error RoundInputError) (EchoRoundOutput H (RoundInput T))) :=
  (verdict input (echoMsgs T stream)).map (mapVerdict .mk fun e => .echo ⟨.handleEcho e⟩)

/-- The stores of the two sub-rounds of the round in focus. -/
structure Awaits (i n : UInt16) (l0 : Ledger (Msg H M) (SubStore H M (Focus T St)))
    (main : MainRound H M (RoundInput T)) (input : RoundInput H) : Prop where
  registeredMain : l0.registered (roundOf (Msg H M) (SubStore H M (Focus T St)) (.main none)) =
    some ⟨.main none,(⟨main⟩ : WithMainMsg (MainRound H M (Focus T St none)))⟩
  registeredEcho : l0.registered (roundOf (Msg H M) (SubStore H M (Focus T St)) (.echo none)) =
    some ⟨.echo none,(⟨⟨input⟩⟩ : WithEchoError (EchoRound H (Focus T St none)) RoundInputError)⟩
  holds : HoldsMain i n main fun _ => none
  sound : main.Sound
  input_eq : RoundInput.broadcast i n = .ok input

/-- Every item of the stream is a message that fits of a registered round, from another
party. -/
def FromOthers (i : UInt16) (regs : List ((k : Option ι) × Focus T St k))
    (stream : List (Except IoErr (Incoming (Msg H M)))) : Prop :=
  ∀ item ∈ stream, ∃ msg, item = .ok msg ∧ msg.msg.Fits ∧ OfRegistered regs msg.msg ∧
    msg.sender ≠ i

variable {i n : UInt16} {l0 : Ledger (Msg H M) (SubStore H M (Focus T St))}
  {main : MainRound H M (RoundInput T)} {input : RoundInput H}
  {stream : List (Except IoErr (Incoming (Msg H M)))}
  {party : MpcParty (Msg H M) (SubStore H M (Focus T St)) IoErr}
  {mains : List (Outgoing (Msg H M))}

theorem complete_mainRound (hlaw : RoutableStream (Msg H M) (SubStore H M (Focus T St)) stream)
    (hint : ∀ q < stream.length, ∀ {P : Type} (err : RoundBased.CompleteRoundError P IoErr),
      ¬ Interrupts l0.Registered stream q err)
    (ha : Awaits i n l0 main input) (hp : PartyPending none stream l0 mains party) :
    ∃ party' l c, party.complete (⟨⟩ : RoundBased.Round (Sub.main (none : Option ι))) =
        .ok (party',ofVerdict (mainVerdict main stream)) ∧
      Connected party' l stream c ∧ l.registered = l0.registered ∧
      l.taken (roundOf (Msg H M) (SubStore H M (Focus T St)) (.echo none)) = false ∧
      party'.sent = party.sent ∧ party'.answers = [] := by
  obtain ⟨l,c,hconn,hreg,hm,he⟩ := hp.connected
  have hobeys : Obeys (⟨main⟩ : WithMainMsg (MainRound H M (RoundInput T))) :=
    simulates_withMainMsg.obeys rfl (MainRound.obeys ha.sound)
  have hregd : l.Registered = l0.Registered := by
    unfold Ledger.Registered
    rw [hreg]
  have hr := ha.registeredMain
  rw [← hreg] at hr
  have hint' : ∀ q < stream.length, ∀ {P : Type} (err : RoundBased.CompleteRoundError P IoErr),
      ¬ Interrupts l.Registered stream q err := by
    rw [hregd]
    exact hint
  obtain ⟨party',l',c',hcomp,hconn',hafter,hsent,hans⟩ :=
    complete_of_all hlaw hconn hr hm hobeys fun q hq err => hint' q hq err
  refine ⟨party',l',c',hcomp.trans ?_,hconn',hafter.registered.trans hreg,?_,hsent,
    hans.trans hp.answers⟩
  · have hv := verdict_withMainMsg main (itemsOf (Main T) stream stream.length)
    exact congrArg (fun v => Except.ok (party',ofVerdict v)) hv
  · rw [hafter.taken _ ?_,he]
    have hlt := ShortRoundMsg.round_lt (M := M) (T := T)
    exact fun he => two_mul_ne_add_one hlt hlt he.symm

theorem complete_echoRound (hlaw : RoutableStream (Msg H M) (SubStore H M (Focus T St)) stream)
    (hint : ∀ q < stream.length, ∀ {P : Type} (err : RoundBased.CompleteRoundError P IoErr),
      ¬ Interrupts l0.Registered stream q err)
    (ha : Awaits i n l0 main input) {l : Ledger (Msg H M) (SubStore H M (Focus T St))} {c : ℕ}
    (hconn : Connected party l stream c) (hreg : l.registered = l0.registered)
    (he : l.taken (roundOf (Msg H M) (SubStore H M (Focus T St)) (.echo none)) = false) :
    ∃ party', party.complete (⟨⟩ : RoundBased.Round (Sub.echo (none : Option ι))) =
        .ok (party',ofVerdict (echoVerdict T input stream)) ∧ party'.sent = party.sent := by
  have hobeys : Obeys (⟨⟨input⟩⟩ : WithEchoError (EchoRound H (RoundInput T)) RoundInputError) :=
    (simulates_echo RoundInputError).obeys rfl (RoundInput.obeys input)
  have hr := ha.registeredEcho
  rw [← hreg] at hr
  have hint' : ∀ q < stream.length, ∀ {P : Type} (err : RoundBased.CompleteRoundError P IoErr),
      ¬ Interrupts l.Registered stream q err := by
    unfold Ledger.Registered
    rw [hreg]
    exact hint
  obtain ⟨party',l',c',hcomp,_,_,hsent,_⟩ :=
    complete_of_all hlaw hconn hr he hobeys fun q hq err => hint' q hq err
  refine ⟨party',hcomp.trans ?_,hsent⟩
  have hv := verdict_echo (S := RoundInput T) RoundInputError input (itemsOf (EchoMsg H T) stream stream.length)
  exact congrArg (fun v => Except.ok (party',ofVerdict v)) hv

variable [Digest H M]

omit [∀ k, ShortRoundMsg M (RoundInfo.Msg (St k))] [TypeIds (SubStore H M (Focus T St))] in
theorem hashed_of_mainVerdict (hi : i < n) (ha : Awaits i n l0 main input)
    {needs : NeedsOwnMsg H M (RoundInput T)} (hv : mainVerdict main stream = some (.ok needs))
    (own : Option T) :
    needs.withMyMsg own = .ok (⟨hashOf H M i n own needs.mainRoundOutput.get,
      needs.mainRoundOutput⟩,hashOf H M i n own needs.mainRoundOutput.get) := by
  obtain ⟨hiff,hspec⟩ := main_collects hi ha.holds (mainMsgs T stream)
  obtain ⟨p,hp⟩ := hiff.mp ⟨needs,hv⟩
  obtain ⟨hparams,hlen,hset,_,_,hget⟩ := hspec needs p hv hp
  apply withMyMsg_spec hi hparams hlen
  rw [hset own]
  exact hashedMsgs_congr fun j hj => (hget j hj).symm

variable [DecidableEq H]

/-- Results of completing the round in focus. -/
abbrev GateRes (T IoErr : Type) : Type :=
  Except (CompleteRoundError (PartyErr IoErr (Error RoundInputError)) IoErr) (RoundMsgs T)

/-- The round ends with the error of a sub-round. -/
def SubRoundFailed (res : GateRes T IoErr) : Prop := ∃ err, res = .error (.completeRound err)

omit [∀ k, ShortRoundMsg M (RoundInfo.Msg (St k))] [TypeIds (SubStore H M (Focus T St))]
  [Digest H M] [DecidableEq H] in
theorem sentMsg_of_pending {s : EchoParty H M (Focus T St) IoErr} {own : Option M}
    (hp : Pending none stream l0 own s) : ∃ ownMsg : Option T,
      own.map (fromProtocolMsg (M := M) (T := T)) = ownMsg.map .ok ∧
      s.engine.sentMsg (none : Option ι) =
        (.ok ownMsg : Except EchoError (Option (RoundInfo.Msg (Focus T St none)))) := by
  cases own with
  | none => exact ⟨none,rfl,by simp only [sentMsg,hp.slot]⟩
  | some m =>
    have hmem : (.allParties (.main m) : Outgoing (Msg H M)) ∈
        sentIn false (RoundMsg.ROUND M T) s.party.sent := by
      have hmains := hp.party.mains
      rw [show sentIn false (RoundMsg.ROUND M T) s.party.sent = _ from hmains]
      exact List.mem_singleton_self _
    have hkind := (List.mem_filter.mp hmem).2
    have hround : round m = .ok (RoundMsg.ROUND M T) := by
      rw [decide_eq_true_eq] at hkind
      exact congrArg Prod.snd hkind
    obtain ⟨t,ht⟩ := (LawfulRoundMsg.from_ok_iff m).mpr hround
    have ht' : (fromProtocolMsg m : Except M (RoundInfo.Msg (Focus T St none))) = .ok t := ht
    refine ⟨some t,congrArg some ht,?_⟩
    simp only [sentMsg,hp.slot,ht']

/-- Once its main round is completed the party sends the hash of the messages and completes the echo
round. The rest is the check. -/
theorem serve_of_mainVerdict
    (hlaw : RoutableStream (Msg H M) (SubStore H M (Focus T St)) stream)
    (hint : ∀ q < stream.length, ∀ {P : Type} (err : RoundBased.CompleteRoundError P IoErr),
      ¬ Interrupts l0.Registered stream q err)
    (hi : i < n) (ha : Awaits i n l0 main input) {s : EchoParty H M (Focus T St) IoErr}
    {own : Option M} (hp : Pending none stream l0 own s) {ownMsg : Option T}
    (hsm : s.engine.sentMsg (none : Option ι) =
      (.ok ownMsg : Except EchoError (Option (RoundInfo.Msg (Focus T St none)))))
    {needs : NeedsOwnMsg H M (RoundInput T)} (hv : mainVerdict main stream = some (.ok needs)) :
    ∃ party : MpcParty (Msg H M) (SubStore H M (Focus T St)) IoErr,
      party.sent = s.party.sent ++ [.allParties (.echo (RoundMsg.ROUND M T)
        (hashOf H M i n ownMsg needs.mainRoundOutput.get))] ∧
      ∀ (ans : SubRes (PartyErr IoErr) H M (Focus T St) (.echo none)) (res : GateRes T IoErr),
        ofVerdict (echoVerdict T input stream) = ans →
        ((s.engine.remove (RoundMsg.ROUND M T)).afterEchoRound none
          (⟨hashOf H M i n ownMsg needs.mainRoundOutput.get,needs.mainRoundOutput⟩ :
            ReliabilityCheck H (Focus T St none)) ans :
            PartyProg (PartyErr IoErr) IoErr H M (Focus T St) _) =
          .ret (s.engine.remove (RoundMsg.ROUND M T),res) →
        s.serve (.complete (.withReliabilityCheck none)) =
          .ok (⟨s.engine.remove (RoundMsg.ROUND M T),party⟩,res) := by
  obtain ⟨party1,l1,c1,hcomp1,hconn1,hreg1,he1,hsent1,hans1⟩ :=
    complete_mainRound hlaw hint ha hp.party
  have hcall1 : MpcParty.handle (.complete (.main none)) s.party =
      .ok (party1,ofVerdict (mainVerdict main stream)) := hcomp1
  rw [hv] at hcall1
  let o : Outgoing (Msg H M) := .allParties (.echo (RoundMsg.ROUND M T)
    (hashOf H M i n ownMsg needs.mainRoundOutput.get))
  let check : ReliabilityCheck H (Focus T St none) :=
    ⟨hashOf H M i n ownMsg needs.mainRoundOutput.get,needs.mainRoundOutput⟩
  let party2 : MpcParty (Msg H M) (SubStore H M (Focus T St)) IoErr :=
    { party1 with sent := party1.sent ++ [o] }
  have hcall2 : MpcParty.handle (.send o) party1 = .ok (party2,.ok ()) :=
    congrArg _ (MpcParty.send_of_no_answers hans1 o)
  have hconn2 : Connected party2 l1 stream c1 :=
    ⟨hconn1.router_eq,hconn1.incomings_eq,hconn1.reading⟩
  obtain ⟨party3,hcomp3,hsent3⟩ := complete_echoRound hlaw hint ha hconn2 hreg1 he1
  have hcall3 : MpcParty.handle (.complete (.echo none)) party2 =
      .ok (party3,ofVerdict (echoVerdict T input stream)) := hcomp3
  have hafter : (s.engine.afterMainRound none (.ok needs) :
      PartyProg (PartyErr IoErr) IoErr H M (Focus T St) _) =
      .call (.send o) ((s.engine.remove (RoundMsg.ROUND M T)).afterSend none check) :=
    afterMainRound_eq hsm (hashed_of_mainVerdict hi ha hv ownMsg)
  refine ⟨party3,by rw [hsent3,← hsent1],?_⟩
  rintro ans res rfl hres
  apply EchoParty.serve_of_run rfl
  refine (Prog.run_call hcall1 _).trans ?_
  refine (congrArg (fun p => Prog.run MpcParty.handle p party1) hafter).trans ?_
  refine (Prog.run_call hcall2 _).trans ((Prog.run_call hcall3 _).trans ?_)
  exact congrArg (fun p => Prog.run MpcParty.handle p party3) hres

/-- The three ways to complete a reliable round. -/
theorem gate_cases (hlaw : RoutableStream (Msg H M) (SubStore H M (Focus T St)) stream)
    (hint : ∀ q < stream.length, ∀ {P : Type} (err : RoundBased.CompleteRoundError P IoErr),
      ¬ Interrupts l0.Registered stream q err)
    (hi : i < n) (ha : Awaits i n l0 main input) {s : EchoParty H M (Focus T St) IoErr}
    {own : Option M} (hp : Pending none stream l0 own s) :
    ∃ (s' : EchoParty H M (Focus T St) IoErr) (res : GateRes T IoErr) (ownMsg : Option T),
      s.serve (.complete (.withReliabilityCheck none)) = .ok (s',res) ∧
      own.map (fromProtocolMsg (M := M) (T := T)) = ownMsg.map .ok ∧
      ((¬ (∃ needs, mainVerdict main stream = some (.ok needs)) ∧ SubRoundFailed res ∧
        s'.party.sent = s.party.sent) ∨
      ∃ needs, mainVerdict main stream = some (.ok needs) ∧
        s'.party.sent = s.party.sent ++ [.allParties (.echo (RoundMsg.ROUND M T)
          (hashOf H M i n ownMsg needs.mainRoundOutput.get))] ∧
        ((¬ (∃ echoes, echoVerdict T input stream = some (.ok echoes)) ∧ SubRoundFailed res) ∨
        ∃ echoes, echoVerdict T input stream = some (.ok echoes) ∧
          res = (ReliabilityCheck.withEchoOutput ⟨hashOf H M i n ownMsg needs.mainRoundOutput.get,
            needs.mainRoundOutput⟩ echoes).mapError .echo)) := by
  obtain ⟨ownMsg,hown,hsm⟩ := sentMsg_of_pending hp
  by_cases hv : ∃ needs, mainVerdict main stream = some (.ok needs)
  · obtain ⟨needs,hv⟩ := hv
    obtain ⟨party,hsent,hserve⟩ := serve_of_mainVerdict hlaw hint hi ha hp hsm hv
    by_cases hecho : ∃ echoes, echoVerdict T input stream = some (.ok echoes)
    · obtain ⟨echoes,hecho⟩ := hecho
      let received : EchoRoundOutput H (Focus T St none) := ⟨echoes.receivedEchoes⟩
      have hans := congrArg (fun v => (ofVerdict v :
        SubRes (PartyErr IoErr) H M (Focus T St) (.echo none))) hecho
      have hres := hserve (.ok received) _ hans (afterEchoRound_eq _ none _ received)
      exact ⟨_,_,ownMsg,hres,hown,.inr ⟨needs,hv,hsent,.inr ⟨echoes,hecho,rfl⟩⟩⟩
    · obtain ⟨err,herr⟩ : ∃ err : RoundBased.CompleteRoundError (Error RoundInputError) IoErr,
          ofVerdict (echoVerdict T input stream) = .error err := ofVerdict_error hecho
      exact ⟨_,_,ownMsg,hserve (.error err) _ herr rfl,hown,
        .inr ⟨needs,hv,hsent,.inl ⟨hecho,err,rfl⟩⟩⟩
  · obtain ⟨party,_,_,hcomp,_,_,_,hsent,_⟩ := complete_mainRound hlaw hint ha hp.party
    obtain ⟨err,herr⟩ : ∃ err : RoundBased.CompleteRoundError (Error RoundInputError) IoErr,
        ofVerdict (mainVerdict main stream) = .error err := ofVerdict_error hv
    have hcall : MpcParty.handle (.complete (.main none)) s.party = .ok (party,.error err) :=
      hcomp.trans (congrArg (fun v => Except.ok (party,v)) herr)
    exact ⟨_,_,ownMsg,EchoParty.serve_of_run rfl (Prog.run_call hcall _),hown,
      .inl ⟨hv,⟨err,rfl⟩,hsent⟩⟩

/-- What completing a reliable round comes to: `mains` and `echoes` are its messages, `own`
was sent in it, and `echoed` are the echoes of it that were sent. -/
structure Gates (H M : Type) [RoundMsg M T] [Digest H M] (i n : UInt16)
    (mains : List (Incoming T)) (echoes : List (Incoming H)) (own : Option T)
    (res : GateRes T IoErr) (echoed : List (Outgoing (Msg H M))) : Prop where
  released : (∃ out, res = .ok out) ↔ ∃ p q, Collects i n (fun _ => true) mains p ∧
    Collects i n (isExpectedType (.broadcast false)) echoes q ∧
    ∀ msg ∈ q, msg.msg = hashOf H M i n own (firstOf p)
  mismatched : res = .error (.echo ⟨.mismatchedHash⟩) ↔
    ∃ p q, Collects i n (fun _ => true) mains p ∧
      Collects i n (isExpectedType (.broadcast false)) echoes q ∧
      ∃ msg ∈ q, msg.msg ≠ hashOf H M i n own (firstOf p)
  output : ∀ out p, res = .ok out → Collects i n (fun _ => true) mains p →
    out.i = i ∧ out.messages.length = n.toNat - 1 ∧ ∀ j, Others i n j → out.get j = firstOf p j
  hashed : ∀ out, res = .ok out →
    echoed = [.allParties (.echo (RoundMsg.ROUND M T) (hashOf H M i n own out.get))]
  echoes : ∀ p, Collects i n (fun _ => true) mains p →
    echoed = [.allParties (.echo (RoundMsg.ROUND M T) (hashOf H M i n own (firstOf p)))]
  silent : (¬ ∃ p, Collects i n (fun _ => true) mains p) → echoed = []

omit [Build] in
/-- All hashes match, or one does not. -/
theorem withEchoOutput_spec (hi : i < n) (check : ReliabilityCheck H (RoundInput T))
    {echoes : EchoRoundOutput H (RoundInput T)} {q : List (Incoming H)}
    (hout : echoes.receivedEchoes.i = i)
    (hlen : echoes.receivedEchoes.messages.length = n.toNat - 1)
    (hget : ∀ j, Others i n j → echoes.receivedEchoes.get j = firstOf q j)
    (hq : ∀ msg ∈ q, Others i n msg.sender) (hnodup : (q.map Incoming.sender).Nodup) :
    ((∀ msg ∈ q, msg.msg = check.expectedHash) ∧
      check.withEchoOutput echoes = .ok check.mainRoundOutput) ∨
    ((∃ msg ∈ q, msg.msg ≠ check.expectedHash) ∧
      check.withEchoOutput echoes = .error ⟨.mismatchedHash⟩) := by
  have hmem : ∀ h, h ∈ echoes.receivedEchoes.messages ↔ ∃ msg ∈ q, msg.msg = h := by
    intro h
    rw [mem_messages_iff hi hout hlen]
    constructor
    · rintro ⟨j,hj,hh⟩
      rw [hget j hj] at hh
      obtain ⟨msg,hmsg,_,rfl⟩ := firstOf_mem hh
      exact ⟨msg,hmsg,rfl⟩
    · rintro ⟨msg,hmsg,rfl⟩
      exact ⟨msg.sender,hq msg hmsg,(hget _ (hq msg hmsg)).trans (firstOf_of_mem hnodup hmsg)⟩
  unfold ReliabilityCheck.withEchoOutput
  by_cases hany : echoes.receivedEchoes.messages.any (fun h => h ≠ check.expectedHash) = true
  · rw [if_pos hany]
    obtain ⟨h,hh,hne⟩ := List.any_eq_true.mp hany
    obtain ⟨msg,hmsg,rfl⟩ := (hmem h).mp hh
    exact .inr ⟨⟨msg,hmsg,of_decide_eq_true hne⟩,rfl⟩
  · rw [if_neg hany]
    refine .inl ⟨fun msg hmsg => ?_,rfl⟩
    by_contra hne
    exact hany (List.any_eq_true.mpr ⟨_,(hmem _).mpr ⟨msg,hmsg,rfl⟩,decide_eq_true hne⟩)

omit [Build] [ProtocolMsg M] [Digest H M] [DecidableEq H] in
theorem sender_of_itemsOf {U : Type} [RoundMsg (Msg H M) U] {x : Incoming U} {p : ℕ}
    (hx : x ∈ itemsOf U stream p) : ∃ msg, .ok msg ∈ stream ∧ x.sender = msg.sender := by
  obtain ⟨msg,hmsg,hconv⟩ := List.mem_filterMap.mp hx
  obtain ⟨item,hitem,hok⟩ := List.mem_filterMap.mp hmsg
  have hstream : .ok msg ∈ stream := by
    cases item with
    | error e => cases hok
    | ok m =>
      cases hok
      exact (List.take_subset _ _) hitem
  refine ⟨msg,hstream,?_⟩
  unfold Incoming.tryMap at hconv
  split at hconv <;> cases hconv
  rfl

omit [∀ k, ShortRoundMsg M (RoundInfo.Msg (St k))] [TypeIds (SubStore H M (Focus T St))]
  [Build] [ShortRoundMsg M T] [Digest H M] [DecidableEq H] [RoundMsg M T]
  [∀ k, RoundMsg M (RoundInfo.Msg (St k))] [ProtocolMsg M] in
theorem mapVerdict_ok {E : Type} {v : Option (Except E (RoundMsgs H))}
    {err : E → Error RoundInputError} {echoes : EchoRoundOutput H (RoundInput T)} :
    v.map (mapVerdict .mk err) = some (.ok echoes) ↔ v = some (.ok echoes.receivedEchoes) := by
  cases v with
  | none => simp
  | some v =>
    cases v with
    | error e => simp [mapVerdict]
    | ok out =>
      cases echoes
      simp [mapVerdict]

omit [∀ k, ShortRoundMsg M (RoundInfo.Msg (St k))] [TypeIds (SubStore H M (Focus T St))]
  [Build] [ProtocolMsg M] [ShortRoundMsg M T] [DecidableEq H] in
/-- Without the messages of the others the round fails in silence. -/
theorem gates_of_no_mains {own : Option T} {res : GateRes T IoErr}
    {mains : List (Incoming T)} {echoes : List (Incoming H)}
    (hno : ¬ ∃ p, Collects i n (fun _ => true) mains p) (hres : SubRoundFailed res) :
    Gates H M i n mains echoes own res [] := by
  obtain ⟨err,rfl⟩ := hres
  refine ⟨⟨?_,?_⟩,⟨?_,?_⟩,?_,?_,?_,fun _ => rfl⟩
  · rintro ⟨out,hout⟩
    cases hout
  · rintro ⟨p,_,hp,_⟩
    exact absurd ⟨p,hp⟩ hno
  · intro h
    cases h
  · rintro ⟨p,_,hp,_⟩
    exact absurd ⟨p,hp⟩ hno
  · intro out p hout
    cases hout
  · intro out hout
    cases hout
  · intro p hp
    exact absurd ⟨p,hp⟩ hno

section Released

variable {mains : List (Incoming T)} {echoes : List (Incoming H)} {own : Option T}
  {res : GateRes T IoErr} {out : RoundMsgs T}

omit [Build] [ProtocolMsg M] [ShortRoundMsg M T] [DecidableEq H] in
theorem hashOf_congr {f g : PartyIndex → Option T} (h : ∀ j, Others i n j → f j = g j) :
    hashOf H M i n own f = hashOf H M i n own g := by
  show Digest.hash _ = Digest.hash _
  rw [hashedMsgs_congr h]

/-- The output has the messages of the others. -/
def HasMsgsOf (i n : UInt16) (mains : List (Incoming T)) (out : RoundMsgs T) : Prop :=
  ∀ p, Collects i n (fun _ => true) mains p →
    out.i = i ∧ out.messages.length = n.toNat - 1 ∧ ∀ j, Others i n j → out.get j = firstOf p j

omit [Build] [ProtocolMsg M] [ShortRoundMsg M T] [DecidableEq H] in
theorem HasMsgsOf.hashOf_eq (hout : HasMsgsOf i n mains out) {p : List (Incoming T)}
    (hp : Collects i n (fun _ => true) mains p) :
    hashOf H M i n own out.get = hashOf H M i n own (firstOf p) :=
  hashOf_congr (hout p hp).2.2

omit [Build] [ProtocolMsg M] [ShortRoundMsg M T] [DecidableEq H] in
/-- Without the echoes of the others the round fails, after its echo was sent. -/
theorem gates_of_no_echoes (hmains : ∃ p, Collects i n (fun _ => true) mains p)
    (hout : HasMsgsOf i n mains out)
    (hno : ¬ ∃ q, Collects i n (isExpectedType (.broadcast false)) echoes q)
    (hres : SubRoundFailed res) : Gates H M i n mains echoes own res
      [.allParties (.echo (RoundMsg.ROUND M T) (hashOf H M i n own out.get))] := by
  obtain ⟨err,rfl⟩ := hres
  refine ⟨⟨?_,?_⟩,⟨?_,?_⟩,?_,?_,fun p hp => by rw [hout.hashOf_eq hp],
    fun hnone => absurd hmains hnone⟩
  · rintro ⟨out,hok⟩
    cases hok
  · rintro ⟨_,q,_,hq,_⟩
    exact absurd ⟨q,hq⟩ hno
  · intro h
    cases h
  · rintro ⟨_,q,_,hq,_⟩
    exact absurd ⟨q,hq⟩ hno
  · intro out p hok
    cases hok
  · intro out hok
    cases hok

omit [Build] [ProtocolMsg M] [ShortRoundMsg M T] [DecidableEq H] in
/-- All hashes match and the output is released, or one does not. -/
theorem gates_of_check (hmains : ∃ p, Collects i n (fun _ => true) mains p)
    (hout : HasMsgsOf i n mains out)
    (hechoes : ∃ q, Collects i n (isExpectedType (.broadcast false)) echoes q)
    (hcheck : ∀ q, Collects i n (isExpectedType (.broadcast false)) echoes q →
      ((∀ msg ∈ q, msg.msg = hashOf H M i n own out.get) ∧ res = .ok out) ∨
      ((∃ msg ∈ q, msg.msg ≠ hashOf H M i n own out.get) ∧
        res = .error (.echo ⟨.mismatchedHash⟩))) : Gates H M i n mains echoes own res
      [.allParties (.echo (RoundMsg.ROUND M T) (hashOf H M i n own out.get))] := by
  obtain ⟨p0,hp0⟩ := hmains
  obtain ⟨q0,hq0⟩ := hechoes
  have hreleased : ∀ out', res = .ok out' → out' = out := by
    intro out' hok
    rcases hcheck q0 hq0 with ⟨_,hres⟩ | ⟨_,hres⟩
    · exact (Except.ok.inj (hres.symm.trans hok)).symm
    · cases hres.symm.trans hok
  refine ⟨⟨?_,?_⟩,⟨?_,?_⟩,?_,?_,fun p hp => by rw [hout.hashOf_eq hp],
    fun hnone => absurd ⟨p0,hp0⟩ hnone⟩
  · rintro ⟨out',hok⟩
    rcases hcheck q0 hq0 with ⟨hall,_⟩ | ⟨_,hres⟩
    · rw [hout.hashOf_eq hp0] at hall
      exact ⟨p0,q0,hp0,hq0,hall⟩
    · cases hres.symm.trans hok
  · rintro ⟨p,q,hp,hq,hall⟩
    rw [← hout.hashOf_eq hp] at hall
    rcases hcheck q hq with ⟨_,hres⟩ | ⟨⟨msg,hmsg,hne⟩,_⟩
    · exact ⟨out,hres⟩
    · exact absurd (hall msg hmsg) hne
  · intro hbad
    rcases hcheck q0 hq0 with ⟨_,hres⟩ | ⟨hne,_⟩
    · cases hres.symm.trans hbad
    · rw [hout.hashOf_eq hp0] at hne
      exact ⟨p0,q0,hp0,hq0,hne⟩
  · rintro ⟨p,q,hp,hq,msg,hmsg,hne⟩
    rw [← hout.hashOf_eq hp] at hne
    rcases hcheck q hq with ⟨hall,_⟩ | ⟨_,hres⟩
    · exact absurd (hall msg hmsg) hne
    · exact hres
  · intro out' p hok hp
    rw [hreleased out' hok]
    exact hout p hp
  · intro out' hok
    rw [hreleased out' hok]

end Released

omit [∀ k, ShortRoundMsg M (RoundInfo.Msg (St k))] [TypeIds (SubStore H M (Focus T St))] in
/-- What the gate lets through, from the three ways to complete the round. -/
theorem gates_of_cases (hi : i < n) (ha : Awaits i n l0 main input)
    (hothers : ∀ msg, .ok msg ∈ stream → msg.sender ≠ i)
    {before after : List (Outgoing (Msg H M))} {res : GateRes T IoErr} {own : Option T}
    (hbefore : sentIn true (RoundMsg.ROUND M T) before = [])
    (h : (¬ (∃ needs, mainVerdict main stream = some (.ok needs)) ∧ SubRoundFailed res ∧
        after = before) ∨
      ∃ needs, mainVerdict main stream = some (.ok needs) ∧
        after = before ++ [.allParties (.echo (RoundMsg.ROUND M T)
          (hashOf H M i n own needs.mainRoundOutput.get))] ∧
        ((¬ (∃ echoes, echoVerdict T input stream = some (.ok echoes)) ∧ SubRoundFailed res) ∨
        ∃ echoes, echoVerdict T input stream = some (.ok echoes) ∧
          res = (ReliabilityCheck.withEchoOutput ⟨hashOf H M i n own needs.mainRoundOutput.get,
            needs.mainRoundOutput⟩ echoes).mapError .echo)) :
    Gates H M i n (mainMsgs T stream) (echoMsgs T stream) own res
      (sentIn true (RoundMsg.ROUND M T) after) := by
  obtain ⟨hmain,hmainSpec⟩ := main_collects hi ha.holds (mainMsgs T stream)
  have hsenders : ∀ msg ∈ echoMsgs T stream, msg.sender ≠ i := by
    intro msg hmsg
    obtain ⟨x,hx,rfl⟩ := List.mem_map.mp hmsg
    obtain ⟨y,hy,hsender⟩ := sender_of_itemsOf hx
    exact fun he => hothers y hy (hsender.symm.trans he)
  obtain ⟨hecho,hechoSpec⟩ := RoundInput.verdict_collects ha.input_eq hsenders
  obtain ⟨hno,hres,rfl⟩ | ⟨needs,hneeds,rfl,hres⟩ := h
  · rw [hbefore]
    exact gates_of_no_mains (fun hp => hno (hmain.mpr hp)) hres
  · have hcollected := hmain.mp ⟨needs,hneeds⟩
    have hmsgs : HasMsgsOf i n (mainMsgs T stream) needs.mainRoundOutput :=
      fun p hp => (hmainSpec needs p hneeds hp).2.2.2
    rw [sentIn_snoc,if_pos (by simp [Msg.kind,Outgoing.allParties]),hbefore,List.nil_append]
    obtain ⟨hno,hres⟩ | ⟨echoes,hechoes,rfl⟩ := hres
    · refine gates_of_no_echoes hcollected hmsgs (fun hq => ?_) hres
      obtain ⟨out,hout⟩ := hecho.mpr hq
      exact hno ⟨⟨out⟩,mapVerdict_ok.mpr hout⟩
    · have hverdict := mapVerdict_ok.mp hechoes
      let check : ReliabilityCheck H (RoundInput T) :=
        ⟨hashOf H M i n own needs.mainRoundOutput.get,needs.mainRoundOutput⟩
      refine gates_of_check hcollected hmsgs (hecho.mp ⟨_,hverdict⟩) fun q hq => ?_
      obtain ⟨hout,hlen,hget⟩ := hechoSpec _ q hverdict hq
      have hinRange : ∀ msg ∈ q, Others i n msg.sender :=
        fun msg hmsg => ⟨hq.inRange msg hmsg,hsenders msg (hq.isPrefix.subset hmsg)⟩
      rcases withEchoOutput_spec hi check hout hlen hget hinRange hq.nodup with
        ⟨hall,hok⟩ | ⟨hne,hbad⟩
      · exact .inl ⟨hall,congrArg (Except.mapError _) hok⟩
      · exact .inr ⟨hne,congrArg (Except.mapError _) hbad⟩

omit [Build] [ProtocolMsg M] [ShortRoundMsg M T] [∀ k, ShortRoundMsg M (RoundInfo.Msg (St k))]
  [TypeIds (SubStore H M (Focus T St))] [Digest H M] [DecidableEq H] [RoundMsg M T]
  [∀ k, RoundMsg M (RoundInfo.Msg (St k))] in
theorem requiresReliable_focus {store : RoundInput T}
    (hs : RoundInput.reliableBroadcast i n = .ok store) :
    requiresReliableBroadcast (S := Focus T St none) store = some true :=
  RoundInput.requiresReliable_new hs

omit [∀ k, ShortRoundMsg M (RoundInfo.Msg (St k))] [ShortRoundMsg M T]
  [TypeIds (SubStore H M (Focus T St))] [Digest H M] [DecidableEq H] in
theorem awaits_of_registers [LawfulRoundMsg M T] {store : RoundInput T}
    (hs : RoundInput.reliableBroadcast i n = .ok store)
    (hreg : Registers i n l0 (⟨none,store⟩ : (k : Option ι) × Focus T St k)) :
    ∃ main input, Awaits i n l0 main input := by
  obtain ⟨main,input,hnew,hinput,hholds⟩ := newStores_spec (H := H) (M := M) hs
  obtain ⟨main',echo',hnew',hm,he⟩ := hreg.reliable (requiresReliable_focus hs)
  have hsame : (main',echo') = (main,⟨input⟩) := Except.ok.inj (hnew'.symm.trans hnew)
  cases hsame
  exact ⟨main,input,hm,he,hholds,newStores_sound hnew,hinput⟩

omit [∀ k, ShortRoundMsg M (RoundInfo.Msg (St k))] [ShortRoundMsg M T]
  [TypeIds (SubStore H M (Focus T St))] [Digest H M] [DecidableEq H] in
theorem awaits_of_addRounds [LawfulRoundMsg M T] {store : RoundInput T}
    (hs : RoundInput.reliableBroadcast i n = .ok store)
    {regs : List ((k : Option ι) × Focus T St k)} (hreg : ⟨none,store⟩ ∈ regs)
    {e0 : WithEchoBroadcast M} {router : RoundsRouter (Msg H M) (SubStore H M (Focus T St))}
    (h0 : (wrap i n : WithEchoBroadcast M).addRounds .new regs = .ok (e0,router))
    (stream : List (Except IoErr (Incoming (Msg H M)))) :
    ∃ l0 main input, Awaits i n l0 main input ∧ (∀ reg ∈ regs, Registers i n l0 reg) ∧
      Pending none stream l0 none (⟨e0,⟨router,stream,[],[]⟩⟩ : EchoParty H M (Focus T St) IoErr) := by
  have hreliable : requiresReliableBroadcast (S := Focus T St none) store = some true :=
    requiresReliable_focus hs
  obtain ⟨l0,rfl,hext,hregs,_,_⟩ := addRounds_registers (l := .empty) h0
  obtain ⟨main,input,ha⟩ := awaits_of_registers hs (hregs _ hreg)
  have htaken := hext.taken fun _ => rfl
  have hreceived : l0.received = [] := hext.received
  refine ⟨l0,main,input,ha,hregs,⟨⟨⟨l0,0,⟨rfl,rfl,?_⟩,rfl,
    htaken _,htaken _⟩,rfl,rfl,rfl⟩,?_⟩⟩
  · refine ⟨Nat.zero_le _,fun msg hmsg => ?_,fun k _ => ?_⟩
    · rw [hreceived] at hmsg
      cases hmsg
    · rw [hreceived]
      rfl
  · exact (addRounds_sent h0 _).1 ⟨_,hreg,rfl,hreliable⟩

variable [ShortProtocolMsg M]

/-- The round stays pending whatever the party does elsewhere. -/
theorem Pending.serveAll (hlaw : RoutableStream (Msg H M) (SubStore H M (Focus T St)) stream)
    {s : EchoParty H M (Focus T St) IoErr} {own : Option M} (h : Pending none stream l0 own s)
    {ds : List (Call (Round (Option ι)) M)} (hds : ∀ d ∈ ds, Elsewhere M (Focus T St) none d) :
    ∃ s' own', s.serveAll ds = .ok s' ∧ Pending none stream l0 own' s' := by
  induction ds generalizing s own with
  | nil => exact ⟨s,own,rfl,h⟩
  | cons d ds ih =>
    obtain ⟨s1,res,own1,hserve,h1⟩ := h.serve hlaw (hds d (List.mem_cons_self ..))
    obtain ⟨s2,own2,hall,h2⟩ := ih h1 fun d hd => hds d (List.mem_cons_of_mem _ hd)
    refine ⟨s2,own2,?_,h2⟩
    simp only [EchoParty.serveAll,hserve]
    exact hall

omit [TypeIds (SubStore H M (Focus T St))] [Digest H M] [DecidableEq H] in
theorem not_interrupts {regs : List ((k : Option ι) × Focus T St k)}
    (hregs : ∀ reg ∈ regs, Registers i n l0 reg) (hstream : FromOthers i regs stream)
    {q : ℕ} (hq : q < stream.length) {P : Type} (err : RoundBased.CompleteRoundError P IoErr) :
    ¬ Interrupts l0.Registered stream q err := by
  intro h
  obtain ⟨msg,hmsg,hfit,hof,_⟩ := hstream _ (List.getElem_mem hq)
  have hget : stream[q]? = some (.ok msg) := by
    rw [List.getElem?_eq_getElem hq,hmsg]
  unfold Interrupts at h
  simp only [hget] at h
  obtain ⟨x,hx,hnot,_⟩ := h
  obtain ⟨y,hy,hreg⟩ := registered_of_kind hregs hfit hof
  rw [hx] at hy
  cases hy
  exact hnot hreg

/-- A reliable round releases its output exactly when everyone else's message and hash came,
and the hashes are the one that was sent. -/
theorem echo_gate {store : RoundInput T} (hs : RoundInput.reliableBroadcast i n = .ok store)
    {regs : List ((k : Option ι) × Focus T St k)} (hreg : ⟨none,store⟩ ∈ regs)
    {e0 : WithEchoBroadcast M} {router : RoundsRouter (Msg H M) (SubStore H M (Focus T St))}
    (h0 : (wrap i n : WithEchoBroadcast M).addRounds .new regs = .ok (e0,router))
    (hstream : FromOthers i regs stream) {before : List (Call (Round (Option ι)) M)}
    (hbefore : ∀ d ∈ before, Elsewhere M (Focus T St) none d) :
    ∃ (s s' : EchoParty H M (Focus T St) IoErr) (res : GateRes T IoErr) (own : Option M)
      (ownMsg : Option T),
      EchoParty.serveAll ⟨e0,⟨router,stream,[],[]⟩⟩ before = .ok s ∧
      s.serve (.complete (.withReliabilityCheck none)) = .ok (s',res) ∧
      sentIn false (RoundMsg.ROUND M T) s.party.sent =
        own.toList.map (fun m => .allParties (.main m)) ∧
      own.map (fromProtocolMsg (M := M) (T := T)) = ownMsg.map .ok ∧
      Gates H M i n (mainMsgs T stream) (echoMsgs T stream) ownMsg res
        (sentIn true (RoundMsg.ROUND M T) s'.party.sent) := by
  obtain ⟨l0,main,input,ha,hregs,hp0⟩ := awaits_of_addRounds hs hreg h0 stream
  have hi : i < n := RoundInput.lt_of_new hs
  have hlaw : RoutableStream (Msg H M) (SubStore H M (Focus T St)) stream := by
    intro msg hmsg
    obtain ⟨msg',hmsg',hfit,_⟩ := hstream _ hmsg
    cases hmsg'
    exact routable_of_short hfit.short
  have hothers : ∀ msg, .ok msg ∈ stream → msg.sender ≠ i := by
    intro msg hmsg
    obtain ⟨msg',hmsg',_,_,hne⟩ := hstream _ hmsg
    cases hmsg'
    exact hne
  obtain ⟨s,own,hall,hp⟩ := hp0.serveAll hlaw hbefore
  obtain ⟨s',res,ownMsg,hserve,hown,hcases⟩ :=
    gate_cases hlaw (fun q hq {P} err => not_interrupts hregs hstream hq err) hi ha hp
  exact ⟨s,s',res,own,ownMsg,hall,hserve,hp.party.mains,hown,
    gates_of_cases hi ha hothers hp.party.echoes hcases⟩

end Gate

section Commitments

open RandomGeneration

/-- Round 2 of random generation besides round 1. -/
abbrev Decommits (_ : Unit) : Type := RoundInput DecommitMsg

instance : TypeIds (SubStore Hash RandomGeneration.Msg (Focus CommitMsg Decommits)) := .ofKinds _

instance : ShortRoundMsg RandomGeneration.Msg CommitMsg :=
  inferInstanceAs (ShortRoundMsg RandomGeneration.Msg (RoundInfo.Msg (Store .round1)))

instance : ShortRoundMsg RandomGeneration.Msg DecommitMsg :=
  inferInstanceAs (ShortRoundMsg RandomGeneration.Msg (RoundInfo.Msg (Store .round2)))

instance (u : Unit) : ShortRoundMsg RandomGeneration.Msg (RoundInfo.Msg (Decommits u)) :=
  inferInstanceAs (ShortRoundMsg RandomGeneration.Msg DecommitMsg)

/-- The echo of party 1 and a message of round 2 overtake the commitment of party 1. -/
def overtaking (own other : CommitMsg) (later : DecommitMsg) :
    List (Except Unit (Incoming (Msg Hash RandomGeneration.Msg))) :=
  [.ok ⟨0,1,.broadcast false,.echo 0 ⟨TAG,[some (.commitMsg own),some (.commitMsg other)],0,2⟩⟩,
    .ok ⟨1,1,.broadcast false,.main (.decommitMsg later)⟩,
    .ok ⟨2,1,.broadcast false,.main (.commitMsg other)⟩]

theorem echo_gate_commitments :
    letI : Build := .debug
    let zero : Vector UInt8 32 := Vector.replicate 32 0
    let stream := overtaking ⟨zero⟩ ⟨zero⟩ ⟨zero⟩
    ∃ (e0 : WithEchoBroadcast RandomGeneration.Msg)
      (router : RoundsRouter (Msg Hash RandomGeneration.Msg)
        (SubStore Hash RandomGeneration.Msg (Focus CommitMsg Decommits)))
      (s s' : EchoParty Hash RandomGeneration.Msg (Focus CommitMsg Decommits) Unit)
      (res : GateRes CommitMsg Unit) (own : Option RandomGeneration.Msg) (ownMsg : Option CommitMsg),
      EchoParty.serveAll ⟨e0,⟨router,stream,[],[]⟩⟩
        [.send (.reliableBroadcast (.commitMsg ⟨zero⟩))] = .ok s ∧
      s.serve (.complete (.withReliabilityCheck none)) = .ok (s',res) ∧
      sentIn false 0 s.party.sent = own.toList.map (fun m => .allParties (.main m)) ∧
      own.map fromProtocolMsg = ownMsg.map .ok ∧
      Gates Hash RandomGeneration.Msg 0 2 (mainMsgs CommitMsg stream) (echoMsgs CommitMsg stream)
        ownMsg res (sentIn true 0 s'.party.sent) := by
  let _ : Build := .debug
  intro zero stream
  obtain ⟨store,hs⟩ : ∃ store : RoundInput CommitMsg, RoundInput.reliableBroadcast 0 2 = .ok store :=
    ⟨_,rfl⟩
  obtain ⟨later,hl⟩ : ∃ store : RoundInput DecommitMsg, RoundInput.broadcast 0 2 = .ok store :=
    ⟨_,rfl⟩
  let regs : List ((k : Option Unit) × Focus CommitMsg Decommits k) := [⟨none,store⟩,⟨some (),later⟩]
  obtain ⟨e0,router,h0⟩ : ∃ e0 router, (wrap 0 2 : WithEchoBroadcast RandomGeneration.Msg).addRounds
      (.new : RoundsRouter (Msg Hash RandomGeneration.Msg) _) regs = .ok (e0,router) := by
    cases hs
    cases hl
    exact ⟨_,_,rfl⟩
  have hstream : FromOthers 0 regs stream := by
    cases hs
    cases hl
    intro item hitem
    have hfirst : (⟨none,_⟩ : (k : Option Unit) × Focus CommitMsg Decommits k) ∈ regs :=
      List.mem_cons_self ..
    have hsecond : (⟨some (),_⟩ : (k : Option Unit) × Focus CommitMsg Decommits k) ∈ regs :=
      List.mem_cons_of_mem _ (List.mem_cons_self ..)
    simp only [stream,overtaking,List.mem_cons,List.not_mem_nil,or_false] at hitem
    rcases hitem with rfl | rfl | rfl
    · exact ⟨_,rfl,(by decide : (0 : UInt16).toNat < 32768),⟨_,hfirst,rfl,fun _ => rfl⟩,by decide⟩
    · exact ⟨_,rfl,trivial,⟨_,hsecond,rfl,fun h => (by cases h)⟩,by decide⟩
    · exact ⟨_,rfl,trivial,⟨_,hfirst,rfl,fun h => (by cases h)⟩,by decide⟩
  have hbefore : ∀ d ∈ [(.send (.reliableBroadcast (.commitMsg ⟨zero⟩)) :
      Call (Round (Option Unit)) RandomGeneration.Msg)],
      Elsewhere RandomGeneration.Msg (Focus CommitMsg Decommits) none d := by
    intro d hd
    rw [List.mem_singleton.mp hd]
    trivial
  obtain ⟨s,s',res,own,ownMsg,h⟩ := echo_gate hs (List.mem_cons_self ..) h0 hstream hbefore
  exact ⟨e0,router,s,s',res,own,ownMsg,h⟩

end Commitments
end EchoBroadcast
end RoundBased
