import RoundBased.EchoBroadcast

/-! What the engine can ask of the underlying party while it serves one operation, whatever
the answers are. -/
namespace RoundBased
namespace EchoBroadcast
open Interaction RoundsRouter WithEchoBroadcast

variable {ι H M : Type} {St : ι → Type} [∀ k, RoundStore (St k)]
  [∀ k, RoundMsg M (RoundInfo.Msg (St k))] {CErr : Type → Type} {SErr : Type}
  [Digest H M] [DecidableEq H]

/-- A call to the underlying party and its answer. -/
abbrev PartyEvent (CErr : Type → Type) (SErr H M : Type) {ι : Type} (St : ι → Type)
    [∀ k, RoundStore (St k)] [∀ k, RoundMsg M (RoundInfo.Msg (St k))] : Type :=
  Event (Call (Sub ι) (Msg H M)) (Answer (SubRes CErr H M St) SErr)

/-- An operation of the engine and its result. -/
abbrev EngineEvent (CErr : Type → Type) (SErr M : Type) {ι : Type} (St : ι → Type)
    [∀ k, RoundStore (St k)] : Type :=
  Event (Call (Round ι) M) (Answer (Res CErr SErr St) (Error SErr))

/-- The engine without the record of the message sent in the round. -/
def WithEchoBroadcast.remove (self : WithEchoBroadcast M) (r : UInt16) : WithEchoBroadcast M :=
  { self with sentReliableMsgs := Function.update self.sentReliableMsgs r none }

/-- Completing the main round of `k` was answered. -/
def mainEvent (k : ι) (ans : SubRes CErr H M St (.main k)) : PartyEvent CErr SErr H M St :=
  ⟨.complete (.main k),ans⟩

def echoEvent (k : ι) (ans : SubRes CErr H M St (.echo k)) : PartyEvent CErr SErr H M St :=
  ⟨.complete (.echo k),ans⟩

/-- Sending the echo of round `k` was answered. -/
def sendEvent (k : ι) (hash : H) (ans : Except SErr Unit) : PartyEvent CErr SErr H M St :=
  ⟨.send (.allParties (.echo (roundOf M St k) hash)),ans⟩

/-- The hash sent in round `k`, from the output of the main round. -/
def Hashes (e : WithEchoBroadcast M) (k : ι) (needs : NeedsOwnMsg H M (St k))
    (check : ReliabilityCheck H (St k)) (hash : H) : Prop :=
  ∃ sent, e.sentMsg k = .ok sent ∧ needs.withMyMsg sent = .ok (check,hash)

/-- How far completing a reliable round has come: the events so far, and what is left. -/
inductive Completing (e : WithEchoBroadcast M) (k : ι) : List (PartyEvent CErr SErr H M St) →
    PartyProg CErr SErr H M St (WithEchoBroadcast M × Res CErr SErr St (.withReliabilityCheck k)) →
    Prop
  | mainRound : Completing e k [] (.call (.complete (.main k)) (e.afterMainRound k))
  | mainFailed {err : CErr (Error (RoundInfo.Error (St k)))} :
      Completing e k [mainEvent k (.error err)] (.ret (e,.error (.completeRound err)))
  | hashFailed {needs : NeedsOwnMsg H M (St k)} {err : EchoError} :
      Completing e k [mainEvent k (.ok needs)]
        (.ret (e.remove (roundOf M St k),.error (.echo err)))
  | sending {needs : NeedsOwnMsg H M (St k)} {check : ReliabilityCheck H (St k)} {hash : H} :
      Hashes e k needs check hash → Completing e k [mainEvent k (.ok needs)]
        (.call (.send (.allParties (.echo (roundOf M St k) hash)))
          ((e.remove (roundOf M St k)).afterSend k check))
  | sendFailed {needs : NeedsOwnMsg H M (St k)} {check : ReliabilityCheck H (St k)} {hash : H}
      {err : SErr} : Hashes e k needs check hash →
      Completing e k [mainEvent k (.ok needs),sendEvent k hash (.error err)]
        (.ret (e.remove (roundOf M St k),.error (.send err)))
  | echoRound {needs : NeedsOwnMsg H M (St k)} {check : ReliabilityCheck H (St k)} {hash : H} :
      Hashes e k needs check hash →
      Completing e k [mainEvent k (.ok needs),sendEvent k hash (.ok ())]
        (.call (.complete (.echo k)) ((e.remove (roundOf M St k)).afterEchoRound k check))
  | echoFailed {needs : NeedsOwnMsg H M (St k)} {check : ReliabilityCheck H (St k)} {hash : H}
      {err : CErr (Error (RoundInfo.Error (St k)))} : Hashes e k needs check hash →
      Completing e k [mainEvent k (.ok needs),sendEvent k hash (.ok ()),echoEvent k (.error err)]
        (.ret (e.remove (roundOf M St k),.error (.completeRound err)))
  | done {needs : NeedsOwnMsg H M (St k)} {check : ReliabilityCheck H (St k)} {hash : H}
      {echoes : EchoRoundOutput H (St k)} : Hashes e k needs check hash →
      Completing e k [mainEvent k (.ok needs),sendEvent k hash (.ok ()),echoEvent k (.ok echoes)]
        (.ret (e.remove (roundOf M St k),(check.withEchoOutput echoes).mapError .echo))

omit [Digest H M] in
theorem afterEchoRound_eq (e : WithEchoBroadcast M) (k : ι) (check : ReliabilityCheck H (St k))
    (echoes : EchoRoundOutput H (St k)) :
    (e.afterEchoRound k check (.ok echoes) : PartyProg CErr SErr H M St
      (WithEchoBroadcast M × Res CErr SErr St (.withReliabilityCheck k))) =
    .ret (e,(check.withEchoOutput echoes).mapError .echo) := by
  simp only [afterEchoRound]
  cases check.withEchoOutput echoes <;> rfl

theorem afterMainRound_eq {e : WithEchoBroadcast M} {k : ι} {needs : NeedsOwnMsg H M (St k)}
    {sent : Option (RoundInfo.Msg (St k))} {check : ReliabilityCheck H (St k)} {hash : H}
    (hs : e.sentMsg k = .ok sent) (hh : needs.withMyMsg sent = .ok (check,hash)) :
    (e.afterMainRound k (.ok needs) : PartyProg CErr SErr H M St
      (WithEchoBroadcast M × Res CErr SErr St (.withReliabilityCheck k))) =
    .call (.send (.allParties (.echo (roundOf M St k) hash)))
      ((e.remove (roundOf M St k)).afterSend k check) := by
  simp only [afterMainRound,hs,hh]
  rfl

theorem Completing.next {e : WithEchoBroadcast M} {k : ι}
    {t : List (PartyEvent CErr SErr H M St)} {c : Call (Sub ι) (Msg H M)}
    {cont : Answer (SubRes CErr H M St) SErr c → PartyProg CErr SErr H M St
      (WithEchoBroadcast M × Res CErr SErr St (.withReliabilityCheck k))}
    (h : Completing e k t (.call c cont)) (ans : Answer (SubRes CErr H M St) SErr c) :
    Completing e k (t ++ [⟨c,ans⟩]) (cont ans) := by
  cases h with
  | mainRound =>
    cases ans with
    | error err => exact .mainFailed
    | ok needs =>
      cases hs : (e.sentMsg k : Except EchoError (Option (RoundInfo.Msg (St k)))) with
      | error err => simp only [afterMainRound,hs]; exact .hashFailed
      | ok sent =>
        cases hh : NeedsOwnMsg.withMyMsg (H := H) (M := M) (S := St k) needs sent with
        | error err => simp only [afterMainRound,hs,hh]; exact .hashFailed
        | ok r =>
          rw [afterMainRound_eq hs hh]
          exact .sending ⟨sent,hs,hh⟩
  | sending hh =>
    cases ans with
    | error err => exact .sendFailed hh
    | ok u => exact .echoRound hh
  | echoRound hh =>
    cases ans with
    | error err => exact .echoFailed hh
    | ok echoes =>
      rw [afterEchoRound_eq]
      exact .done hh

/-- Every trace of completing a reliable round is one of these. -/
theorem steps_complete {e : WithEchoBroadcast M} {k : ι}
    {t : List (PartyEvent CErr SErr H M St)} {q : PartyProg CErr SErr H M St
      (WithEchoBroadcast M × Res CErr SErr St (.withReliabilityCheck k))}
    (h : Steps (e.complete (.withReliabilityCheck k)) t q) : Completing e k t q :=
  h.invariant .mainRound fun _ _ _ ans hc => hc.next ans

variable [ProtocolMsg M]

omit [∀ k, RoundStore (St k)] [∀ k, RoundMsg M (RoundInfo.Msg (St k))] [Digest H M]
  [DecidableEq H] in
theorem onSend_cases {e e' : WithEchoBroadcast M} {outgoing : Outgoing M}
    {res : Except EchoError (Outgoing M)} (h : e.onSend outgoing = .ok (e',res)) :
    ∃ r, round outgoing.msg = .ok r ∧
      ((∃ err, res = .error err ∧ e' = e) ∨
      (e.sentReliableMsgs r = some none ∧ outgoing.recipient = .allParties true ∧
        e' = { e with
          sentReliableMsgs := Function.update e.sentReliableMsgs r (some (some outgoing.msg)) } ∧
        res = .ok { outgoing with recipient := .allParties false }) ∨
      (e.sentReliableMsgs r = none ∧ e' = e ∧ res = .ok outgoing)) := by
  unfold onSend at h
  cases hr : round outgoing.msg with
  | error p => rw [hr] at h; cases h
  | ok r =>
    simp only [hr,Except.map,Except.ok.injEq] at h
    refine ⟨r,rfl,?_⟩
    cases hs : e.sentReliableMsgs r with
    | none =>
      simp only [hs] at h
      split at h <;> cases h
      · exact .inl ⟨_,rfl,rfl⟩
      · exact .inr (.inr ⟨rfl,rfl,rfl⟩)
    | some slot =>
      simp only [hs] at h
      split at h
      · cases h
        exact .inl ⟨_,rfl,rfl⟩
      · rename_i hrel
        rw [Bool.not_eq_true,Bool.not_eq_false',MessageDestination.isReliableBroadcast_iff] at hrel
        cases slot with
        | some m =>
          cases h
          exact .inl ⟨_,rfl,rfl⟩
        | none =>
          cases h
          exact .inr (.inl ⟨rfl,hrel,rfl,rfl⟩)

theorem serve_refused {e e' : WithEchoBroadcast M} {outgoing : Outgoing M} {err : EchoError}
    (h : e.onSend outgoing = .ok (e',.error err)) :
    (serve e (.send outgoing) : PartyProg CErr SErr H M St
      (WithEchoBroadcast M × Except (Error SErr) Unit)) = .ret (e',.error (.echo err)) ∧
    (serve e (.enqueue outgoing) : PartyProg CErr SErr H M St
      (WithEchoBroadcast M × Except (Error SErr) Unit)) = .ret (e',.error (.echo err)) := by
  simp only [serve,sendWith,h]
  exact ⟨rfl,rfl⟩

theorem serve_handedOver {e e' : WithEchoBroadcast M} {outgoing o : Outgoing M}
    (h : e.onSend outgoing = .ok (e',.ok o)) :
    (serve e (.send outgoing) : PartyProg CErr SErr H M St
      (WithEchoBroadcast M × Except (Error SErr) Unit)) =
      .call (.send (o.map .main)) (fun r => .ret (e',Except.mapError .main r)) ∧
    (serve e (.enqueue outgoing) : PartyProg CErr SErr H M St
      (WithEchoBroadcast M × Except (Error SErr) Unit)) =
      .call (.enqueue (o.map .main)) (fun r => .ret (e',Except.mapError .main r)) := by
  simp only [serve,sendWith,h]
  exact ⟨rfl,rfl⟩

section Send

variable {e b : WithEchoBroadcast M} {outgoing : Outgoing M} {t : List (PartyEvent CErr SErr H M St)}
  {res : Except (Error SErr) Unit}

/-- A message is refused, or handed over in the form the check gives it. -/
theorem steps_send (h : Steps (serve e (.send outgoing)) t (.ret (b,res))) :
    (t = [] ∧ ∃ err, e.onSend outgoing = .ok (b,.error err) ∧ res = .error (.echo err)) ∨
    ∃ o ans, e.onSend outgoing = .ok (b,.ok o) ∧ t = [⟨.send (o.map .main),ans⟩] ∧
      res = Except.mapError .main ans := by
  simp only [serve,sendWith] at h
  split at h
  · cases h
  · rename_i hon
    cases h
    exact .inl ⟨rfl,_,hon,rfl⟩
  · rename_i hon
    cases h with
    | call h =>
      obtain ⟨rfl,hq⟩ := steps_ret h
      cases hq
      exact .inr ⟨_,_,hon,rfl,rfl⟩

theorem steps_enqueue (h : Steps (serve e (.enqueue outgoing)) t (.ret (b,res))) :
    (t = [] ∧ ∃ err, e.onSend outgoing = .ok (b,.error err) ∧ res = .error (.echo err)) ∨
    ∃ o ans, e.onSend outgoing = .ok (b,.ok o) ∧ t = [⟨.enqueue (o.map .main),ans⟩] ∧
      res = Except.mapError .main ans := by
  simp only [serve,sendWith] at h
  split at h
  · cases h
  · rename_i hon
    cases h
    exact .inl ⟨rfl,_,hon,rfl⟩
  · rename_i hon
    cases h with
    | call h =>
      obtain ⟨rfl,hq⟩ := steps_ret h
      cases hq
      exact .inr ⟨_,_,hon,rfl,rfl⟩

end Send

theorem steps_unmodified {e b : WithEchoBroadcast M} {k : ι}
    {t : List (PartyEvent CErr SErr H M St)} {res : Res CErr SErr St (.unmodified k)}
    (h : Steps (serve e (.complete (.unmodified k))) t (.ret (b,res))) :
    b = e ∧ ∃ ans, t = [⟨.complete (.plain k),ans⟩] ∧
      res = Except.mapError .completeRound ans := by
  cases h with
  | @call _ _ ans _ _ h =>
    cases ans with
    | error err =>
      obtain ⟨rfl,hq⟩ := steps_ret h
      cases hq
      exact ⟨rfl,_,rfl,rfl⟩
    | ok out =>
      obtain ⟨rfl,hq⟩ := steps_ret h
      cases hq
      exact ⟨rfl,_,rfl,rfl⟩

theorem steps_flush {e b : WithEchoBroadcast M} {t : List (PartyEvent CErr SErr H M St)}
    {res : Except (Error SErr) Unit}
    (h : Steps (serve e .flush : PartyProg CErr SErr H M St _) t (.ret (b,res))) :
    b = e ∧ ∃ ans, t = [⟨.flush,ans⟩] ∧ res = Except.mapError .main ans := by
  cases h with
  | call h => cases h; exact ⟨rfl,_,rfl,rfl⟩

theorem steps_yieldNow {e b : WithEchoBroadcast M} {t : List (PartyEvent CErr SErr H M St)}
    {res : Unit}
    (h : Steps (serve e .yieldNow : PartyProg CErr SErr H M St _) t (.ret (b,res))) :
    b = e ∧ t = [⟨.yieldNow,()⟩] := by
  cases h with
  | call h => cases h; exact ⟨rfl,rfl⟩

end EchoBroadcast
end RoundBased
