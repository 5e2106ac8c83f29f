import RoundBased.EchoWire

/-! What the engine remembers of a message whose sending failed. -/
namespace RoundBased
namespace EchoBroadcast
open Interaction RoundsRouter WithEchoBroadcast

variable {ι H M : Type} {St : ι → Type} [∀ k, RoundStore (St k)]
  [∀ k, RoundMsg M (RoundInfo.Msg (St k))] {CErr : Type → Type} {SErr : Type} [ProtocolMsg M]

/-- The message is a reliable broadcast that the checks accept. -/
def Logs (e : WithEchoBroadcast M) (outgoing : Outgoing M) : Prop :=
  outgoing.recipient = .allParties true ∧
    ∃ r, round outgoing.msg = .ok r ∧ e.sentReliableMsgs r = some none

/-- The operation sent its message. -/
def succeeded : EngineEvent CErr SErr M St → Bool
  | ⟨.send _,.ok _⟩ => true
  | ⟨.enqueue _,.ok _⟩ => true
  | _ => false

/-- The message was accepted and sent without an error. -/
def SentOk (done : List (EngineEvent CErr SErr M St)) (m : M) : Prop :=
  ∃ event ∈ done, ∃ outgoing, acceptedMsg event = some outgoing ∧ outgoing.msg = m ∧
    succeeded event = true

/-- The message was accepted, but the party failed to send it. -/
def Lost (done : List (EngineEvent CErr SErr M St)) (m : M) : Prop :=
  ∃ event ∈ done, ∃ outgoing, acceptedMsg event = some outgoing ∧ outgoing.msg = m ∧
    succeeded event = false

section Log

variable {e b : WithEchoBroadcast M} {outgoing o : Outgoing M}

omit [ProtocolMsg M] in
theorem Logs.unique [ProtocolMsg M] {r : UInt16} (h : Logs e outgoing)
    (hr : round outgoing.msg = .ok r) : e.sentReliableMsgs r = some none := by
  obtain ⟨_,r',hr',hs⟩ := h
  rw [hr] at hr'
  cases hr'
  exact hs

theorem not_logs_of_refused {err : EchoError}
    (h : e.onSend outgoing = .ok (b,.error err)) : ¬ Logs e outgoing := by
  intro hrec
  obtain ⟨r,hr,hs⟩ := hrec.2
  simp [onSend,hr,hs,hrec.1,MessageDestination.isReliableBroadcast,Except.map] at h

/-- Accepting a message leaves the log as it was, but for a reliable broadcast. -/
theorem log_eq_iff (h : e.onSend outgoing = .ok (b,.ok o)) :
    b.sentReliableMsgs = e.sentReliableMsgs ↔ ¬ Logs e outgoing := by
  obtain ⟨r,hr,⟨_,hc,_⟩ | ⟨hs,hrel,rfl,_⟩ | ⟨hs,rfl,_⟩⟩ := onSend_cases h
  · cases hc
  · constructor
    · intro heq
      have hslot := congrFun heq r
      simp [hs] at hslot
    · exact fun hnot => absurd ⟨hrel,r,hr,hs⟩ hnot
  · refine ⟨fun _ hrec => ?_,fun _ => rfl⟩
    rw [hrec.unique hr] at hs
    cases hs

theorem sendTwice_of_logs (h : e.onSend outgoing = .ok (b,.ok o)) (hrec : Logs e outgoing) :
    b.onSend outgoing = .ok (b,.error ⟨.sendTwice⟩) := by
  obtain ⟨r,hr,⟨_,hc,_⟩ | ⟨_,hrel,rfl,_⟩ | ⟨hs,_,_⟩⟩ := onSend_cases h
  · cases hc
  · simp [onSend,hr,hrel,MessageDestination.isReliableBroadcast,Except.map]
  · rw [hrec.unique hr] at hs
    cases hs

theorem accepted_again (h : e.onSend outgoing = .ok (b,.ok o)) (hrec : ¬ Logs e outgoing) :
    b = e := by
  obtain ⟨r,hr,⟨_,hc,_⟩ | ⟨hs,hrel,_⟩ | ⟨_,hb,_⟩⟩ := onSend_cases h
  · cases hc
  · exact absurd ⟨hrel,r,hr,hs⟩ hrec
  · exact hb

end Log

section Sends

variable [Digest H M] [DecidableEq H] {e e0 b : WithEchoBroadcast M} {outgoing : Outgoing M}
  {t : List (PartyEvent CErr SErr H M St)} {err : Error SErr}

/-- Sending the message fails, through either path. -/
inductive Fails (e : WithEchoBroadcast M) (outgoing : Outgoing M)
    (t : List (PartyEvent CErr SErr H M St)) (b : WithEchoBroadcast M) (err : Error SErr) : Prop
  | send : Steps (serve e (.send outgoing)) t (.ret (b,.error err)) → Fails e outgoing t b err
  | enqueue : Steps (serve e (.enqueue outgoing)) t (.ret (b,.error err)) → Fails e outgoing t b err

theorem Fails.cases (h : Fails e outgoing t b err) :
    (∃ x, e.onSend outgoing = .ok (b,.error x) ∧ err = .echo x) ∨
    ∃ x, e.onSend outgoing = .ok (b,.ok (onWire outgoing)) ∧ err = .main x := by
  have hmain : ∀ {ans : Except SErr Unit},
      (Except.error err : Except (Error SErr) Unit) = Except.mapError .main ans →
      ∃ x, err = .main x := by
    intro ans hans
    cases ans with
    | ok u => cases hans
    | error x =>
      cases hans
      exact ⟨x,rfl⟩
  cases h with
  | send h =>
    rcases steps_send h with ⟨_,x,hon,hres⟩ | ⟨o,ans,hon,_,hres⟩
    · cases hres
      exact .inl ⟨x,hon,rfl⟩
    · obtain ⟨x,hx⟩ := hmain hres
      rw [onSend_onWire hon] at hon
      exact .inr ⟨x,hon,hx⟩
  | enqueue h =>
    rcases steps_enqueue h with ⟨_,x,hon,hres⟩ | ⟨o,ans,hon,_,hres⟩
    · cases hres
      exact .inl ⟨x,hon,rfl⟩
    · obtain ⟨x,hx⟩ := hmain hres
      rw [onSend_onWire hon] at hon
      exact .inr ⟨x,hon,hx⟩

theorem Fails.log (h : Fails e outgoing t b err) :
    b.sentReliableMsgs = e.sentReliableMsgs ↔ ¬ Logs e outgoing := by
  rcases h.cases with ⟨x,hon,_⟩ | ⟨x,hon,_⟩
  · have hb : b = e := by
      obtain ⟨_,_,⟨_,_,hb⟩ | ⟨_,_,_,hc⟩ | ⟨_,_,hc⟩⟩ := onSend_cases hon
      · exact hb
      · cases hc
      · cases hc
    exact ⟨fun _ => not_logs_of_refused hon,fun _ => by rw [hb]⟩
  · exact log_eq_iff hon

theorem Fails.again {x : SErr} (h : Fails e outgoing t b (.main x)) :
    Accepts CErr SErr H St b outgoing (onWire outgoing) ↔ ¬ Logs e outgoing := by
  rcases h.cases with ⟨_,_,hc⟩ | ⟨_,hon,_⟩
  · cases hc
  · constructor
    · intro hacc hrec
      have hrefused : Refuses CErr SErr H St b outgoing .sendTwice :=
        refuses_of_onSend (sendTwice_of_logs hon hrec)
      obtain ⟨k,hk⟩ := hacc.1
      rw [hrefused.1] at hk
      cases hk
    · intro hnot
      have hb := accepted_again hon hnot
      rw [hb] at hon ⊢
      exact accepts_of_onSend hon

omit [∀ k, RoundMsg M (RoundInfo.Msg (St k))] in
theorem two_le_accepted {done : List (EngineEvent CErr SErr M St)}
    {x y : EngineEvent CErr SErr M St} (hx : x ∈ done) (hy : y ∈ done) (hne : x ≠ y)
    {r : UInt16} {o o' : Outgoing M} (ho : acceptedMsg x = some o) (ho' : acceptedMsg y = some o')
    (hr : inRound r o = true) (hr' : inRound r o' = true) :
    2 ≤ ((done.filterMap acceptedMsg).filter (inRound r)).length := by
  obtain ⟨pre,post,rfl⟩ := List.append_of_mem hx
  have hrest : y ∈ pre ++ post := by
    rcases List.mem_append.mp hy with hy | hy
    · exact List.mem_append_left _ hy
    · exact List.mem_append_right _ ((List.mem_cons.mp hy).resolve_left (Ne.symm hne))
  have hmem : o' ∈ ((pre ++ post).filterMap acceptedMsg).filter (inRound r) :=
    List.mem_filter.mpr ⟨List.mem_filterMap.mpr ⟨y,hrest,ho'⟩,hr'⟩
  have hpos := List.length_pos_of_mem hmem
  simp only [List.filterMap_append,List.filter_append,List.length_append,List.filterMap_cons,ho,
    List.filter_cons,hr,if_true,List.length_cons] at hpos ⊢
  omega

/-- The message in the log was sent, unless it was lost. -/
theorem sentOk_iff {i n : UInt16} {router router' : RoundsRouter (Msg H M) (SubStore H M St)}
    {regs : List ((k : ι) × St k)} (h0 : (wrap i n).addRounds router regs = .ok (e0,router'))
    {done : List (EngineEvent CErr SErr M St)} {made : List (PartyEvent CErr SErr H M St)}
    (hrun : Serves serve e0 done made e) {r : UInt16} {m : M}
    (hm : e.sentReliableMsgs r = some (some m)) : SentOk done m ↔ ¬ Lost done m := by
  have hrem := remembers_of_serves h0 hrun r
  have hnot : ¬ (¬ Reliable M regs r ∨ MainCompleted made r) := by
    intro hc
    rw [hrem.forgets hc] at hm
    cases hm
  obtain ⟨hrel,hopen⟩ := not_or.mp hnot
  obtain ⟨slot,hslot,hhanded,hacc⟩ := hrem.remembers (not_not.mp hrel) hopen
  rw [hm] at hslot
  cases hslot
  have hmem : Outgoing.reliableBroadcast m ∈ accepted r done := by
    rw [hacc]
    exact List.mem_singleton_self _
  have hone : ((done.filterMap acceptedMsg).filter (inRound r)).length = 1 := by
    have hlen := congrArg List.length ((handed_eq_map hrun r).symm.trans hhanded)
    rwa [List.length_map] at hlen
  obtain ⟨hmem,hround⟩ := List.mem_filter.mp hmem
  have hr : ∀ o : Outgoing M, o.msg = m → inRound r o = true := by
    rintro o rfl
    exact (Bool.and_eq_true_iff.mp hround).2
  constructor
  · rintro ⟨x,hx,o,ho,hom,hsent⟩ ⟨y,hy,o',ho',hom',hlost⟩
    have hne : x ≠ y := by
      rintro rfl
      rw [hsent] at hlost
      cases hlost
    have htwo := two_le_accepted hx hy hne ho ho' (hr o hom) (hr o' hom')
    omega
  · intro hnot
    obtain ⟨event,hevent,hacc⟩ := List.mem_filterMap.mp hmem
    refine ⟨event,hevent,_,hacc,rfl,?_⟩
    by_contra hfailed
    exact hnot ⟨event,hevent,_,hacc,rfl,eq_false_of_ne_true hfailed⟩

end Sends

/-- At every point of every run: a failed send leaves the log as it was, and after an error of the
party the message can be sent again, if and only if it was not logged. The own message in a hash
was sent, unless it was logged and lost. -/
theorem failed_send_iff [Digest H M] [DecidableEq H] [∀ k, LosslessRoundMsg M (RoundInfo.Msg (St k))]
    {i n : UInt16} {router router' : RoundsRouter (Msg H M) (SubStore H M St)}
    {regs : List ((k : ι) × St k)} {e0 e : WithEchoBroadcast M}
    (h0 : (wrap i n).addRounds router regs = .ok (e0,router'))
    {done : List (EngineEvent CErr SErr M St)} {made : List (PartyEvent CErr SErr H M St)}
    (hrun : Serves serve e0 done made e) :
    (∀ outgoing (t : List (PartyEvent CErr SErr H M St)) b err, Fails e outgoing t b err →
      (b.sentReliableMsgs = e.sentReliableMsgs ↔ ¬ Logs e outgoing) ∧
      ∀ x, err = .main x →
        (Accepts CErr SErr H St b outgoing (onWire outgoing) ↔ ¬ Logs e outgoing)) ∧
    ∀ k (t : List (PartyEvent CErr SErr H M St)) q hash,
      Steps (serve e (.complete (.withReliabilityCheck k))) t q →
      .allParties (.echo (roundOf M St k) hash) ∈ handedOver t q →
      ∃ (needs : NeedsOwnMsg H M (St k)) (msgs : List (Option M)) (own : Option M),
        mainEvent k (.ok needs) ∈ t ∧
        hash = Digest.hash ⟨TAG,msgs,roundOf M St k,needs.params.n⟩ ∧
        msgs[needs.params.i.toNat]? = some own ∧
        ∀ m, own = some m → (SentOk done m ↔ ¬ Lost done m) := by
  refine ⟨fun outgoing t b err hf => ⟨hf.log,?_⟩,fun k t q hash ht ho => ?_⟩
  · rintro x rfl
    exact hf.again
  · obtain ⟨needs,check,hash',⟨more,rfl⟩,hh,heq⟩ := (steps_complete ht).emits _ ho
    simp only [Outgoing.allParties,Outgoing.mk.injEq,Msg.echo.injEq,true_and] at heq
    subst heq
    obtain ⟨msgs,hhash,hown,_⟩ := hh.own
    refine ⟨needs,msgs,_,List.mem_cons_self ..,hhash,hown,fun m hm => ?_⟩
    exact sentOk_iff h0 hrun (Option.join_eq_some_iff.mp hm)

section Commitments

open RandomGeneration

/-- Party 0 failed to send its commitment: sending it again is refused, and it is hashed. -/
theorem unsent_commitment_hashed :
    ∃ (s : Store .round1) (e0 e : WithEchoBroadcast RandomGeneration.Msg)
      (router : RoundsRouter (Msg Hash RandomGeneration.Msg)
        (SubStore Hash RandomGeneration.Msg Store))
      (done : List (EngineEvent (fun _ => Unit) Unit RandomGeneration.Msg Store))
      (made t : List (PartyEvent (fun _ => Unit) Unit Hash RandomGeneration.Msg Store))
      (q : PartyProg (fun _ => Unit) Unit Hash RandomGeneration.Msg Store _),
      RoundInput.reliableBroadcast 0 2 = .ok s ∧
      (wrap 0 2).addRounds .new [⟨RoundKind.round1,s⟩] = .ok (e0,router) ∧
      Fails e0 (.reliableBroadcast (.commitMsg (commitTo 0))) made e (.main ()) ∧
      e.sentReliableMsgs ≠ e0.sentReliableMsgs ∧
      Refuses (fun _ => Unit) Unit Hash Store e (.reliableBroadcast (.commitMsg (commitTo 0)))
        .sendTwice ∧
      Serves serve e0 done made e ∧ ¬ SentOk done (.commitMsg (commitTo 0)) ∧
      Steps (serve e (.complete (.withReliabilityCheck RoundKind.round1))) t q ∧
      .allParties (.echo 0 ⟨TAG,[some (.commitMsg (commitTo 0)),some (.commitMsg (commitTo 1))],0,2⟩) ∈
        handedOver t q := by
  let e1 : WithEchoBroadcast RandomGeneration.Msg :=
    ⟨0,2,Function.update registered.sentReliableMsgs 0 (some (some (.commitMsg (commitTo 0))))⟩
  let needs : NeedsOwnMsg Hash RandomGeneration.Msg (Store .round1) :=
    ⟨⟨0,2⟩,(⟨0,[7],[commitTo 1]⟩ : RoundMsgs CommitMsg),[none,some (.commitMsg (commitTo 1))]⟩
  let lost : PartyEvent (fun _ => Unit) Unit Hash RandomGeneration.Msg Store :=
    ⟨.send (.allParties (.main (.commitMsg (commitTo 0)))),.error ()⟩
  let got : PartyEvent (fun _ => Unit) Unit Hash RandomGeneration.Msg Store :=
    mainEvent .round1 (.ok needs)
  obtain ⟨s,router,hs,_,hadd⟩ := registered_spec
  have hsend : Steps (serve registered (.send (.reliableBroadcast (.commitMsg (commitTo 0))))) [lost]
      (.ret (e1,.error (.main ()))) := .call .refl
  have hlog : e1.sentReliableMsgs ≠ registered.sentReliableMsgs := by
    intro h
    have hslot := congrFun h 0
    cases hslot
  have hrefused : e1.onSend (.reliableBroadcast (.commitMsg (commitTo 0))) =
      .ok (e1,.error ⟨.sendTwice⟩) := rfl
  refine ⟨s,registered,e1,router,[⟨.send (.reliableBroadcast (.commitMsg (commitTo 0))),.error (.main ())⟩],
    [lost],[got],_,hs,hadd,.send hsend,hlog,refuses_of_onSend hrefused,.snoc .refl hsend,?_,
    .call .refl,List.mem_singleton_self _⟩
  rintro ⟨event,hevent,_,_,_,hok⟩
  rw [List.mem_singleton.mp hevent] at hok
  cases hok

/-- A decommitment that was not sent can be sent again. -/
theorem failed_send_decommitment :
    ∃ (e0 e : WithEchoBroadcast RandomGeneration.Msg)
      (made : List (PartyEvent (fun _ => Unit) Unit Hash RandomGeneration.Msg Store))
      (outgoing : Outgoing RandomGeneration.Msg),
      Fails e0 outgoing made e (.main ()) ∧ e.sentReliableMsgs = e0.sentReliableMsgs ∧
      Accepts (fun _ => Unit) Unit Hash Store e outgoing (onWire outgoing) := by
  let outgoing : Outgoing RandomGeneration.Msg := .allParties (.decommitMsg ⟨Vector.replicate 32 0⟩)
  let lost : PartyEvent (fun _ => Unit) Unit Hash RandomGeneration.Msg Store :=
    ⟨.send (outgoing.map .main),.error ()⟩
  obtain ⟨s,router,_,_,hadd⟩ := registered_spec
  have hsend : Steps (serve registered (.send outgoing)) [lost]
      (.ret (registered,.error (.main ()))) := .call .refl
  have hnot : ¬ Logs registered outgoing := by
    rintro ⟨hrel,_⟩
    cases hrel
  obtain ⟨hfails,_⟩ := failed_send_iff hadd
    (.refl : Serves serve registered []
      ([] : List (PartyEvent (fun _ => Unit) Unit Hash _ Store)) registered)
  obtain ⟨hlog,hagain⟩ := hfails outgoing [lost] registered (.main ()) (.send hsend)
  exact ⟨registered,registered,[lost],outgoing,.send hsend,hlog.mpr hnot,(hagain () rfl).mpr hnot⟩

end Commitments

end EchoBroadcast
end RoundBased
