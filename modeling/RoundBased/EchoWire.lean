import RoundBased.EchoDiscipline
import RoundBased.EchoParty

/-! What the engine hands to the underlying party, over whole runs and whatever the party
answers. -/
namespace RoundBased
namespace EchoBroadcast
open Interaction RoundsRouter WithEchoBroadcast Feeding

variable {ι H M : Type} {St : ι → Type} [∀ k, RoundStore (St k)]
  [∀ k, RoundMsg M (RoundInfo.Msg (St k))] {CErr : Type → Type} {SErr : Type}

/-- The message that a call hands to the party. -/
def handsOver : Call (Sub ι) (Msg H M) → Option (Outgoing (Msg H M))
  | .send o => some o
  | .enqueue o => some o
  | _ => none

/-- The messages that were handed to the party, the last of which may not be taken yet. -/
def handedOver {A : Type} (t : List (PartyEvent CErr SErr H M St))
    (q : PartyProg CErr SErr H M St A) : List (Outgoing (Msg H M)) :=
  (asked t q).filterMap handsOver

theorem mem_handedOver {B : Type} {q : PartyProg CErr SErr H M St B}
    {event : PartyEvent CErr SErr H M St} (hmem : event ∈ t) {o : Outgoing (Msg H M)}
    (ho : handsOver event.1 = some o) : o ∈ handedOver t q := by
  have hasked : event.1 ∈ asked t q := by
    cases q with
    | call c k => exact List.mem_append_left _ (List.mem_map_of_mem hmem)
    | ret b => exact List.mem_map_of_mem hmem
    | throw x => exact List.mem_map_of_mem hmem
  exact List.mem_filterMap.mpr ⟨_,hasked,ho⟩

/-- A reliable broadcast goes to the party as a broadcast, any other message as it is. -/
def onWire (outgoing : Outgoing M) : Outgoing M :=
  if outgoing.recipient.isReliableBroadcast then { outgoing with recipient := .allParties false }
  else outgoing

theorem onWire_recipient (outgoing : Outgoing M) :
    (onWire outgoing).recipient ≠ .allParties true := by
  unfold onWire
  split
  · simp
  · rename_i h
    rwa [MessageDestination.isReliableBroadcast_iff] at h

theorem onWire_of_not {outgoing : Outgoing M}
    (h : outgoing.recipient.isReliableBroadcast = false) : onWire outgoing = outgoing := by
  rw [onWire,h]
  rfl

variable [ProtocolMsg M]

theorem inRound_onWire (r : UInt16) (outgoing : Outgoing M) :
    inRound r (onWire outgoing) = inRound r outgoing := by
  unfold onWire
  split <;> rfl

theorem onSend_onWire {e e' : WithEchoBroadcast M} {outgoing o : Outgoing M}
    (h : e.onSend outgoing = .ok (e',.ok o)) : o = onWire outgoing := by
  unfold onSend at h
  cases hr : round outgoing.msg with
  | error p => rw [hr] at h; cases h
  | ok r =>
    simp only [hr,Except.map,Except.ok.injEq] at h
    cases hs : e.sentReliableMsgs r with
    | none =>
      simp only [hs] at h
      split at h
      · cases h
      · rename_i hrel
        cases h
        exact (onWire_of_not (eq_false_of_ne_true hrel)).symm
    | some slot =>
      simp only [hs] at h
      split at h
      · cases h
      · rename_i hrel
        rw [Bool.not_eq_true,Bool.not_eq_false'] at hrel
        split at h
        · cases h
        · cases h
          rw [onWire,hrel]
          rfl

theorem not_reliable_of_onSend {e e' : WithEchoBroadcast M} {outgoing o : Outgoing M} {r : UInt16}
    (h : e.onSend outgoing = .ok (e',.ok o)) (hr : round outgoing.msg = .ok r)
    (hs : e.sentReliableMsgs r = none) : outgoing.recipient.isReliableBroadcast = false := by
  simp only [onSend,hr,hs,Except.map,Except.ok.injEq] at h
  split at h
  · cases h
  · rename_i hrel
    exact eq_false_of_ne_true hrel

/-- What an operation can hand to the party. -/
inductive Emits (H : Type) {ι M : Type} (St : ι → Type) [∀ k, RoundStore (St k)]
    [∀ k, RoundMsg M (RoundInfo.Msg (St k))] [ProtocolMsg M] (e : WithEchoBroadcast M) :
    Call (Round ι) M → Outgoing (Msg H M) → Prop
  | send {e' : WithEchoBroadcast M} {outgoing : Outgoing M} :
      e.onSend outgoing = .ok (e',.ok (onWire outgoing)) →
      Emits H St e (.send outgoing) ((onWire outgoing).map .main)
  | enqueue {e' : WithEchoBroadcast M} {outgoing : Outgoing M} :
      e.onSend outgoing = .ok (e',.ok (onWire outgoing)) →
      Emits H St e (.enqueue outgoing) ((onWire outgoing).map .main)
  | echo {k : ι} {hash : H} :
      Emits H St e (.complete (.withReliabilityCheck k))
        (.allParties (.echo (roundOf M St k) hash))

theorem Emits.recipient {e : WithEchoBroadcast M} {d : Call (Round ι) M} {o : Outgoing (Msg H M)}
    (h : Emits H St e d o) : o.recipient ≠ .allParties true := by
  cases h with
  | @send _ outgoing _ => exact onWire_recipient outgoing
  | @enqueue _ outgoing _ => exact onWire_recipient outgoing
  | echo => simp [Outgoing.allParties]

section Operation

variable [Digest H M] [DecidableEq H] {e b : WithEchoBroadcast M} {outgoing : Outgoing M}
  {t : List (PartyEvent CErr SErr H M St)}

/-- Through either path, a message is handed over exactly if it is accepted. -/
theorem handedOver_message
    {p q : PartyProg CErr SErr H M St (WithEchoBroadcast M × Except (Error SErr) Unit)}
    (hp : p = serve e (.send outgoing) ∨ p = serve e (.enqueue outgoing)) (h : Steps p t q) :
    (∃ e', e.onSend outgoing = .ok (e',.ok (onWire outgoing)) ∧
      handedOver t q = [(onWire outgoing).map .main]) ∨
    (∀ e' o, e.onSend outgoing ≠ .ok (e',.ok o)) ∧ handedOver t q = [] := by
  cases hon : e.onSend outgoing with
  | error x =>
    have hthrow : p = .throw x := by
      rcases hp with rfl | rfl
      · simp only [serve,sendWith,hon]
      · simp only [serve,sendWith,hon]
    subst hthrow
    cases h
    exact .inr ⟨fun _ _ hc => (by cases hc),rfl⟩
  | ok r =>
    obtain ⟨e',res⟩ := r
    cases res with
    | error err =>
      have hret : p = .ret (e',.error (.echo err)) := by
        rcases hp with rfl | rfl
        · exact (serve_refused hon).1
        · exact (serve_refused hon).2
      subst hret
      obtain ⟨rfl,rfl⟩ := steps_ret h
      exact .inr ⟨fun _ _ hc => (by cases hc),rfl⟩
    | ok o =>
      have ho := onSend_onWire hon
      subst ho
      refine .inl ⟨e',rfl,?_⟩
      rcases hp with rfl | rfl
      · rw [(serve_handedOver hon).1] at h
        cases h with
        | refl => rfl
        | call h =>
          obtain ⟨rfl,rfl⟩ := steps_ret h
          rfl
      · rw [(serve_handedOver hon).2] at h
        cases h with
        | refl => rfl
        | call h =>
          obtain ⟨rfl,rfl⟩ := steps_ret h
          rfl

omit [ProtocolMsg M] in
/-- Completing a reliable round hands over its echo, at most. -/
theorem Completing.emits {k : ι}
    {q : PartyProg CErr SErr H M St (WithEchoBroadcast M × Res CErr SErr St (.withReliabilityCheck k))}
    (h : Completing e k t q) : ∀ o ∈ handedOver t q, ∃ (needs : NeedsOwnMsg H M (St k))
      (check : ReliabilityCheck H (St k)) (hash : H),
      (∃ more, t = mainEvent k (.ok needs) :: more) ∧
      Hashes e k needs check hash ∧ o = .allParties (.echo (roundOf M St k) hash) := by
  intro o ho
  cases h with
  | mainRound => cases ho
  | mainFailed => cases ho
  | hashFailed => cases ho
  | sending hh => exact ⟨_,_,_,⟨_,rfl⟩,hh,List.mem_singleton.mp ho⟩
  | sendFailed hh => exact ⟨_,_,_,⟨_,rfl⟩,hh,List.mem_singleton.mp ho⟩
  | echoRound hh => exact ⟨_,_,_,⟨_,rfl⟩,hh,List.mem_singleton.mp ho⟩
  | echoFailed hh => exact ⟨_,_,_,⟨_,rfl⟩,hh,List.mem_singleton.mp ho⟩
  | done hh => exact ⟨_,_,_,⟨_,rfl⟩,hh,List.mem_singleton.mp ho⟩

theorem emits_of_handedOver {d : Call (Round ι) M}
    {q : PartyProg CErr SErr H M St (WithEchoBroadcast M × Answer (Res CErr SErr St) (Error SErr) d)}
    (h : Steps (serve e d) t q) : ∀ o ∈ handedOver t q, Emits H St e d o := by
  intro o ho
  cases d with
  | complete w =>
    cases w with
    | unmodified k =>
      have hnone : handedOver t q = [] := by
        cases h with
        | refl => rfl
        | @call _ _ ans _ _ h =>
          cases ans with
          | error err =>
            obtain ⟨rfl,rfl⟩ := steps_ret h
            rfl
          | ok out =>
            obtain ⟨rfl,rfl⟩ := steps_ret h
            rfl
      rw [hnone] at ho
      cases ho
    | withReliabilityCheck k =>
      obtain ⟨_,_,_,_,_,rfl⟩ := (steps_complete h).emits o ho
      exact .echo
  | send outgoing =>
    rcases handedOver_message (.inl rfl) h with ⟨e',hon,hw⟩ | ⟨_,hw⟩
    · have hmem : o ∈ [(onWire outgoing).map .main] := hw ▸ ho
      rw [List.mem_singleton.mp hmem]
      exact .send hon
    · have hmem : o ∈ [] := hw ▸ ho
      cases hmem
  | enqueue outgoing =>
    rcases handedOver_message (.inr rfl) h with ⟨e',hon,hw⟩ | ⟨_,hw⟩
    · have hmem : o ∈ [(onWire outgoing).map .main] := hw ▸ ho
      rw [List.mem_singleton.mp hmem]
      exact .enqueue hon
    · have hmem : o ∈ [] := hw ▸ ho
      cases hmem
  | flush =>
    cases h with
    | refl => cases ho
    | call h =>
      obtain ⟨rfl,rfl⟩ := steps_ret h
      cases ho
  | yieldNow =>
    cases h with
    | refl => cases ho
    | call h =>
      obtain ⟨rfl,rfl⟩ := steps_ret h
      cases ho

/-- What serving an operation hands over are the messages of the main protocol it was given. -/
theorem handed_of_served {d : Call (Round ι) M} {res : Answer (Res CErr SErr St) (Error SErr) d}
    (h : Steps (serve e d) t (.ret (b,res))) :
    t.filterMap handedMsg =
      ([(⟨d,res⟩ : EngineEvent CErr SErr M St)].filterMap acceptedMsg).map onWire := by
  cases d with
  | complete w =>
    cases w with
    | unmodified k =>
      obtain ⟨_,_,rfl,_⟩ := steps_unmodified h
      rfl
    | withReliabilityCheck k =>
      have hc := steps_complete h
      generalize hq : Prog.ret (b,res) = q at hc
      cases hc <;> rfl
  | send outgoing =>
    rcases steps_send h with ⟨rfl,err,_,rfl⟩ | ⟨o,ans,hon,rfl,rfl⟩
    · rfl
    · rw [onSend_onWire hon]
      cases ans <;> rfl
  | enqueue outgoing =>
    rcases steps_enqueue h with ⟨rfl,err,_,rfl⟩ | ⟨o,ans,hon,rfl,rfl⟩
    · rfl
    · rw [onSend_onWire hon]
      cases ans <;> rfl
  | flush =>
    obtain ⟨_,_,rfl,_⟩ := steps_flush h
    rfl
  | yieldNow =>
    obtain ⟨_,rfl⟩ := steps_yieldNow h
    rfl

/-- In a round that is not in the map no reliable broadcast is accepted. -/
theorem accepted_nil {d : Call (Round ι) M} {res : Answer (Res CErr SErr St) (Error SErr) d}
    (h : Steps (serve e d : PartyProg CErr SErr H M St _) t (.ret (b,res))) {r : UInt16}
    (hs : e.sentReliableMsgs r = none) :
    accepted r [(⟨d,res⟩ : EngineEvent CErr SErr M St)] = [] := by
  have hsent : ∀ {outgoing o : Outgoing M} {e' : WithEchoBroadcast M},
      e.onSend outgoing = .ok (e',.ok o) →
      ([outgoing].filter fun outgoing =>
        outgoing.recipient.isReliableBroadcast && inRound r outgoing) = [] := by
    intro outgoing o e' hon
    by_cases hr : round outgoing.msg = .ok r
    · simp [not_reliable_of_onSend hon hr hs]
    · simp [inRound,hr]
  cases d with
  | complete w => rfl
  | send outgoing =>
    rcases steps_send h with ⟨rfl,err,_,rfl⟩ | ⟨o,ans,hon,rfl,rfl⟩
    · rfl
    · cases ans with
      | error err => exact hsent hon
      | ok u => exact hsent hon
  | enqueue outgoing =>
    rcases steps_enqueue h with ⟨rfl,err,_,rfl⟩ | ⟨o,ans,hon,rfl,rfl⟩
    · rfl
    · cases ans with
      | error err => exact hsent hon
      | ok u => exact hsent hon
  | flush => rfl
  | yieldNow => rfl

theorem completes_of_served {d : Call (Round ι) M} {res : Answer (Res CErr SErr St) (Error SErr) d}
    (h : Steps (serve e d : PartyProg CErr SErr H M St _) t (.ret (b,res))) {r : UInt16}
    (hc : MainCompleted t r) : ∃ k, roundOf M St k = r ∧ d = .complete (.withReliabilityCheck k) := by
  cases d with
  | complete w =>
    cases w with
    | unmodified k =>
      obtain ⟨_,_,rfl,_⟩ := steps_unmodified h
      cases hc
    | withReliabilityCheck k =>
      have hone : r ∈ [roundOf M St k] := by
        have hcases := steps_complete h
        generalize Prog.ret (b,res) = q at hcases
        cases hcases with
        | mainRound => cases hc
        | mainFailed => cases hc
        | hashFailed => exact hc
        | sending => exact hc
        | sendFailed => exact hc
        | echoRound => exact hc
        | echoFailed => exact hc
        | done => exact hc
      exact ⟨k,(List.mem_singleton.mp hone).symm,rfl⟩
  | send outgoing =>
    rcases steps_send h with ⟨rfl,_⟩ | ⟨_,_,_,rfl,_⟩
    · cases hc
    · cases hc
  | enqueue outgoing =>
    rcases steps_enqueue h with ⟨rfl,_⟩ | ⟨_,_,_,rfl,_⟩
    · cases hc
    · cases hc
  | flush =>
    obtain ⟨_,_,rfl,_⟩ := steps_flush h
    cases hc
  | yieldNow =>
    obtain ⟨_,rfl⟩ := steps_yieldNow h
    cases hc

omit [DecidableEq H] [ProtocolMsg M] in
theorem Hashes.own [ProtocolMsg M] [∀ k, LosslessRoundMsg M (RoundInfo.Msg (St k))] {k : ι}
    {needs : NeedsOwnMsg H M (St k)} {check : ReliabilityCheck H (St k)} {hash : H}
    (h : Hashes e k needs check hash) : ∃ msgs : List (Option M),
      hash = Digest.hash ⟨TAG,msgs,roundOf M St k,needs.params.n⟩ ∧
      msgs[needs.params.i.toNat]? = some (e.sentReliableMsgs (roundOf M St k)).join ∧
      ∀ j, j ≠ needs.params.i.toNat → msgs[j]? = needs.receivedMsgs[j]? := by
  obtain ⟨sent,hs,hw⟩ := h
  have hown : sent.map (toProtocolMsg (M := M)) = (e.sentReliableMsgs (roundOf M St k)).join := by
    unfold sentMsg at hs
    cases hslot : e.sentReliableMsgs (roundOf M St k) with
    | none =>
      rw [hslot] at hs
      cases hs
      rfl
    | some slot =>
      rw [hslot] at hs
      cases slot with
      | none =>
        cases hs
        rfl
      | some m =>
        simp only at hs
        split at hs
        · rename_i msg hfrom
          cases hs
          exact congrArg some (LosslessRoundMsg.to_from m msg hfrom)
        · cases hs
  unfold NeedsOwnMsg.withMyMsg at hw
  by_cases hi : needs.params.i.toNat < needs.receivedMsgs.length
  · simp only [if_pos hi,Except.ok.injEq,Prod.mk.injEq] at hw
    refine ⟨_,hw.2.symm,?_,fun j hj => List.getElem?_set_ne (Ne.symm hj)⟩
    rw [List.getElem?_set_self hi,hown]
  · simp only [if_neg hi] at hw
    cases hw

end Operation

/-- The output was released by the main round that was made for a round of party `i`. -/
def OutputOf {S : Type} [RoundStore S] [RoundMsg M (RoundInfo.Msg S)] (i n : UInt16)
    (needs : NeedsOwnMsg H M S) : Prop :=
  ∃ (round : S) (main main' : MainRound H M S) (echo : EchoRound H S),
    newStores i n round = .ok (main,echo) ∧ (store (MainRound H M S)).Reach main main' ∧
    main'.output = .ok needs

omit [ProtocolMsg M] in
theorem OutputOf.params {S : Type} [RoundStore S] [RoundMsg M (RoundInfo.Msg S)] {i n : UInt16}
    {needs : NeedsOwnMsg H M S} (h : OutputOf i n needs) : needs.params = ⟨i,n⟩ := by
  obtain ⟨round,main,main',echo,hnew,hreach,hout⟩ := h
  have hmain : main.params = ⟨i,n⟩ := by
    unfold newStores at hnew
    cases hb : (RoundInput.broadcast i n : Checked (RoundInput H)) with
    | error p => rw [hb] at hnew; cases hnew
    | ok e =>
      rw [hb] at hnew
      cases hnew
      rfl
  have hmain' : main'.params = ⟨i,n⟩ := by
    clear hout
    induction hreach with
    | refl => exact hmain
    | @add a b x _ _ ha ih =>
      have hparams := a.addMessage_params x
      simp only [store_add,RoundStore.addMessage] at ha
      split at ha
      · rename_i heq
        cases ha
        rw [heq] at hparams
        exact hparams.trans ih
      · cases ha
  unfold MainRound.output at hout
  split at hout
  · cases hout
    exact hmain'
  · cases hout

/-- The witness that a round is registered. -/
def witness (reg : (k : ι) × St k) : Round ι :=
  if requiresReliableBroadcast reg.2 = some true then .withReliabilityCheck reg.1
  else .unmodified reg.1

/-- The witnesses that are used up by the operations. -/
def completions (ds : List (Call (Round ι) M)) : List (Round ι) :=
  ds.filterMap fun
    | .complete w => some w
    | _ => none

/-- Rounds are completed with the witnesses of their registration, each of which can be used
once. -/
structure UsesWitnesses (regs : List ((k : ι) × St k)) (ws : List (Round ι)) : Prop where
  nodup : ws.Nodup
  registered : ∀ w ∈ ws, ∃ reg ∈ regs, witness reg = w

omit [∀ k, RoundMsg M (RoundInfo.Msg (St k))] [ProtocolMsg M] in
theorem reliable_of_witness {reg : (k : ι) × St k} {k : ι}
    (h : witness reg = .withReliabilityCheck k) :
    requiresReliableBroadcast reg.2 = some true ∧ reg.1 = k := by
  unfold witness at h
  split at h
  · rename_i hrel
    cases h
    exact ⟨hrel,rfl⟩
  · cases h

section Run

variable [Digest H M] [DecidableEq H] {e0 e : WithEchoBroadcast M} {i n : UInt16}
  {router router' : RoundsRouter (Msg H M) (SubStore H M St)} {regs : List ((k : ι) × St k)}
  {done : List (EngineEvent CErr SErr M St)} {made : List (PartyEvent CErr SErr H M St)}

/-- In call order and once each, the accepted messages are handed over. -/
theorem handed_of_serves (hrun : Serves serve e0 done made e) :
    made.filterMap handedMsg = (done.filterMap acceptedMsg).map onWire := by
  apply hrun.invariant (P := fun done made _ =>
    made.filterMap handedMsg = (done.filterMap acceptedMsg).map onWire)
  · rfl
  · intro done made a d t b res ha ht
    rw [List.filterMap_append,List.filterMap_append,List.map_append,ha,handed_of_served ht]

theorem handed_eq_map (hrun : Serves serve e0 done made e) (r : UInt16) :
    handed r made = ((done.filterMap acceptedMsg).filter (inRound r)).map onWire := by
  have hround : (inRound r ∘ onWire : Outgoing M → Bool) = inRound r := by
    funext outgoing
    exact inRound_onWire r outgoing
  rw [handed,handed_of_serves hrun,List.filter_map,hround]

theorem handed_ordinary (h0 : (wrap i n).addRounds router regs = .ok (e0,router'))
    (hrun : Serves serve e0 done made e) {r : UInt16} (hr : ¬ Reliable M regs r) :
    handed r made = (done.filterMap acceptedMsg).filter (inRound r) := by
  have hinv : Remembers (Reliable M regs r) r done made e ∧ accepted r done = [] := by
    refine hrun.invariant (P := fun done made a =>
      Remembers (Reliable M regs r) r done made a ∧ accepted r done = []) ?_ ?_
    · exact ⟨remembers_of_serves h0 .refl r,rfl⟩
    · intro done made a d t b res ha ht
      have hnil := accepted_nil ht (ha.1.forgets (.inl hr))
      exact ⟨ha.1.next (serve_effect ht),by rw [accepted_append,ha.2,hnil]; rfl⟩
  have hsame : ∀ outgoing ∈ (done.filterMap acceptedMsg).filter (inRound r),
      onWire outgoing = outgoing := by
    intro outgoing hout
    obtain ⟨hmem,hin⟩ := List.mem_filter.mp hout
    apply onWire_of_not
    by_contra hrel
    rw [Bool.not_eq_false] at hrel
    have hacc : outgoing ∈ accepted r done := List.mem_filter.mpr ⟨hmem,by rw [hrel,hin]; rfl⟩
    rw [hinv.2] at hacc
    cases hacc
  rw [handed_eq_map hrun,List.map_congr_left hsame,List.map_id']

/-- A main round was completed with the witness of a reliable round. -/
theorem completion_of_mainCompleted (hrun : Serves serve e0 done made e) {r : UInt16}
    (h : MainCompleted made r) : ∃ k, roundOf M St k = r ∧
      Round.withReliabilityCheck k ∈ completions (done.map Sigma.fst) := by
  revert h
  apply hrun.invariant (P := fun done made _ => MainCompleted made r → ∃ k, roundOf M St k = r ∧
    Round.withReliabilityCheck k ∈ completions (done.map Sigma.fst))
  · intro h
    cases h
  · intro done made a d t b res ha ht h
    rw [List.map_append,completions,List.filterMap_append]
    rcases mainCompleted_append.mp h with h | h
    · obtain ⟨k,hk,hmem⟩ := ha h
      exact ⟨k,hk,List.mem_append_left _ hmem⟩
    · obtain ⟨k,hk,rfl⟩ := completes_of_served ht h
      exact ⟨k,hk,List.mem_append_right _ (List.mem_singleton_self _)⟩

omit [Digest H M] [DecidableEq H] in
theorem reliable_inj [Build] (h0 : (wrap i n).addRounds .new regs = .ok (e0,router))
    {reg reg' : (k : ι) × St k} (hreg : reg ∈ regs) (hreg' : reg' ∈ regs)
    (hrel : requiresReliableBroadcast reg.2 = some true)
    (hrel' : requiresReliableBroadcast reg'.2 = some true)
    (h : roundOf M St reg.1 = roundOf M St reg'.1) : reg.1 = reg'.1 := by
  obtain ⟨l,_,_,hregs,_⟩ := addRounds_registers (l := .empty) h0
  obtain ⟨_,_,_,hmain,_⟩ := (hregs reg hreg).reliable hrel
  obtain ⟨_,_,_,hmain',_⟩ := (hregs reg' hreg').reliable hrel'
  have hround : roundOf (Msg H M) (SubStore H M St) (.main reg.1) =
      roundOf (Msg H M) (SubStore H M St) (.main reg'.1) :=
    congrArg (2 * ·) h
  rw [hround,hmain'] at hmain
  have hkind := congrArg Sigma.fst (Option.some.inj hmain)
  exact (Sub.main.inj hkind).symm

theorem not_mainCompleted [Build] (h0 : (wrap i n).addRounds .new regs = .ok (e0,router))
    (hrun : Serves serve e0 done made e) {k : ι}
    (hw : UsesWitnesses regs
      (completions (done.map Sigma.fst ++ [.complete (.withReliabilityCheck k)]))) :
    Reliable M regs (roundOf M St k) ∧ ¬ MainCompleted made (roundOf M St k) := by
  obtain ⟨hnodup,hregs⟩ := hw
  rw [completions,List.filterMap_append] at hnodup hregs
  obtain ⟨reg,hreg,hwit⟩ := hregs _ (List.mem_append_right _ (List.mem_singleton_self _))
  obtain ⟨hrel,hk⟩ := reliable_of_witness hwit
  refine ⟨⟨reg,hreg,by rw [hk],hrel⟩,fun hc => ?_⟩
  obtain ⟨k',hround,hmem⟩ := completion_of_mainCompleted hrun hc
  obtain ⟨reg',hreg',hwit'⟩ := hregs _ (List.mem_append_left _ hmem)
  obtain ⟨hrel',hk'⟩ := reliable_of_witness hwit'
  have hsame : k' = k := by
    rw [← hk,← hk'] at hround ⊢
    exact reliable_inj h0 hreg' hreg hrel' hrel hround
  subst hsame
  exact (List.nodup_append.mp hnodup).2.2 _ hmem _ (List.mem_singleton_self _) rfl

/-- The hash covers the messages received in round `k` and, as the own one, that which was handed
over in the round before. -/
def HashOf (i n : UInt16) (k : ι) (made : List (PartyEvent CErr SErr H M St))
    (needs : NeedsOwnMsg H M (St k)) (hash : H) : Prop :=
  ∃ msgs : List (Option M), hash = Digest.hash ⟨TAG,msgs,roundOf M St k,n⟩ ∧
    (∀ j, j ≠ i.toNat → msgs[j]? = needs.receivedMsgs[j]?) ∧
    ((handed (roundOf M St k) made = [] ∧ msgs[i.toNat]? = some none) ∨
      ∃ m, handed (roundOf M St k) made = [.allParties m] ∧ msgs[i.toNat]? = some (some m))

/-- What the engine hands over: at every point of every run, between two operations (`done`) and
within one (`d`). -/
theorem on_the_wire [Build] [∀ k, LosslessRoundMsg M (RoundInfo.Msg (St k))] (i n : UInt16)
    (h0 : (wrap i n).addRounds .new regs = .ok (e0,router)) (hrun : Serves serve e0 done made e)
    {d : Call (Round ι) M} {t : List (PartyEvent CErr SErr H M St)}
    {q : PartyProg CErr SErr H M St (WithEchoBroadcast M × Answer (Res CErr SErr St) (Error SErr) d)}
    (ht : Steps (serve e d) t q)
    (hw : UsesWitnesses regs (completions (done.map Sigma.fst ++ [d])))
    (hout : ∀ k needs, (mainEvent k (.ok needs) : PartyEvent CErr SErr H M St) ∈ t →
      OutputOf i n needs) :
    made.filterMap handedMsg = (done.filterMap acceptedMsg).map onWire ∧
    (∀ r, ¬ Reliable M regs r → handed r made = (done.filterMap acceptedMsg).filter (inRound r)) ∧
    (∀ o ∈ handedOver t q, Emits H St e d o ∧ o.recipient ≠ .allParties true) ∧
    (∀ outgoing, d = .send outgoing ∨ d = .enqueue outgoing →
      (∀ e' o, e.onSend outgoing ≠ .ok (e',.ok o)) → handedOver t q = []) ∧
    ∀ k hash, d = .complete (.withReliabilityCheck k) →
      .allParties (.echo (roundOf M St k) hash) ∈ handedOver t q →
      ∃ needs : NeedsOwnMsg H M (St k), mainEvent k (.ok needs) ∈ t ∧
        HashOf i n k made needs hash := by
  refine ⟨handed_of_serves hrun,fun r hr => handed_ordinary h0 hrun hr,fun o ho => ?_,?_,?_⟩
  · have hemits := emits_of_handedOver ht o ho
    exact ⟨hemits,hemits.recipient⟩
  · rintro outgoing (rfl | rfl) hnot
    · rcases handedOver_message (.inl rfl) ht with ⟨e',hon,_⟩ | ⟨_,hnil⟩
      · exact absurd hon (hnot e' _)
      · exact hnil
    · rcases handedOver_message (.inr rfl) ht with ⟨e',hon,_⟩ | ⟨_,hnil⟩
      · exact absurd hon (hnot e' _)
      · exact hnil
  · rintro k hash rfl ho
    obtain ⟨needs,check,hash',⟨more,rfl⟩,hh,heq⟩ := (steps_complete ht).emits _ ho
    simp only [Outgoing.allParties,Outgoing.mk.injEq,Msg.echo.injEq,true_and] at heq
    subst heq
    obtain ⟨msgs,hhash,hown,hothers⟩ := hh.own
    rw [(hout k needs (List.mem_cons_self ..)).params] at hhash hown hothers
    obtain ⟨hrel,hnot⟩ := not_mainCompleted h0 hrun hw
    obtain ⟨slot,hslot,hhanded,_⟩ := (remembers_of_serves h0 hrun _).remembers hrel hnot
    rw [hslot] at hown
    refine ⟨needs,List.mem_cons_self ..,msgs,hhash,hothers,?_⟩
    cases slot with
    | none => exact .inl ⟨hhanded,hown⟩
    | some m => exact .inr ⟨m,hhanded,hown⟩

end Run

section Commitments

open RandomGeneration

/-- A commitment of equal bytes. -/
def commitTo (b : UInt8) : CommitMsg := ⟨Vector.replicate 32 b⟩

/-- The main round of party 0 takes the commitment of party 1. -/
theorem outputOf_commitments : OutputOf 0 2 (⟨⟨0,2⟩,(⟨0,[7],[commitTo 1]⟩ : RoundMsgs CommitMsg),
    [none,some (.commitMsg (commitTo 1))]⟩ :
      NeedsOwnMsg Hash RandomGeneration.Msg (Store .round1)) := by
  obtain ⟨s,hs⟩ : ∃ s : Store .round1, RoundInput.reliableBroadcast 0 2 = .ok s := ⟨_,rfl⟩
  obtain ⟨echo,hnew⟩ : ∃ echo, newStores 0 2 s = .ok ((⟨⟨0,2⟩,.ongoing s,[none,none]⟩ :
      MainRound Hash RandomGeneration.Msg (Store .round1)),echo) := by
    cases hs
    exact ⟨_,rfl⟩
  have hadd : (store (MainRound Hash RandomGeneration.Msg (Store .round1))).add
      ⟨⟨0,2⟩,.ongoing s,[none,none]⟩ ⟨7,1,.broadcast false,commitTo 1⟩ =
      .ok ⟨⟨0,2⟩,.output (⟨0,[7],[commitTo 1]⟩ : RoundMsgs CommitMsg),
        [none,some (.commitMsg (commitTo 1))]⟩ := by
    cases hs
    rfl
  exact ⟨s,_,_,echo,hnew,.add .refl rfl hadd,rfl⟩

/-- Party 0 of two sent its commitment, got the other one, and is about to echo both. -/
theorem on_the_wire_commitments :
    letI : Build := .debug
    ∃ (s : Store .round1) (e0 e : WithEchoBroadcast RandomGeneration.Msg)
      (router : RoundsRouter (Msg Hash RandomGeneration.Msg)
        (SubStore Hash RandomGeneration.Msg Store))
      (done : List (EngineEvent (fun _ => Unit) Unit RandomGeneration.Msg Store))
      (made : List (PartyEvent (fun _ => Unit) Unit Hash RandomGeneration.Msg Store))
      (needs : NeedsOwnMsg Hash RandomGeneration.Msg (Store .round1)) (hash : Hash),
      (wrap 0 2).addRounds .new [⟨RoundKind.round1,s⟩] = .ok (e0,router) ∧
      Serves serve e0 done made e ∧ made.length = 1 ∧ HashOf 0 2 RoundKind.round1 made needs hash := by
  let _ : Build := .debug
  let own := commitTo 0
  let other := commitTo 1
  let e1 : WithEchoBroadcast RandomGeneration.Msg :=
    ⟨0,2,Function.update registered.sentReliableMsgs 0 (some (some (.commitMsg own)))⟩
  let hash : Hash := ⟨TAG,[some (.commitMsg own),some (.commitMsg other)],0,2⟩
  let needs : NeedsOwnMsg Hash RandomGeneration.Msg (Store .round1) :=
    ⟨⟨0,2⟩,(⟨0,[7],[other]⟩ : RoundMsgs CommitMsg),[none,some (.commitMsg other)]⟩
  let sent : PartyEvent (fun _ => Unit) Unit Hash RandomGeneration.Msg Store :=
    ⟨.send (.allParties (.main (.commitMsg own))),.ok ()⟩
  obtain ⟨s,router,hs,_,hadd⟩ := registered_spec
  have hsend : Steps (serve registered (.send (.reliableBroadcast (.commitMsg own)))) [sent]
      (.ret (e1,.ok ())) := .call .refl
  have hrun : Serves serve registered [⟨.send (.reliableBroadcast (.commitMsg own)),.ok ()⟩] [sent] e1 :=
    .snoc .refl hsend
  let got : PartyEvent (fun _ => Unit) Unit Hash RandomGeneration.Msg Store :=
    mainEvent .round1 (.ok needs)
  have hcomplete : Steps (serve e1 (.complete (.withReliabilityCheck RoundKind.round1))) [got]
      (.call (.send (.allParties (.echo 0 hash))) ((e1.remove 0).afterSend RoundKind.round1
        ⟨hash,(⟨0,[7],[other]⟩ : RoundMsgs CommitMsg)⟩)) :=
    .call .refl
  have hout : ∀ (k : RoundKind) (needs : NeedsOwnMsg Hash RandomGeneration.Msg (Store k)),
      mainEvent k (.ok needs) ∈ [got] → OutputOf 0 2 needs := by
    intro k needs' hmem
    have hgot := Sigma.mk.inj (List.mem_singleton.mp hmem)
    cases k with
    | round2 => cases hgot.1
    | round1 =>
      have hneeds : needs' = needs := Except.ok.inj (eq_of_heq hgot.2)
      subst hneeds
      exact outputOf_commitments
  have hw : UsesWitnesses [(⟨RoundKind.round1,s⟩ : (k : RoundKind) × Store k)]
      [.withReliabilityCheck RoundKind.round1] := by
    refine ⟨List.nodup_singleton _,fun w hmem => ⟨_,List.mem_singleton_self _,?_⟩⟩
    rw [List.mem_singleton.mp hmem]
    cases hs
    rfl
  obtain ⟨_,_,_,_,hhash⟩ := on_the_wire 0 2 hadd hrun hcomplete hw hout
  obtain ⟨needs',_,hhash⟩ := hhash _ _ rfl (List.mem_singleton_self _)
  exact ⟨s,registered,e1,router,_,[sent],needs',hash,hadd,hrun,rfl,hhash⟩

end Commitments

end EchoBroadcast
end RoundBased
