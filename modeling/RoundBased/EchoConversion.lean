import RoundBased.EchoWire
import RoundBased.ErrorOrigin

/-! Messages are cloned by converting them to protocol messages and back, and so is the message
that was sent in a round. For lawful messages no conversion fails, in no run. -/
namespace RoundBased
namespace EchoBroadcast
open Interaction RoundsRouter Transition WithEchoBroadcast

/-- A message did not convert back. -/
def Reason.OfConversion (self : Reason) : Prop :=
  self = .roundMsgClone ∨ self = .sentMsgFromProto

/-- The error, if it is one of the echo broadcast, is not one of a conversion. -/
def NotConversion (err : Option EchoError) : Prop :=
  ∀ e, err = some e → ¬ e.reason.OfConversion

def Error.echoError {E : Type} : Error E → Option EchoError
  | .main _ => none
  | .echo err => some err

theorem of_mapError {E F A : Type} {f : E → F} {res : Except E A} {err : F}
    (h : res.mapError f = .error err) : ∃ e, res = .error e ∧ f e = err := by
  cases res with
  | ok a => cases h
  | error e =>
    cases h
    exact ⟨e,rfl,rfl⟩

theorem notConversion_none : NotConversion none := fun _ h => (by cases h)

theorem notConversion_some {err : EchoError} (h : ¬ err.reason.OfConversion) :
    NotConversion (some err) := by
  rintro e ⟨⟩
  exact h

/-! What the stores return. -/
section Stores

variable {H M S : Type} [RoundStore S] [ProtocolMsg M] [RoundMsg M (RoundInfo.Msg S)]
  [LawfulRoundMsg M (RoundInfo.Msg S)] {self self' : MainRound H M S}
  {incoming : Incoming (RoundInfo.Msg S)} {err : Error (RoundInfo.Error S)}

namespace MainRound

omit [ProtocolMsg M] [LawfulRoundMsg M (RoundInfo.Msg S)] in
theorem record_notConversion (h : self.record incoming = (self',.error err)) :
    NotConversion err.echoError := by
  unfold record at h
  split at h
  · cases h
    exact notConversion_some (by simp [Reason.OfConversion])
  · cases h
    exact notConversion_some (by simp [Reason.OfConversion])
  · cases h

omit [ProtocolMsg M] [RoundMsg M (RoundInfo.Msg S)] [LawfulRoundMsg M (RoundInfo.Msg S)] in
theorem finish_notConversion (h : self.finish = (self',.error err)) :
    NotConversion err.echoError := by
  unfold finish at h
  split at h
  · split at h
    · cases h
    · cases h
      exact notConversion_some (by simp [Reason.OfConversion])
  · cases h
    exact notConversion_some (by simp [Reason.OfConversion])

theorem addMessage_notConversion (h : self.addMessage incoming = (self',.error err)) :
    NotConversion err.echoError := by
  unfold addMessage at h
  split at h
  · simp only [cloneIncomingRoundMsg_eq] at h
    split at h
    · cases h
      exact notConversion_none
    · split at h
      · rename_i hrec
        cases h
        exact record_notConversion hrec
      · split at h
        · cases h
        · exact finish_notConversion h
  · cases h
    exact notConversion_some (by simp [Reason.OfConversion])
  · cases h
    exact notConversion_some (by simp [Reason.OfConversion])
  · cases h
    exact notConversion_some (by simp [Reason.OfConversion])

end MainRound
end Stores

variable {ι H M : Type} {St : ι → Type} [∀ k, RoundStore (St k)]
  [∀ k, RoundMsg M (RoundInfo.Msg (St k))] [ProtocolMsg M]

/-- An error of a store of the party is not one of a conversion. -/
def StoreNotConversion : ∀ s : Sub ι, RoundInfo.Error (SubStore H M St s) → Prop
  | .plain k,err => NotConversion (Error.echoError (E := RoundInfo.Error (St k)) err)
  | .main k,err => NotConversion (Error.echoError (E := RoundInfo.Error (St k)) err)
  | .echo k,err => NotConversion (Error.echoError (E := RoundInfo.Error (St k)) err)

theorem storeErrors_notConversion [∀ k, LawfulRoundMsg M (RoundInfo.Msg (St k))] :
    StoreErrors (StoreNotConversion : ∀ s, RoundInfo.Error (SubStore H M St s) → Prop) := by
  intro s a b msg e h
  have hres : (addMessage a msg).2 = .error e := congrArg Prod.snd h
  cases s with
  | plain k =>
    obtain ⟨err,_,rfl⟩ := of_mapError (f := Error.main (E := RoundInfo.Error (St k))) hres
    exact notConversion_none
  | main k =>
    have hmain : (MainRound.addMessage a.store (msg.map Main.msg)).2 = .error e := hres
    exact MainRound.addMessage_notConversion (Prod.ext rfl hmain)
  | echo k =>
    obtain ⟨err,herr,rfl⟩ := of_mapError (f := Error.echo (E := RoundInfo.Error (St k))) hres
    obtain ⟨inner,_,rfl⟩ := of_mapError (f := fun inner => (⟨.handleEcho inner⟩ : EchoError)) herr
    exact notConversion_some (by simp [Reason.OfConversion])

/-! What the engine returns, and what it remembers. -/
section Engine

omit [∀ k, RoundStore (St k)] [∀ k, RoundMsg M (RoundInfo.Msg (St k))] in
theorem onSend_notConversion {e e' : WithEchoBroadcast M} {outgoing : Outgoing M} {err : EchoError}
    (h : e.onSend outgoing = .ok (e',.error err)) : ¬ err.reason.OfConversion := by
  unfold onSend at h
  cases hr : round outgoing.msg with
  | error p => rw [hr] at h; cases h
  | ok n =>
    simp only [hr,Except.map,Except.ok.injEq] at h
    split at h
    · split at h
      · cases h
        simp [Reason.OfConversion]
      · split at h
        · cases h
          simp [Reason.OfConversion]
        · cases h
    · split at h
      · cases h
        simp [Reason.OfConversion]
      · cases h

omit [ProtocolMsg M] in
theorem withMyMsg_notConversion {S : Type} [RoundStore S] [RoundMsg M (RoundInfo.Msg S)]
    [Digest H M] {needs : NeedsOwnMsg H M S} {sent : Option (RoundInfo.Msg S)} {err : EchoError}
    (h : needs.withMyMsg sent = .error err) : ¬ err.reason.OfConversion := by
  unfold NeedsOwnMsg.withMyMsg at h
  simp only at h
  split at h
  · cases h
  · cases h
    simp [Reason.OfConversion]

theorem withEchoOutput_notConversion {S : Type} [RoundStore S] [DecidableEq H]
    {check : ReliabilityCheck H S} {echoes : EchoRoundOutput H S} {err : EchoError}
    (h : check.withEchoOutput echoes = .error err) : ¬ err.reason.OfConversion := by
  unfold ReliabilityCheck.withEchoOutput at h
  split at h
  · cases h
    simp [Reason.OfConversion]
  · cases h

/-- A message is remembered under the number of its round. -/
def WellLogged (e : WithEchoBroadcast M) : Prop :=
  ∀ n m, e.sentReliableMsgs n = some (some m) → round m = .ok n

/-- The message that is remembered for round `k` converts back. -/
def ConvertsBack (St : ι → Type) [∀ k, RoundStore (St k)]
    [∀ k, RoundMsg M (RoundInfo.Msg (St k))] (e : WithEchoBroadcast M) (k : ι) : Prop :=
  ∀ m, e.sentReliableMsgs (roundOf M St k) = some (some m) → ∃ t : RoundInfo.Msg (St k),
    fromProtocolMsg m = .ok t ∧ e.sentMsg k = .ok (some t)

namespace WellLogged

variable {e e' : WithEchoBroadcast M}

theorem onSend (h : WellLogged e) {outgoing : Outgoing M} {res : Except EchoError (Outgoing M)}
    (hon : e.onSend outgoing = .ok (e',res)) : WellLogged e' := by
  obtain ⟨r,hr,⟨_,_,rfl⟩ | ⟨_,_,rfl,_⟩ | ⟨_,rfl,_⟩⟩ := onSend_cases hon
  · exact h
  · intro n m hm
    by_cases hn : n = r
    · subst hn
      simp only [Function.update_self] at hm
      cases hm
      exact hr
    · simp only [Function.update_of_ne hn] at hm
      exact h n m hm
  · exact h

theorem remove (h : WellLogged e) (r : UInt16) : WellLogged (e.remove r) := by
  intro n m hm
  by_cases hn : n = r
  · subst hn
    simp only [WithEchoBroadcast.remove,Function.update_self] at hm
    cases hm
  · simp only [WithEchoBroadcast.remove,Function.update_of_ne hn] at hm
    exact h n m hm

/-- What is remembered under the number of a round is a message of that round. -/
theorem convertsBack [∀ k, LawfulRoundMsg M (RoundInfo.Msg (St k))] (h : WellLogged e) (k : ι) :
    ConvertsBack St e k := by
  intro m hm
  obtain ⟨t,ht⟩ := (wellRouted (RoundInfo.Msg (St k)) m).mpr (h _ m hm)
  refine ⟨t,ht,?_⟩
  simp only [sentMsg,hm,ht]

theorem sentMsg_ok [∀ k, LawfulRoundMsg M (RoundInfo.Msg (St k))] (h : WellLogged e) (k : ι)
    (err : EchoError) : (e.sentMsg k : Except EchoError (Option (RoundInfo.Msg (St k)))) ≠
      .error err := by
  intro herr
  cases hslot : e.sentReliableMsgs (roundOf M St k) with
  | none => simp only [sentMsg,hslot] at herr; cases herr
  | some slot =>
    cases slot with
    | none => simp only [sentMsg,hslot] at herr; cases herr
    | some m =>
      obtain ⟨t,_,hsent⟩ := (h.convertsBack k : ConvertsBack St e k) m hslot
      rw [hsent] at herr
      cases herr

end WellLogged

variable {CErr : Type → Type} {SErr : Type}

/-- What `read` finds in an error of the party, for the rounds of which it was returned. -/
def partyError (read : ∀ E : Type, CErr (Error E) → Option EchoError) :
    PartyEvent CErr SErr H M St → Option EchoError
  | ⟨.complete (.plain k),.error err⟩ => read (RoundInfo.Error (St k)) err
  | ⟨.complete (.main k),.error err⟩ => read (RoundInfo.Error (St k)) err
  | ⟨.complete (.echo k),.error err⟩ => read (RoundInfo.Error (St k)) err
  | _ => none

/-- The error of the echo broadcast that an operation returned, also as an error of the party. -/
def returnedError (read : ∀ E : Type, CErr (Error E) → Option EchoError) :
    EngineEvent CErr SErr M St → Option EchoError
  | ⟨.complete _,.error (.echo err)⟩ => some err
  | ⟨.complete w,.error (.completeRound err)⟩ => read (RoundInfo.Error (St w.kind)) err
  | ⟨.send _,.error (.echo err)⟩ => some err
  | ⟨.enqueue _,.error (.echo err)⟩ => some err
  | ⟨.flush,.error (.echo err)⟩ => some err
  | _ => none

variable {read : ∀ E : Type, CErr (Error E) → Option EchoError} {a b : WithEchoBroadcast M}
  {t : List (PartyEvent CErr SErr H M St)}

omit [∀ k, RoundMsg M (RoundInfo.Msg (St k))] [ProtocolMsg M] in
theorem mapError_notConversion (ans : Except SErr Unit) (outgoing : Outgoing M) :
    NotConversion (returnedError read
      (⟨.send outgoing,Except.mapError .main ans⟩ : EngineEvent CErr SErr M St)) ∧
    NotConversion (returnedError read
      (⟨.enqueue outgoing,Except.mapError .main ans⟩ : EngineEvent CErr SErr M St)) := by
  cases ans <;> exact ⟨notConversion_none,notConversion_none⟩

variable [Digest H M] [DecidableEq H]

omit [ProtocolMsg M] in
/-- The hash was not computed: the message that was sent did not convert back, or there is no
place for it. -/
theorem steps_hashFailed {k : ι} {needs : NeedsOwnMsg H M (St k)} {err : EchoError}
    (h : Steps (a.afterMainRound k (.ok needs)) t
      (.ret (b,.error (.echo err)) : PartyProg CErr SErr H M St
        (WithEchoBroadcast M × Res CErr SErr St (.withReliabilityCheck k)))) (ht : t = []) :
    (a.sentMsg k : Except EchoError (Option (RoundInfo.Msg (St k)))) = .error err ∨
      ∃ sent, needs.withMyMsg sent = .error err := by
  subst ht
  simp only [afterMainRound] at h
  split at h
  · rename_i hs
    cases h
    exact .inl hs
  · split at h
    · rename_i hw
      cases h
      exact .inr ⟨_,hw⟩
    · cases h

variable [∀ k, LawfulRoundMsg M (RoundInfo.Msg (St k))]

/-- Completing a reliable round returns an error of a conversion only if the party does. -/
theorem complete_notConversion (ha : WellLogged a) {k : ι}
    {res : Res CErr SErr St (.withReliabilityCheck k)}
    (h : Steps (a.complete (.withReliabilityCheck k)) t (.ret (b,res)))
    (ht : ∀ event ∈ t, NotConversion (partyError read event)) :
    WellLogged b ∧ NotConversion (returnedError read
      (⟨.complete (.withReliabilityCheck k),res⟩ : EngineEvent CErr SErr M St)) := by
  have hc := steps_complete h
  cases hc with
  | mainFailed => exact ⟨ha,ht _ (List.mem_singleton_self _)⟩
  | hashFailed =>
    refine ⟨ha.remove _,notConversion_some ?_⟩
    cases h with
    | call h =>
      rcases steps_hashFailed h rfl with hs | ⟨sent,hw⟩
      · exact absurd hs (ha.sentMsg_ok k _)
      · exact withMyMsg_notConversion hw
  | sendFailed _ => exact ⟨ha.remove _,notConversion_none⟩
  | echoFailed _ =>
    exact ⟨ha.remove _,ht _ (List.mem_cons_of_mem _ (List.mem_cons_of_mem _
      (List.mem_singleton_self _)))⟩
  | @done needs check hash echoes hh =>
    refine ⟨ha.remove _,?_⟩
    cases hw : check.withEchoOutput echoes with
    | ok out => exact notConversion_none
    | error err => exact notConversion_some (withEchoOutput_notConversion hw)

theorem serve_notConversion (ha : WellLogged a) {d : Call (Round ι) M}
    {res : Answer (Res CErr SErr St) (Error SErr) d}
    (h : Steps (serve a d) t (.ret (b,res)))
    (ht : ∀ event ∈ t, NotConversion (partyError read event)) :
    WellLogged b ∧ NotConversion (returnedError read ⟨d,res⟩) := by
  cases d with
  | complete w =>
    cases w with
    | unmodified k =>
      obtain ⟨rfl,ans,rfl,rfl⟩ := steps_unmodified h
      refine ⟨ha,?_⟩
      cases ans with
      | ok out => exact notConversion_none
      | error err => exact ht _ (List.mem_singleton_self _)
    | withReliabilityCheck k => exact complete_notConversion ha h ht
  | send outgoing =>
    rcases steps_send h with ⟨_,err,hon,rfl⟩ | ⟨o,ans,hon,_,rfl⟩
    · exact ⟨ha.onSend hon,notConversion_some (onSend_notConversion hon)⟩
    · exact ⟨ha.onSend hon,(mapError_notConversion ans outgoing).1⟩
  | enqueue outgoing =>
    rcases steps_enqueue h with ⟨_,err,hon,rfl⟩ | ⟨o,ans,hon,_,rfl⟩
    · exact ⟨ha.onSend hon,notConversion_some (onSend_notConversion hon)⟩
    · exact ⟨ha.onSend hon,(mapError_notConversion ans outgoing).2⟩
  | flush =>
    obtain ⟨rfl,ans,_,rfl⟩ := steps_flush h
    cases ans <;> exact ⟨ha,notConversion_none⟩
  | yieldNow =>
    obtain ⟨rfl,_⟩ := steps_yieldNow h
    exact ⟨ha,notConversion_none⟩

omit [∀ k, LawfulRoundMsg M (RoundInfo.Msg (St k))] [Digest H M] [DecidableEq H] in
theorem wellLogged_addRounds {i n : UInt16} {e0 : WithEchoBroadcast M}
    {regs : List ((k : ι) × St k)} {router router' : RoundsRouter (Msg H M) (SubStore H M St)}
    (h0 : (wrap i n).addRounds router regs = .ok (e0,router')) : WellLogged e0 := by
  intro r m hm
  have hs := addRounds_sent h0 r
  by_cases hr : Reliable M regs r
  · rw [hs.1 hr] at hm
    cases hm
  · rw [hs.2 hr] at hm
    cases hm

/-- Over any party: unless it does, no operation of a run returns an error of a conversion, and
what is remembered always converts back. -/
theorem serves_notConversion {i n : UInt16} {e0 e : WithEchoBroadcast M}
    {regs : List ((k : ι) × St k)} {router router' : RoundsRouter (Msg H M) (SubStore H M St)}
    (h0 : (wrap i n).addRounds router regs = .ok (e0,router'))
    {done : List (EngineEvent CErr SErr M St)} {made : List (PartyEvent CErr SErr H M St)}
    (hrun : Serves serve e0 done made e)
    (hmade : ∀ event ∈ made, NotConversion (partyError read event)) :
    (∀ event ∈ done, NotConversion (returnedError read event)) ∧ ∀ k, ConvertsBack St e k := by
  have hinv : WellLogged e ∧ ∀ event ∈ done, NotConversion (returnedError read event) := by
    revert hmade
    apply hrun.invariant (P := fun done made e =>
      (∀ event ∈ made, NotConversion (partyError read event)) →
        WellLogged e ∧ ∀ event ∈ done, NotConversion (returnedError read event))
    · exact fun _ => ⟨wellLogged_addRounds h0,fun _ hmem => (by cases hmem)⟩
    · intro done made a d t b res ih ht hmade
      obtain ⟨ha,hdone⟩ := ih fun event hmem => hmade event (List.mem_append_left _ hmem)
      obtain ⟨hb,hres⟩ := serve_notConversion ha ht fun event hmem =>
        hmade event (List.mem_append_right _ hmem)
      refine ⟨hb,fun event hmem => ?_⟩
      rcases List.mem_append.mp hmem with hmem | hmem
      · exact hdone event hmem
      · rw [List.mem_singleton.mp hmem]
        exact hres
  exact ⟨hinv.2,fun k => hinv.1.convertsBack k⟩

end Engine

/-! The engine and the party that reads a stream. -/
section Party

variable {IoErr : Type}

/-- The error of the echo broadcast that a store of the party returned. -/
def storeError (E : Type) : PartyErr IoErr (Error E) → Option EchoError
  | .processMsg err => err.echoError
  | _ => none

/-- The sub-rounds that are completed with a witness. -/
def Round.subs : Round ι → List (Sub ι)
  | .unmodified k => [.plain k]
  | .withReliabilityCheck k => [.main k,.echo k]

section Kinds

variable {Q : ∀ s : Sub ι, RoundInfo.Error (SubStore H M St s) → Prop}
  {kinds : UInt16 → Option (Sub ι)} {e e' : WithEchoBroadcast M}
  {router router' : RoundsRouter (Msg H M) (SubStore H M St)}

theorem update_keeps {n m : UInt16} {s r : Sub ι} (hn : kinds n = none) (hm : kinds m = some r) :
    Function.update kinds n (some s) m = some r := by
  have hne : m ≠ n := by
    rintro rfl
    rw [hn] at hm
    cases hm
  rw [Function.update_of_ne hne,hm]

omit [ProtocolMsg M] in
theorem addRound_tidy (h : router.Tidy Q kinds) {k : ι} {s : St k} {w : Round ι}
    (ha : e.addRound router k s = .ok (e',router',w)) :
    ∃ kinds', router'.Tidy Q kinds' ∧ (∀ n r, kinds n = some r → kinds' n = some r) ∧
      ∀ r ∈ (witness ⟨k,s⟩).subs, kinds' (roundOf (Msg H M) (SubStore H M St) r) = some r := by
  unfold WithEchoBroadcast.addRound at ha
  split at ha
  · rename_i hrel
    obtain ⟨⟨main,echo⟩,_,ha⟩ := Checked.bind_eq_ok.mp ha
    obtain ⟨⟨router1,w1⟩,h1,ha⟩ := Checked.bind_eq_ok.mp ha
    obtain ⟨⟨router2,w2⟩,h2,ha⟩ := Checked.bind_eq_ok.mp ha
    cases ha
    obtain ⟨hfree1,htidy1⟩ := h.addRound h1
    obtain ⟨hfree2,htidy2⟩ := htidy1.addRound h2
    refine ⟨_,htidy2,fun n r hn => update_keeps hfree2 (update_keeps hfree1 hn),fun r hr => ?_⟩
    rw [witness,if_pos hrel] at hr
    rcases List.mem_cons.mp hr with rfl | hr
    · exact update_keeps hfree2 (Function.update_self ..)
    · rw [List.mem_singleton.mp hr]
      exact Function.update_self ..
  · rename_i hrel
    obtain ⟨⟨router1,w1⟩,h1,ha⟩ := Checked.bind_eq_ok.mp ha
    cases ha
    obtain ⟨hfree1,htidy1⟩ := h.addRound h1
    refine ⟨_,htidy1,fun n r hn => update_keeps hfree1 hn,fun r hr => ?_⟩
    rw [witness,if_neg hrel] at hr
    rw [List.mem_singleton.mp hr]
    exact Function.update_self ..

omit [ProtocolMsg M] in
/-- After registration the sub-rounds of all witnesses are known. -/
theorem addRounds_tidy {regs : List ((k : ι) × St k)} (h : router.Tidy Q kinds)
    (ha : e.addRounds router regs = .ok (e',router')) :
    ∃ kinds', router'.Tidy Q kinds' ∧ (∀ n r, kinds n = some r → kinds' n = some r) ∧
      ∀ reg ∈ regs, ∀ r ∈ (witness reg).subs,
        kinds' (roundOf (Msg H M) (SubStore H M St) r) = some r := by
  induction regs generalizing e router kinds with
  | nil =>
    cases ha
    exact ⟨kinds,h,fun _ _ hn => hn,fun _ hreg => (by cases hreg)⟩
  | cons reg regs ih =>
    obtain ⟨⟨e1,router1,w⟩,hadd,ha⟩ := Checked.bind_eq_ok.mp ha
    obtain ⟨kinds1,h1,hkeep1,hsubs1⟩ := addRound_tidy h hadd
    obtain ⟨kinds2,h2,hkeep2,hsubs2⟩ := ih h1 ha
    refine ⟨kinds2,h2,fun n r hn => hkeep2 n r (hkeep1 n r hn),fun reg' hreg' r hr => ?_⟩
    rcases List.mem_cons.mp hreg' with rfl | hreg'
    · exact hkeep2 _ r (hsubs1 r hr)
    · exact hsubs2 reg' hreg' r hr

end Kinds

variable [Digest H M] [DecidableEq H]

/-- Operations complete the sub-rounds of their witnesses only. -/
theorem subs_of_served {CErr : Type → Type} {SErr : Type} {e : WithEchoBroadcast M}
    {d : Call (Round ι) M} {t : List (PartyEvent CErr SErr H M St)} {r : Sub ι}
    {cont : SubRes CErr H M St r → PartyProg CErr SErr H M St
      (WithEchoBroadcast M × Answer (Res CErr SErr St) (Error SErr) d)}
    (h : Steps (serve e d) t (.call (.complete r) cont)) : ∃ w, d = .complete w ∧ r ∈ w.subs := by
  cases d with
  | complete w =>
    refine ⟨w,rfl,?_⟩
    cases w with
    | unmodified k =>
      cases h with
      | refl => exact List.mem_singleton_self _
      | @call _ _ ans _ _ h => cases ans <;> cases h
    | withReliabilityCheck k =>
      have hc := steps_complete h
      cases hc with
      | mainRound => exact List.mem_cons_self ..
      | echoRound _ => exact List.mem_cons_of_mem _ (List.mem_singleton_self _)
  | send outgoing =>
    simp only [serve,sendWith] at h
    split at h
    · cases h
    · cases h
    · cases h with
      | call h => cases h
  | enqueue outgoing =>
    simp only [serve,sendWith] at h
    split at h
    · cases h
    · cases h
    · cases h with
      | call h => cases h
  | flush =>
    cases h with
    | call h => cases h
  | yieldNow =>
    cases h with
    | call h => cases h

variable [Build] [TypeIds (SubStore H M St)] [∀ k, LawfulRoundMsg M (RoundInfo.Msg (St k))]
  {kinds : UInt16 → Option (Sub ι)}

/-- The sub-round that the call completes, if any, is known. -/
def Known (St : ι → Type) [∀ k, RoundStore (St k)] [∀ k, RoundMsg M (RoundInfo.Msg (St k))]
    (kinds : UInt16 → Option (Sub ι)) (c : Call (Sub ι) (Msg H M)) : Prop :=
  ∀ r, c = .complete r → kinds (roundOf (Msg H M) (SubStore H M St) r) = some r

omit [Digest H M] [DecidableEq H] in
theorem handle_notConversion {party party' : MpcParty (Msg H M) (SubStore H M St) IoErr}
    {c : Call (Sub ι) (Msg H M)} {ans : Answer (SubRes (PartyErr IoErr) H M St) IoErr c}
    (h : party.router.Tidy StoreNotConversion kinds)
    (hc : Known St kinds c)
    (hh : party.handle c = .ok (party',ans)) :
    party'.router.Tidy StoreNotConversion kinds ∧ NotConversion (partyError storeError
      (⟨c,ans⟩ : PartyEvent (PartyErr IoErr) IoErr H M St)) := by
  have hsend : ∀ msg, (party.send msg).1.router = party.router := by
    intro msg
    unfold MpcParty.send
    split <;> rfl
  cases c with
  | complete r =>
    obtain ⟨htidy,hwithin⟩ := MpcParty.complete_within storeErrors_notConversion h (hc r rfl) hh
    refine ⟨htidy,?_⟩
    cases ans with
    | ok out => cases r <;> exact notConversion_none
    | error err =>
      cases err with
      | processMsg err => cases r <;> exact hwithin err rfl
      | router err => cases r <;> exact notConversion_none
      | io err => cases r <;> exact notConversion_none
      | unexpectedEof => cases r <;> exact notConversion_none
  | send msg =>
    have hparty : (party.send msg).1 = party' := congrArg Prod.fst (Except.ok.inj hh)
    rw [← hparty,hsend]
    exact ⟨h,notConversion_none⟩
  | enqueue msg =>
    have hparty : (party.send msg).1 = party' := congrArg Prod.fst (Except.ok.inj hh)
    rw [← hparty,hsend]
    exact ⟨h,notConversion_none⟩
  | flush =>
    have hparty : party.flush.1 = party' := congrArg Prod.fst (Except.ok.inj hh)
    have hflush : party.flush.1.router = party.router := by
      unfold MpcParty.flush
      split <;> rfl
    rw [← hparty,hflush]
    exact ⟨h,notConversion_none⟩
  | yieldNow =>
    cases hh
    exact ⟨h,notConversion_none⟩

namespace EchoParty

/-- Operations one after the other, with their results. -/
def system (s : EchoParty H M St IoErr) :
    System (EchoParty H M St IoErr) (EngineEvent (PartyErr IoErr) IoErr M St) :=
  ⟨s,fun s event s' => s.serve event.1 = .ok (s',event.2)⟩

/-- The party has the sub-rounds `kinds`, and neither it nor the engine came to an error of a
conversion. -/
structure Converting (kinds : UInt16 → Option (Sub ι)) (s : EchoParty H M St IoErr) : Prop where
  engine : WellLogged s.engine
  party : s.party.router.Tidy StoreNotConversion kinds

omit [∀ k, LawfulRoundMsg M (RoundInfo.Msg (St k))] in
theorem run_of_serve {s s' : EchoParty H M St IoErr} {d : Call (Round ι) M}
    {res : Answer (Res (PartyErr IoErr) IoErr St) (Error IoErr) d}
    (h : s.serve d = .ok (s',res)) :
    (s.engine.serve d : PartyProg (PartyErr IoErr) IoErr H M St _).run MpcParty.handle s.party =
      .ok (s'.party,(s'.engine,res)) := by
  simp only [EchoParty.serve] at h
  cases hrun : (s.engine.serve d : PartyProg (PartyErr IoErr) IoErr H M St _).run
      MpcParty.handle s.party with
  | error p =>
    rw [hrun] at h
    cases h
  | ok r =>
    rw [hrun] at h
    cases h
    rfl

theorem Converting.serve {s s' : EchoParty H M St IoErr} {d : Call (Round ι) M}
    {res : Answer (Res (PartyErr IoErr) IoErr St) (Error IoErr) d} (h : s.Converting kinds)
    (hd : ∀ w, d = .complete w → ∀ r ∈ w.subs,
      kinds (roundOf (Msg H M) (SubStore H M St) r) = some r)
    (hs : s.serve d = .ok (s',res)) : s'.Converting kinds ∧ NotConversion (returnedError storeError
      (⟨d,res⟩ : EngineEvent (PartyErr IoErr) IoErr M St)) := by
  have hrun := run_of_serve hs
  have hknown : ∀ t c k, Steps (s.engine.serve d : PartyProg (PartyErr IoErr) IoErr H M St _) t
      (.call c k) → Known St kinds c := by
    rintro t c k hsteps r rfl
    obtain ⟨w,hw,hr⟩ := subs_of_served hsteps
    exact hd w hw r hr
  obtain ⟨t,ht,htidy,hevents⟩ := Prog.trace_of_run hrun hknown
    (I := fun party => party.router.Tidy StoreNotConversion kinds)
    (G := fun event => NotConversion (partyError storeError event))
    (fun _ _ _ _ hc hp hh => handle_notConversion hp hc hh) h.party
  obtain ⟨hlogged,hres⟩ := serve_notConversion h.engine ht hevents
  exact ⟨⟨hlogged,htidy⟩,hres⟩

end EchoParty

/-- Over the party that reads a stream, whatever the stream yields and however sending goes: no
operation of a run returns an error of a conversion, and what is remembered always converts
back. -/
theorem run_notConversion {i n : UInt16} {e0 : WithEchoBroadcast M} {regs : List ((k : ι) × St k)}
    {party : MpcParty (Msg H M) (SubStore H M St) IoErr} {s : EchoParty H M St IoErr}
    {events : List (EngineEvent (PartyErr IoErr) IoErr M St)}
    (h0 : (wrap i n).addRounds .new regs = .ok (e0,party.router))
    (hrun : Run (EchoParty.system ⟨e0,party⟩) ⟨e0,party⟩ events s)
    (hw : ∀ w ∈ completions (events.map Sigma.fst), ∃ reg ∈ regs, witness reg = w) :
    (∀ event ∈ events, NotConversion (returnedError storeError event)) ∧
      ∀ k, ConvertsBack St s.engine k := by
  obtain ⟨kinds,htidy,_,hsubs⟩ := addRounds_tidy
    (.new : RoundsRouter.Tidy StoreNotConversion (fun _ => none) _) h0
  have hinv : s.Converting kinds ∧ ∀ event ∈ events, NotConversion (returnedError storeError event) := by
    revert hw
    apply hrun.invariant (P := fun events s =>
      (∀ w ∈ completions (events.map Sigma.fst), ∃ reg ∈ regs, witness reg = w) →
        s.Converting kinds ∧ ∀ event ∈ events, NotConversion (returnedError storeError event))
    · exact fun _ => ⟨⟨wellLogged_addRounds h0,htidy⟩,fun _ hmem => (by cases hmem)⟩
    · intro events s event s' _ ih hstep hw
      rw [List.map_append,completions,List.filterMap_append] at hw
      obtain ⟨hs,hevents⟩ := ih fun w hmem => hw w (List.mem_append_left _ hmem)
      obtain ⟨hs',hevent⟩ := hs.serve (fun w hd r hr => by
        obtain ⟨reg,hreg,rfl⟩ := hw w (List.mem_append_right _ (by simp [hd]))
        exact hsubs reg hreg r hr) hstep
      refine ⟨hs',fun ev hmem => ?_⟩
      rcases List.mem_append.mp hmem with hmem | hmem
      · exact hevents ev hmem
      · rw [List.mem_singleton.mp hmem]
        exact hevent
  exact ⟨hinv.2,fun k => hinv.1.engine.convertsBack k⟩

end Party

/-- In no run of the engine a conversion fails, over any party that does not fail so itself and
over the party that reads a stream. -/
structure ConversionsSucceed (H M : Type) {ι : Type} (St : ι → Type) [∀ k, RoundStore (St k)]
    [ProtocolMsg M] [∀ k, RoundMsg M (RoundInfo.Msg (St k))] [Digest H M] [DecidableEq H]
    [Build] [TypeIds (SubStore H M St)] : Prop where
  anyParty : ∀ (CErr : Type → Type) (SErr : Type)
    (read : ∀ E : Type, CErr (Error E) → Option EchoError) (i n : UInt16)
    (regs : List ((k : ι) × St k)) (router router' : RoundsRouter (Msg H M) (SubStore H M St))
    (e0 e : WithEchoBroadcast M) (done : List (EngineEvent CErr SErr M St))
    (made : List (PartyEvent CErr SErr H M St)),
    (wrap i n).addRounds router regs = .ok (e0,router') → Serves serve e0 done made e →
    (∀ event ∈ made, NotConversion (partyError read event)) →
    (∀ event ∈ done, NotConversion (returnedError read event)) ∧ ∀ k, ConvertsBack St e k
  streamParty : ∀ (IoErr : Type) (i n : UInt16) (regs : List ((k : ι) × St k))
    (e0 : WithEchoBroadcast M) (party : MpcParty (Msg H M) (SubStore H M St) IoErr)
    (events : List (EngineEvent (PartyErr IoErr) IoErr M St)) (s : EchoParty H M St IoErr),
    (wrap i n).addRounds .new regs = .ok (e0,party.router) →
    Run (EchoParty.system ⟨e0,party⟩) ⟨e0,party⟩ events s →
    (∀ w ∈ completions (events.map Sigma.fst), ∃ reg ∈ regs, witness reg = w) →
    (∀ event ∈ events, NotConversion (returnedError storeError event)) ∧
      ∀ k, ConvertsBack St s.engine k

theorem conversionsSucceed [Digest H M] [DecidableEq H] [Build] [TypeIds (SubStore H M St)]
    [∀ k, LawfulRoundMsg M (RoundInfo.Msg (St k))] : ConversionsSucceed H M St where
  anyParty _ _ _ _ _ _ _ _ _ _ _ _ h0 hrun hmade := serves_notConversion h0 hrun hmade
  streamParty _ _ _ _ _ _ _ _ h0 hrun hw := run_notConversion h0 hrun hw

end EchoBroadcast
end RoundBased
