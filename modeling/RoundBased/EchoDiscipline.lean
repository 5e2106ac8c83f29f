import RoundBased.EchoTraces
import RoundBased.RandomGeneration

/-! Which messages the engine lets through, over whole runs and whatever the party
answers. -/
namespace RoundBased
namespace EchoBroadcast
open Interaction RoundsRouter WithEchoBroadcast

variable {ι H M : Type} {St : ι → Type} [∀ k, RoundStore (St k)]
  [∀ k, RoundMsg M (RoundInfo.Msg (St k))] {CErr : Type → Type} {SErr : Type}

/-- Round `r` was registered as a reliable broadcast round. -/
def Reliable (M : Type) {ι : Type} {St : ι → Type} [∀ k, RoundStore (St k)]
    [∀ k, RoundMsg M (RoundInfo.Msg (St k))] (regs : List ((k : ι) × St k)) (r : UInt16) : Prop :=
  ∃ reg ∈ regs, roundOf M St reg.1 = r ∧ requiresReliableBroadcast reg.2 = some true

/-- The number of the round whose main round was completed. -/
def completedMain : PartyEvent CErr SErr H M St → Option UInt16
  | ⟨.complete (.main k),.ok _⟩ => some (roundOf M St k)
  | _ => none

/-- The main round with number `r` was completed. -/
def MainCompleted (made : List (PartyEvent CErr SErr H M St)) (r : UInt16) : Prop :=
  r ∈ made.filterMap completedMain

variable [ProtocolMsg M]

def inRound (r : UInt16) (outgoing : Outgoing M) : Bool :=
  decide (round outgoing.msg = .ok r)

/-- The message of the main protocol that is handed to the party. -/
def handedMsg : PartyEvent CErr SErr H M St → Option (Outgoing M)
  | ⟨.send ⟨dest,.main msg⟩,_⟩ => some ⟨dest,msg⟩
  | ⟨.enqueue ⟨dest,.main msg⟩,_⟩ => some ⟨dest,msg⟩
  | _ => none

/-- The messages of round `r` that were handed to the party. -/
def handed (r : UInt16) (made : List (PartyEvent CErr SErr H M St)) : List (Outgoing M) :=
  (made.filterMap handedMsg).filter (inRound r)

/-- The message that was checked and not refused. -/
def acceptedMsg : EngineEvent CErr SErr M St → Option (Outgoing M)
  | ⟨.send _,.error (.echo _)⟩ => none
  | ⟨.send outgoing,_⟩ => some outgoing
  | ⟨.enqueue _,.error (.echo _)⟩ => none
  | ⟨.enqueue outgoing,_⟩ => some outgoing
  | _ => none

/-- The reliable broadcasts of round `r` that were accepted. -/
def accepted (r : UInt16) (done : List (EngineEvent CErr SErr M St)) : List (Outgoing M) :=
  (done.filterMap acceptedMsg).filter fun outgoing =>
    outgoing.recipient.isReliableBroadcast && inRound r outgoing

section Histories

variable {r : UInt16} {made t : List (PartyEvent CErr SErr H M St)}

omit [ProtocolMsg M] in
theorem mainCompleted_append :
    MainCompleted (made ++ t) r ↔ MainCompleted made r ∨ MainCompleted t r := by
  simp [MainCompleted]

theorem handed_append : handed r (made ++ t) = handed r made ++ handed r t := by
  simp [handed]

omit [∀ k, RoundMsg M (RoundInfo.Msg (St k))] in
theorem accepted_append (done more : List (EngineEvent CErr SErr M St)) :
    accepted r (done ++ more) = accepted r done ++ accepted r more := by
  simp [accepted]

end Histories

/-- What serving one operation does to round `r`. -/
inductive Effect (r : UInt16) (a : WithEchoBroadcast M) (t : List (PartyEvent CErr SErr H M St))
    (b : WithEchoBroadcast M) (event : EngineEvent CErr SErr M St) : Prop
  | quiet : b.sentReliableMsgs r = a.sentReliableMsgs r → handed r t = [] →
      accepted r [event] = [] → ¬ MainCompleted t r → Effect r a t b event
  | reliable (msg : M) : a.sentReliableMsgs r = some none → b.sentReliableMsgs r = some (some msg) →
      handed r t = [.allParties msg] → accepted r [event] = [.reliableBroadcast msg] →
      ¬ MainCompleted t r → Effect r a t b event
  | ordinary : a.sentReliableMsgs r = none → b.sentReliableMsgs r = none →
      ¬ MainCompleted t r → Effect r a t b event
  | completed : b.sentReliableMsgs r = none → MainCompleted t r → Effect r a t b event

section Effect

variable {r : UInt16} {a b : WithEchoBroadcast M} {t : List (PartyEvent CErr SErr H M St)}
  {event : EngineEvent CErr SErr M St}

theorem Effect.of_idle (hb : b = a) (hh : t.filterMap handedMsg = [])
    (hacc : [event].filterMap acceptedMsg = []) (hc : t.filterMap completedMain = []) :
    Effect r a t b event := by
  refine .quiet (by rw [hb]) ?_ ?_ ?_
  · rw [handed,hh]; rfl
  · rw [accepted,hacc]; rfl
  · rw [MainCompleted,hc]; exact List.not_mem_nil

theorem Effect.of_sent {outgoing o : Outgoing M} (hon : a.onSend outgoing = .ok (b,.ok o))
    (hh : t.filterMap handedMsg = [o]) (hacc : [event].filterMap acceptedMsg = [outgoing])
    (hc : t.filterMap completedMain = []) : Effect r a t b event := by
  have hnot : ¬ MainCompleted t r := by rw [MainCompleted,hc]; exact List.not_mem_nil
  obtain ⟨n,hn,⟨err,herr,_⟩ | ⟨hs,hrel,rfl,ho⟩ | ⟨hs,rfl,ho⟩⟩ := onSend_cases hon
  · cases herr
  · cases ho
    by_cases hr : n = r
    · subst hr
      refine .reliable outgoing.msg hs (Function.update_self ..) ?_ ?_ hnot
      · simp [handed,hh,inRound,hn,Outgoing.allParties]
      · have hout : outgoing = .reliableBroadcast outgoing.msg := by
          simp [Outgoing.reliableBroadcast,← hrel]
        rw [accepted,hacc,← hout]
        simp [inRound,hn,hrel,MessageDestination.isReliableBroadcast]
    · refine .quiet (Function.update_of_ne (Ne.symm hr) ..) ?_ ?_ hnot
      · simp [handed,hh,inRound,hn,hr]
      · simp [accepted,hacc,inRound,hn,hr]
  · cases ho
    by_cases hr : n = r
    · subst hr
      exact .ordinary hs hs hnot
    · refine .quiet rfl ?_ ?_ hnot
      · simp [handed,hh,inRound,hn,hr]
      · simp [accepted,hacc,inRound,hn,hr]

variable [Digest H M] [DecidableEq H]

/-- Completing a reliable round forgets the message sent in it. -/
theorem Completing.effect {k : ι} {res : Res CErr SErr St (.withReliabilityCheck k)}
    (h : Completing a k t (.ret (b,res))) :
    Effect r a t b ⟨.complete (.withReliabilityCheck k),res⟩ := by
  have hremove : t.filterMap completedMain = [roundOf M St k] → t.filterMap handedMsg = [] →
      b = a.remove (roundOf M St k) →
      Effect r a t b ⟨.complete (.withReliabilityCheck k),res⟩ := by
    rintro hc hh rfl
    by_cases hr : r = roundOf M St k
    · subst hr
      refine .completed (Function.update_self ..) ?_
      rw [MainCompleted,hc]
      exact List.mem_singleton_self _
    · refine .quiet (Function.update_of_ne hr ..) (by rw [handed,hh]; rfl) rfl ?_
      rw [MainCompleted,hc,List.mem_singleton]
      exact hr
  cases h with
  | mainFailed => exact .of_idle rfl rfl rfl rfl
  | hashFailed => exact hremove rfl rfl rfl
  | sendFailed _ => exact hremove rfl rfl rfl
  | echoFailed _ => exact hremove rfl rfl rfl
  | done _ => exact hremove rfl rfl rfl

theorem serve_effect {d : Call (Round ι) M} {res : Answer (Res CErr SErr St) (Error SErr) d}
    (h : Steps (serve a d) t (.ret (b,res))) : Effect r a t b ⟨d,res⟩ := by
  cases d with
  | complete w =>
    cases w with
    | unmodified k =>
      obtain ⟨rfl,ans,rfl,rfl⟩ := steps_unmodified h
      exact .of_idle rfl rfl rfl rfl
    | withReliabilityCheck k => exact (steps_complete h).effect
  | send outgoing =>
    rcases steps_send h with ⟨rfl,err,hon,rfl⟩ | ⟨o,ans,hon,rfl,rfl⟩
    · obtain ⟨n,hn,⟨e,he,rfl⟩ | ⟨_,_,_,ho⟩ | ⟨_,_,ho⟩⟩ := onSend_cases hon
      · exact .of_idle rfl rfl rfl rfl
      · cases ho
      · cases ho
    · refine .of_sent hon rfl ?_ rfl
      cases ans <;> rfl
  | enqueue outgoing =>
    rcases steps_enqueue h with ⟨rfl,err,hon,rfl⟩ | ⟨o,ans,hon,rfl,rfl⟩
    · obtain ⟨n,hn,⟨e,he,rfl⟩ | ⟨_,_,_,ho⟩ | ⟨_,_,ho⟩⟩ := onSend_cases hon
      · exact .of_idle rfl rfl rfl rfl
      · cases ho
      · cases ho
    · refine .of_sent hon rfl ?_ rfl
      cases ans <;> rfl
  | flush =>
    obtain ⟨rfl,ans,rfl,rfl⟩ := steps_flush h
    exact .of_idle rfl rfl rfl rfl
  | yieldNow =>
    obtain ⟨rfl,rfl⟩ := steps_yieldNow h
    exact .of_idle rfl rfl rfl rfl

end Effect

/-- The engine remembers the message that was accepted, until the main round is completed. -/
structure Remembers (isReliable : Prop) (r : UInt16) (done : List (EngineEvent CErr SErr M St))
    (made : List (PartyEvent CErr SErr H M St)) (e : WithEchoBroadcast M) : Prop where
  forgets : ¬ isReliable ∨ MainCompleted made r → e.sentReliableMsgs r = none
  remembers : isReliable → ¬ MainCompleted made r → ∃ slot, e.sentReliableMsgs r = some slot ∧
    handed r made = slot.toList.map Outgoing.allParties ∧
    accepted r done = slot.toList.map Outgoing.reliableBroadcast

theorem Remembers.next {isReliable : Prop} {r : UInt16} {done : List (EngineEvent CErr SErr M St)}
    {made t : List (PartyEvent CErr SErr H M St)} {a b : WithEchoBroadcast M}
    {event : EngineEvent CErr SErr M St} (h : Remembers isReliable r done made a)
    (he : Effect r a t b event) :
    Remembers isReliable r (done ++ [event]) (made ++ t) b := by
  cases he with
  | quiet hs hh ha hc =>
    refine ⟨fun hr => ?_,fun hr hn => ?_⟩
    · rw [hs]
      apply h.forgets
      rcases hr with hr | hr
      · exact .inl hr
      · exact .inr ((mainCompleted_append.mp hr).resolve_right hc)
    · obtain ⟨slot,hslot,h1,h2⟩ := h.remembers hr fun hm => hn (mainCompleted_append.mpr (.inl hm))
      refine ⟨slot,hs.trans hslot,?_,?_⟩
      · rw [handed_append,hh,h1,List.append_nil]
      · rw [accepted_append,ha,h2,List.append_nil]
  | reliable msg hs hb hh ha hc =>
    refine ⟨fun hr => ?_,fun hr hn => ?_⟩
    · have hnone := h.forgets (by
        rcases hr with hr | hr
        · exact .inl hr
        · exact .inr ((mainCompleted_append.mp hr).resolve_right hc))
      rw [hs] at hnone
      cases hnone
    · obtain ⟨slot,hslot,h1,h2⟩ := h.remembers hr fun hm => hn (mainCompleted_append.mpr (.inl hm))
      rw [hs] at hslot
      cases hslot
      refine ⟨some msg,hb,?_,?_⟩
      · rw [handed_append,hh,h1]; rfl
      · rw [accepted_append,ha,h2]; rfl
  | ordinary hs hb hc =>
    refine ⟨fun _ => hb,fun hr hn => ?_⟩
    obtain ⟨slot,hslot,_⟩ := h.remembers hr fun hm => hn (mainCompleted_append.mpr (.inl hm))
    rw [hs] at hslot
    cases hslot
  | completed hb hc => exact ⟨fun _ => hb,fun _ hn => absurd (mainCompleted_append.mpr (.inr hc)) hn⟩

section Setup

omit [ProtocolMsg M] in
theorem addRound_sent {e e' : WithEchoBroadcast M}
    {router router' : RoundsRouter (Msg H M) (SubStore H M St)} {k : ι} {s : St k} {w : Round ι}
    (h : e.addRound router k s = .ok (e',router',w)) :
    e'.sentReliableMsgs = if requiresReliableBroadcast s = some true then
      Function.update e.sentReliableMsgs (roundOf M St k) (some none) else e.sentReliableMsgs := by
  unfold WithEchoBroadcast.addRound at h
  split at h
  · rename_i hrel
    obtain ⟨_,_,h⟩ := Checked.bind_eq_ok.mp h
    obtain ⟨_,_,h⟩ := Checked.bind_eq_ok.mp h
    obtain ⟨_,_,h⟩ := Checked.bind_eq_ok.mp h
    cases h
    rw [if_pos hrel]
  · rename_i hrel
    obtain ⟨_,_,h⟩ := Checked.bind_eq_ok.mp h
    cases h
    rw [if_neg hrel]

omit [ProtocolMsg M] in
/-- Exactly the reliable rounds are registered, without a message. -/
theorem addRounds_sent {e e' : WithEchoBroadcast M}
    {router router' : RoundsRouter (Msg H M) (SubStore H M St)} {regs : List ((k : ι) × St k)}
    (h : e.addRounds router regs = .ok (e',router')) (r : UInt16) :
    (Reliable M regs r → e'.sentReliableMsgs r = some none) ∧
      (¬ Reliable M regs r → e'.sentReliableMsgs r = e.sentReliableMsgs r) := by
  induction regs generalizing e router with
  | nil =>
    cases h
    exact ⟨fun ⟨_,hr,_⟩ => (by cases hr),fun _ => rfl⟩
  | cons reg regs ih =>
    obtain ⟨⟨e1,router1,w⟩,hadd,h⟩ := Checked.bind_eq_ok.mp h
    obtain ⟨hin,hout⟩ := ih h
    have hsent := addRound_sent hadd
    by_cases hrest : Reliable M regs r
    · obtain ⟨reg',hreg',hrel⟩ := hrest
      refine ⟨fun _ => hin ⟨reg',hreg',hrel⟩,fun hnot => ?_⟩
      exact absurd ⟨reg',List.mem_cons_of_mem _ hreg',hrel⟩ hnot
    · rw [hout hrest,hsent]
      constructor
      · rintro ⟨reg',hreg',hk,hrel⟩
        rcases List.mem_cons.mp hreg' with rfl | hreg'
        · rw [if_pos hrel,hk,Function.update_self]
        · exact absurd ⟨reg',hreg',hk,hrel⟩ hrest
      · intro hnot
        split
        · rename_i hrel
          have hne : r ≠ roundOf M St reg.1 :=
            fun hr => hnot ⟨reg,List.mem_cons_self ..,hr.symm,hrel⟩
          exact Function.update_of_ne hne ..
        · rfl

end Setup

section Discipline

variable [Digest H M] [DecidableEq H]

/-- Sending the message is refused for the reason, through either path. -/
def Refuses (CErr : Type → Type) (SErr H : Type) (St : ι → Type) [∀ k, RoundStore (St k)]
    [∀ k, RoundMsg M (RoundInfo.Msg (St k))] [Digest H M] [DecidableEq H]
    (e : WithEchoBroadcast M) (outgoing : Outgoing M) (reason : Reason) : Prop :=
  (serve e (.send outgoing) : PartyProg CErr SErr H M St (WithEchoBroadcast M × Except _ Unit)) =
    .ret (e,.error (.echo ⟨reason⟩)) ∧
  (serve e (.enqueue outgoing) : PartyProg CErr SErr H M St (WithEchoBroadcast M × Except _ Unit)) =
    .ret (e,.error (.echo ⟨reason⟩))

/-- Instead of the message `given` is handed to the party, through either path. -/
def Accepts (CErr : Type → Type) (SErr H : Type) (St : ι → Type) [∀ k, RoundStore (St k)]
    [∀ k, RoundMsg M (RoundInfo.Msg (St k))] [Digest H M] [DecidableEq H]
    (e : WithEchoBroadcast M) (outgoing given : Outgoing M) : Prop :=
  (∃ k, (serve e (.send outgoing) : PartyProg CErr SErr H M St
    (WithEchoBroadcast M × Except _ Unit)) = .call (.send (given.map .main)) k) ∧
  ∃ k, (serve e (.enqueue outgoing) : PartyProg CErr SErr H M St
    (WithEchoBroadcast M × Except _ Unit)) = .call (.enqueue (given.map .main)) k

theorem refuses_of_onSend {e : WithEchoBroadcast M} {outgoing : Outgoing M} {reason : Reason}
    (h : e.onSend outgoing = .ok (e,.error ⟨reason⟩)) :
    Refuses CErr SErr H St e outgoing reason :=
  serve_refused h

theorem accepts_of_onSend {e e' : WithEchoBroadcast M} {outgoing given : Outgoing M}
    (h : e.onSend outgoing = .ok (e',.ok given)) :
    Accepts CErr SErr H St e outgoing given :=
  ⟨⟨_,(serve_handedOver h).1⟩,⟨_,(serve_handedOver h).2⟩⟩

/-- The send discipline of a reliable round `r` at one point of a run. -/
structure Disciplined (done : List (EngineEvent CErr SErr M St)) (H : Type) [Digest H M]
    [DecidableEq H] (e : WithEchoBroadcast M) (r : UInt16) : Prop where
  nonReliable : ∀ outgoing, round outgoing.msg = .ok r → outgoing.recipient ≠ .allParties true →
    Refuses CErr SErr H St e outgoing (.sentNonReliableMsgInReliableRound outgoing.recipient r)
  first : accepted r done = [] → ∀ msg, round msg = .ok r →
    Accepts CErr SErr H St e (.reliableBroadcast msg) (.allParties msg)
  again : accepted r done ≠ [] → ∀ msg, round msg = .ok r →
    Refuses CErr SErr H St e (.reliableBroadcast msg) .sendTwice

/-- In a round that is not in the map reliable broadcasts are refused, others are accepted. -/
theorem unregistered_spec {e : WithEchoBroadcast M} {r : UInt16}
    (h : e.sentReliableMsgs r = none) {msg : M} (hr : round msg = .ok r) :
    Refuses CErr SErr H St e (.reliableBroadcast msg) (.sentReliableMsgInNonReliableRound r) ∧
    ∀ recipient, recipient ≠ .allParties true →
      Accepts CErr SErr H St e ⟨recipient,msg⟩ ⟨recipient,msg⟩ := by
  refine ⟨refuses_of_onSend ?_,fun recipient hne => ?_⟩
  · simp [onSend,hr,h,Outgoing.reliableBroadcast,MessageDestination.isReliableBroadcast,
      Except.map]
  · have hnot : recipient.isReliableBroadcast = false := by
      rw [← Bool.not_eq_true,MessageDestination.isReliableBroadcast_iff]
      exact hne
    have hon : e.onSend ⟨recipient,msg⟩ = .ok (e,.ok ⟨recipient,msg⟩) := by
      simp [onSend,hr,h,hnot,Except.map]
    exact accepts_of_onSend hon

theorem registered_slot_spec {e : WithEchoBroadcast M} {r : UInt16} {slot : Option M}
    (h : e.sentReliableMsgs r = some slot) {done : List (EngineEvent CErr SErr M St)}
    (hacc : accepted r done = slot.toList.map Outgoing.reliableBroadcast) :
    Disciplined done H e r := by
  refine ⟨fun outgoing hr hne => ?_,fun hnil msg hr => ?_,fun hnil msg hr => ?_⟩
  · have hnot : outgoing.recipient.isReliableBroadcast = false := by
      rw [← Bool.not_eq_true,MessageDestination.isReliableBroadcast_iff]
      exact hne
    apply refuses_of_onSend
    simp [onSend,hr,h,hnot,Except.map]
  · cases slot with
    | some m => rw [hacc] at hnil; cases hnil
    | none =>
      apply accepts_of_onSend
      simp only [onSend,Outgoing.reliableBroadcast,hr,h,Except.map]
      rfl
  · cases slot with
    | none => exact absurd hacc hnil
    | some m =>
      apply refuses_of_onSend
      simp only [onSend,Outgoing.reliableBroadcast,hr,h,Except.map]
      rfl

theorem not_disciplined {e : WithEchoBroadcast M} {r : UInt16} (h : e.sentReliableMsgs r = none)
    {msg : M} (hr : round msg = .ok r) (done : List (EngineEvent CErr SErr M St)) :
    ¬ Disciplined done H e r := by
  intro hd
  have hrefused := hd.nonReliable ⟨.allParties false,msg⟩ hr (by simp)
  have haccepted : Accepts CErr SErr H St e ⟨.allParties false,msg⟩ ⟨.allParties false,msg⟩ :=
    (unregistered_spec h hr).2 _ (by simp)
  obtain ⟨k,hk⟩ := haccepted.1
  rw [hrefused.1] at hk
  cases hk

end Discipline

/-- What the engine remembers at every point of every run. -/
theorem remembers_of_serves [Digest H M] [DecidableEq H] {i n : UInt16}
    {router router' : RoundsRouter (Msg H M) (SubStore H M St)} {regs : List ((k : ι) × St k)}
    {e0 e : WithEchoBroadcast M} (h0 : (wrap i n).addRounds router regs = .ok (e0,router'))
    {done : List (EngineEvent CErr SErr M St)} {made : List (PartyEvent CErr SErr H M St)}
    (hrun : Serves serve e0 done made e) (r : UInt16) :
    Remembers (Reliable M regs r) r done made e := by
  apply hrun.invariant (P := Remembers (Reliable M regs r) r)
  · have hs := addRounds_sent h0 r
    refine ⟨fun hr => ?_,fun hr _ => ⟨none,hs.1 hr,rfl,rfl⟩⟩
    rcases hr with hr | hr
    · exact hs.2 hr
    · cases hr
  · intro done made a d t b res ha ht
    exact ha.next (serve_effect ht)

/-- In every run and at every point of it: the send discipline of a reliable round holds if
and only if its main round was not completed yet (or there is no message of the round). -/
theorem send_discipline [Digest H M] [DecidableEq H] (i n : UInt16)
    (router router' : RoundsRouter (Msg H M) (SubStore H M St)) (regs : List ((k : ι) × St k))
    (e0 e : WithEchoBroadcast M) (h0 : (wrap i n).addRounds router regs = .ok (e0,router'))
    (done : List (EngineEvent CErr SErr M St)) (made : List (PartyEvent CErr SErr H M St))
    (hrun : Serves serve e0 done made e) (r : UInt16) :
    (Reliable M regs r →
      (Disciplined done H e r ↔ ¬ MainCompleted made r ∨ ∀ msg : M, round msg ≠ .ok r) ∧
      (¬ MainCompleted made r →
        (handed r made).length ≤ 1 ∧ ∀ o ∈ handed r made, o.recipient = .allParties false)) ∧
    (¬ Reliable M regs r → ∀ msg, round msg = .ok r →
      Refuses CErr SErr H St e (.reliableBroadcast msg) (.sentReliableMsgInNonReliableRound r)) := by
  have hinv := remembers_of_serves h0 hrun r
  refine ⟨fun hr => ⟨⟨fun hd => ?_,fun hc => ?_⟩,fun hc => ?_⟩,fun hr msg hmsg => ?_⟩
  · by_contra hcon
    simp only [not_or,not_not,not_forall] at hcon
    obtain ⟨hc,msg,hmsg⟩ := hcon
    exact not_disciplined (hinv.forgets (.inr hc)) hmsg done hd
  · rcases hc with hc | hnone
    · obtain ⟨slot,hs,_,hacc⟩ := hinv.remembers hr hc
      exact registered_slot_spec hs hacc
    · exact ⟨fun o ho => absurd ho (hnone o.msg),fun _ msg hmsg => absurd hmsg (hnone msg),
        fun _ msg hmsg => absurd hmsg (hnone msg)⟩
  · obtain ⟨slot,_,hh,_⟩ := hinv.remembers hr hc
    rw [hh]
    cases slot with
    | none => exact ⟨Nat.zero_le _,fun o ho => (by cases ho)⟩
    | some m =>
      refine ⟨Nat.le_refl _,fun o ho => ?_⟩
      rw [List.mem_singleton.mp ho]
      rfl
  · exact (unregistered_spec (hinv.forgets (.inl hr)) hmsg).1

section Run

open RandomGeneration

abbrev Hash := HashInput RandomGeneration.Msg

/-- Party 0 of two has registered round 1. -/
def registered : WithEchoBroadcast RandomGeneration.Msg :=
  ⟨0,2,Function.update (fun _ => none) 0 (some none)⟩

theorem registered_spec :
    ∃ (s : Store .round1) (router : RoundsRouter (Msg Hash RandomGeneration.Msg)
        (SubStore Hash RandomGeneration.Msg Store)),
      RoundInput.reliableBroadcast 0 2 = .ok s ∧ requiresReliableBroadcast s = some true ∧
      (wrap 0 2).addRounds .new [⟨RoundKind.round1,s⟩] = .ok (registered,router) :=
  ⟨_,_,rfl,rfl,rfl⟩

/-- What party 0 of two asks of its party: it broadcasts a commitment in round 1 and then
completes the round. -/
def completedRun (own other : CommitMsg) (id : MsgId) :
    List (PartyEvent (fun _ => Unit) Unit Hash RandomGeneration.Msg Store) :=
  let hash : Hash := ⟨TAG,[some (.commitMsg own),some (.commitMsg other)],0,2⟩
  [⟨.send (.allParties (.main (.commitMsg own))),.ok ()⟩,
    mainEvent .round1 (.ok ⟨⟨0,2⟩,⟨0,[id],[other]⟩,[none,some (.commitMsg other)]⟩),
    sendEvent .round1 hash (.ok ()),
    echoEvent .round1 (.ok ⟨⟨0,[id],[hash]⟩⟩)]

theorem completedRun_spec (own other : CommitMsg) (id : MsgId) :
    ∃ (s : Store .round1) (e0 e : WithEchoBroadcast RandomGeneration.Msg)
      (router : RoundsRouter (Msg Hash RandomGeneration.Msg)
        (SubStore Hash RandomGeneration.Msg Store))
      (done : List (EngineEvent (fun _ => Unit) Unit RandomGeneration.Msg Store)),
      RoundInput.reliableBroadcast 0 2 = .ok s ∧ Reliable RandomGeneration.Msg [⟨RoundKind.round1,s⟩] 0 ∧
      (wrap 0 2).addRounds .new [⟨RoundKind.round1,s⟩] = .ok (e0,router) ∧
      Serves serve e0 done (completedRun own other id) e ∧ e.sentReliableMsgs 0 = none := by
  let e1 : WithEchoBroadcast RandomGeneration.Msg :=
    ⟨0,2,Function.update registered.sentReliableMsgs 0 (some (some (.commitMsg own)))⟩
  let out : RoundInfo.Output (Store .round1) := (⟨0,[id],[other]⟩ : RoundMsgs CommitMsg)
  let hash : Hash := ⟨TAG,[some (.commitMsg own),some (.commitMsg other)],0,2⟩
  obtain ⟨s,router,hs,hrel,hadd⟩ := registered_spec
  have hsend : Steps (serve registered (.send (.reliableBroadcast (.commitMsg own))))
      (completedRun own other id |>.take 1) (.ret (e1,.ok ())) := by
    exact .call .refl
  have hcheck : ReliabilityCheck.withEchoOutput (⟨hash,out⟩ : ReliabilityCheck Hash (Store .round1))
      ⟨⟨0,[id],[hash]⟩⟩ = .ok out := by
    simp [ReliabilityCheck.withEchoOutput]
  have hdone : Steps ((e1.remove 0).afterEchoRound RoundKind.round1 ⟨hash,out⟩
      (.ok ⟨⟨0,[id],[hash]⟩⟩) : PartyProg (fun _ => Unit) Unit Hash RandomGeneration.Msg Store _)
      [] (.ret (e1.remove 0,.ok out)) := by
    rw [afterEchoRound_eq,hcheck]
    exact .refl
  have hcomplete : Steps (serve e1 (.complete (.withReliabilityCheck RoundKind.round1)))
      (completedRun own other id |>.drop 1) (.ret (e1.remove 0,.ok out)) :=
    .call (.call (.call hdone))
  exact ⟨s,registered,e1.remove 0,router,_,hs,⟨_,List.mem_singleton_self _,rfl,hrel⟩,hadd,
    .snoc (.snoc .refl hsend) hcomplete,rfl⟩

/-- In the completed round a second commitment is let through, to one party only, and a
reliable broadcast is refused for the wrong reason. -/
theorem second_commitment_accepted :
    ∃ (s : Store .round1) (e0 e : WithEchoBroadcast RandomGeneration.Msg)
      (router : RoundsRouter (Msg Hash RandomGeneration.Msg)
        (SubStore Hash RandomGeneration.Msg Store))
      (done : List (EngineEvent (fun _ => Unit) Unit RandomGeneration.Msg Store))
      (own other : CommitMsg),
      RoundInput.reliableBroadcast 0 2 = .ok s ∧ Reliable RandomGeneration.Msg [⟨RoundKind.round1,s⟩] 0 ∧
      (wrap 0 2).addRounds .new [⟨RoundKind.round1,s⟩] = .ok (e0,router) ∧
      Serves serve e0 done (completedRun own other 0) e ∧ ¬ Disciplined done Hash e 0 ∧
      Accepts (fun _ => Unit) Unit Hash Store e (.p2p 1 (.commitMsg other))
        (.p2p 1 (.commitMsg other)) ∧
      Refuses (fun _ => Unit) Unit Hash Store e (.reliableBroadcast (.commitMsg other))
        (.sentReliableMsgInNonReliableRound 0) := by
  let own : CommitMsg := ⟨Vector.replicate 32 0⟩
  let other : CommitMsg := ⟨Vector.replicate 32 1⟩
  obtain ⟨s,e0,e,router,done,hs,hrel,hadd,hrun,hnone⟩ := completedRun_spec own other 0
  have hround : round (RandomGeneration.Msg.commitMsg other) = .ok 0 := rfl
  exact ⟨s,e0,e,router,done,own,other,hs,hrel,hadd,hrun,not_disciplined hnone hround done,
    (unregistered_spec hnone hround).2 _ (by simp),(unregistered_spec hnone hround).1⟩

theorem send_discipline_commitments :
    ∃ (s : Store .round1) (e0 e : WithEchoBroadcast RandomGeneration.Msg)
      (router : RoundsRouter (Msg Hash RandomGeneration.Msg)
        (SubStore Hash RandomGeneration.Msg Store))
      (done : List (EngineEvent (fun _ => Unit) Unit RandomGeneration.Msg Store))
      (made : List (PartyEvent (fun _ => Unit) Unit Hash RandomGeneration.Msg Store)),
      (wrap 0 2).addRounds .new [⟨RoundKind.round1,s⟩] = .ok (e0,router) ∧
      Serves serve e0 done made e ∧
      (Disciplined done Hash e 0 ↔
        ¬ MainCompleted made 0 ∨ ∀ msg : RandomGeneration.Msg, round msg ≠ .ok 0) := by
  obtain ⟨s,e0,e,router,done,_,hrel,hadd,hrun,_⟩ :=
    completedRun_spec ⟨Vector.replicate 32 0⟩ ⟨Vector.replicate 32 1⟩ 0
  exact ⟨s,e0,e,router,done,_,hadd,hrun,
    ((send_discipline 0 2 .new router [⟨.round1,s⟩] e0 e hadd done _ hrun 0).1 hrel).1⟩

end Run

end EchoBroadcast
end RoundBased
