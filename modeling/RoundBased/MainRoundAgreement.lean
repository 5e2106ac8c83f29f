import RoundBased.EchoRounds
import RoundBased.RandomGeneration
import RoundBased.ReceivedMap

/-! The main round of a reliable broadcast against the round input it wraps, message by
message. -/
namespace RoundBased
namespace EchoBroadcast

variable {H M T : Type} [RoundMsg M T] {i n : UInt16}

/-- The message as one that was reliably broadcast. -/
def marked (msg : Incoming T) : Incoming T := { msg with msgType := .broadcast true }

/-- The main round and the plain store are equally far, and hold the same. -/
structure StatesAgree (main : MainRound H M (RoundInput T)) (plain : RoundInput T) : Prop where
  wantsMore : main.wantsMore = plain.wantsMore
  output : ∀ out, plain.output = .ok out ↔
    ∃ needs, main.output = .ok needs ∧ needs.mainRoundOutput = out
  received : ∀ j, j ≠ plain.i → ∀ m : M, main.receivedMsgs[j.toNat]? = some (some m) ↔
    (plain.toMap j).map (fun v => toProtocolMsg v.2) = some m

/-- Up to the point where the round is over or has failed, both accept the same messages. -/
def Agree : MainRound H M (RoundInput T) → RoundInput T → List (Incoming T) → Prop
  | main,plain,[] => StatesAgree main plain
  | main,plain,msg :: msgs => StatesAgree main plain ∧ (plain.wantsMore = true →
    match main.addMessage msg,plain.addMessage (marked msg) with
    | (main',.ok ()),(plain',.ok ()) => Agree main' plain' msgs
    | (_,.error e),(_,.error e') => e = .main e'
    | _,_ => False)

/-- As long as the plain store waits for messages, not more than one own message comes, and
none if there was one before. -/
def OwnOnce (i : UInt16) (seen : Bool) (plain : RoundInput T) (msgs : List (Incoming T)) : Prop :=
  ∀ before msg after, msgs = before ++ msg :: after → verdict plain (before.map marked) = none →
    msg.sender = i → seen = false ∧ ∀ m ∈ before, m.sender ≠ i

section Verdict

variable {plain : RoundInput T}

theorem verdict_nil : verdict plain [] = none ↔ plain.wantsMore = true := by
  by_cases hw : plain.wantsMore = true
  · have hw' : RoundStore.wantsMore plain = true := hw
    simp [verdict,Feeding.Collector.feed,hw,hw']
  · rw [Bool.not_eq_true] at hw
    have hw' : RoundStore.wantsMore plain = false := hw
    obtain ⟨out,hout,_⟩ := RoundInput.output_spec hw
    have hout' : RoundStore.output plain = .ok out := hout
    simp [verdict,Feeding.Collector.feed,hw,hw',hout']

theorem verdict_cons {msg : Incoming (RoundInfo.Msg (RoundInput T))}
    {msgs : List (Incoming (RoundInfo.Msg (RoundInput T)))} :
    verdict plain (msg :: msgs) = none ↔ plain.wantsMore = true ∧
      ∃ plain', plain.addMessage msg = (plain',.ok ()) ∧ verdict plain' msgs = none := by
  by_cases hw : plain.wantsMore = true
  · have hw' : RoundStore.wantsMore plain = true := hw
    cases ha : plain.addMessage msg with
    | mk plain' res =>
      have ha' : RoundStore.addMessage plain msg = (plain',res) := ha
      cases res with
      | error e => simp [verdict,Feeding.Collector.feed,hw',ha',Except.bind]
      | ok u => simp [verdict,Feeding.Collector.feed,hw,hw',ha',Except.bind]
  · rw [Bool.not_eq_true] at hw
    have hw' : RoundStore.wantsMore plain = false := hw
    obtain ⟨out,hout,_⟩ := RoundInput.output_spec hw
    have hout' : RoundStore.output plain = .ok out := hout
    simp [verdict,Feeding.Collector.feed,hw,hw',hout']

theorem ownOnce_nil {seen : Bool} : OwnOnce i seen plain [] := by
  intro before msg after h
  cases before <;> cases h

theorem ownOnce_cons {seen : Bool} {msg : Incoming T} {msgs : List (Incoming T)} :
    OwnOnce i seen plain (msg :: msgs) ↔ (plain.wantsMore = true → (msg.sender = i → seen = false) ∧
      ∀ plain', plain.addMessage (marked msg) = (plain',.ok ()) →
        OwnOnce i (seen || msg.sender = i) plain' msgs) := by
  constructor
  · intro h hw
    refine ⟨fun hi => (h [] msg msgs rfl (verdict_nil.mpr hw) hi).1,?_⟩
    rintro plain' ha before m after rfl hv hi
    obtain ⟨hseen,hbefore⟩ :=
      h (msg :: before) m after rfl (verdict_cons.mpr ⟨hw,plain',ha,hv⟩) hi
    have hne := hbefore msg (List.mem_cons_self ..)
    exact ⟨by simp [hseen,hne],fun x hx => hbefore x (List.mem_cons_of_mem _ hx)⟩
  · rintro h before m after hsplit hv hi
    cases before with
    | nil =>
      cases hsplit
      exact ⟨(h (verdict_nil.mp hv)).1 hi,fun x hx => (by cases hx)⟩
    | cons x before =>
      cases hsplit
      obtain ⟨hw,plain',ha,hv⟩ := verdict_cons.mp hv
      obtain ⟨hseen,hbefore⟩ := (h hw).2 plain' ha before m after rfl hv hi
      rw [Bool.or_eq_false_iff,decide_eq_false_iff_not] at hseen
      refine ⟨hseen.1,fun y hy => ?_⟩
      rcases List.mem_cons.mp hy with rfl | hy
      · exact hseen.2
      · exact hbefore y hy

end Verdict

/-- The main round wraps the plain store, and has recorded what that holds. -/
structure InStep (i n : UInt16) (seen : Bool) (main : MainRound H M (RoundInput T))
    (plain : RoundInput T) : Prop where
  i_eq : plain.i = i
  n_eq : plain.n = n
  type_eq : plain.expectedMsgType = .broadcast true
  length : main.receivedMsgs.length = n.toNat
  recorded : ∀ j, Others i n j → main.receivedMsgs[j.toNat]? =
    some ((plain.toMap j).map fun v => toProtocolMsg v.2)
  ownSlot : ∃ own, main.receivedMsgs[i.toNat]? = some own ∧ own.isSome = seen
  state : (plain.wantsMore = true ∧ main.state = .ongoing plain) ∨
    (plain.wantsMore = false ∧ ∃ out, plain.output = .ok out ∧ main.state = .output out)

section InStep

variable {seen : Bool} {main : MainRound H M (RoundInput T)} {plain : RoundInput T}

theorem InStep.statesAgree (h : InStep i n seen main plain) : StatesAgree main plain := by
  have hmap : ∀ j, j ≠ plain.i → ∀ m : M, main.receivedMsgs[j.toNat]? = some (some m) ↔
      (plain.toMap j).map (fun v => toProtocolMsg v.2) = some m := by
    intro j hj m
    by_cases hn : j < n
    · rw [h.recorded j ⟨hn,h.i_eq ▸ hj⟩,Option.some.injEq]
    · have hnone : plain.toMap j = none := by
        by_contra hc
        exact hn (h.n_eq ▸ (RoundInput.toMap_ne_none hc).1)
      have hlen : main.receivedMsgs[j.toNat]? = none := by
        rw [List.getElem?_eq_none_iff,h.length]
        rw [UInt16.lt_iff_toNat_lt] at hn
        omega
      simp [hnone,hlen]
  rcases h.state with ⟨hw,hst⟩ | ⟨hw,out,hout,hst⟩
  · have hout := RoundInput.output_of_wantsMore hw
    exact ⟨by simp [MainRound.wantsMore,hst,hw],fun out => by simp [hout,MainRound.output,hst],hmap⟩
  · refine ⟨by simp [MainRound.wantsMore,hst,hw],fun out' => ?_,hmap⟩
    simp [hout,MainRound.output,hst]

variable [ProtocolMsg M] [LawfulRoundMsg M T] {msg : Incoming T}

/-- The message is recorded, and the wrapped store has moved on. -/
def advance (main : MainRound H M (RoundInput T)) (plain : RoundInput T) (msg : Incoming T) :
    MainRound H M (RoundInput T) :=
  ⟨main.params,.ongoing plain,main.receivedMsgs.set msg.sender.toNat (some (toProtocolMsg msg.msg))⟩

/-- What the plain store holds after it has taken the message. -/
structure Takes (M : Type) [RoundMsg M T] (i n : UInt16) (plain plain' : RoundInput T)
    (msg : Incoming T) : Prop where
  i_eq : plain'.i = i
  n_eq : plain'.n = n
  type_eq : plain'.expectedMsgType = .broadcast true
  map_eq : ∀ j, Others i n j → (plain'.toMap j).map (fun v => toProtocolMsg v.2) =
    if j = msg.sender then some (toProtocolMsg msg.msg : M)
    else (plain.toMap j).map fun v => toProtocolMsg v.2

omit [ProtocolMsg M] [LawfulRoundMsg M T] in
theorem InStep.settle (h : InStep i n seen main plain) (hj : msg.sender < n)
    {plain' : RoundInput T} (ht : Takes M i n plain plain' msg) :
    ∃ main', (if RoundStore.wantsMore plain' then (advance main plain' msg,.ok ())
      else (advance main plain' msg).finish) =
      (main',(.ok () : Except (Error (RoundInfo.Error (RoundInput T))) Unit)) ∧
      InStep i n (seen || msg.sender = i) main' plain' := by
  have hjn : msg.sender.toNat < main.receivedMsgs.length := by
    rw [h.length]
    exact UInt16.lt_iff_toNat_lt.mp hj
  have hown : ∃ own, (main.receivedMsgs.set msg.sender.toNat
      (some (toProtocolMsg msg.msg)))[i.toNat]? = some own ∧
        own.isSome = (seen || msg.sender = i) := by
    obtain ⟨own,hown,hsome⟩ := h.ownSlot
    by_cases hie : msg.sender = i
    · rw [hie] at hjn ⊢
      exact ⟨some (toProtocolMsg msg.msg),by rw [List.getElem?_set_self hjn],by simp⟩
    · have hne : msg.sender.toNat ≠ i.toNat := fun he => hie (UInt16.toNat_inj.mp he)
      exact ⟨own,by rw [List.getElem?_set_ne hne,hown],by simp [hie,hsome]⟩
  have hkey : ∀ state, (plain'.wantsMore = true ∧ state = .ongoing plain') ∨
      (plain'.wantsMore = false ∧ ∃ out, plain'.output = .ok out ∧ state = .output out) →
      InStep i n (seen || msg.sender = i)
        ({ advance main plain' msg with state := state } : MainRound H M (RoundInput T)) plain' := by
    intro state hs
    refine ⟨ht.i_eq,ht.n_eq,ht.type_eq,?_,fun j hj' => ?_,hown,hs⟩
    · rw [advance,List.length_set,h.length]
    · rw [ht.map_eq j hj']
      by_cases hje : j = msg.sender
      · subst hje
        simp [advance,hjn]
      · have hne : msg.sender.toNat ≠ j.toNat := fun he => hje (UInt16.toNat_inj.mp he).symm
        rw [advance,List.getElem?_set_ne hne,h.recorded j hj',if_neg hje]
  by_cases hw : plain'.wantsMore = true
  · have hw' : RoundStore.wantsMore plain' = true := hw
    exact ⟨_,if_pos hw',hkey _ (.inl ⟨hw,rfl⟩)⟩
  · rw [Bool.not_eq_true] at hw
    obtain ⟨out,hout,_⟩ := RoundInput.output_spec hw
    have hout' : RoundStore.output plain' = .ok out := hout
    have hw' : ¬ RoundStore.wantsMore plain' = true :=
      fun hc => Bool.false_ne_true (hw.symm.trans hc)
    refine ⟨_,?_,hkey (.output out) (.inr ⟨hw,out,hout,rfl⟩)⟩
    rw [if_neg hw']
    simp only [MainRound.finish,advance,hout']

/-- What the main round does with a message, by what the plain store does. -/
theorem InStep.addMessage (h : InStep i n seen main plain) (hw : plain.wantsMore = true)
    (msg : Incoming T) :
    main.addMessage msg =
      match plain.addMessage (marked msg) with
      | (plain',.error e) => ({ main with state := .ongoing plain' },.error (.main e))
      | (plain',.ok ()) =>
        match ({ main with state := .ongoing plain' } : MainRound H M (RoundInput T)).record
          (marked msg) with
        | (main',.error e) => (main',.error e)
        | (main',.ok ()) => if RoundStore.wantsMore plain' then (main',.ok ()) else main'.finish := by
  have hst : main.state = .ongoing plain := by
    rcases h.state with ⟨_,hst⟩ | ⟨hf,_⟩
    · exact hst
    · rw [hw] at hf
      cases hf
  cases ha : plain.addMessage (marked msg) with
  | mk plain' res =>
    have ha' : RoundStore.addMessage plain { msg with msgType := .broadcast true } =
        (plain',res) := ha
    simp only [MainRound.addMessage,hst,cloneIncomingRoundMsg_eq,ha']
    cases res with
    | error e => rfl
    | ok u =>
      simp only [marked]
      generalize ({ main with state := .ongoing plain' } : MainRound H M (RoundInput T)).record
        { msg with msgType := .broadcast true } = r
      obtain ⟨main',_ | _⟩ := r <;> rfl

theorem InStep.other (h : InStep i n seen main plain) (hw : plain.wantsMore = true)
    (hne : msg.sender ≠ i) :
    (∃ main' plain' e, main.addMessage msg = (main',.error (.main e)) ∧
      plain.addMessage (marked msg) = (plain',.error e)) ∨
    ∃ main' plain', main.addMessage msg = (main',.ok ()) ∧
      plain.addMessage (marked msg) = (plain',.ok ()) ∧ InStep i n seen main' plain' := by
  have hadd := h.addMessage hw msg
  have htype : isExpectedType plain.expectedMsgType (marked msg).msgType = true := by
    rw [h.type_eq]
    rfl
  rcases RoundInput.addMessage_cases plain (marked msg) with ⟨hf,_⟩ | ⟨_,⟨hown,_⟩ | ⟨_,_,ha⟩ |
    ⟨_,_,_,_,ha⟩ | ⟨hj,hnone,plain',ha,hmap,hpi,hpn,hpt⟩⟩
  · rw [htype] at hf
    cases hf
  · exact absurd (hown.trans h.i_eq) hne
  · rw [ha] at hadd
    exact .inl ⟨_,_,_,hadd,ha⟩
  · rw [ha] at hadd
    exact .inl ⟨_,_,_,hadd,ha⟩
  · have hother : Others i n msg.sender := by rwa [← h.i_eq,← h.n_eq]
    have hslot : main.receivedMsgs[msg.sender.toNat]? = some none := by
      rw [h.recorded _ hother,show plain.toMap msg.sender = none from hnone]
      rfl
    have htakes : Takes M i n plain plain' msg := by
      refine ⟨hpi.trans h.i_eq,hpn.trans h.n_eq,hpt.trans h.type_eq,fun j _ => ?_⟩
      rw [hmap]
      by_cases hje : j = msg.sender
      · subst hje
        simp [marked]
      · rw [Function.update_of_ne (show j ≠ (marked msg).sender from hje),if_neg hje]
    obtain ⟨main',hsettle,hnext⟩ := h.settle hother.1 htakes
    rw [ha] at hadd
    simp only [MainRound.record,marked,hslot] at hadd
    refine .inr ⟨main',plain',hadd.trans hsettle,ha,?_⟩
    simpa [hne] using hnext

/-- The plain store ignores an own message, the main round records it once. -/
theorem InStep.own (hi : i < n) (h : InStep i n seen main plain) (hw : plain.wantsMore = true)
    (hown : msg.sender = i) : plain.addMessage (marked msg) = (plain,.ok ()) ∧
    (seen = false → ∃ main', main.addMessage msg = (main',.ok ()) ∧ InStep i n true main' plain) ∧
    (seen = true → ∃ main',
      main.addMessage msg = (main',.error (.ofReason .storeReceivedTwoMsgsFromSameParty))) := by
  have hadd := h.addMessage hw msg
  have htype : isExpectedType plain.expectedMsgType (marked msg).msgType = true := by
    rw [h.type_eq]
    rfl
  have ha := RoundInput.addMessage_own htype (hown.trans h.i_eq.symm)
  obtain ⟨own,hslot,hsome⟩ := h.ownSlot
  rw [← hown] at hslot
  rw [ha] at hadd
  refine ⟨ha,fun hseen => ?_,fun hseen => ?_⟩
  · rw [hseen,Option.isSome_eq_false_iff,Option.isNone_iff_eq_none] at hsome
    rw [hsome] at hslot
    have htakes : Takes M i n plain plain msg := by
      refine ⟨h.i_eq,h.n_eq,h.type_eq,fun j hj => ?_⟩
      rw [if_neg fun he => hj.2 (he.trans hown)]
    obtain ⟨main',hsettle,hnext⟩ := h.settle (hown ▸ hi) htakes
    simp only [MainRound.record,marked,hslot] at hadd
    refine ⟨main',hadd.trans hsettle,?_⟩
    simpa [hown] using hnext
  · obtain ⟨m,rfl⟩ := Option.isSome_iff_exists.mp (hsome.trans hseen)
    simp only [MainRound.record,marked,hslot] at hadd
    exact ⟨_,hadd⟩

/-- From states in step, both go on to accept the same messages exactly as long as no second
own message comes. -/
theorem InStep.agree_iff (hi : i < n) (h : InStep i n seen main plain) (msgs : List (Incoming T)) :
    Agree main plain msgs ↔ OwnOnce i seen plain msgs := by
  induction msgs generalizing seen main plain with
  | nil => exact ⟨fun _ => ownOnce_nil,fun _ => h.statesAgree⟩
  | cons msg msgs ih =>
    rw [ownOnce_cons,Agree,and_iff_right h.statesAgree]
    apply forall_congr'
    intro hw
    by_cases hown : msg.sender = i
    · obtain ⟨ha,hfirst,hagain⟩ := h.own hi hw hown
      simp only [ha,hown,decide_true,Bool.or_true,true_implies,Prod.mk.injEq,and_true]
      cases seen with
      | false =>
        obtain ⟨main',hm,hnext⟩ := hfirst rfl
        simp only [hm,ih hnext,true_and]
        exact ⟨fun ho plain' he => he ▸ ho,fun ho => ho plain rfl⟩
      | true =>
        obtain ⟨main',hm⟩ := hagain rfl
        simp [hm]
    · rcases h.other hw hown with ⟨main',plain',e,hm,ha⟩ | ⟨main',plain',hm,ha,hnext⟩
      · simp [hm,ha,hown]
      · simp only [hm,ha,ih hnext,hown,false_implies,true_and,decide_false,Bool.or_false,
          Prod.mk.injEq,and_true]
        exact ⟨fun ho p he => he ▸ ho,fun ho => ho plain' rfl⟩

omit [ProtocolMsg M] [LawfulRoundMsg M T] in
theorem inStep_new {s0 : RoundInput T} (h0 : RoundInput.reliableBroadcast i n = .ok s0)
    {main : MainRound H M (RoundInput T)} {echo : EchoRound H (RoundInput T)}
    (hnew : newStores i n s0 = .ok (main,echo)) : InStep i n false main s0 := by
  have hrep := RoundInput.represents_new h0
  obtain ⟨main',echo',hnew',_,hholds⟩ := newStores_spec (H := H) (M := M) h0
  rw [hnew] at hnew'
  cases hnew'
  have hin : i.toNat < n.toNat := hrep.i_eq ▸ hrep.n_eq ▸ s0.i_lt
  refine ⟨hrep.i_eq,hrep.n_eq,hrep.type_eq,hholds.records.length,fun j hj => ?_,⟨none,?_,rfl⟩,?_⟩
  · rw [hholds.records.get j hj.1,hrep.map_eq]
    rfl
  · exact hholds.records.get i (UInt16.lt_iff_toNat_lt.mpr hin)
  · have hw : s0.wantsMore = true := by
      by_contra hc
      rw [Bool.not_eq_true,RoundInput.wantsMore_eq_false_iff_map,hrep.map_eq,hrep.i_eq,
        hrep.n_eq] at hc
      have htwo := s0.two_le
      rw [hrep.n_eq] at htwo
      obtain ⟨j,hj,hji,_⟩ := exists_slotIndex hin (x := 0) (by omega)
      exact hc j ⟨hj,hji⟩ rfl
    have hout := RoundInput.output_of_wantsMore hw
    have hout' : RoundStore.output s0 = .error s0 := hout
    refine .inl ⟨hw,?_⟩
    unfold newStores at hnew
    rw [hout'] at hnew
    cases hb : (RoundInput.broadcast i n : Checked (RoundInput H)) with
    | error p => rw [hb] at hnew; cases hnew
    | ok e => rw [hb] at hnew; cases hnew; rfl

/-- The main round accepts what the plain store accepts, exactly as long as no second message
comes that the party has sent itself. -/
theorem main_round_agrees_iff {s0 : RoundInput T} (h0 : RoundInput.reliableBroadcast i n = .ok s0)
    {main : MainRound H M (RoundInput T)} {echo : EchoRound H (RoundInput T)}
    (hnew : newStores i n s0 = .ok (main,echo)) (msgs : List (Incoming T)) :
    Agree main s0 msgs ↔ ∀ before msg after, msgs = before ++ msg :: after →
      verdict s0 (before.map marked) = none → msg.sender = i → ∀ m ∈ before, m.sender ≠ i := by
  have hrep := RoundInput.represents_new h0
  have hi : i < n := UInt16.lt_iff_toNat_lt.mpr (hrep.i_eq ▸ hrep.n_eq ▸ s0.i_lt)
  rw [(inStep_new h0 hnew).agree_iff hi]
  simp only [OwnOnce,true_and]

end InStep

section Commitments

open RandomGeneration

/-- The own commitment comes back twice. -/
theorem second_own_message_fails :
    let own : Incoming CommitMsg := ⟨0,0,.broadcast false,⟨Vector.replicate 32 0⟩⟩
    ∃ (s0 : RoundInput CommitMsg) (main main' : MainRound Unit RandomGeneration.Msg
        (RoundInput CommitMsg)) (echo : EchoRound Unit (RoundInput CommitMsg)),
      RoundInput.reliableBroadcast 0 2 = .ok s0 ∧ newStores 0 2 s0 = .ok (main,echo) ∧
      main.addMessage own = (main',.ok ()) ∧
      (main'.addMessage own).2 = .error (.ofReason .storeReceivedTwoMsgsFromSameParty) ∧
      s0.addMessage (marked own) = (s0,.ok ()) ∧ ¬ Agree main s0 [own,own] := by
  intro own
  obtain ⟨s0,h0⟩ : ∃ s0 : RoundInput CommitMsg, RoundInput.reliableBroadcast 0 2 = .ok s0 := ⟨_,rfl⟩
  obtain ⟨main,echo,hnew⟩ : ∃ (main : MainRound Unit RandomGeneration.Msg (RoundInput CommitMsg))
      (echo : EchoRound Unit (RoundInput CommitMsg)), newStores 0 2 s0 = .ok (main,echo) := by
    cases h0
    exact ⟨_,_,rfl⟩
  have hstep := inStep_new h0 hnew
  have hw : s0.wantsMore = true := by
    cases h0
    rfl
  obtain ⟨ha,hfirst,_⟩ := hstep.own (by decide) hw (show own.sender = 0 from rfl)
  obtain ⟨main',hm,hstep'⟩ := hfirst rfl
  obtain ⟨_,_,hagain⟩ := hstep'.own (by decide) hw (show own.sender = 0 from rfl)
  obtain ⟨main'',hm'⟩ := hagain rfl
  refine ⟨s0,main,main',echo,h0,hnew,hm,by rw [hm'],ha,?_⟩
  simp [Agree,hm,hm',ha,hw]

theorem main_round_agrees_commitments :
    let own : Incoming CommitMsg := ⟨0,0,.broadcast false,⟨Vector.replicate 32 0⟩⟩
    let other : Incoming CommitMsg := ⟨1,1,.p2p,⟨Vector.replicate 32 1⟩⟩
    ∃ (s0 : RoundInput CommitMsg) (main : MainRound Unit RandomGeneration.Msg (RoundInput CommitMsg))
      (echo : EchoRound Unit (RoundInput CommitMsg)),
      RoundInput.reliableBroadcast 0 2 = .ok s0 ∧ newStores 0 2 s0 = .ok (main,echo) ∧
      Agree main s0 [own,other] := by
  intro own other
  obtain ⟨s0,h0⟩ : ∃ s0 : RoundInput CommitMsg, RoundInput.reliableBroadcast 0 2 = .ok s0 := ⟨_,rfl⟩
  obtain ⟨main,echo,hnew⟩ : ∃ (main : MainRound Unit RandomGeneration.Msg (RoundInput CommitMsg))
      (echo : EchoRound Unit (RoundInput CommitMsg)), newStores 0 2 s0 = .ok (main,echo) := by
    cases h0
    exact ⟨_,_,rfl⟩
  refine ⟨s0,main,echo,h0,hnew,(main_round_agrees_iff h0 hnew _).mpr ?_⟩
  intro before msg after hsplit _ hmsg m hm
  cases before with
  | nil => cases hm
  | cons x before =>
    cases before with
    | nil =>
      cases hsplit
      cases hmsg
    | cons y before =>
      have hlen := congrArg List.length hsplit
      simp at hlen

end Commitments
end EchoBroadcast
end RoundBased
