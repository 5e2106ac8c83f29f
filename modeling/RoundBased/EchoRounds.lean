import RoundBased.EchoStore

/-! What the two stores of a reliable broadcast round collect. -/
namespace RoundBased
namespace EchoBroadcast
open Feeding Gathering

variable {H M S T : Type}

section Wrappers

variable [RoundStore S]

theorem simulates_withMainMsg : Simulates (fun (a : WithMainMsg S) b => a.store = b)
    (fun msg => msg.map Main.msg) id id where
  wants := by rintro a b rfl; rfl
  add := by
    rintro a b x rfl _
    simp only [store_add,addMessage]
    generalize RoundStore.addMessage a.store (x.map Main.msg) = r
    obtain ⟨s',res⟩ := r
    cases res with
    | ok u => exact .ok rfl
    | error e => exact .error rfl
  output := by
    rintro a b rfl
    simp only [output]
    cases RoundStore.output a.store <;> rfl

theorem simulates_withError : Simulates (fun (a : WithError S) b => a.store = b) id id .main where
  wants := by intro a b h; rw [← h]; rfl
  add := by
    rintro a b x rfl _
    simp only [store_add,addMessage,id]
    generalize RoundStore.addMessage a.store x = r
    obtain ⟨s',res⟩ := r
    cases res with
    | ok u => exact .ok rfl
    | error e => exact .error rfl
  output := by
    rintro a b rfl
    simp only [output]
    cases RoundStore.output a.store <;> rfl

theorem simulates_echo (E : Type) :
    Simulates (fun (a : WithEchoError (EchoRound H S) E) b => a.store.echoRound = b)
      (fun msg => msg.map EchoMsg.hash) .mk fun e => .echo ⟨.handleEcho e⟩ where
  wants := by rintro a b rfl; rfl
  add := by
    rintro a b x rfl _
    simp only [store_add,addMessage]
    generalize RoundInput.addMessage a.store.echoRound (x.map EchoMsg.hash) = r
    obtain ⟨s',res⟩ := r
    cases res with
    | ok u => exact .ok rfl
    | error e => exact .error rfl
  output := by
    rintro a b rfl
    simp only [output]
    cases RoundInput.output a.store.echoRound <;> rfl

theorem verdict_withMainMsg (s : S) (msgs : List (Incoming (Main (RoundInfo.Msg S)))) :
    verdict (⟨s⟩ : WithMainMsg S) msgs = verdict s (msgs.map fun msg => msg.map Main.msg) := by
  have h := simulates_withMainMsg.verdict (s := (⟨s⟩ : WithMainMsg S)) rfl msgs
  rw [h]
  cases verdict s (msgs.map fun msg => msg.map Main.msg) with
  | none => rfl
  | some v => cases v <;> rfl

theorem verdict_withError (s : S) (msgs : List (Incoming (RoundInfo.Msg S))) :
    verdict (⟨s⟩ : WithError S) msgs = (verdict s msgs).map (mapVerdict id .main) := by
  have h := simulates_withError.verdict (s := (⟨s⟩ : WithError S)) rfl msgs
  rw [h,List.map_id]

theorem verdict_echo (E : Type) (input : RoundInput H)
    (msgs : List (Incoming (EchoMsg H (RoundInfo.Msg S)))) :
    verdict (⟨⟨input⟩⟩ : WithEchoError (EchoRound H S) E) msgs =
      (verdict input (msgs.map fun msg => msg.map EchoMsg.hash)).map
        (mapVerdict .mk fun e => .echo ⟨.handleEcho e⟩) :=
  (simulates_echo E).verdict (s := (⟨⟨input⟩⟩ : WithEchoError (EchoRound H S) E)) rfl msgs

end Wrappers

section Main

variable [RoundStore S]

/-- A main round that has not failed either collects messages or has its output. -/
def MainRound.Sound (self : MainRound H M S) : Prop :=
  (∃ store, self.state = .ongoing store) ∨ ∃ out, self.state = .output out

theorem MainRound.finish_sound {self self' : MainRound H M S}
    (h : self.finish = (self',.ok ())) : self'.Sound := by
  unfold finish at h
  split at h
  · split at h
    · rename_i out _
      cases h
      exact .inr ⟨out,rfl⟩
    · cases h
  · cases h

theorem newStores_sound {i n : UInt16} {s : S} {main : MainRound H M S} {echo : EchoRound H S}
    (h : newStores i n s = .ok (main,echo)) : main.Sound := by
  unfold newStores at h
  cases hb : (RoundInput.broadcast i n : Checked (RoundInput H)) with
  | error p => rw [hb] at h; cases h
  | ok e =>
    rw [hb] at h
    cases h
    unfold MainRound.Sound
    cases output s with
    | ok out => exact .inr ⟨out,rfl⟩
    | error s' => exact .inl ⟨s',rfl⟩

variable [RoundMsg M (RoundInfo.Msg S)]

theorem MainRound.record_state {self self' : MainRound H M S}
    {incoming : Incoming (RoundInfo.Msg S)} {res : Except (Error (RoundInfo.Error S)) Unit}
    (h : self.record incoming = (self',res)) : self'.state = self.state := by
  unfold record at h
  split at h <;> cases h <;> rfl

theorem MainRound.addMessage_sound {self self' : MainRound H M S}
    {incoming : Incoming (RoundInfo.Msg S)} (h : self.addMessage incoming = (self',.ok ())) :
    self'.Sound := by
  simp only [addMessage] at h
  split at h
  · split at h
    · cases h
    · split at h
      · cases h
      · split at h
        · cases h
        · rename_i hrec
          have hstate := record_state hrec
          split at h
          · cases h
            exact .inl ⟨_,hstate⟩
          · exact finish_sound h
  · cases h
  · cases h
  · cases h

omit [RoundMsg M (RoundInfo.Msg S)] in
theorem MainRound.finish_params (self : MainRound H M S) : self.finish.1.params = self.params := by
  unfold finish
  split
  · split <;> rfl
  · rfl

theorem MainRound.record_params {self self' : MainRound H M S}
    {incoming : Incoming (RoundInfo.Msg S)} {res : Except (Error (RoundInfo.Error S)) Unit}
    (h : self.record incoming = (self',res)) : self'.params = self.params := by
  unfold record at h
  split at h <;> cases h <;> rfl

theorem MainRound.addMessage_params (self : MainRound H M S)
    (incoming : Incoming (RoundInfo.Msg S)) :
    (self.addMessage incoming).1.params = self.params := by
  simp only [addMessage]
  split
  · split
    · rfl
    · split
      · rfl
      · split
        · rename_i hrec
          have hparams := record_params hrec
          exact hparams
        · rename_i hrec
          have hparams := record_params hrec
          split
          · exact hparams
          · exact (finish_params _).trans hparams
  · rfl
  · rfl
  · rfl

/-- Whatever store it wraps, a main round obeys the contract. -/
theorem MainRound.obeys {self : MainRound H M S} (h : self.Sound) : Obeys self := by
  intro s hs hw
  have hsound : s.Sound := by
    induction hs with
    | refl => exact h
    | @add a b x _ hwa ha _ =>
      simp only [store_add,RoundStore.addMessage] at ha
      split at ha
      · rename_i heq
        cases ha
        exact addMessage_sound heq
      · cases ha
  rcases hsound with ⟨store,hst⟩ | ⟨out,hst⟩
  · have hw' : s.wantsMore = false := hw
    simp [wantsMore,hst] at hw'
  · have hout : s.output = .ok ⟨s.params,out,s.receivedMsgs⟩ := by simp only [output,hst]
    exact ⟨_,hout⟩

end Main

/-! Over a round input the main round gathers a message from each of the others. A looped
back own message is recorded too, but not waited for. -/
section MainInput

variable [RoundMsg M T] {i n : UInt16}

/-- The message type of a message of the main round is not looked at. -/
def asMainItem (msg : Incoming T) : Item PartyIndex T := .item msg.sender msg.msg

instance : RoundMsg M (RoundInfo.Msg (RoundInput T)) := inferInstanceAs (RoundMsg M T)

instance [ProtocolMsg M] [LawfulRoundMsg M T] :
    LawfulRoundMsg M (RoundInfo.Msg (RoundInput T)) :=
  inferInstanceAs (LawfulRoundMsg M T)

/-- A message vector as recorded for hashing. -/
structure Records (M : Type) [RoundMsg M T] (n : UInt16) (recorded : List (Option M))
    (acc : PartyIndex → Option T) : Prop where
  length : recorded.length = n.toNat
  get : ∀ j, j < n → recorded[j.toNat]? = some ((acc j).map toProtocolMsg)

/-- What a main round of party `i` holds. -/
structure HoldsMain (i n : UInt16) (main : MainRound H M (RoundInput T))
    (acc : PartyIndex → Option T) : Prop where
  params_eq : main.params = ⟨i,n⟩
  records : Records M n main.receivedMsgs acc
  state : (∃ store, main.state = .ongoing store ∧
      RoundInput.Holds i n (.broadcast true) store acc ∧ store.wantsMore = true) ∨
    ∃ out, main.state = .output out ∧ RoundInput.Releases i n out acc

theorem HoldsMain.wants {main : MainRound H M (RoundInput T)} {acc : PartyIndex → Option T}
    (h : HoldsMain i n main acc) :
    main.wantsMore = (gather (fun j => j < n) (Others i n)).wants acc := by
  rcases h.state with ⟨store,hst,hold,hw⟩ | ⟨out,hst,hrel⟩
  · have hwants := hold.wants
    rw [hw] at hwants
    simp only [MainRound.wantsMore,hst]
    exact hwants
  · simp only [MainRound.wantsMore,hst]
    exact (gather_wants_false.mpr hrel.complete).symm

theorem Records.update {recorded : List (Option M)} {acc : PartyIndex → Option T}
    (h : Records M n recorded acc) {k : PartyIndex} (hk : k < n) (v : T) :
    Records M n (recorded.set k.toNat (some (toProtocolMsg v)))
      (Function.update acc k (some v)) := by
  have hkn : k.toNat < n.toNat := UInt16.lt_iff_toNat_lt.mp hk
  refine ⟨by rw [List.length_set]; exact h.length,fun j hj => ?_⟩
  by_cases hjk : j = k
  · subst hjk
    simp [h.length,hkn]
  · have hne : k.toNat ≠ j.toNat := fun he => hjk (UInt16.toNat_inj.mp he).symm
    rw [List.getElem?_set_ne hne,Function.update_of_ne hjk]
    exact h.get j hj

theorem record_spec (self : MainRound H M (RoundInput T)) (incoming : Incoming T)
    {acc : PartyIndex → Option T} (h : Records M n self.receivedMsgs acc) (hn : incoming.sender < n) :
    self.record incoming =
      if acc incoming.sender = none then
        ({ self with receivedMsgs :=
            self.receivedMsgs.set incoming.sender.toNat (some (toProtocolMsg incoming.msg)) },
          .ok ())
      else (self,.error (.ofReason .storeReceivedTwoMsgsFromSameParty)) := by
  have hget := h.get _ hn
  unfold MainRound.record
  cases ha : acc incoming.sender with
  | none =>
    rw [ha] at hget
    simp only [hget,Option.map_none,if_true]
  | some v =>
    rw [ha] at hget
    simp only [hget,Option.map_some,reduceCtorEq,if_false]

/-- Once the last message is recorded the output is taken from the store. -/
theorem HoldsMain.settle (self : MainRound H M (RoundInput T)) {store : RoundInput T}
    {acc : PartyIndex → Option T} (hp : self.params = ⟨i,n⟩)
    (hrec : Records M n self.receivedMsgs acc) (hst : self.state = .ongoing store)
    (hold : RoundInput.Holds i n (.broadcast true) store acc) :
    ∃ self', (if RoundStore.wantsMore store then (self,.ok ()) else self.finish) =
      (self',(.ok () : Except (Error (RoundInfo.Error (RoundInput T))) Unit)) ∧
      HoldsMain i n self' acc := by
  by_cases hw : store.wantsMore = true
  · exact ⟨self,if_pos hw,hp,hrec,.inl ⟨store,hst,hold,hw⟩⟩
  · rw [Bool.not_eq_true] at hw
    obtain ⟨out,hout,hrel⟩ := hold.releases hw
    have hout' : RoundStore.output store = .ok out := hout
    have hw' : ¬ RoundStore.wantsMore store = true :=
      fun h => Bool.false_ne_true (hw.symm.trans h)
    have hfin : self.finish = ({ self with state := .output out },.ok ()) := by
      simp only [MainRound.finish,hst,hout']
    exact ⟨_,(if_neg hw').trans hfin,hp,hrec,.inr ⟨out,rfl,hrel⟩⟩

/-- What the wrapped round input does with a message that counts as reliably broadcast. -/
theorem addReliable (msg : Incoming T) {st : RoundInput T} {acc : PartyIndex → Option T}
    (h : RoundInput.Holds i n (.broadcast true) st acc) (ht : msg.msgType = .broadcast true) :
    (msg.sender = i → ∃ st', RoundStore.addMessage st msg = (st',.ok ()) ∧
      RoundInput.Holds i n (.broadcast true) st' acc) ∧
    (Others i n msg.sender → acc msg.sender = none →
      ∃ st', RoundStore.addMessage st msg = (st',.ok ()) ∧ RoundInput.Holds i n
        (.broadcast true) st' (Function.update acc msg.sender (some msg.msg))) ∧
    (msg.sender ≠ i → ¬ (Others i n msg.sender ∧ acc msg.sender = none) →
      ∃ st' e, RoundStore.addMessage st msg = (st',.error e)) := by
  have hadd := h.add msg
  simp only [store_add] at hadd
  generalize RoundStore.addMessage st msg = r at hadd
  obtain ⟨st',res⟩ := r
  refine ⟨fun hi => ?_,fun ho hnone => ?_,fun hi hnot => ?_⟩
  · have hitem : asItem i (.broadcast true) msg = .ignored := by
      simp [asItem,ht,isExpectedType,hi]
    rw [hitem] at hadd
    cases res with
    | error e => cases hadd
    | ok u => cases hadd with | ok hold => exact ⟨st',rfl,hold⟩
  · have hitem : asItem i (.broadcast true) msg = .item msg.sender msg.msg := by
      simp [asItem,ht,isExpectedType,ho.2]
    rw [hitem] at hadd
    simp only [gather,ho,hnone,and_self,if_true] at hadd
    cases res with
    | error e => cases hadd
    | ok u => cases hadd with | ok hold => exact ⟨st',rfl,hold⟩
  · have hitem : asItem i (.broadcast true) msg = .item msg.sender msg.msg := by
      simp [asItem,ht,isExpectedType,hi]
    rw [hitem] at hadd
    simp only [gather,hnot,if_false] at hadd
    cases res with
    | error e => exact ⟨st',e,rfl⟩
    | ok u => cases hadd

section Add

variable {main : MainRound H M (RoundInput T)}
  {acc : PartyIndex → Option T} {msg : Incoming (RoundInfo.Msg (RoundInput T))}

theorem HoldsMain.ongoing (h : HoldsMain i n main acc) (hw : main.wantsMore = true) :
    ∃ store, main.state = .ongoing store ∧
      RoundInput.Holds i n (.broadcast true) store acc ∧ store.wantsMore = true := by
  rcases h.state with hst | ⟨out,hst,_⟩
  · exact hst
  · simp [MainRound.wantsMore,hst] at hw

variable [ProtocolMsg M] [LawfulRoundMsg M T]

theorem HoldsMain.addMessage_fresh (h : HoldsMain i n main acc) (hw : main.wantsMore = true)
    (hn : msg.sender < n) (hacc : acc msg.sender = none) :
    ∃ main', main.addMessage msg = (main',.ok ()) ∧
      HoldsMain i n main' (Function.update acc msg.sender (some msg.msg)) := by
  obtain ⟨st,hst,hold,_⟩ := h.ongoing hw
  have hinner := addReliable { msg with msgType := .broadcast true } hold rfl
  obtain ⟨st',ha,hold'⟩ : ∃ st', RoundStore.addMessage st
      { msg with msgType := .broadcast true } = (st',.ok ()) ∧
      RoundInput.Holds i n (.broadcast true) st'
        (Function.update acc msg.sender (some msg.msg)) := by
    by_cases hself : msg.sender = i
    · obtain ⟨st',ha,hold'⟩ := hinner.1 hself
      refine ⟨st',ha,hold'.i_eq,hold'.n_eq,hold'.type_eq,fun j hj => ?_⟩
      rw [Function.update_of_ne (hself ▸ hj.2)]
      exact hold'.get_eq j hj
    · exact hinner.2.1 ⟨hn,hself⟩ hacc
  have hrec := record_spec (H := H) { main with state := .ongoing st' }
    { msg with msgType := .broadcast true } h.records hn
  rw [if_pos hacc] at hrec
  let recorded : MainRound H M (RoundInput T) := ⟨main.params,.ongoing st',
    main.receivedMsgs.set msg.sender.toNat (some (toProtocolMsg msg.msg))⟩
  obtain ⟨main',hsettle,hmain⟩ :=
    HoldsMain.settle recorded h.params_eq (h.records.update hn msg.msg) rfl hold'
  refine ⟨main',?_,hmain⟩
  simp only [MainRound.addMessage,hst,cloneIncomingRoundMsg_eq,ha,hrec]
  exact hsettle

theorem HoldsMain.addMessage_refused (hi : i < n) (h : HoldsMain i n main acc)
    (hw : main.wantsMore = true) (hnot : ¬ (msg.sender < n ∧ acc msg.sender = none)) :
    ∃ main' e, main.addMessage msg = (main',.error e) := by
  obtain ⟨st,hst,hold,_⟩ := h.ongoing hw
  have hinner := addReliable { msg with msgType := .broadcast true } hold rfl
  by_cases hself : msg.sender = i
  · obtain ⟨st',ha,_⟩ := hinner.1 hself
    have hn : msg.sender < n := hself ▸ hi
    have hrec := record_spec (H := H) { main with state := .ongoing st' }
      { msg with msgType := .broadcast true } h.records hn
    rw [if_neg fun hacc => hnot ⟨hn,hacc⟩] at hrec
    simp only [MainRound.addMessage,hst,cloneIncomingRoundMsg_eq,ha,hrec]
    exact ⟨_,_,rfl⟩
  · obtain ⟨st',e,ha⟩ := hinner.2.2 hself fun ho => hnot ⟨ho.1.1,ho.2⟩
    simp only [MainRound.addMessage,hst,cloneIncomingRoundMsg_eq,ha]
    exact ⟨_,_,rfl⟩

/-- Adding a message to a main round is gathering an item. -/
theorem HoldsMain.add (hi : i < n) (h : HoldsMain i n main acc)
    (hw : main.wantsMore = true) :
    Corresponds (HoldsMain i n) (fun _ _ => True)
      ((store (MainRound H M (RoundInput T))).add main msg)
      ((gather (fun j => j < n) (Others i n)).add acc (asMainItem msg)) := by
  by_cases hfresh : msg.sender < n ∧ acc msg.sender = none
  · obtain ⟨main',ha,hmain⟩ := h.addMessage_fresh hw hfresh.1 hfresh.2
    have ha' : RoundStore.addMessage main msg = (main',.ok ()) := ha
    simp only [store_add,ha',gather,asMainItem,hfresh,and_self,if_true]
    exact .ok hmain
  · obtain ⟨main',e,ha⟩ := h.addMessage_refused hi hw hfresh
    have ha' : RoundStore.addMessage main msg = (main',.error e) := ha
    simp only [store_add,ha',gather,asMainItem,hfresh,if_false]
    exact .error trivial

/-- The verdict of a main round, by what is gathered from its messages. -/
theorem verdict_main (hi : i < n) (h : HoldsMain i n main fun _ => none)
    (msgs : List (Incoming (RoundInfo.Msg (RoundInput T)))) :
    match (gather (fun j => j < n) (Others i n)).feed (fun _ => none)
      (msgs.map asMainItem) with
    | .error _ => ∃ e, verdict main msgs = some (.error e)
    | .ok acc =>
      if (gather (fun j => j < n) (Others i n)).wants acc then verdict main msgs = none
      else ∃ needs : NeedsOwnMsg H M (RoundInput T), verdict main msgs = some (.ok needs) ∧
        needs.params = ⟨i,n⟩ ∧ Records M n needs.receivedMsgs acc ∧
        RoundInput.Releases i n needs.mainRoundOutput acc := by
  have hfeed : Corresponds (HoldsMain i n) (fun _ _ => True)
      ((store (MainRound H M (RoundInput T))).feed main msgs)
      ((gather (fun j => j < n) (Others i n)).feed (fun _ => none) (msgs.map asMainItem)) :=
    feed_simulates asMainItem (fun _ _ h => h.wants) (fun _ _ _ h hw => h.add hi hw) h msgs
  replace hfeed := hfeed.symm
  unfold verdict
  cases hg : (gather (fun j => j < n) (Others i n)).feed (fun _ => none)
      (msgs.map asMainItem) with
  | error e =>
    obtain ⟨e',he,_⟩ := hfeed.of_error hg
    simp only [he]
    exact ⟨e',rfl⟩
  | ok acc =>
    obtain ⟨main',hf,hold⟩ := hfeed.of_ok hg
    simp only [hf,← hold.wants]
    rcases hold.state with ⟨st,hst,_,_⟩ | ⟨out,hst,hrel⟩
    · have hw : main'.wantsMore = true := by simp [MainRound.wantsMore,hst]
      have hw' : RoundStore.wantsMore main' = true := hw
      simp only [hw,hw',if_true]
    · have hw : main'.wantsMore = false := by simp [MainRound.wantsMore,hst]
      have hw' : RoundStore.wantsMore main' = false := hw
      have hout : RoundStore.output main' = .ok ⟨main'.params,out,main'.receivedMsgs⟩ := by
        simp only [RoundStore.output,MainRound.output,hst]
      simp only [hw,hw',hout,Bool.false_eq_true,if_false]
      exact ⟨_,rfl,hold.params_eq,hold.records,hrel⟩

end Add

/-- The two stores a reliable broadcast round starts with. -/
theorem newStores_spec {s : RoundInput T} (hs : RoundInput.reliableBroadcast i n = .ok s) :
    ∃ (main : MainRound H M (RoundInput T)) (echo : RoundInput H),
      newStores i n s = .ok (main,⟨echo⟩) ∧ RoundInput.broadcast i n = .ok echo ∧
      HoldsMain i n main fun _ => none := by
  have hold := RoundInput.holds_new hs
  unfold RoundInput.reliableBroadcast RoundInput.new at hs
  split at hs
  · rename_i hin
    have hw : s.wantsMore = true := by
      cases hs
      have h1 : (1 : UInt16) ≤ n := by
        rw [UInt16.le_iff_toNat_le]
        exact Nat.le_trans (by decide) hin.1
      have h2 : (n - 1).toNat = n.toNat - 1 := UInt16.toNat_sub_of_le _ _ h1
      simp only [RoundInput.wantsMore,decide_eq_true_eq,UInt16.lt_iff_toNat_lt,h2]
      change 0 < n.toNat - 1
      omega
    have hout : RoundStore.output s = .error s := by
      have hleft : 0 < s.leftMessages := by simpa [RoundInput.wantsMore] using hw
      exact if_pos hleft
    obtain ⟨echo,hecho⟩ : ∃ echo, RoundInput.broadcast i n = .ok echo :=
      ⟨_,dif_pos hin⟩
    refine ⟨⟨⟨i,n⟩,.ongoing s,List.replicate n.toNat none⟩,echo,?_,hecho,rfl,?_,.inl ⟨s,rfl,hold,hw⟩⟩
    · simp only [newStores,hout,hecho]
      rfl
    · refine ⟨List.length_replicate,fun j hj => ?_⟩
      rw [List.getElem?_replicate,if_pos (UInt16.lt_iff_toNat_lt.mp hj)]
      rfl
  · cases hs

end MainInput
end EchoBroadcast
end RoundBased
