import RoundBased.EchoDiscipline
import RoundBased.EchoParty
import RoundBased.Lockstep
import RoundBased.ScheduleIndependence

/-! The sub-rounds of rounds whose stores are round inputs: all parties send a fixed message in
each of them, and the stores gather those of the others. -/
namespace RoundBased
open Feeding Gathering RoundsRouter

section Gathers

variable {S U : Type} [RoundStore S] [RoundStore U] {i n : UInt16}
  {sends sends' : PartyIndex → MessageType → RoundInfo.Msg S → Prop}
  {Returns Returns' : RoundInfo.Output S → (PartyIndex → Option (RoundInfo.Msg S)) → Prop}

theorem Gathers.mono {s : S} (h : Gathers i n sends s Returns)
    (hsends : ∀ j msgType v, sends' j msgType v → sends j msgType v)
    (hreturns : ∀ out f, Returns out f → Returns' out f) : Gathers i n sends' s Returns' := by
  refine ⟨h.obeys,fun msgs hnodup hmsgs => ?_⟩
  rcases h.verdict msgs hnodup fun msg hmsg =>
      ⟨(hmsgs msg hmsg).1,hsends _ _ _ (hmsgs msg hmsg).2⟩ with hnone | ⟨out,hv,hall,hret⟩
  · exact .inl hnone
  · exact .inr ⟨out,hv,hall,hreturns _ _ hret⟩

theorem firstOf_map {V W : Type} (g : V → W) (msgs : List (Incoming V)) (j : PartyIndex) :
    firstOf (msgs.map fun msg => msg.map g) j = (firstOf msgs j).map g := by
  simp only [firstOf,List.find?_map,Option.map_map]
  rfl

theorem Gathers.of_simulates {R : S → U → Prop} {g : RoundInfo.Msg S → RoundInfo.Msg U}
    {out : RoundInfo.Output U → RoundInfo.Output S} {err : RoundInfo.Error U → RoundInfo.Error S}
    (h : Simulates R (fun msg => msg.map g) out err) {s : S} {u : U} (hR : R s u)
    {sends : PartyIndex → MessageType → RoundInfo.Msg U → Prop}
    {Returns : RoundInfo.Output U → (PartyIndex → Option (RoundInfo.Msg U)) → Prop}
    (hg : Gathers i n sends u Returns) :
    Gathers i n (fun j msgType v => sends j msgType (g v)) s fun o f =>
      ∃ o', o = out o' ∧ Returns o' fun j => (f j).map g := by
  refine ⟨h.obeys hR hg.obeys,fun msgs hnodup hmsgs => ?_⟩
  have hsenders : (msgs.map fun msg => msg.map g).map Incoming.sender =
      msgs.map Incoming.sender := by
    rw [List.map_map]
    rfl
  have hmsgs' : ∀ msg ∈ msgs.map fun msg => msg.map g,
      msg.sender < n ∧ sends msg.sender msg.msgType msg.msg := by
    intro msg hmsg
    obtain ⟨x,hx,rfl⟩ := List.mem_map.mp hmsg
    exact hmsgs x hx
  rw [h.verdict hR msgs]
  have hfirst : ∀ j, firstOf (msgs.map fun msg => msg.map g) j = (firstOf msgs j).map g :=
    firstOf_map g msgs
  rcases hg.verdict _ (hsenders ▸ hnodup) hmsgs' with ⟨hv,j,hj,hnone⟩ | ⟨o,hv,hall,hret⟩
  · rw [hfirst,Option.map_eq_none_iff] at hnone
    exact .inl ⟨by rw [hv]; rfl,j,hj,hnone⟩
  · refine .inr ⟨out o,by rw [hv]; rfl,fun j hj => ?_,o,rfl,?_⟩
    · obtain ⟨v,hv⟩ := hall j hj
      rw [hfirst] at hv
      obtain ⟨w,hw,_⟩ := Option.map_eq_some_iff.mp hv
      exact ⟨w,hw⟩
    · rwa [funext hfirst] at hret

end Gathers

namespace EchoBroadcast

section MainRound

variable {H M T : Type} [RoundMsg M T] {i n : UInt16}

/-- The output of a main round, from which the hash of all messages is computed. -/
structure Recorded (i n : UInt16) (needs : NeedsOwnMsg H M (RoundInput T))
    (f : PartyIndex → Option T) : Prop where
  params : needs.params = ⟨i,n⟩
  length : needs.receivedMsgs.length = n.toNat
  complete : ∀ own : Option T,
    needs.receivedMsgs.set i.toNat (own.map toProtocolMsg) = hashedMsgs M i n own f
  releases : RoundInput.Releases i n needs.mainRoundOutput f

variable [ProtocolMsg M] [LawfulRoundMsg M T]

/-- A main round gathers messages of any type, also an own message. -/
theorem gathers_main (hi : i < n) {main : MainRound H M (RoundInput T)} (hs : main.Sound)
    (h : HoldsMain i n main fun _ => none) :
    Gathers i n (fun _ _ _ => True) main (Recorded i n) := by
  refine ⟨MainRound.obeys hs,fun msgs hnodup hmsgs => ?_⟩
  have htyped : ∀ msg ∈ msgs, (fun _ : MessageType => true) msg.msgType = true := fun _ _ => rfl
  have hclean : Clean (fun j => j < n) (msgs.map (toItem fun _ => true)) :=
    clean_toItem.mpr ⟨htyped,fun msg hmsg => (hmsgs msg hmsg).1,hnodup⟩
  obtain ⟨acc,hf,hacc⟩ := hclean.gather (Others i n)
  have hfirst : ∀ j, Others i n j → acc j = firstOf msgs j := fun j hj =>
    (hacc j hj).trans (lookup_toItem htyped j)
  have hv := verdict_main hi h msgs
  have hitems : msgs.map asMainItem = msgs.map (toItem fun _ => true) :=
    List.map_congr_left fun _ _ => rfl
  rw [hitems] at hv
  simp only [hf] at hv
  by_cases hw : (gather (fun j => j < n) (Others i n)).wants acc = true
  · rw [if_pos hw] at hv
    obtain ⟨j,hj,hnone⟩ := RoundInput.missing_of_wants hw
    exact .inl ⟨hv,j,hj,(hfirst j hj).symm.trans hnone⟩
  · rw [if_neg hw] at hv
    obtain ⟨needs,hneeds,hparams,hrec,hrel⟩ := hv
    have hrel' := hrel.congr hfirst
    refine .inr ⟨needs,hneeds,fun j hj => Option.isSome_iff_exists.mp (hrel'.complete j hj),
      hparams,hrec.length,fun own => ?_,hrel'⟩
    rw [set_recorded hrec own,hashedMsgs_congr hfirst]

end MainRound

section Plan

variable {ι H M : Type} {T : ι → Type} [∀ k, RoundMsg M (T k)]

/-- The rounds of the party that a round is split into. -/
def subRounds : ι × Bool → List (Sub ι)
  | (k,true) => [.main k,.echo k]
  | (k,false) => [.plain k]

/-- The hash of what all parties send in the round. -/
def commonHash (H M : Type) {ι : Type} {T : ι → Type} [∀ k, RoundMsg M (T k)] [Digest H M]
    (n : UInt16) (value : PartyIndex → (k : ι) → T k) (k : ι) : H :=
  hashOf H M 0 n (some (value 0 k)) fun j => some (value j k)

theorem hashOf_eq_commonHash [Digest H M] {p n : UInt16} {value : PartyIndex → (k : ι) → T k}
    {k : ι} {f : PartyIndex → Option (T k)} (hf : ∀ j, Others p n j → f j = some (value j k)) :
    hashOf H M p n (some (value p k)) f = commonHash H M n value k := by
  have hmsgs : hashedMsgs M p n (some (value p k)) f =
      hashedMsgs M 0 n (some (value 0 k)) fun j => some (value j k) := by
    rw [hashedMsgs_congr hf]
    apply List.map_congr_left
    intro j hj
    have hnat : ∀ i : UInt16, j = i.toNat → UInt16.ofNat j = i := by
      rintro i rfl
      exact UInt16.ofNat_toNat
    by_cases hp : j = p.toNat <;> by_cases h0 : j = (0 : UInt16).toNat
    · rw [if_pos hp,if_pos h0,← hnat p hp,hnat 0 h0]
    · rw [if_pos hp,if_neg h0,hnat p hp]
    · rw [if_neg hp,if_pos h0,hnat 0 h0]
    · rw [if_neg hp,if_neg h0]
  rw [hashOf,hmsgs]
  rfl

/-- Everybody broadcasts its value of the round, and in a reliable round the hash of all. -/
def echoPlan (H M : Type) {ι : Type} {T : ι → Type} [∀ k, RoundMsg M (T k)] [Digest H M]
    (n : UInt16) (rounds : List (ι × Bool)) (value : PartyIndex → (k : ι) → T k) :
    Plan (SubStore H M fun k => RoundInput (T k)) where
  kinds := rounds.flatMap subRounds
  sends
    | .plain k,j,msgType,v => msgType = .broadcast false ∧ Main.msg (R := T k) v = value j k
    | .main k,j,msgType,v => msgType = .broadcast false ∧ Main.msg (R := T k) v = value j k
    | .echo k,_,msgType,v => msgType = .broadcast false ∧
      EchoMsg.hash (R := T k) v = commonHash H M n value k
  returns
    | p,.plain k,out,f => RoundInput.Releases p n out fun j => (f j).map (Main.msg (R := T k))
    | p,.main k,out,f => Recorded p n out fun j => (f j).map (Main.msg (R := T k))
    | p,.echo k,out,f => RoundInput.Releases p n (EchoRoundOutput.receivedEchoes out) fun j =>
      (f j).map (EchoMsg.hash (R := T k))

section Stores

variable [Digest H M] {p n : UInt16} {rounds : List (ι × Bool)}
  {value : PartyIndex → (k : ι) → T k} {k : ι}

theorem gathers_plain {s : RoundInput (T k)} (hs : RoundInput.new p n (.broadcast false) = .ok s) :
    Gathers p n ((echoPlan H M n rounds value).sends (.plain k))
      (⟨⟨s⟩⟩ : WithError (WithMainMsg (RoundInput (T k))))
      ((echoPlan H M n rounds value).returns p (.plain k)) := by
  have hmain : Gathers p n _ (⟨s⟩ : WithMainMsg (RoundInput (T k))) _ :=
    (RoundInput.gathers hs).of_simulates simulates_withMainMsg rfl
  have hsim : Simulates (fun (a : WithError (WithMainMsg (RoundInput (T k)))) b => a.store = b)
      (fun msg => msg.map id) id .main := simulates_withError
  have herror := hmain.of_simulates hsim (s := ⟨⟨s⟩⟩) rfl
  apply herror.mono
  · rintro j msgType v ⟨rfl,_⟩
    rfl
  · rintro _ f ⟨_,rfl,_,rfl,hrel⟩
    exact hrel.congr fun j _ => congrArg _ (congrFun Option.map_id (f j))

theorem gathers_echo {input : RoundInput H} (hs : RoundInput.broadcast p n = .ok input) :
    Gathers p n ((echoPlan H M n rounds value).sends (.echo k))
      (⟨⟨input⟩⟩ : WithEchoError (EchoRound H (RoundInput (T k))) RoundInputError)
      ((echoPlan H M n rounds value).returns p (.echo k)) := by
  have hsim := simulates_echo (H := H) (S := RoundInput (T k)) RoundInputError
  have hecho := (RoundInput.gathers hs).of_simulates hsim (s := ⟨⟨input⟩⟩) rfl
  apply hecho.mono
  · rintro j msgType v ⟨rfl,_⟩
    rfl
  · rintro _ f ⟨_,rfl,hrel⟩
    exact hrel

variable [ProtocolMsg M] [∀ k, LawfulRoundMsg M (T k)]

theorem gathers_mainRound (hp : p < n) {main : MainRound H M (RoundInput (T k))}
    (hsound : main.Sound) (h : HoldsMain p n main fun _ => none) :
    Gathers p n ((echoPlan H M n rounds value).sends (.main k))
      (⟨main⟩ : WithMainMsg (MainRound H M (RoundInput (T k))))
      ((echoPlan H M n rounds value).returns p (.main k)) := by
  have hmain : Gathers p n _ (⟨main⟩ : WithMainMsg (MainRound H M (RoundInput (T k)))) _ :=
    (gathers_main hp hsound h).of_simulates simulates_withMainMsg rfl
  apply hmain.mono
  · exact fun _ _ _ _ => trivial
  · rintro _ f ⟨_,rfl,hrec⟩
    exact hrec

end Stores

/-- The stores of the rounds. -/
def inputsOf (p n : UInt16) : List (ι × Bool) → Checked (List ((k : ι) × RoundInput (T k)))
  | [] => .ok []
  | (k,reliable) :: rounds => do
    let s ← RoundInput.new p n (.broadcast reliable)
    let regs ← inputsOf p n rounds
    .ok (⟨k,s⟩ :: regs)

/-- Wraps a party and registers the rounds. -/
def setUp [Build] [ProtocolMsg M] (p n : UInt16) (rounds : List (ι × Bool)) :
    Checked (WithEchoBroadcast M × RoundsRouter (Msg H M) (SubStore H M fun k => RoundInput (T k))) := do
  let regs ← inputsOf p n rounds
  (wrap p n).addRounds .new regs

section SetUp

variable {p n : UInt16} {rounds : List (ι × Bool)} {regs : List ((k : ι) × RoundInput (T k))}

omit [∀ k, RoundMsg M (T k)] in
theorem inputsOf_spec (h : inputsOf p n rounds = .ok regs) :
    List.Forall₂ (fun r reg => reg.1 = r.1 ∧ RoundInput.new p n (.broadcast r.2) = .ok reg.2)
      rounds regs := by
  induction rounds generalizing regs with
  | nil => cases h; exact .nil
  | cons r rounds ih =>
    obtain ⟨s,hs,h⟩ := Checked.bind_eq_ok.mp h
    obtain ⟨rest,hrest,h⟩ := Checked.bind_eq_ok.mp h
    cases h
    exact .cons ⟨rfl,hs⟩ (ih hrest)

variable [Build] [ProtocolMsg M] {e : WithEchoBroadcast M}
  {router : RoundsRouter (Msg H M) (SubStore H M fun k => RoundInput (T k))}

/-- All sub-rounds are registered, with stores that gather. -/
theorem prepared_of_setUp [∀ k, LawfulRoundMsg M (T k)] [Digest H M] (hp : p < n)
    (value : PartyIndex → (k : ι) → T k) (h : setUp p n rounds = .ok (e,router)) :
    ∃ l : Ledger (Msg H M) (SubStore H M fun k => RoundInput (T k)), router = l.router ∧
      Prepared (echoPlan H M n rounds value) n p l := by
  obtain ⟨regs,hinputs,hadd⟩ := Checked.bind_eq_ok.mp h
  rw [← Ledger.router_empty] at hadd
  obtain ⟨l,rfl,hext,hregs,_⟩ := addRounds_registers hadd
  refine ⟨l,rfl,hext.received,hext.taken fun _ => rfl,fun s hs => ?_⟩
  obtain ⟨⟨k,reliable⟩,hr,hs⟩ := List.mem_flatMap.mp hs
  obtain ⟨⟨_,input⟩,hreg,rfl,hinput⟩ := partner_of_forall₂ (inputsOf_spec hinputs) hr
  have hregisters := hregs _ hreg
  have hreliable := RoundInput.requiresReliable_new hinput
  cases reliable with
  | false =>
    cases List.mem_singleton.mp hs
    refine ⟨_,hregisters.plain fun hc => ?_,gathers_plain hinput⟩
    rw [hreliable] at hc
    cases hc
  | true =>
    obtain ⟨main,echo,hnew,hm,hecho⟩ := hregisters.reliable hreliable
    obtain ⟨main',input',hnew',hinput',hholds⟩ := newStores_spec (H := H) (M := M) hinput
    have hsame := hnew.symm.trans hnew'
    cases hsame
    rcases List.mem_cons.mp hs with rfl | hs
    · exact ⟨_,hm,gathers_mainRound hp (newStores_sound hnew) hholds⟩
    · cases List.mem_singleton.mp hs
      exact ⟨_,hecho,gathers_echo hinput'⟩

/-- The rounds have different numbers, and the reliable ones are recorded without a message. -/
theorem setUp_sent (h : setUp p n rounds = .ok (e,router)) :
    (rounds.map fun r => RoundMsg.ROUND M (T r.1)).Nodup ∧ ∀ r ∈ rounds,
      e.sentReliableMsgs (RoundMsg.ROUND M (T r.1)) = if r.2 then some none else none := by
  obtain ⟨regs,hinputs,hadd⟩ := Checked.bind_eq_ok.mp h
  have hspec := inputsOf_spec hinputs
  have hsent := addRounds_sent hadd
  rw [← Ledger.router_empty] at hadd
  have hnodup := (addRounds_fresh hadd).2
  have hnumbers : (rounds.map fun r => RoundMsg.ROUND M (T r.1)) =
      regs.map fun reg => roundOf M (fun k => RoundInput (T k)) reg.1 := by
    clear h hadd hsent hnodup hinputs
    induction hspec with
    | nil => rfl
    | cons hr _ ih =>
      rw [List.map_cons,List.map_cons,ih,hr.1]
      rfl
  refine ⟨hnumbers ▸ hnodup,fun r hr => ?_⟩
  obtain ⟨reg,hreg,hkind,hinput⟩ := partner_of_forall₂ hspec hr
  have hreliable := RoundInput.requiresReliable_new hinput
  have hround : roundOf M (fun k => RoundInput (T k)) reg.1 = RoundMsg.ROUND M (T r.1) := by
    rw [hkind]
    rfl
  rw [← hround]
  split
  · rename_i htrue
    rw [htrue] at hreliable
    exact (hsent _).1 ⟨reg,hreg,rfl,hreliable⟩
  · rename_i hfalse
    refine (hsent _).2 fun ⟨reg',hreg',hsame,hreliable'⟩ => ?_
    have heq := List.inj_on_of_nodup_map hnodup hreg' hreg hsame
    rw [heq,hreliable] at hreliable'
    exact hfalse (Option.some.inj hreliable')

end SetUp

end Plan

end EchoBroadcast
end RoundBased
