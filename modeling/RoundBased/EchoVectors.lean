import RoundBased.CorruptedNetwork
import RoundBased.EchoGate
import RoundBased.EchoWire

/-! A reliable round at one honest party, whatever it has received: what it means that its main
round was completed, that it has sent an echo, and that the output was released. -/
namespace RoundBased
open Feeding Gathering

/-- A round input releases messages of the others that it was fed with. -/
theorem RoundInput.received_of_verdict {T : Type} {i n : PartyIndex} {t : MessageType}
    {s : RoundInput T} (hs : new i n t = .ok s)
    {msgs : List (Incoming (RoundInfo.Msg (RoundInput T)))} {out : RoundMsgs T}
    (hv : verdict s msgs = some (.ok out)) :
    out.i = i ∧ out.messages.length = n.toNat - 1 ∧
      ∀ j, Others i n j → ∃ msg ∈ msgs, msg.sender = j ∧ out.get j = some msg.msg := by
  have hgather := verdict_gather hs msgs
  cases hf : (gather (Others i n) (Others i n)).feed (fun _ => none) (msgs.map (asItem i t)) with
  | error e =>
    simp only [hf] at hgather
    obtain ⟨e',he⟩ := hgather
    rw [hv] at he
    cases he
  | ok acc =>
    simp only [hf] at hgather
    by_cases hw : (gather (Others i n) (Others i n)).wants acc = true
    · rw [if_pos hw,hv] at hgather
      cases hgather
    · rw [if_neg hw] at hgather
      obtain ⟨out',hout',hrel⟩ := hgather
      rw [hv] at hout'
      cases hout'
      refine ⟨hrel.i_eq,hrel.length,fun j hj => ?_⟩
      obtain ⟨p,hp,_,rfl,_⟩ := gather_ok hf
      obtain ⟨v,hlookup⟩ := Option.isSome_iff_exists.mp (hrel.complete j hj)
      obtain ⟨msg,hmsg,hitem⟩ := List.mem_map.mp (hp.subset (lookup_mem hlookup))
      rw [hrel.get j hj,hlookup]
      unfold asItem at hitem
      split at hitem
      · cases hitem
      · split at hitem
        · cases hitem
        · cases hitem
          exact ⟨msg,hmsg,rfl,rfl⟩

namespace EchoBroadcast
open Feeding Gathering Interaction RoundsRouter WithEchoBroadcast

section Engine

variable {ι H M A : Type} {St : ι → Type} [∀ k, RoundStore (St k)]
  [∀ k, RoundMsg M (RoundInfo.Msg (St k))] {CErr : Type → Type} {SErr : Type} [Digest H M]
  [DecidableEq H] {a b : WithEchoBroadcast M} {t : List (PartyEvent CErr SErr H M St)}

/-- An output is released after the echo was sent and the echoes were received. -/
theorem steps_released {k : ι} {out : RoundInfo.Output (St k)}
    (h : Steps (a.complete (.withReliabilityCheck k)) t
      (.ret (b,(.ok out : Res CErr SErr St (.withReliabilityCheck k))))) :
    ∃ needs check hash echoes, Hashes a k needs check hash ∧ check.withEchoOutput echoes = .ok out ∧
      t = [mainEvent k (.ok needs),sendEvent k hash (.ok ()),echoEvent k (.ok echoes)] := by
  have hc := steps_complete h
  generalize hq : (Prog.ret (b,.ok out) : PartyProg CErr SErr H M St
    (WithEchoBroadcast M × Res CErr SErr St (.withReliabilityCheck k))) = q at hc
  cases hc with
  | mainRound => cases hq
  | mainFailed => cases hq
  | hashFailed => cases hq
  | sending hh => cases hq
  | sendFailed hh => cases hq
  | echoRound hh => cases hq
  | echoFailed hh => cases hq
  | @done needs check hash echoes hh =>
    have hres := (Prog.ret.inj hq)
    have hok : (check.withEchoOutput echoes).mapError .echo = (.ok out : Res CErr SErr St
        (.withReliabilityCheck k)) := (congrArg Prod.snd hres).symm
    refine ⟨needs,check,hash,echoes,hh,?_,rfl⟩
    cases hw : check.withEchoOutput echoes with
    | error err =>
      rw [hw] at hok
      cases hok
    | ok o =>
      rw [hw] at hok
      cases hok
      rfl

variable [ProtocolMsg M]

/-- Whatever program runs over the engine: an echo was sent after the main round of the
round was completed, and it is the hash of what that has returned. -/
theorem echo_sent {e0 : WithEchoBroadcast M}
    {p : Prog (Call (Round ι) M) (Answer (Res CErr SErr St) (Error SErr)) Panic A}
    {q : PartyProg CErr SErr H M St (WithEchoBroadcast M × A)} (h : Steps (p.servedBy serve e0) t q)
    {event : PartyEvent CErr SErr H M St} (hmem : event ∈ t) {dest : MessageDestination}
    {r : UInt16} {hash : H} (hevent : handsOver event.1 = some ⟨dest,.echo r hash⟩) :
    ∃ done before after a k needs check cont, Steps p done (.call (.complete (.withReliabilityCheck k)) cont) ∧
      Serves serve e0 done before a ∧ t = before ++ mainEvent k (.ok needs) :: after ∧
      Hashes a k needs check hash ∧ roundOf M St k = r := by
  obtain ⟨done,made,a,d,cont,u,q',more,hserves,hsteps,hu,rfl,hin⟩ := exists_serving h hmem
  have ho := mem_handedOver (q := q') hin hevent
  have hemits := emits_of_handedOver hu _ ho
  generalize hout : (⟨dest,.echo r hash⟩ : Outgoing (Msg H M)) = o at hemits
  cases hemits with
  | send _ => cases hout
  | enqueue _ => cases hout
  | @echo k hash' =>
    cases hout
    obtain ⟨needs,check,hash',⟨rest,rfl⟩,hh,heq⟩ := (steps_complete hu).emits _ ho
    cases heq
    exact ⟨done,made,rest ++ more,a,k,needs,check,cont,hsteps,hserves,by simp,hh,rfl⟩

end Engine

section HashedMsgs

variable {M T : Type} [RoundMsg M T] {i n : UInt16} {own : Option T} {others : PartyIndex → Option T}

theorem length_hashedMsgs : (hashedMsgs M i n own others).length = n.toNat := by
  simp [hashedMsgs]

theorem getElem?_hashedMsgs {j : UInt16} (hj : j < n) : (hashedMsgs M i n own others)[j.toNat]? =
    some ((if j = i then own else others j).map toProtocolMsg) := by
  have hlt : j.toNat < n.toNat := UInt16.lt_iff_toNat_lt.mp hj
  have heq : j.toNat = i.toNat ↔ j = i := UInt16.toNat_inj
  simp only [hashedMsgs,List.getElem?_map,List.getElem?_range hlt,Option.map_some,heq,
    UInt16.ofNat_toNat]

end HashedMsgs

variable {ι H M T IoErr A : Type} {St : ι → Type} [∀ k, RoundStore (St k)] [RoundMsg M T]
  [∀ k, RoundMsg M (RoundInfo.Msg (St k))]

/-- The calls of a party that runs over the engine. -/
abbrev History (H M T : Type) {ι : Type} (St : ι → Type) (IoErr : Type) [∀ k, RoundStore (St k)]
    [RoundMsg M T] [∀ k, RoundMsg M (RoundInfo.Msg (St k))] : Type :=
  List (PartyEvent (PartyErr IoErr) IoErr H M (Focus T St))

/-- Party `q` has completed its main round with the messages `out` of the others when `sent` was
what it had sent in the round, as a round message `own`. The messages of all are `vector`. -/
structure MainDone [ProtocolMsg M] (n q : UInt16) (history : History H M T St IoErr)
    (sent : Option M) (own : Option T) (out : RoundMsgs T) (vector : List (Option M)) : Prop where
  completed : ∃ (before after : History H M T St IoErr) (needs : NeedsOwnMsg H M (RoundInput T)),
    history = before ++ mainEvent none (.ok needs) :: after ∧ needs.mainRoundOutput = out ∧
    needs.receivedMsgs.set q.toNat (own.map toProtocolMsg) = vector ∧
    handed (RoundMsg.ROUND M T) before = sent.toList.map .allParties
  own_eq : sent.map (fromProtocolMsg (T := T)) = own.map .ok
  vector_eq : vector = hashedMsgs M q n own out.get
  complete : ∀ j, Others q n j → (out.get j).isSome = true

section Party

variable [Build] [ProtocolMsg M] [LawfulRoundMsg M T] [Digest H M] [DecidableEq H] {q n : UInt16} {store : RoundInput T}
  {regs : List ((k : Option ι) × Focus T St k)} {e0 a : WithEchoBroadcast M}
  {router : RoundsRouter (Msg H M) (SubStore H M (Focus T St))}
  {l0 : Ledger (Msg H M) (SubStore H M (Focus T St))}
  {main : MainRound H M (RoundInput T)} {input : RoundInput H}
  {node : Node (SubStore H M (Focus T St)) IoErr (Msg H M) A}

omit [Build] [ProtocolMsg M] [LawfulRoundMsg M T]
  [Digest H M] [DecidableEq H] in
theorem returnedRound_of_completedMain {event : PartyEvent (PartyErr IoErr) IoErr H M (Focus T St)}
    {r : UInt16} (h : completedMain event = some r) : returnedRound event = some (2 * r) := by
  unfold completedMain at h
  split at h
  · cases h
    rfl
  · cases h

omit [Build] [ProtocolMsg M] [LawfulRoundMsg M T]
  [Digest H M] [DecidableEq H] in
theorem Explained.once_main {init : UInt16 → Option ((s : Sub (Option ι)) × SubStore H M (Focus T St) s)}
    (h : node.Explained init) {before after : History H M T St IoErr}
    {needs : NeedsOwnMsg H M (RoundInput T)}
    (hhistory : node.history = before ++ mainEvent none (.ok needs) :: after) :
    ¬ MainCompleted before (RoundMsg.ROUND M T) := by
  intro hc
  obtain ⟨event,hmem,hevent⟩ := List.mem_filterMap.mp hc
  have hbefore : 2 * RoundMsg.ROUND M T ∈ before.filterMap returnedRound :=
    List.mem_filterMap.mpr ⟨event,hmem,returnedRound_of_completedMain hevent⟩
  have hnodup := h.once
  rw [hhistory,List.filterMap_append,List.nodup_append] at hnodup
  exact hnodup.2.2 _ hbefore _ (List.mem_cons_self ..) rfl

omit [Digest H M] [DecidableEq H] in
theorem main_origin (hi : q < n) (ha : Awaits q n l0 main input)
    (h : node.Explained l0.registered) {before after : History H M T St IoErr}
    {needs : NeedsOwnMsg H M (RoundInput T)}
    (hhistory : node.history = before ++ mainEvent none (.ok needs) :: after) :
    needs.params = ⟨q,n⟩ ∧ needs.receivedMsgs.length = n.toNat ∧
    (∀ own : Option T, needs.receivedMsgs.set q.toNat (own.map toProtocolMsg) =
      hashedMsgs M q n own needs.mainRoundOutput.get) ∧
    ∀ j, Others q n j → (needs.mainRoundOutput.get j).isSome = true := by
  have hmem : mainEvent none (.ok needs) ∈ before ++ mainEvent none (.ok needs) :: after :=
    List.mem_append_right _ (List.mem_cons_self ..)
  rw [← hhistory] at hmem
  obtain ⟨msgs,_,hv⟩ := h.origin (.main none) needs hmem _ ha.registeredMain
  have hverdict := (verdict_withMainMsg main msgs).symm.trans hv
  obtain ⟨hiff,hspec⟩ := main_collects hi ha.holds (msgs.map fun msg => msg.map Main.msg)
  obtain ⟨p,hp⟩ := hiff.mp ⟨needs,hverdict⟩
  obtain ⟨hparams,hlen,hset,_,_,hget⟩ := hspec needs p hverdict hp
  refine ⟨hparams,hlen,fun own => ?_,fun j hj => ?_⟩
  · rw [hset own]
    exact hashedMsgs_congr fun j hj => (hget j hj).symm
  · obtain ⟨msg,hmsg,hsender⟩ := List.mem_map.mp (hp.complete j hj)
    rw [hget j hj,← hsender,firstOf_of_mem hp.nodup hmsg]
    rfl

omit [Build] [ProtocolMsg M] [LawfulRoundMsg M T]
  [Digest H M] [DecidableEq H] [RoundMsg M T] in
theorem own_of_slot {k : ι} {slot : Option M} {own : Option (RoundInfo.Msg (St k))}
    (hs : a.sentReliableMsgs (roundOf M St k) = some slot) (h : a.sentMsg k = .ok own) :
    slot.map (fromProtocolMsg (T := RoundInfo.Msg (St k))) = own.map .ok := by
  simp only [sentMsg,hs] at h
  cases slot with
  | none =>
    cases h
    rfl
  | some m =>
    simp only at h
    split at h
    · rename_i t ht
      cases h
      exact congrArg some ht
    · cases h

/-- If the hash of the messages was computed the main round was completed, with what was hashed. -/
theorem mainDone_of_hashes (hs : RoundInput.reliableBroadcast q n = .ok store)
    (hreg : ⟨none,store⟩ ∈ regs) (h0 : (wrap q n).addRounds .new regs = .ok (e0,router))
    (ha : Awaits q n l0 main input) (h : node.Explained l0.registered)
    {done : List (EngineEvent (PartyErr IoErr) IoErr M (Focus T St))}
    {before after : History H M T St IoErr} (hserves : Serves serve e0 done before a)
    {needs : NeedsOwnMsg H M (RoundInput T)} {check : ReliabilityCheck H (Focus T St none)} {hash : H}
    (hhistory : node.history = before ++ mainEvent none (.ok needs) :: after)
    (hh : Hashes a none needs check hash) :
    check = ⟨hash,needs.mainRoundOutput⟩ ∧ ∃ sent own,
      hash = hashOf H M q n own needs.mainRoundOutput.get ∧
      MainDone n q node.history sent own needs.mainRoundOutput
        (hashedMsgs M q n own needs.mainRoundOutput.get) := by
  have hi : q < n := RoundInput.lt_of_new hs
  obtain ⟨hparams,hlen,hset,hcomplete⟩ := main_origin hi ha h hhistory
  have hrel : Reliable M regs (RoundMsg.ROUND M T) :=
    ⟨_,hreg,rfl,requiresReliable_focus hs⟩
  obtain ⟨slot,hslot,hhanded,_⟩ := (remembers_of_serves h0 hserves _).remembers hrel
    (Explained.once_main h hhistory)
  obtain ⟨own,hsent,hw⟩ := hh
  have hspec := withMyMsg_spec hi hparams hlen (hset own)
  have hsame := Except.ok.inj (hw.symm.trans hspec)
  have hhash : hash = hashOf H M q n own needs.mainRoundOutput.get := congrArg Prod.snd hsame
  refine ⟨?_,slot,own,hhash,⟨before,after,needs,hhistory,rfl,hset own,hhanded⟩,
    own_of_slot hslot hsent,rfl,hcomplete⟩
  rw [hhash]
  exact congrArg Prod.fst hsame

omit [ProtocolMsg M] [LawfulRoundMsg M T] [Build] [Digest H M] [DecidableEq H]
  [∀ k, RoundStore (St k)]
  [∀ k, RoundMsg M (RoundInfo.Msg (St k))] in
theorem eq_echo_of_from {m : Msg H M} {t : EchoMsg H T} (h : fromProtocolMsg m = .ok t) :
    m = .echo (RoundMsg.ROUND M T) t.hash := by
  cases m with
  | main m => cases h
  | echo r hash =>
    simp only [fromProtocolMsg] at h
    split at h
    · rename_i hr
      cases h
      rw [hr]
    · cases h

omit [ProtocolMsg M] [LawfulRoundMsg M T] [Build] [Digest H M]
  [∀ k, RoundStore (St k)]
  [∀ k, RoundMsg M (RoundInfo.Msg (St k))] [RoundMsg M T] in
theorem withEchoOutput_ok {check : ReliabilityCheck H (RoundInput T)}
    {echoes : EchoRoundOutput H (RoundInput T)} {out : RoundMsgs T}
    (h : check.withEchoOutput echoes = .ok out) :
    out = check.mainRoundOutput ∧
      ∀ hash ∈ echoes.receivedEchoes.messages, hash = check.expectedHash := by
  unfold ReliabilityCheck.withEchoOutput at h
  split at h
  · cases h
  · rename_i hall
    cases h
    simpa using hall

omit [LawfulRoundMsg M T] [Digest H M] in
/-- If all echoes match, each of the others has sent the expected hash. -/
theorem echo_origin (hi : q < n) (ha : Awaits q n l0 main input) (h : node.Explained l0.registered)
    {before after : History H M T St IoErr} {echoes : EchoRoundOutput H (RoundInput T)}
    (hhistory : node.history = before ++ echoEvent none (.ok echoes) :: after)
    {check : ReliabilityCheck H (RoundInput T)} {out : RoundMsgs T}
    (hout : check.withEchoOutput echoes = .ok out) {j : PartyIndex} (hj : Others q n j) :
    ∃ incoming ∈ node.received, incoming.sender = j ∧
      incoming.msg = .echo (RoundMsg.ROUND M T) check.expectedHash := by
  have hmem : echoEvent none (.ok echoes) ∈ before ++ echoEvent none (.ok echoes) :: after :=
    List.mem_append_right _ (List.mem_cons_self ..)
  rw [← hhistory] at hmem
  obtain ⟨msgs,hsub,hv⟩ := h.origin (.echo none) echoes hmem _ ha.registeredEcho
  have hverdict := mapVerdict_ok.mp ((verdict_echo RoundInputError input msgs).symm.trans hv)
  obtain ⟨hi',hlen,hreceived⟩ := RoundInput.received_of_verdict ha.input_eq hverdict
  obtain ⟨msg,hmsg,rfl,hget⟩ := hreceived j hj
  obtain ⟨x,hx,rfl⟩ := List.mem_map.mp hmsg
  obtain ⟨incoming,hincoming,hsender,_,hfrom⟩ := mem_roundMsgs (hsub.subset hx)
  have hhash : EchoMsg.hash (R := T) x.msg = check.expectedHash :=
    (withEchoOutput_ok hout).2 _ ((mem_messages_iff hi hi' hlen).mpr ⟨_,hj,hget⟩)
  refine ⟨incoming,hincoming,hsender.symm,?_⟩
  rw [← hhash]
  exact eq_echo_of_from hfrom

omit [Build] [ProtocolMsg M] [LawfulRoundMsg M T]
  [Digest H M] [DecidableEq H] in
theorem Explained.main_unique
    {init : UInt16 → Option ((s : Sub (Option ι)) × SubStore H M (Focus T St) s)}
    (h : node.Explained init) {before after before' after' : History H M T St IoErr}
    {needs needs' : NeedsOwnMsg H M (RoundInput T)}
    (h1 : node.history = before ++ mainEvent none (.ok needs) :: after)
    (h2 : node.history = before' ++ mainEvent none (.ok needs') :: after') : needs = needs' := by
  have honce := Explained.once_main h h1
  have honce' := Explained.once_main h h2
  have hcompleted : ∀ (needs : NeedsOwnMsg H M (RoundInput T)) (l : History H M T St IoErr),
      mainEvent none (.ok needs) ∈ l → MainCompleted l (RoundMsg.ROUND M T) :=
    fun _ _ hmem => List.mem_filterMap.mpr ⟨_,hmem,rfl⟩
  rcases List.append_eq_append_iff.mp (h1.symm.trans h2) with ⟨mid,hmid,heq⟩ | ⟨mid,hmid,heq⟩
  · cases mid with
    | nil =>
      cases heq
      rfl
    | cons event mid =>
      cases heq
      exact absurd (hcompleted needs before' (hmid ▸ by simp)) honce'
  · cases mid with
    | nil =>
      cases heq
      rfl
    | cons event mid =>
      cases heq
      exact absurd (hcompleted needs' before (hmid ▸ by simp)) honce

end Party

end EchoBroadcast
end RoundBased
