import RoundBased.EchoAgreement

/-! The outputs that rounds over the echo broadcast have returned, whatever was received: they hold a
message of each of the others, and the message was received from it. -/
namespace RoundBased

/-- The output holds a message and an id of each of the others, and the messages were received. -/
structure Gathered {T M : Type} (q n : UInt16) (received : List (Incoming M)) (from? : M → Option T)
    (out : RoundMsgs T) : Prop where
  i_eq : out.i = q
  ids : out.ids.length = n.toNat - 1
  length : out.messages.length = n.toNat - 1
  origin : ∀ j, Others q n j → ∃ incoming ∈ received, incoming.sender = j ∧
    ∃ t, from? incoming.msg = some t ∧ out.get j = some t

namespace RoundInput

variable {T : Type}

theorem addMessage_n (self : RoundInput T) (msg : Incoming T) : (self.addMessage msg).1.n = self.n := by
  unfold addMessage
  split
  · rfl
  · split
    · rfl
    · dsimp only
      split <;> rfl

theorem two_le_of_new {i n : UInt16} {t : MessageType} {s : RoundInput T} (h : new i n t = .ok s) :
    2 ≤ n.toNat := by
  unfold new at h
  split at h
  · rename_i hin
    exact hin.1
  · cases h

theorem length_ids_of_output {s : RoundInput T} {out : RoundMsgs T} (h : s.output = .ok out) :
    out.ids.length = s.n.toNat - 1 := by
  unfold output at h
  split at h <;> cases h
  exact s.ids_length

theorem length_ids_of_verdict {i n : UInt16} {t : MessageType} {s : RoundInput T}
    (hs : new i n t = .ok s) {msgs : List (Incoming T)} {out : RoundMsgs T}
    (h : verdict s msgs = some (.ok out)) : out.ids.length = n.toNat - 1 := by
  have hfeed := feed_gather hs msgs
  unfold verdict at h
  split at h
  · cases h
  · rename_i s' hf
    obtain ⟨acc,_,hholds⟩ := hfeed.of_ok hf
    split at h
    · cases h
    · split at h
      · rename_i out' hout
        cases h
        rw [length_ids_of_output hout,hholds.n_eq]
      · cases h

end RoundInput

namespace EchoBroadcast
open Feeding Gathering Interaction RoundsRouter WithEchoBroadcast

section Sent

variable {ι H M A : Type} {St : ι → Type} [∀ k, RoundStore (St k)]
  [∀ k, RoundMsg M (RoundInfo.Msg (St k))] {CErr : Type → Type} {SErr : Type} [Digest H M]
  [DecidableEq H] [ProtocolMsg M]

/-- Whatever program runs over the engine: a message of the main protocol that was handed to the
party is one that the program sends. -/
theorem main_sent {e0 : WithEchoBroadcast M} {t : List (PartyEvent CErr SErr H M St)}
    {p : Prog (Call (Round ι) M) (Answer (Res CErr SErr St) (Error SErr)) Panic A}
    {q : PartyProg CErr SErr H M St (WithEchoBroadcast M × A)} (h : Steps (p.servedBy serve e0) t q)
    {event : PartyEvent CErr SErr H M St} (hmem : event ∈ t) {dest : MessageDestination} {m : M}
    (hevent : handsOver event.1 = some ⟨dest,.main m⟩) :
    ∃ done before after a c cont outgoing, Steps p done (.call c cont) ∧
      Serves serve e0 done before a ∧ t = before ++ after ∧
      (c = .send outgoing ∨ c = .enqueue outgoing) ∧ outgoing.msg = m := by
  obtain ⟨done,made,a,c,cont,u,q',more,hserves,hsteps,hu,rfl,hin⟩ := exists_serving h hmem
  have ho := mem_handedOver (q := q') hin hevent
  have hemits := emits_of_handedOver hu _ ho
  have hmsg : ∀ outgoing : Outgoing M, (onWire outgoing).msg = outgoing.msg := by
    intro outgoing
    unfold onWire
    split <;> rfl
  generalize hout : (⟨dest,.main m⟩ : Outgoing (Msg H M)) = o at hemits
  rw [List.append_assoc]
  cases hemits with
  | @send _ outgoing _ =>
    refine ⟨done,made,_,a,_,cont,outgoing,hsteps,hserves,rfl,.inl rfl,?_⟩
    rw [← hmsg outgoing]
    exact (Msg.main.inj (congrArg Outgoing.msg hout)).symm
  | @enqueue _ outgoing _ =>
    refine ⟨done,made,_,a,_,cont,outgoing,hsteps,hserves,rfl,.inr rfl,?_⟩
    rw [← hmsg outgoing]
    exact (Msg.main.inj (congrArg Outgoing.msg hout)).symm
  | echo => cases hout

end Sent

variable {H M T : Type} [RoundMsg M T] {i n : UInt16}

/-- The main round is one of `n` parties. -/
def MainRound.Numbers (n : UInt16) (self : MainRound H M (RoundInput T)) : Prop :=
  (∀ store, self.state = .ongoing store → store.n = n) ∧
    ∀ out, self.state = .output out → out.ids.length = n.toNat - 1

omit [RoundMsg M T] in
theorem MainRound.finish_numbers {self self' : MainRound H M (RoundInput T)} (hn : self.Numbers n)
    (h : self.finish = (self',.ok ())) : self'.Numbers n := by
  unfold finish at h
  split at h
  · rename_i store hst
    split at h
    · rename_i out hout
      cases h
      refine ⟨fun _ hs => (by cases hs),fun out' ho => ?_⟩
      cases ho
      rw [RoundInput.length_ids_of_output hout,hn.1 store hst]
    · cases h
  · cases h

theorem MainRound.addMessage_numbers {self self' : MainRound H M (RoundInput T)}
    {incoming : Incoming T} (hn : self.Numbers n) (h : self.addMessage incoming = (self',.ok ())) :
    self'.Numbers n := by
  simp only [addMessage] at h
  split at h
  · rename_i store hst
    split at h
    · cases h
    · rename_i incoming1 _ _
      split at h
      · cases h
      · rename_i store' hadd
        have hstore : store'.n = n := by
          have hkeeps := RoundInput.addMessage_n store incoming1
          rw [← hn.1 store hst,← hkeeps]
          exact congrArg (fun r => r.1.n) hadd.symm
        split at h
        · cases h
        · rename_i self1 hrec
          have hself1 : self1.Numbers n := by
            have hstate := record_state hrec
            refine ⟨fun s hs => ?_,fun out ho => ?_⟩
            · rw [hstate] at hs
              cases hs
              exact hstore
            · rw [hstate] at ho
              cases ho
          split at h
          · cases h
            exact hself1
          · exact finish_numbers hself1 h
  · cases h
  · cases h
  · cases h

theorem MainRound.numbers_of_verdict {main : MainRound H M (RoundInput T)} (hn : main.Numbers n)
    {msgs : List (Incoming (RoundInfo.Msg (RoundInput T)))} {needs : NeedsOwnMsg H M (RoundInput T)}
    (h : verdict main msgs = some (.ok needs)) :
    needs.mainRoundOutput.ids.length = n.toNat - 1 := by
  have hreach : ∀ main', (store (MainRound H M (RoundInput T))).Reach main main' → main'.Numbers n := by
    intro main' hr
    induction hr with
    | refl => exact hn
    | @add a b msg _ _ hadd ih =>
      simp only [store_add,RoundStore.addMessage] at hadd
      split at hadd
      · rename_i b' hok
        cases hadd
        exact addMessage_numbers ih hok
      · cases hadd
  unfold verdict at h
  split at h
  · cases h
  · rename_i main' hf
    split at h
    · cases h
    · split at h
      · rename_i out hout
        cases h
        have hout' : main'.output = .ok needs := hout
        unfold output at hout'
        split at hout'
        · rename_i o ho
          cases hout'
          exact (hreach main' (reach_feed hf)).2 o ho
        · cases hout'
      · cases h

theorem HoldsMain.numbers {main : MainRound H M (RoundInput T)} (h : HoldsMain i n main fun _ => none)
    (h2 : 2 ≤ n.toNat) (hi : i < n) : main.Numbers n := by
  rcases h.state with ⟨store,hst,hold,_⟩ | ⟨out,hst,hrel⟩
  · refine ⟨fun s hs => ?_,fun out ho => ?_⟩
    · rw [hst] at hs
      cases hs
      exact hold.n_eq
    · rw [hst] at ho
      cases ho
  -- there are others, of which no message has come
  · have hlt : 0 < n.toNat - 1 := by omega
    obtain ⟨j,hj,hji,_⟩ := exists_slotIndex (UInt16.lt_iff_toNat_lt.mp hi) hlt
    have hnone := hrel.complete j ⟨hj,hji⟩
    cases hnone

/-- The message of a main round, if it is one. -/
def mainOf (T : Type) [RoundMsg M T] : Msg H M → Option T
  | .main m => (fromProtocolMsg m : Except M T).toOption
  | .echo _ _ => none

theorem mainOf_of_from {m : Msg H M} {t : Main T} (h : fromProtocolMsg m = .ok t) :
    mainOf T m = some t.msg := by
  cases m with
  | main m =>
    simp only [fromProtocolMsg] at h
    split at h
    · rename_i t' ht
      cases h
      simp only [mainOf,ht]
      rfl
    · cases h
  | echo r hash => cases h

theorem MainDone.append {ι IoErr : Type} {St : ι → Type} [∀ k, RoundStore (St k)]
    [∀ k, RoundMsg M (RoundInfo.Msg (St k))] [ProtocolMsg M] {q : UInt16}
    {history : History H M T St IoErr} {sent : Option M} {own : Option T} {out : RoundMsgs T}
    {vector : List (Option M)} (h : MainDone n q history sent own out vector)
    (more : History H M T St IoErr) : MainDone n q (history ++ more) sent own out vector := by
  obtain ⟨⟨before,after,needs,rfl,hout⟩,hown,hvector,hcomplete⟩ := h
  exact ⟨⟨before,after ++ more,needs,by simp,hout⟩,hown,hvector,hcomplete⟩

omit [RoundMsg M T] in
theorem verdict_of_plain {s : RoundInput T} {msgs : List (Incoming (Main T))} {out : RoundMsgs T}
    (h : verdict (⟨⟨s⟩⟩ : WithError (WithMainMsg (RoundInput T))) msgs = some (.ok out)) :
    verdict s (msgs.map fun msg => msg.map Main.msg) = some (.ok out) := by
  have hmain := (verdict_withError (⟨s⟩ : WithMainMsg (RoundInput T)) msgs).symm.trans h
  have hinner : verdict (⟨s⟩ : WithMainMsg (RoundInput T)) msgs = some (.ok out) := by
    cases hv : verdict (⟨s⟩ : WithMainMsg (RoundInput T)) msgs with
    | none =>
      rw [hv] at hmain
      cases hmain
    | some v =>
      rw [hv] at hmain
      cases v with
      | error err => cases hmain
      | ok o =>
        cases hmain
        rfl
  exact (verdict_withMainMsg s msgs).symm.trans hinner

section Party

variable [Build] {ι IoErr A : Type} {St : ι → Type} [∀ k, RoundStore (St k)]
  [∀ k, RoundMsg M (RoundInfo.Msg (St k))] [ProtocolMsg M] [LawfulRoundMsg M T] {q : UInt16}
  {l0 : Ledger (Msg H M) (SubStore H M (Focus T St))} {main : MainRound H M (RoundInput T)}
  {input : RoundInput H} {node : Node (SubStore H M (Focus T St)) IoErr (Msg H M) A}

/-- What the main round of the reliable round has returned. -/
theorem gathered_main (hi : q < n) (h2 : 2 ≤ n.toNat) (ha : Awaits q n l0 main input)
    (h : node.Explained l0.registered) {needs : NeedsOwnMsg H M (RoundInput T)}
    (hmem : (mainEvent none (.ok needs) : PartyEvent (PartyErr IoErr) IoErr H M (Focus T St)) ∈
      node.history) :
    Gathered q n node.received (mainOf T) needs.mainRoundOutput := by
  obtain ⟨msgs,hsub,hv⟩ := h.origin (.main none) needs hmem _ ha.registeredMain
  have hverdict := (verdict_withMainMsg main msgs).symm.trans hv
  obtain ⟨hiff,hspec⟩ := main_collects hi ha.holds (msgs.map fun msg => msg.map Main.msg)
  obtain ⟨p,hp⟩ := hiff.mp ⟨needs,hverdict⟩
  obtain ⟨_,_,_,hq,hlen,hget⟩ := hspec needs p hverdict hp
  have hids := MainRound.numbers_of_verdict (ha.holds.numbers h2 hi) hverdict
  refine ⟨hq,hids,hlen,fun j hj => ?_⟩
  obtain ⟨msg,hmsg,rfl⟩ := List.mem_map.mp (hp.complete j hj)
  have hfirst := firstOf_of_mem hp.nodup hmsg
  obtain ⟨x,hx,rfl⟩ := List.mem_map.mp (hp.isPrefix.subset hmsg)
  obtain ⟨incoming,hincoming,hsender,_,hfrom⟩ := mem_roundMsgs (hsub.subset hx)
  exact ⟨incoming,hincoming,hsender.symm,_,mainOf_of_from hfrom,(hget _ hj).trans hfirst⟩

omit [LawfulRoundMsg M T] in
/-- What an ordinary round over a round input has returned. -/
theorem gathered_plain {V : ι → Type} [∀ k, RoundMsg M (V k)]
    {l : Ledger (Msg H M) (SubStore H M (Focus T fun k => RoundInput (V k)))}
    {node : Node (SubStore H M (Focus T fun k => RoundInput (V k))) IoErr (Msg H M) A}
    {k : ι} {t : MessageType} {s : RoundInput (V k)} (hs : RoundInput.new q n t = .ok s)
    (hreg : l.registered (roundOf (Msg H M) (SubStore H M (Focus T fun k => RoundInput (V k)))
      (.plain (some k))) = some ⟨.plain (some k),(⟨⟨s⟩⟩ : WithError (WithMainMsg (RoundInput (V k))))⟩)
    (h : node.Explained l.registered) {out : RoundMsgs (V k)}
    (hmem : ⟨.complete (.plain (some k)),.ok out⟩ ∈ node.history) :
    Gathered q n node.received (mainOf (V k)) out := by
  obtain ⟨msgs,hsub,hv⟩ := h.origin (.plain (some k)) out hmem _ hreg
  have hverdict : verdict s (msgs.map fun msg => msg.map Main.msg) = some (.ok out) :=
    verdict_of_plain hv
  obtain ⟨hq,hlen,hreceived⟩ := RoundInput.received_of_verdict hs hverdict
  refine ⟨hq,RoundInput.length_ids_of_verdict hs hverdict,hlen,fun j hj => ?_⟩
  obtain ⟨msg,hmsg,rfl,hget⟩ := hreceived j hj
  obtain ⟨x,hx,rfl⟩ := List.mem_map.mp hmsg
  obtain ⟨incoming,hincoming,hsender,_,hfrom⟩ := mem_roundMsgs (hsub.subset hx)
  exact ⟨incoming,hincoming,hsender.symm,_,mainOf_of_from hfrom,hget⟩

end Party

end EchoBroadcast
end RoundBased
