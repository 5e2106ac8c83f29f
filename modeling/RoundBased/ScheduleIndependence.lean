import Mathlib.Data.List.Pairwise
import RoundBased.FaultFreeRuns
import RoundBased.RandomGeneration

/-! What the parties output and send does not depend on the order in which messages are
delivered. -/
namespace RoundBased
open Gathering Interaction RoundsRouter Transition

namespace RoundInput

variable {M : Type} {i n : UInt16} {t : MessageType} {msgs : List (Incoming M)}

theorem asItem_own {msg : Incoming M} (ht : isExpectedType t msg.msgType = true)
    (h : msg.sender = i) : asItem i t msg = .ignored := by
  simp [asItem,ht,h]

theorem asItem_other {msg : Incoming M} (ht : isExpectedType t msg.msgType = true)
    (h : msg.sender ≠ i) : asItem i t msg = .item msg.sender msg.msg := by
  simp [asItem,ht,h]

theorem keys_asItem (h : ∀ msg ∈ msgs, isExpectedType t msg.msgType = true) :
    keys (msgs.map (asItem i t)) = (msgs.map Incoming.sender).filter fun j => j ≠ i := by
  induction msgs with
  | nil => rfl
  | cons msg msgs ih =>
    have hrest := ih fun m hm => h m (List.mem_cons_of_mem _ hm)
    have ht := h msg (List.mem_cons_self ..)
    by_cases hi : msg.sender = i
    · rw [List.map_cons,asItem_own ht hi,keys_cons_ignored,hrest,List.map_cons,
        List.filter_cons_of_neg (by simp [hi])]
    · rw [List.map_cons,asItem_other ht hi,keys_cons_item,hrest,List.map_cons,
        List.filter_cons_of_pos (by simp [hi])]

theorem lookup_asItem (h : ∀ msg ∈ msgs, isExpectedType t msg.msgType = true) {j : PartyIndex}
    (hj : j ≠ i) : lookup (msgs.map (asItem i t)) j = firstOf msgs j := by
  induction msgs with
  | nil => rfl
  | cons msg msgs ih =>
    have hrest := ih fun m hm => h m (List.mem_cons_of_mem _ hm)
    have ht := h msg (List.mem_cons_self ..)
    simp only [lookup,firstOf] at hrest ⊢
    by_cases hi : msg.sender = i
    · have hne : msg.sender ≠ j := fun he => hj (he.symm.trans hi)
      rw [List.map_cons,asItem_own ht hi,List.find?_cons_of_neg (by simp [hne])]
      exact hrest
    · by_cases hmj : msg.sender = j
      · simp [asItem_other ht hi,Item.valueAt,hmj]
      · simpa [asItem_other ht hi,Item.valueAt,hmj] using hrest

theorem clean_asItem (hnodup : (msgs.map Incoming.sender).Nodup)
    (h : ∀ msg ∈ msgs, msg.sender < n ∧ isExpectedType t msg.msgType = true) :
    Clean (Others i n) (msgs.map (asItem i t)) := by
  have hkeys := keys_asItem (i := i) fun msg hmsg => (h msg hmsg).2
  refine ⟨fun x hx => ?_,fun j hj => ?_,?_⟩
  · obtain ⟨msg,hmsg,rfl⟩ := List.mem_map.mp hx
    have ht := (h msg hmsg).2
    by_cases hi : msg.sender = i
    · simp [asItem_own ht hi]
    · simp [asItem_other ht hi]
  · rw [hkeys,List.mem_filter] at hj
    obtain ⟨msg,hmsg,rfl⟩ := List.mem_map.mp hj.1
    exact ⟨(h msg hmsg).1,by simpa using hj.2⟩
  · rw [hkeys]
    exact hnodup.filter _

theorem missing_of_wants {allowed : PartyIndex → Prop} {acc : PartyIndex → Option M}
    (hw : (gather allowed (Others i n)).wants acc = true) : ∃ j, Others i n j ∧ acc j = none := by
  by_contra hc
  have hall : ∀ j, Others i n j → (acc j).isSome = true := by
    intro j hj
    rw [← Option.ne_none_iff_isSome]
    exact fun hnone => hc ⟨j,hj,hnone⟩
  rw [gather_wants_false.mpr hall] at hw
  cases hw

theorem Releases.congr {out : RoundMsgs M} {acc f : PartyIndex → Option M}
    (h : Releases i n out acc) (hf : ∀ j, Others i n j → acc j = f j) : Releases i n out f := by
  refine ⟨h.i_eq,h.length,fun j hj => ?_,fun j hj => ?_⟩
  · rw [← hf j hj]
    exact h.get j hj
  · rw [← hf j hj]
    exact h.complete j hj

/-- A round input outputs once it has a message of each of the others. -/
theorem gathers {s : RoundInput M} (hs : new i n t = .ok s) :
    Gathers i n (fun _ msgType _ => isExpectedType t msgType = true) s (Releases i n) := by
  refine ⟨obeys s,fun msgs hnodup h => ?_⟩
  have htyped : ∀ msg ∈ msgs, isExpectedType t msg.msgType = true := fun msg hmsg => (h msg hmsg).2
  obtain ⟨acc,hf,hacc⟩ := (clean_asItem hnodup h).gather (Others i n)
  have hfirst : ∀ j, Others i n j → acc j = firstOf msgs j := fun j hj =>
    (hacc j hj).trans (lookup_asItem htyped hj.2)
  have hv := verdict_gather hs msgs
  simp only [hf] at hv
  by_cases hw : (gather (Others i n) (Others i n)).wants acc = true
  · rw [if_pos hw] at hv
    obtain ⟨j,hj,hnone⟩ := missing_of_wants hw
    exact .inl ⟨hv,j,hj,(hfirst j hj).symm.trans hnone⟩
  · rw [if_neg hw] at hv
    obtain ⟨out,hout,hrel⟩ := hv
    have hrel' := hrel.congr hfirst
    exact .inr ⟨out,hout,fun j hj => Option.isSome_iff_exists.mp (hrel'.complete j hj),hrel'⟩

end RoundInput

/-! Rounds that are registered as round inputs. -/
section Inputs

variable {ι M : Type} {T : ι → Type}

/-- Every round collects messages of the type agreed on for it. -/
def inputs (n : UInt16) (kinds : List ι) (types : ι → MessageType) :
    Plan fun k => RoundInput (T k) where
  kinds := kinds
  sends k _ msgType _ := isExpectedType (types k) msgType = true
  returns p _ out f := RoundInput.Releases p n out f

variable [ProtocolMsg M] [∀ k, RoundMsg M (RoundInfo.Msg (RoundInput (T k)))]

/-- Registers the rounds one after the other. -/
def addInputs (p n : UInt16) (types : ι → MessageType) :
    List ι → RoundsRouter M (fun k => RoundInput (T k)) →
      Checked (RoundsRouter M fun k => RoundInput (T k))
  | [],router => .ok router
  | k :: ks,router => do
    let s ← RoundInput.new p n (types k)
    let (router,_) ← router.addRound k s
    addInputs p n types ks router

variable {p n : UInt16} {types : ι → MessageType}

theorem addInputs_registers {kinds : List ι} {l : Ledger M fun k => RoundInput (T k)}
    {router : RoundsRouter M fun k => RoundInput (T k)}
    (h : addInputs p n types kinds l.router = .ok router) :
    ∃ l', router = l'.router ∧ l.Extends l' ∧ ∀ k ∈ kinds, ∃ s,
      RoundInput.new p n (types k) = .ok s ∧
      l'.registered (roundOf M (fun k => RoundInput (T k)) k) = some ⟨k,s⟩ := by
  induction kinds generalizing l with
  | nil =>
    cases h
    exact ⟨l,rfl,.refl,fun k hk => (by cases hk)⟩
  | cons k ks ih =>
    obtain ⟨s,hs,h⟩ := Checked.bind_eq_ok.mp h
    obtain ⟨⟨router1,w⟩,hadd,h⟩ := Checked.bind_eq_ok.mp h
    obtain ⟨hfree,rfl⟩ := l.addRound_ok hadd
    obtain ⟨l',hl',hext,hks⟩ := ih h
    refine ⟨l',hl',(Ledger.extends_register hfree).trans hext,fun j hj => ?_⟩
    rcases List.mem_cons.mp hj with rfl | hj
    · exact ⟨s,hs,hext.registered _ _ (Ledger.registered_register hfree)⟩
    · exact hks j hj

theorem prepared_of_addInputs {kinds : List ι} {router : RoundsRouter M fun k => RoundInput (T k)}
    (h : addInputs p n types kinds .new = .ok router) :
    ∃ l : Ledger M fun k => RoundInput (T k), router = l.router ∧
      Prepared (inputs n kinds types) n p l := by
  rw [← Ledger.router_empty] at h
  obtain ⟨l,hl,hext,hkinds⟩ := addInputs_registers h
  refine ⟨l,hl,hext.received,hext.taken fun _ => rfl,fun k hk => ?_⟩
  obtain ⟨s,hs,hreg⟩ := hkinds k hk
  exact ⟨s,hreg,RoundInput.gathers hs⟩

end Inputs

/-! Two runs of one network. -/
section TwoRuns

/-- The contents of an output, without the identifiers of the messages. -/
def RoundMsgs.contents {T : Type} (self : RoundMsgs T) : PartyIndex × List T :=
  (self.i,self.messages)

variable {ι M A IoErr : Type} {T : ι → Type}

/-- What the program does after completing a round depends on the contents of the output
only. -/
def ContentOnly (prog : NodeProg (fun k => RoundInput (T k)) IoErr M A) : Prop :=
  ∀ history k cont, Steps prog history (.call (.complete k) cont) →
    ∀ out out' : RoundMsgs (T k), out.contents = out'.contents →
      cont (.ok out) = cont (.ok out')

/-- The same call with the same answer, up to the identifiers of messages. -/
inductive Similar : NodeEvent (fun k => RoundInput (T k)) IoErr M →
    NodeEvent (fun k => RoundInput (T k)) IoErr M → Prop
  | same {e : NodeEvent (fun k => RoundInput (T k)) IoErr M} : Similar e e
  | outputs {k : ι} {out out' : RoundMsgs (T k)} : out.contents = out'.contents →
      Similar ⟨.complete k,.ok out⟩ ⟨.complete k,.ok out'⟩

theorem Similar.sentBy_eq {e e' : NodeEvent (fun k => RoundInput (T k)) IoErr M}
    (h : Similar e e') : sentBy e = sentBy e' := by
  cases h with
  | same => rfl
  | outputs _ => rfl

theorem sent_of_similar {t t' : List (NodeEvent (fun k => RoundInput (T k)) IoErr M)}
    (h : List.Forall₂ Similar t t') : t.filterMap sentBy = t'.filterMap sentBy := by
  induction h with
  | nil => rfl
  | cons he _ ih => rw [List.filterMap_cons,List.filterMap_cons,he.sentBy_eq,ih]

/-- The party has done what it does in the finished run, up to some point. -/
structure Replays (prog : NodeProg (fun k => RoundInput (T k)) IoErr M A)
    (final node : Node (fun k => RoundInput (T k)) IoErr M A) : Prop where
  split : ∃ done rest, final.history = done ++ rest ∧ List.Forall₂ Similar done node.history ∧
    Steps prog done node.activity.prog ∧ Steps node.activity.prog rest final.activity.prog

theorem ContentOnly.cont_eq {prog : NodeProg (fun k => RoundInput (T k)) IoErr M A}
    (hc : ContentOnly prog) {t : List (NodeEvent (fun k => RoundInput (T k)) IoErr M)}
    {c : Call ι M} {cont : PartyAnswer (fun k => RoundInput (T k)) IoErr M c →
      NodeProg (fun k => RoundInput (T k)) IoErr M A} (h : Steps prog t (.call c cont))
    {r r' : PartyAnswer (fun k => RoundInput (T k)) IoErr M c} (hs : Similar ⟨c,r⟩ ⟨c,r'⟩) :
    cont r = cont r' := by
  cases hs with
  | same => rfl
  | outputs he => exact hc _ _ _ h _ _ he

theorem Replays.sent_subset {prog : NodeProg (fun k => RoundInput (T k)) IoErr M A}
    {final node : Node (fun k => RoundInput (T k)) IoErr M A} (h : Replays prog final node) :
    node.sent ⊆ final.sent := by
  obtain ⟨done,rest,hsplit,hdone,_⟩ := h.split
  rw [Node.sent,Node.sent,← sent_of_similar hdone,hsplit,List.filterMap_append]
  exact List.subset_append_left _ _

/-- Two successful answers to one call are similar, if equal rounds have equal outputs. -/
theorem similar_of_succeeds {plan : Plan fun k => RoundInput (T k)} {n p : UInt16} {c : Call ι M}
    {r r' : PartyAnswer (fun k => RoundInput (T k)) IoErr M c} (h : Succeeds plan n p ⟨c,r⟩)
    (h' : Succeeds plan n p ⟨c,r'⟩)
    (hout : ∀ k (out out' : RoundMsgs (T k)), (⟨c,r⟩ : NodeEvent _ IoErr M) = ⟨.complete k,.ok out⟩ →
      (⟨c,r'⟩ : NodeEvent _ IoErr M) = ⟨.complete k,.ok out'⟩ → out.contents = out'.contents) :
    Similar ⟨c,r⟩ ⟨c,r'⟩ := by
  cases c with
  | complete k =>
    obtain ⟨out,rfl,_⟩ := h
    obtain ⟨out',rfl,_⟩ := h'
    exact .outputs (hout k out out' rfl rfl)
  | send o => cases h; cases h'; exact .same
  | enqueue o => cases h; cases h'; exact .same
  | flush => cases h; cases h'; exact .same
  | yieldNow => exact .same

theorem Replays.advances {prog : NodeProg (fun k => RoundInput (T k)) IoErr M A}
    {final node node' : Node (fun k => RoundInput (T k)) IoErr M A} {a : A}
    (h : Replays prog final node) (hc : ContentOnly prog)
    (hfinal : final.activity = .running (.ret a)) (ha : node.Advances node')
    (hsimilar : ∀ c r r', (⟨c,r⟩ : NodeEvent _ IoErr M) ∈ final.history →
      (⟨c,r'⟩ : NodeEvent _ IoErr M) ∈ node'.history → Similar ⟨c,r⟩ ⟨c,r'⟩) :
    Replays prog final node' := by
  obtain ⟨done,rest,hsplit,hdone,hsteps,hrest⟩ := h.split
  cases ha with
  | waits hhistory hprog =>
    refine ⟨done,rest,hsplit,?_,?_,?_⟩
    · rwa [hhistory]
    · rwa [hprog]
    · rwa [hprog]
  | @answered c cont ans hcall hhistory hprog =>
    rw [hcall] at hsteps hrest
    have hret : final.activity.prog = .ret a := by rw [hfinal]; rfl
    rw [hret] at hrest
    cases hrest with
    | @call _ _ r rest _ hrest =>
      have hsim : Similar ⟨c,r⟩ ⟨c,ans⟩ := by
        apply hsimilar
        · rw [hsplit]
          simp
        · rw [hhistory]
          simp
      have hcont := hc.cont_eq hsteps hsim
      refine ⟨done ++ [⟨c,r⟩],rest,by rw [hsplit]; simp,?_,?_,?_⟩
      · rw [hhistory]
        exact List.rel_append hdone (.cons hsim .nil)
      · rw [hprog,← hcont]
        exact hsteps.snoc r
      · rwa [hret,hprog,← hcont]

/-- A party that has finished has done all that it does in the finished run. -/
theorem Replays.finished {prog : NodeProg (fun k => RoundInput (T k)) IoErr M A}
    {final node : Node (fun k => RoundInput (T k)) IoErr M A} {a a' : A}
    (h : Replays prog final node) (hfinal : final.activity = .running (.ret a))
    (hnode : node.activity = .running (.ret a')) : a = a' ∧ final.sent = node.sent := by
  obtain ⟨done,rest,hsplit,hdone,_,hrest⟩ := h.split
  have hret : node.activity.prog = .ret a' := by rw [hnode]; rfl
  have hret' : final.activity.prog = .ret a := by rw [hfinal]; rfl
  rw [hret,hret'] at hrest
  obtain ⟨rfl,he⟩ := steps_ret hrest
  cases he
  rw [List.append_nil] at hsplit
  rw [Node.sent,Node.sent,hsplit,sent_of_similar hdone]
  exact ⟨rfl,rfl⟩

variable [ProtocolMsg M] [∀ k, RoundMsg M (RoundInfo.Msg (RoundInput (T k)))]
  {n p : UInt16} {kinds : List ι} {types : ι → MessageType}
  {l0 : PartyIndex → Ledger M fun k => RoundInput (T k)}
  {prog : PartyIndex → NodeProg (fun k => RoundInput (T k)) IoErr M A}
  {start : PartyIndex → Node (fun k => RoundInput (T k)) IoErr M A}
  {net net' : Network (fun k => RoundInput (T k)) IoErr M A}

/-- If the others have sent nothing but what they send in the finished run, a round has
returned the same. -/
theorem outputs_agree (ha : Arranged (inputs n kinds types) n l0 prog start)
    (h : FaultFree (inputs n kinds types) n l0 prog net)
    (h' : FaultFree (inputs n kinds types) n l0 prog net') (hp : p < n)
    (hsent : ∀ j, Others p n j → (net'.nodes j).sent ⊆ (net.nodes j).sent) {k : ι}
    {out out' : RoundMsgs (T k)} (hout : ⟨.complete k,.ok out⟩ ∈ (net.nodes p).history)
    (hout' : ⟨.complete k,.ok out'⟩ ∈ (net'.nodes p).history) : out.contents = out'.contents := by
  obtain ⟨f,hrel,hf⟩ := (h.sound p hp).returned k out hout
  obtain ⟨f',hrel',hf'⟩ := (h'.sound p hp).returned k out' hout'
  have hget : ∀ j, Others p n j → out.get j = out'.get j := by
    intro j hj
    obtain ⟨v,hv,msg,hmsg,rfl,hm⟩ := hf j hj
    obtain ⟨v',hv',msg',hmsg',hsender,hm'⟩ := hf' msg.sender hj
    -- both messages are of round `k` and were sent to `p` in the finished run, so they are one
    have hround := ((h.readable_received ha hp).belongs msg hmsg).2.round_eq hm
    have hround' := ((h'.readable_received ha hp).belongs msg' hmsg').2.round_eq hm'
    have hmem := h.addressed_of_received hmsg
    have hmem' := h'.addressed_of_received hmsg'
    rw [hsender] at hmem'
    have hone : (msg.msgType,msg.msg) = (msg'.msgType,msg'.msg) := by
      by_contra hne
      have hsymm : Std.Symm fun a b : MessageType × M => round a.2 ≠ round b.2 :=
        ⟨fun _ _ => Ne.symm⟩
      have hpair := addressed_pairwise hp (h.sent ha msg.sender).2
      exact hpair.forall hmem (addressed_subset (hsent _ hj) hmem') hne (hround.trans hround'.symm)
    rw [(Prod.mk.inj hone).2,hm'] at hm
    rw [hrel.get _ hj,hrel'.get _ hj,hv,hv',Except.ok.inj hm]
  have hmessages : out.messages = out'.messages := by
    apply List.ext_getElem?
    intro x
    by_cases hx : x < n.toNat - 1
    · obtain ⟨j,hj,hjp,rfl⟩ := exists_slotIndex (UInt16.lt_iff_toNat_lt.mp hp) hx
      have hj' := hget j ⟨hj,hjp⟩
      simp only [RoundMsgs.get,hrel.i_eq,hrel'.i_eq] at hj'
      exact hj'
    · rw [List.getElem?_eq_none (by rw [hrel.length]; omega),
        List.getElem?_eq_none (by rw [hrel'.length]; omega)]
  rw [RoundMsgs.contents,RoundMsgs.contents,hmessages,hrel.i_eq,hrel'.i_eq]

/-- All parties have finished, with these outputs. -/
def Finished (n : UInt16) (outs : PartyIndex → A)
    (net : Network (fun k => RoundInput (T k)) IoErr M A) : Prop :=
  ∀ p < n, (net.nodes p).activity = .running (.ret (outs p))

variable [TypeIds fun k => RoundInput (T k)]
  [∀ k, RefusesUnchanged M (RoundInfo.Msg (RoundInput (T k)))] {outs outs' : PartyIndex → A}

/-- In any other run every party does what it does in the finished run. -/
theorem replays (ha : Arranged (inputs n kinds types) n l0 prog start)
    (hc : ∀ p < n, ContentOnly (prog p)) (h : (network n start).Reachable net)
    (hfinal : Finished n outs net) (h' : (network n start).Reachable net') :
    ∀ p < n, Replays (prog p) (net.nodes p) (net'.nodes p) := by
  have hff := faultFree_of_reachable ha h
  refine (h'.invariant (P := fun net' => FaultFree (inputs n kinds types) n l0 prog net' ∧
    ∀ p < n, Replays (prog p) (net.nodes p) (net'.nodes p)) ⟨.init ha,fun p hp => ?_⟩ ?_).2
  · have hruns := (hff.sound p hp).runs
    have hbegins : ((network n start).init.nodes p) = Node.start (l0 p).router (prog p) :=
      ha.begins p hp
    rw [hbegins]
    exact ⟨[],(net.nodes p).history,rfl,.nil,.refl,hruns⟩
  · rintro s e t ⟨hs,hreplays⟩ hstep
    have ht := hs.step ha hstep
    refine ⟨ht,fun p hp => ?_⟩
    obtain ⟨q,hq,node,hnodes,hadv⟩ := step_advances hstep
    by_cases hpq : p = q
    · subst hpq
      have hnode : t.nodes p = node := by rw [hnodes,Function.update_self]
      rw [← hnode] at hadv
      refine (hreplays p hp).advances (hc p hp) (hfinal p hp) hadv fun c r r' hr hr' => ?_
      apply similar_of_succeeds ((hff.sound p hp).succeeds _ hr) ((ht.sound p hp).succeeds _ hr')
      intro k out out' he he'
      -- the others have sent what they send in the finished run, since they keep to it
      apply outputs_agree ha hff ht hp _ (he ▸ hr) (he' ▸ hr')
      intro j hj
      rw [hnodes,Function.update_of_ne hj.2]
      exact (hreplays j hj.1).sent_subset
    · rw [hnodes,Function.update_of_ne hpq]
      exact hreplays p hp

/-- Under any two orders of delivery, the parties output and send the same. -/
theorem schedule_independent {routers : PartyIndex → RoundsRouter M fun k => RoundInput (T k)}
    (hrouters : ∀ p < n, addInputs p n types kinds .new = .ok (routers p))
    (horderly : ∀ p < n, Orderly (inputs n kinds types) n p (prog p))
    (hcontent : ∀ p < n, ContentOnly (prog p))
    (h : (network n fun p => Node.start (routers p) (prog p)).Reachable net)
    (h' : (network n fun p => Node.start (routers p) (prog p)).Reachable net')
    (hfinished : Finished n outs net) (hfinished' : Finished n outs' net') :
    ∀ p < n, outs p = outs' p ∧ (net.nodes p).sent = (net'.nodes p).sent := by
  have hledgers : ∀ p, ∃ l : Ledger M fun k => RoundInput (T k), p < n → routers p = l.router ∧
      Prepared (inputs n kinds types) n p l := by
    intro p
    by_cases hp : p < n
    · obtain ⟨l,hl⟩ := prepared_of_addInputs (hrouters p hp)
      exact ⟨l,fun _ => hl⟩
    · exact ⟨.empty,fun hc => absurd hc hp⟩
  choose l0 hl0 using hledgers
  have ha : Arranged (inputs n kinds types) n l0 prog fun p => Node.start (routers p) (prog p) :=
    ⟨fun p => ⟨rfl,rfl⟩,fun p hp => by rw [(hl0 p hp).1],fun p hp => (hl0 p hp).2,horderly⟩
  intro p hp
  exact (replays ha hcontent h hfinished h' p hp).finished (hfinished p hp) (hfinished' p hp)

end TwoRuns
/-! A run in which the messages of the second round overtake those of the first. -/
namespace RandomGeneration

/-- The messages of the others, if the round was completed. -/
def othersMsgs {T E : Type} : Except E (RoundMsgs T) → List T
  | .ok out => out.messages
  | .error _ => []

/-- What party `p` sends in the two rounds. -/
def announced (p : PartyIndex) : RoundKind → Msg
  | .round1 => .commitMsg ⟨.replicate 32 p.toUInt8⟩
  | .round2 => .decommitMsg ⟨.replicate 32 p.toUInt8⟩

/-- Broadcasts the messages of both rounds, and returns those of the others. -/
def announce (p : PartyIndex) :
    NodeProg (fun k : RoundKind => RoundInput k.Msg) Unit Msg (List CommitMsg × List DecommitMsg) :=
  .call (.send ⟨.allParties false,announced p .round1⟩) fun _ =>
    .call (.send ⟨.allParties false,announced p .round2⟩) fun _ =>
      .call (.complete .round1) fun commitments =>
        .call (.complete .round2) fun decommitments =>
          .ret (othersMsgs commitments,othersMsgs decommitments)

/-- Both rounds collect broadcasts. -/
abbrev bothRounds : Plan fun k : RoundKind => RoundInput k.Msg :=
  inputs 2 [.round1,.round2] fun _ => .broadcast false

def collecting (p : PartyIndex) : RoundsRouter Msg fun k : RoundKind => RoundInput k.Msg :=
  ((addInputs p 2 (fun _ => .broadcast false) [.round1,.round2] .new).toOption).getD .new

def announcing : Network (fun k : RoundKind => RoundInput k.Msg) Unit Msg
    (List CommitMsg × List DecommitMsg) :=
  ⟨fun p => Node.start (collecting p) (announce p),[]⟩

def acts (p : PartyIndex) (m : ℕ) : List (NetworkEvent Msg) := List.replicate m (.acts p false)

/-- The message of `j` reaches `p`. -/
def delivers (p j : PartyIndex) (k : RoundKind) (id : MsgId) : NetworkEvent Msg :=
  .delivers ⟨p,j,.broadcast false,announced j k⟩ id

def inOrder : List (NetworkEvent Msg) :=
  acts 0 3 ++ acts 1 3 ++ [delivers 0 1 .round1 0,delivers 1 0 .round1 1] ++ acts 0 1 ++ acts 1 1 ++
    [delivers 0 1 .round2 2,delivers 1 0 .round2 3]

def overtaken : List (NetworkEvent Msg) :=
  acts 1 3 ++ acts 0 3 ++ [delivers 0 1 .round2 5,delivers 1 0 .round2 6,delivers 1 0 .round1 7,
    delivers 0 1 .round1 8] ++ acts 0 1 ++ acts 1 1

theorem announced_belongs (p : PartyIndex) (k : RoundKind) :
    Belongs bothRounds p (.broadcast false) (announced p k) := by
  cases k with
  | round1 => exact ⟨⟨⟨0,rfl⟩,fun j => wellRouted _ _⟩,.round1,by simp [inputs],_,rfl,rfl⟩
  | round2 => exact ⟨⟨⟨1,rfl⟩,fun j => wellRouted _ _⟩,.round2,by simp [inputs],_,rfl,rfl⟩

theorem announce_orderly (p : PartyIndex) :
    Orderly bothRounds 2 p (announce p) := by
  intro history c cont h hs
  cases h with
  | refl => exact ⟨announced_belongs p .round1,fun o ho => (by cases ho)⟩
  | call h =>
    cases h with
    | refl =>
      have hsent := hs _ (List.mem_cons_self ..)
      refine ⟨announced_belongs p .round2,fun o ho => ?_⟩
      cases hsent
      cases List.mem_singleton.mp ho
      exact fun hround => by cases hround
    | call h =>
      cases h with
      | refl => exact ⟨by simp [inputs],by simp⟩
      | call h =>
        cases h with
        | refl => exact ⟨by simp [inputs],by simp⟩
        | call h => cases h

theorem announce_contentOnly (p : PartyIndex) : ContentOnly (announce p) := by
  intro history k cont h out out' he
  cases h with
  | call h =>
    cases h with
    | call h =>
      cases h with
      | refl => simp [othersMsgs,(Prod.mk.inj he).2]
      | call h =>
        cases h with
        | refl => simp [othersMsgs,(Prod.mk.inj he).2]
        | call h => cases h

/-- The outputs of the two parties. -/
def heard (p : PartyIndex) : List CommitMsg × List DecommitMsg :=
  ([⟨.replicate 32 (1 - p).toUInt8⟩],[⟨.replicate 32 (1 - p).toUInt8⟩])

theorem announce_in_any_order : ∃ net net', announcing.exec 2 inOrder = some net ∧
    announcing.exec 2 overtaken = some net' ∧ Finished 2 heard net ∧ Finished 2 heard net' ∧
    ∀ p < 2, (net.nodes p).sent = (net'.nodes p).sent := by
  have h : (announcing.exec 2 inOrder).isSome = true := by decide
  have h' : (announcing.exec 2 overtaken).isSome = true := by decide
  have hstart : (network 2 fun p => Node.start (collecting p) (announce p)).Reachable announcing :=
    System.reachable_init _
  have hfinished : Finished 2 heard ((announcing.exec 2 inOrder).get h) := by
    intro p hp
    rcases lt_two hp with rfl | rfl <;> rfl
  have hfinished' : Finished 2 heard ((announcing.exec 2 overtaken).get h') := by
    intro p hp
    rcases lt_two hp with rfl | rfl <;> rfl
  have hrouters : ∀ p < 2, addInputs p 2 (fun _ => .broadcast false) [RoundKind.round1,.round2]
      .new = .ok (collecting p) := by
    intro p hp
    rcases lt_two hp with rfl | rfl <;> rfl
  exact ⟨_,_,(Option.some_get h).symm,(Option.some_get h').symm,hfinished,hfinished',
    fun p hp => (schedule_independent hrouters (fun p _ => announce_orderly p)
      (fun p _ => announce_contentOnly p)
      (Network.exec_reachable (Option.some_get h).symm hstart)
      (Network.exec_reachable (Option.some_get h').symm hstart) hfinished hfinished' p hp).2⟩

end RandomGeneration

end RoundBased
