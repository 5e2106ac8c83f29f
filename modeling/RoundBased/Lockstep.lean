import RoundBased.FaultFreeRuns

/-! Programs that take the rounds in turn: each sends its message of a round to all parties and
completes the round before it goes on to the next. A network of such programs comes to rest only
when all of them have finished. -/
namespace RoundBased
open Interaction RoundsRouter Transition

variable {ι M A : Type} {St : ι → Type} [∀ k, RoundStore (St k)] {IoErr : Type}

/-- The rounds that were completed, oldest first. -/
def completedIn (t : List (NodeEvent St IoErr M)) : List ι :=
  t.filterMap fun
    | ⟨.complete k,_⟩ => some k
    | _ => none

variable [∀ k, RoundMsg M (RoundInfo.Msg (St k))] [ProtocolMsg M]

/-- The message is a broadcast of what the party sends in the round. -/
structure Announces (plan : Plan St) (p : PartyIndex) (k : ι) (o : Outgoing M) : Prop where
  recipient : ∃ reliable, o.recipient = .allParties reliable
  routable : Routable M St o.msg
  sends : ∃ v, fromProtocolMsg o.msg = .ok v ∧ plan.sends k p o.recipient.msgType v

/-- The program goes through the rounds in turn, as long as these return what they should, and
ends with a result in `Q`. -/
inductive InTurn (plan : Plan St) (n p : UInt16) (Q : A → Prop) :
    List ι → NodeProg St IoErr M A → Prop
  | done {a : A} : Q a → InTurn plan n p Q [] (.ret a)
  | round {k : ι} {ks : List ι} {o : Outgoing M} {cont : Except IoErr Unit → NodeProg St IoErr M A}
      {next : RoundResult (St k) IoErr → NodeProg St IoErr M A} :
      Announces plan p k o → cont (.ok ()) = .call (.complete k) next →
      (∀ out, plan.Returned n p k out → InTurn plan n p Q ks (next (.ok out))) →
      InTurn plan n p Q (k :: ks) (.call (.send o) cont)

/-- How far such a program has come: what it announced and completed, and what is left. -/
inductive Stage (plan : Plan St) (n p : UInt16) (Q : A → Prop)
    (t : List (NodeEvent St IoErr M)) : NodeProg St IoErr M A → Prop
  | between (done : List ι) {ks : List ι} {q : NodeProg St IoErr M A} : plan.kinds = done ++ ks →
      List.Forall₂ (Announces plan p) done (t.filterMap sentBy) → completedIn t = done →
      InTurn plan n p Q ks q → Stage plan n p Q t q
  | within {done ks : List ι} {k : ι} {next : RoundResult (St k) IoErr → NodeProg St IoErr M A} :
      plan.kinds = done ++ k :: ks →
      List.Forall₂ (Announces plan p) (done ++ [k]) (t.filterMap sentBy) → completedIn t = done →
      (∀ out, plan.Returned n p k out → InTurn plan n p Q ks (next (.ok out))) →
      Stage plan n p Q t (.call (.complete k) next)

section Stage

variable {plan : Plan St} {n p : UInt16} {Q : A → Prop} {t : List (NodeEvent St IoErr M)}
  {prog q : NodeProg St IoErr M A}

theorem Stage.next {c : Call ι M} {cont : PartyAnswer St IoErr M c → NodeProg St IoErr M A}
    (h : Stage plan n p Q t (.call c cont)) {r : PartyAnswer St IoErr M c}
    (hr : Succeeds plan n p ⟨c,r⟩) : Stage plan n p Q (t ++ [⟨c,r⟩]) (cont r) := by
  cases h with
  | between done hkinds hann hcomp hturn =>
    cases hturn with
    | @round k ks o _ next ho hcont hnext =>
      cases hr
      have hsent : (t ++ [(⟨.send o,.ok ()⟩ : NodeEvent St IoErr M)]).filterMap sentBy =
          t.filterMap sentBy ++ [o] := by
        rw [List.filterMap_append]
        rfl
      have hdone : completedIn (t ++ [(⟨.send o,.ok ()⟩ : NodeEvent St IoErr M)]) =
          completedIn t := by
        rw [completedIn,List.filterMap_append]
        exact List.append_nil _
      rw [hcont]
      refine .within hkinds ?_ (hdone.trans hcomp) hnext
      rw [hsent]
      exact List.rel_append hann (.cons ho .nil)
  | @within done ks k _ hkinds hann hcomp hnext =>
    obtain ⟨out,rfl,hout⟩ := hr
    have hsent : (t ++ [(⟨.complete k,.ok out⟩ : NodeEvent St IoErr M)]).filterMap sentBy =
        t.filterMap sentBy := by
      rw [List.filterMap_append]
      exact List.append_nil _
    have hdone : completedIn (t ++ [(⟨.complete k,.ok out⟩ : NodeEvent St IoErr M)]) =
        completedIn t ++ [k] := by
      rw [completedIn,List.filterMap_append]
      rfl
    refine .between (done ++ [k]) ?_ ?_ ?_ (hnext out hout)
    · rw [hkinds,List.append_assoc]
      rfl
    · rwa [hsent]
    · rw [hdone,hcomp]

/-- Where the program stands after operations that did what they should. -/
theorem stage_of_steps (hprog : InTurn plan n p Q plan.kinds prog) (h : Steps prog t q)
    (hs : ∀ e ∈ t, Succeeds plan n p e) : Stage plan n p Q t q := by
  revert hs
  apply h.invariant (P := fun t q => (∀ e ∈ t, Succeeds plan n p e) → Stage plan n p Q t q)
  · exact fun _ => .between [] rfl .nil rfl hprog
  · intro t c k r ih hs
    refine (ih fun e he => hs e (List.mem_append_left _ he)).next ?_
    exact hs _ (List.mem_append_right _ (List.mem_singleton_self _))

theorem Announces.round_eq {k : ι} {o : Outgoing M} (h : Announces plan p k o) :
    round o.msg = .ok (roundOf M St k) := by
  obtain ⟨v,hv,_⟩ := h.sends
  exact (h.routable.wellRouted k).mp ⟨v,hv⟩

theorem partner_of_forall₂ {α β : Type} {R : α → β → Prop} {as : List α} {bs : List β}
    (h : List.Forall₂ R as bs) {a : α} (ha : a ∈ as) : ∃ b ∈ bs, R a b := by
  induction h with
  | nil => cases ha
  | cons hab _ ih =>
    rcases List.mem_cons.mp ha with rfl | ha
    · exact ⟨_,List.mem_cons_self ..,hab⟩
    · obtain ⟨b,hb,hr⟩ := ih ha
      exact ⟨b,List.mem_cons_of_mem _ hb,hr⟩

theorem Stage.permitted (hd : plan.Distinct M) (hnodup : plan.kinds.Nodup) {c : Call ι M}
    {cont : PartyAnswer St IoErr M c → NodeProg St IoErr M A}
    (h : Stage plan n p Q t (.call c cont)) : Permitted plan n p t c := by
  cases h with
  | between done hkinds hann hcomp hturn =>
    cases hturn with
    | @round k ks o _ next ho hcont hnext =>
      rw [hkinds,List.nodup_append] at hnodup
      have hk : k ∈ plan.kinds := by
        rw [hkinds]
        exact List.mem_append_right _ (List.mem_cons_self ..)
      refine ⟨⟨ho.routable,k,hk,ho.sends⟩,fun o' ho' hround => ?_⟩
      -- an earlier message of the round would be of a round that was announced before
      obtain ⟨j,hj,hann⟩ := partner_of_forall₂ hann.flip ho'
      have hjk : j ∈ plan.kinds := by
        rw [hkinds]
        exact List.mem_append_left _ hj
      rw [hann.round_eq,ho.round_eq] at hround
      have hsame := hd j hjk k hk (Except.ok.inj hround)
      exact absurd hsame (hnodup.2.2 j hj k (List.mem_cons_self ..))
  | @within done ks k _ hkinds hann hcomp hnext =>
    rw [hkinds,List.nodup_append] at hnodup
    refine ⟨by rw [hkinds]; simp,fun e he hek => ?_⟩
    have hk : k ∈ completedIn t := by
      refine List.mem_filterMap.mpr ⟨e,he,?_⟩
      obtain ⟨c,r⟩ := e
      cases hek
      rfl
    rw [hcomp] at hk
    exact hnodup.2.2 k hk k (List.mem_cons_self ..) rfl

theorem InTurn.orderly (h : InTurn plan n p Q plan.kinds prog) (hd : plan.Distinct M)
    (hnodup : plan.kinds.Nodup) : Orderly plan n p prog := by
  intro t c cont hsteps hs
  exact (stage_of_steps h hsteps hs).permitted hd hnodup

end Stage

section Rest

variable {plan : Plan St} {n p : UInt16} {Q : PartyIndex → A → Prop}
  {l0 : PartyIndex → Ledger M St} {prog : PartyIndex → NodeProg St IoErr M A}
  {start : PartyIndex → Node St IoErr M A} {net : Network St IoErr M A}

theorem FaultFree.stage (h : FaultFree plan n l0 prog net)
    (hprog : InTurn plan n p (Q p) plan.kinds (prog p)) (hp : p < n) :
    Stage plan n p (Q p) (net.nodes p).history (net.nodes p).activity.prog :=
  stage_of_steps hprog (h.sound p hp).runs (h.sound p hp).succeeds

variable [TypeIds St]

/-- No step is possible. -/
def AtRest (n : UInt16) (start : PartyIndex → Node St IoErr M A) (net : Network St IoErr M A) :
    Prop :=
  ∀ e net', ¬ (network n start).step net e net'

theorem atRest_of_finished
    (h : ∀ p < n, ∃ a, (net.nodes p).activity = .running (.ret a)) : AtRest n start net := by
  intro e net' hstep
  cases e with
  | acts p loopback =>
    obtain ⟨hp,node,out,hact,_⟩ := hstep
    obtain ⟨a,ha⟩ := h p hp
    rw [Node.act,ha] at hact
    cases hact
  | delivers packet id =>
    obtain ⟨hp,before,after,node,_,hread,_⟩ := hstep
    obtain ⟨a,ha⟩ := h _ hp
    rw [Node.read,ha] at hread
    cases hread

/-- At rest a party has finished, or it waits in a round in which it has announced its message. -/
theorem FaultFree.rests (h : FaultFree plan n l0 prog net) (ha : Arranged plan n l0 prog start)
    (hprog : InTurn plan n p (Q p) plan.kinds (prog p)) (hrest : AtRest n start net) (hp : p < n) :
    (∃ a, (net.nodes p).activity = .running (.ret a) ∧ Q p a ∧
      List.Forall₂ (Announces plan p) plan.kinds (net.nodes p).sent) ∨
    ∃ done k ks cont, plan.kinds = done ++ k :: ks ∧
      (net.nodes p).activity = .reading k cont ∧
      List.Forall₂ (Announces plan p) (done ++ [k]) (net.nodes p).sent := by
  have hstage := h.stage hprog hp
  cases hact : (net.nodes p).activity with
  | running q =>
    rw [hact] at hstage
    cases q with
    | ret a =>
      cases hstage with
      | between done hkinds hann _ hturn =>
        cases hturn with
        | done hq =>
          rw [List.append_nil] at hkinds
          rw [hkinds]
          exact .inl ⟨a,rfl,hq,hann⟩
    | call c cont =>
      obtain ⟨node,out,hstep,_⟩ := h.act ha hp hact
      exact absurd ⟨hp,node,out,hstep,rfl⟩ (hrest (.acts p false) _)
    | throw x =>
      cases hstage with
      | between _ _ _ _ hturn => cases hturn
  | reading k cont =>
    rw [hact] at hstage
    cases hstage with
    | between _ _ _ _ hturn => cases hturn
    | @within done ks _ _ hkinds hann _ _ => exact .inr ⟨done,k,ks,cont,hkinds,rfl,hann⟩

variable [∀ k, RefusesUnchanged M (RoundInfo.Msg (St k))]

/-- The party does not panic, whatever it does next, and if it has finished, then as it should. -/
structure Unfailing (net : Network St IoErr M A) (p : PartyIndex) (Q : A → Prop) : Prop where
  acts : ∀ panic, (net.nodes p).act ≠ some (.error panic)
  reads : ∀ packet ∈ net.inFlight, packet.recipient = p → ∀ id panic,
    (net.nodes p).read (packet.incoming id) ≠ some (.error panic)
  throws : ∀ panic, (net.nodes p).activity ≠ .running (.throw panic)
  returns : ∀ a, (net.nodes p).activity = .running (.ret a) → Q a

theorem FaultFree.unfailing (h : FaultFree plan n l0 prog net) (ha : Arranged plan n l0 prog start)
    (hprog : InTurn plan n p (Q p) plan.kinds (prog p)) (hp : p < n) :
    Unfailing net p (Q p) := by
  have hstage := h.stage hprog hp
  refine ⟨fun panic hact => ?_,fun packet hmem hrecipient id panic hread => ?_,
    fun panic hthrow => ?_,fun a hret => ?_⟩
  · cases hrun : (net.nodes p).activity with
    | reading k cont =>
      simp only [Node.act,hrun] at hact
      cases hact
    | running q =>
      cases q with
      | call c cont =>
        obtain ⟨node,out,hok,_⟩ := h.act ha hp hrun
        rw [hok] at hact
        cases hact
      | ret a =>
        simp only [Node.act,hrun] at hact
        cases hact
      | throw x =>
        simp only [Node.act,hrun] at hact
        cases hact
  · subst hrecipient
    cases hrun : (net.nodes packet.recipient).activity with
    | running q =>
      simp only [Node.read,hrun] at hread
      cases hread
    | reading k cont =>
      obtain ⟨node,hok,_⟩ := h.read ha hmem hp id hrun
      rw [hok] at hread
      cases hread
  · rw [hthrow] at hstage
    cases hstage with
    | between _ _ _ _ hturn => cases hturn
  · rw [hret] at hstage
    cases hstage with
    | between _ _ _ _ hturn =>
      cases hturn with
      | done hq => exact hq

/-- What another party announced in a round was read, or could be read now. -/
theorem FaultFree.not_announced (h : FaultFree plan n l0 prog net) (ha : Arranged plan n l0 prog start)
    (hrest : AtRest n start net) (hp : p < n) {k i : ι}
    {cont : RoundResult (St i) IoErr → NodeProg St IoErr M A}
    (hact : (net.nodes p).activity = .reading i cont) {j : PartyIndex} (hj : Others p n j)
    (hmissing : ∀ msg ∈ (net.nodes p).received, msg.sender = j →
      round msg.msg ≠ .ok (roundOf M St k)) {o : Outgoing M} (ho : o ∈ (net.nodes j).sent) :
    ¬ Announces plan j k o := by
  intro hann
  obtain ⟨reliable,hrecipient⟩ := hann.recipient
  have hreach : o.recipient.reaches p = true := by rw [hrecipient]; rfl
  have hmem : (o.recipient.msgType,o.msg) ∈ addressed p (net.nodes j).sent :=
    List.mem_map_of_mem (f := fun o : Outgoing M => (o.recipient.msgType,o.msg))
      (List.mem_filter.mpr ⟨ho,hreach⟩)
  have hacc := ((h.accounts p j).perm hp (Ne.symm hj.2)).mem_iff.mpr hmem
  rcases List.mem_append.mp hacc with hread | hflight
  · obtain ⟨msg,hmsg,heq⟩ := List.mem_map.mp hread
    obtain ⟨hreceived,hsender⟩ := List.mem_filter.mp hmsg
    apply hmissing msg hreceived (by simpa using hsender)
    rw [(Prod.mk.inj heq).2]
    exact hann.round_eq
  · obtain ⟨packet,hpacket,_⟩ := List.mem_map.mp hflight
    obtain ⟨hfly,hpj⟩ := List.mem_filter.mp hpacket
    have hrecip : packet.recipient = p := (of_decide_eq_true hpj).1
    subst hrecip
    obtain ⟨before,after,hsplit⟩ := List.append_of_mem hfly
    obtain ⟨node,hread,_⟩ := h.read ha hfly hp 0 hact
    exact hrest (.delivers packet 0) _ ⟨hp,before,after,node,hsplit,hread,rfl⟩

/-- At rest all parties have finished: of those that wait, take one in the earliest round. -/
theorem FaultFree.finished (h : FaultFree plan n l0 prog net) (ha : Arranged plan n l0 prog start)
    (hprog : ∀ p < n, InTurn plan n p (Q p) plan.kinds (prog p)) (hrest : AtRest n start net)
    (hp : p < n) : ∃ a, (net.nodes p).activity = .running (.ret a) ∧ Q p a := by
  have hnone : ∀ m, ∀ p < n, ∀ done k ks cont, plan.kinds = done ++ k :: ks →
      (net.nodes p).activity = .reading k cont → done.length = m → False := by
    intro m
    induction m using Nat.strong_induction_on with
    | _ m ih =>
      intro p hp done k ks cont hkinds hact hm
      obtain ⟨j,hj,hmissing⟩ := (h.sound p hp).waits k cont hact
      -- party `j` has announced its message of the round, since it is at least as far
      have hann : ∃ ks', k ∈ ks' ∧ List.Forall₂ (Announces plan j) ks' (net.nodes j).sent := by
        rcases h.rests ha (hprog j hj.1) hrest hj.1 with
          ⟨_,_,_,hann⟩ | ⟨done',k',ks',cont',hkinds',hact',hann⟩
        · exact ⟨_,by rw [hkinds]; simp,hann⟩
        · refine ⟨_,?_,hann⟩
          have hle : m ≤ done'.length := by
            by_contra hlt
            exact ih _ (by omega) j hj.1 done' k' ks' cont' hkinds' hact' rfl
          have hlt : done.length < (done' ++ [k']).length := by
            rw [List.length_append,List.length_singleton]
            omega
          have hget : (done' ++ [k'])[done.length]? = plan.kinds[done.length]? := by
            have hfirst : plan.kinds = (done' ++ [k']) ++ ks' := by simp [hkinds']
            rw [hfirst,List.getElem?_append_left hlt]
          have hk : plan.kinds[done.length]? = some k := by simp [hkinds]
          exact List.mem_of_getElem? (hget.trans hk)
      obtain ⟨ks',hk,hann⟩ := hann
      obtain ⟨o,ho,hok⟩ := partner_of_forall₂ hann hk
      exact h.not_announced ha hrest hp hact hj hmissing ho hok
  rcases h.rests ha (hprog p hp) hrest hp with ⟨a,hact,hq,_⟩ | ⟨done,k,ks,cont,hkinds,hact,_⟩
  · exact ⟨a,hact,hq⟩
  · exact absurd rfl (hnone done.length p hp done k ks cont hkinds hact)

end Rest

end RoundBased
