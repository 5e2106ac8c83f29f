import RoundBased.AsyncNetwork

/-! The asynchronous simulation of programs that take the rounds in turn: with room for all messages
it comes to its end, with the outputs it should have. -/
namespace RoundBased
namespace AsyncEnv
open Interaction RoundsRouter Transition

/-! Programs that take the rounds in turn send so few messages that the buffer can hold them all. -/
section Progress

variable {ι C M A : Type} {St : ι → Type} [∀ k, RoundStore (St k)]
  [BroadcastChannel C (Outgoing (Incoming M))] [PolledChannel C] {capacity : ℕ}
  {ch : Retains C (Outgoing (Incoming M)) capacity} {n p : UInt16} [ProtocolMsg M]
  [∀ k, RoundMsg M (RoundInfo.Msg (St k))] [TypeIds St] {env0 env env' : Env C St M A}
  {net : RoundBased.Network St MockedDeliveryError M A}
  {start : PartyIndex → Node St MockedDeliveryError M A}

omit [ProtocolMsg M] [∀ k, RoundMsg M (RoundInfo.Msg (St k))] [TypeIds St] in
theorem Carries.connected (h : Carries ch n env net) (hp : p < n) :
    ∃ incoming outgoing, env.deliveries[p.toNat]? = some (incoming,outgoing) := by
  have hlt : p.toNat < env.deliveries.length := by
    rw [h.length]
    exact UInt16.lt_iff_toNat_lt.mp hp
  exact ⟨_,_,List.getElem?_eq_getElem hlt⟩

omit [PolledChannel C] [ProtocolMsg M] in
theorem Env.act_isSome {d : MockedDelivery (Receiver C)} (hd : env.deliveries[p.toNat]? = some d)
    {r : Checked (Node St MockedDeliveryError M A × List (Outgoing M))}
    (h : (env.nodes p).act = some r) : ∃ res, env.act p = some res := by
  cases hact : (env.nodes p).activity with
  | reading k cont =>
    rw [Node.act,hact] at h
    cases h
  | running prog =>
    cases prog with
    | ret a =>
      rw [Node.act,hact] at h
      cases h
    | throw x =>
      rw [Node.act,hact] at h
      cases h
    | call c cont =>
      have hsome : (env.act p).isSome = true := by cases c <;> simp [Env.act,hd,hact]
      exact Option.isSome_iff_exists.mp hsome

theorem Carries.yields (h : Carries ch n env net)
    (hcap : (ch.items env.network.channel).length ≤ capacity)
    {incoming : MockedIncoming (Receiver C)} {outgoing : MockedOutgoing}
    (hd : env.deliveries[p.toNat]? = some (incoming,outgoing)) {k : ι}
    {cont : RoundResult (St k) MockedDeliveryError → NodeProg St MockedDeliveryError M A}
    (hact : (env.nodes p).activity = .reading k cont)
    (hread : ∀ msg : Incoming M, msg.packetTo p ∈ net.inFlight →
      ∃ node, (env.nodes p).read msg = some (.ok node))
    (hy : Yields env.network.channel incoming) :
    ∃ es env' e net', Run (joined env0) env es env' ∧
      (RoundBased.network n start).step net e net' ∧ Carries ch n env' net' := by
  obtain ⟨mid,self',fuel,msg,hpends,hpoll⟩ := hy
  generalize hch : env.network.channel = channel at hpends hpoll
  induction hpends generalizing env with
  | refl =>
    subst hch
    obtain ⟨node,hnode⟩ := hread msg (h.mem_inFlight hd hcap hpoll)
    obtain ⟨before,after,hflight,hcarries⟩ := h.hears hd hcap hpoll hnode
    have hstep : env.poll fuel p = some (.ok (Env.setNode
        { env with deliveries := env.deliveries.set p.toNat (self',outgoing) } p node)) := by
      simp only [Env.poll,hd,hact,hpoll,hnode]
      rfl
    rw [← h.nodes] at hnode
    exact ⟨[.polls p fuel],_,.delivers (msg.packetTo p) msg.id,_,.snoc .refl hstep,
      ⟨h.lt hd,before,after,node,hflight,hnode,rfl⟩,hcarries⟩
  | @step self first _ fuel' hfirst _ ih =>
    subst hch
    let env1 : Env C St M A :=
      { env with deliveries := env.deliveries.set p.toNat (first,outgoing) }
    have hstep : env.poll fuel' p = some (.ok env1) := by
      simp only [Env.poll,hd,hact,hfirst]
      rfl
    have hlt := (List.getElem?_eq_some_iff.mp hd).1
    have hd1 : env1.deliveries[p.toNat]? = some (first,outgoing) := List.getElem?_set_self hlt
    obtain ⟨es,env2,e,net',hrun,hnet,hcarries⟩ :=
      ih (h.pends hd hcap hfirst) hcap hd1 hact hread rfl hpoll
    exact ⟨[.polls p fuel'] ++ es,env2,e,net',(Run.snoc .refl hstep).append hrun,hnet,hcarries⟩

variable [∀ k, RefusesUnchanged M (RoundInfo.Msg (St k))] {plan : Plan St}
  {Q : PartyIndex → A → Prop} {l0 : PartyIndex → Ledger M St}
  {prog : PartyIndex → NodeProg St MockedDeliveryError M A}

theorem Carries.progress (env0 : Env C St M A) (h : Carries ch n env net)
    (hff : FaultFree plan n l0 prog net) (ha : Arranged plan n l0 prog start) (hcap : (ch.items env.network.channel).length ≤ capacity)
    (hrest : ¬ AtRest n start net) : ∃ es env' e net', Run (joined env0) env es env' ∧
      (RoundBased.network n start).step net e net' ∧ Carries ch n env' net' := by
  simp only [AtRest,not_forall,not_not] at hrest
  obtain ⟨e,net',hstep⟩ := hrest
  cases e with
  | acts p loopback =>
    obtain ⟨hp,node,out,hact,_⟩ := hstep
    obtain ⟨incoming,outgoing,hd⟩ := h.connected hp
    rw [h.nodes] at hact
    obtain ⟨res,hres⟩ := Env.act_isSome hd hact
    have hok : ∃ env', res = .ok env' := by
      obtain ⟨incoming',outgoing',hd',hcases⟩ := Env.act_cases hres
      rcases hcases with ⟨msg,node',hact',henv⟩ | ⟨r,hact',hres',_⟩
      · exact ⟨_,henv (h.sends hd' hact').1⟩
      · rw [hact] at hact'
        cases hact'
        exact ⟨_,hres'⟩
    obtain ⟨env',rfl⟩ := hok
    obtain ⟨net'',hnet,hcarries⟩ := h.act_step start hres
    exact ⟨[.acts p],env',_,net'',.snoc .refl hres,hnet,hcarries⟩
  | delivers packet id =>
    obtain ⟨hp,before,after,node,hflight,hread,_⟩ := hstep
    obtain ⟨k,cont,_,hact,_⟩ := Node.read_cases hread
    obtain ⟨incoming,outgoing,hd⟩ := h.connected hp
    obtain ⟨_,_,_,hperm⟩ := h.delivery _ _ _ hd
    -- the packet is still to be heard
    have hmem : packet ∈ net.inFlight.filter fun x => x.recipient = packet.recipient := by
      rw [hflight]
      simp
    have hunheard : unheard ch env.network.channel incoming ≠ [] := by
      intro hnil
      rw [hnil,List.map_nil] at hperm
      rw [hperm.eq_nil] at hmem
      cases hmem
    have hreads : ∀ msg : Incoming M, msg.packetTo packet.recipient ∈ net.inFlight →
        ∃ node, (env.nodes packet.recipient).read msg = some (.ok node) := by
      intro msg hmsg
      obtain ⟨node,hnode,_⟩ := hff.read ha hmsg hp msg.id hact
      rw [h.nodes] at hnode
      exact ⟨node,hnode⟩
    rw [h.nodes] at hact
    exact h.yields hcap hd hact hreads (yields_of_unheard hcap hunheard)

omit [TypeIds St] [∀ k, RefusesUnchanged M (RoundInfo.Msg (St k))] in
theorem sentCount_le (hff : FaultFree plan n l0 prog net)
    (hprog : ∀ p < n, InTurn plan n p (Q p) plan.kinds (prog p)) :
    sentCount n net.nodes ≤ n.toNat * plan.kinds.length := by
  have hparty : ∀ p ∈ (partiesOf n).toFinset, (net.nodes p).sent.length ≤ plan.kinds.length := by
    intro p hp
    have hp := mem_partiesOf.mp (List.mem_toFinset.mp hp)
    exact (hff.stage (hprog p hp) hp).sent_le
  have hsum := Finset.sum_le_card_nsmul _ _ _ hparty
  rwa [card_partiesOf,Nat.nsmul_eq_mul] at hsum

end Progress

/-! The outputs of all parties. -/
section Joined

section MapM

variable {α β : Type} {f : α → Option β} {l : List α}

theorem mapM_eq_some {ys : List β} :
    l.mapM f = some ys ↔ l.map f = ys.map some := by
  induction l generalizing ys with
  | nil => cases ys <;> simp
  | cons x l ih =>
    rw [List.mapM_cons,List.map_cons]
    cases hx : f x with
    | none => cases ys <;> simp
    | some y =>
      cases ys with
      | nil => cases hl : l.mapM f <;> simp
      | cons z zs =>
        cases hl : l.mapM f with
        | none =>
          have hne : l.map f ≠ zs.map some := fun he => by
            have hs := ih.mpr he
            rw [hl] at hs
            cases hs
          simp [hne]
        | some ws =>
          have hiff : l.mapM f = some zs ↔ l.map f = zs.map some := ih
          rw [hl] at hiff
          simp [← hiff]

theorem exists_map_some (h : ∀ x ∈ l, ∃ y, f x = some y) :
    ∃ ys : List β, l.map f = ys.map some := by
  induction l with
  | nil => exact ⟨[],rfl⟩
  | cons x l ih =>
    obtain ⟨ys,hys⟩ := ih fun z hz => h z (List.mem_cons_of_mem _ hz)
    obtain ⟨y,hy⟩ := h x (List.mem_cons_self ..)
    exact ⟨y :: ys,by rw [List.map_cons,List.map_cons,hys,hy]⟩

end MapM

variable {ι C M A : Type} {St : ι → Type} [∀ k, RoundStore (St k)]
  [BroadcastChannel C (Outgoing (Incoming M))] {n : UInt16}

/-- The outputs of the parties, once all of them have returned. -/
def Env.joinAll (n : UInt16) (self : Env C St M A) : Option (List A) :=
  (partiesOf n).mapM fun p =>
    match (self.nodes p).activity with
    | .running (.ret a) => some a
    | _ => none

variable {env : Env C St M A} {outs : List A}

theorem joinAll_get (h : env.joinAll n = some outs) : outs.length = n.toNat ∧
    ∀ p < n, ∃ out, outs[p.toNat]? = some out ∧ (env.nodes p).activity = .running (.ret out) := by
  have hmap := mapM_eq_some.mp h
  constructor
  · have hlen := congrArg List.length hmap
    rw [List.length_map,List.length_map,partiesOf,List.length_map,List.length_range] at hlen
    exact hlen.symm
  · intro p hp
    have hget := congrArg (fun l => l[p.toNat]?) hmap
    simp only [partiesOf,List.getElem?_map,List.getElem?_range (UInt16.lt_iff_toNat_lt.mp hp),
      Option.map_some,UInt16.ofNat_toNat] at hget
    cases hout : outs[p.toNat]? with
    | none =>
      rw [hout] at hget
      cases hget
    | some out =>
      rw [hout] at hget
      refine ⟨out,rfl,?_⟩
      have hret := Option.some.inj hget
      split at hret
      · rename_i a hact
        cases hret
        exact hact
      · cases hret

theorem joinAll_isSome (h : ∀ p < n, ∃ a, (env.nodes p).activity = .running (.ret a)) :
    ∃ outs, env.joinAll n = some outs := by
  let output (p : PartyIndex) : Option A :=
    match (env.nodes p).activity with
    | .running (.ret a) => some a
    | _ => none
  have hall : ∀ p ∈ partiesOf n, ∃ a, output p = some a := by
    intro p hp
    obtain ⟨a,ha⟩ := h p (mem_partiesOf.mp hp)
    refine ⟨a,?_⟩
    simp only [output,ha]
  obtain ⟨outs,houts⟩ := exists_map_some hall
  exact ⟨outs,mapM_eq_some.mpr houts⟩

end Joined

/-- However the parties are polled nobody panics, the outputs are good once all have returned, and
all parties can still be polled until they have. -/
def Concludes {ι C M A : Type} {St : ι → Type} [∀ k, RoundStore (St k)]
    [BroadcastChannel C (Outgoing (Incoming M))] [PolledChannel C] [ProtocolMsg M]
    [∀ k, RoundMsg M (RoundInfo.Msg (St k))] [TypeIds St] (n : UInt16) (Good : List A → Prop)
    (env0 : Env C St M A) : Prop :=
  ∀ es env, Run (joined env0) env0 es env →
    (∀ p panic, env.act p ≠ some (.error panic) ∧ ∀ fuel, env.poll fuel p ≠ some (.error panic)) ∧
    (∀ outs, env.joinAll n = some outs → Good outs) ∧
    ∃ more env' outs, Run (joined env0) env more env' ∧ env'.joinAll n = some outs

section Complete

variable {ι C M A : Type} {St : ι → Type} [∀ k, RoundStore (St k)]
  [BroadcastChannel C (Outgoing (Incoming M))] [PolledChannel C] {capacity : ℕ}
  {n : UInt16} [ProtocolMsg M]
  [∀ k, RoundMsg M (RoundInfo.Msg (St k))] [TypeIds St]
  [∀ k, RefusesUnchanged M (RoundInfo.Msg (St k))]
  {plan : Plan St} {Q : PartyIndex → A → Prop} {l0 : PartyIndex → Ledger M St}
  {prog : PartyIndex → NodeProg St MockedDeliveryError M A}
  {start : PartyIndex → Node St MockedDeliveryError M A} {env0 env : Env C St M A}

/-- A point of a run. -/
def Polled (ch : Retains C (Outgoing (Incoming M)) capacity) (n : UInt16)
    (start : PartyIndex → Node St MockedDeliveryError M A) (env : Env C St M A) : Prop :=
  ∃ net, (RoundBased.network n start).Reachable net ∧ Carries ch n env net

variable {ch : Retains C (Outgoing (Incoming M)) capacity}

/-- The buffer is never full. -/
theorem roomy (ha : Arranged plan n l0 prog start)
    (hprog : ∀ p < n, InTurn plan n p (Q p) plan.kinds (prog p))
    (hroom : n.toNat * plan.kinds.length ≤ capacity)
    {net : RoundBased.Network St MockedDeliveryError M A}
    (hreach : (RoundBased.network n start).Reachable net) (h : Carries ch n env net) :
    (ch.items env.network.channel).length ≤ capacity := by
  have hle := sentCount_le (faultFree_of_reachable ha hreach) hprog
  rw [h.nodes] at hle
  exact h.count.le.trans (hle.trans hroom)

theorem Polled.run (h : Polled ch n start env) (ha : Arranged plan n l0 prog start)
    (hprog : ∀ p < n, InTurn plan n p (Q p) plan.kinds (prog p))
    (hroom : n.toNat * plan.kinds.length ≤ capacity) {env' : Env C St M A} {es : List EnvEvent}
    (hrun : Run (joined env0) env es env') : Polled ch n start env' := by
  refine hrun.preserves (fun env e env' hpolled hs => ?_) h
  obtain ⟨net,hreach,hcarries⟩ := hpolled
  obtain ⟨es',net',hrun',hcarries'⟩ :=
    hcarries.step start (roomy ha hprog hroom hreach hcarries) hs
  obtain ⟨es0,hrun0⟩ := hreach
  exact ⟨net',⟨es0 ++ es',hrun0.append hrun'⟩,hcarries'⟩

theorem Polled.unfailing (h : Polled ch n start env) (ha : Arranged plan n l0 prog start)
    (hprog : ∀ p < n, InTurn plan n p (Q p) plan.kinds (prog p))
    (hroom : n.toNat * plan.kinds.length ≤ capacity) (p : PartyIndex) (panic : Panic) :
    env.act p ≠ some (.error panic) ∧ ∀ fuel, env.poll fuel p ≠ some (.error panic) := by
  obtain ⟨net,hreach,hcarries⟩ := h
  have hff := faultFree_of_reachable ha hreach
  constructor
  · intro hact
    obtain ⟨incoming,outgoing,hd,⟨msg,node,hsend,henv⟩ | ⟨r,hr,hres,_⟩⟩ := Env.act_cases hact
    · cases henv (hcarries.sends hd hsend).1
    · have hp := hcarries.lt hd
      cases r with
      | ok r => cases hres
      | error x =>
        rw [← hcarries.nodes] at hr
        exact (hff.unfailing ha (hprog p hp) hp).acts x hr
  · intro fuel hpoll
    rcases hcarries.poll_cases (roomy ha hprog hroom hreach hcarries) hpoll with
      ⟨_,henv,_⟩ | ⟨hp,msg,hmem,r,hread,_,hok⟩
    · cases henv
    · cases r with
      | ok node =>
        obtain ⟨_,_,_,henv,_⟩ := hok node rfl
        cases henv
      | error x =>
        rw [← hcarries.nodes] at hread
        exact (hff.unfailing ha (hprog p hp) hp).reads _ hmem rfl msg.id x hread

/-- By induction on what is left to do in the network. -/
theorem Polled.finishes (h : Polled ch n start env) (ha : Arranged plan n l0 prog start)
    (hprog : ∀ p < n, InTurn plan n p (Q p) plan.kinds (prog p))
    (hroom : n.toNat * plan.kinds.length ≤ capacity) :
    ∃ more env' outs, Run (joined env0) env more env' ∧ env'.joinAll n = some outs := by
  obtain ⟨net,hreach,hcarries⟩ := h
  generalize hm : net.remaining (2 * plan.kinds.length) n = m
  induction m using Nat.strongRecOn generalizing env net with
  | _ m ih =>
    have hff := faultFree_of_reachable ha hreach
    by_cases hrest : AtRest n start net
    · have hall : ∀ p < n, ∃ a, (env.nodes p).activity = .running (.ret a) := by
        intro p hp
        obtain ⟨a,hret,_⟩ := hff.finished ha hprog hrest hp
        rw [hcarries.nodes] at hret
        exact ⟨a,hret⟩
      obtain ⟨outs,houts⟩ := joinAll_isSome hall
      exact ⟨[],env,outs,.refl,houts⟩
    · obtain ⟨es,env1,e,net1,hrun,hstep,hcarries1⟩ := hcarries.progress env0 hff ha
        (roomy ha hprog hroom hreach hcarries) hrest
      have hlt := (decreases_of_inTurn ha hprog).lt _ _ _ hff hstep
      obtain ⟨more,env',outs,hrun',houts⟩ :=
        ih _ (hm ▸ hlt) net1 (hreach.next hstep) hcarries1 rfl
      exact ⟨es ++ more,env',outs,hrun.append hrun',houts⟩

theorem Polled.outputs (h : Polled ch n start env) (ha : Arranged plan n l0 prog start)
    (hprog : ∀ p < n, InTurn plan n p (Q p) plan.kinds (prog p)) {outs : List A}
    (houts : env.joinAll n = some outs) :
    outs.length = n.toNat ∧ ∀ p < n, ∃ out, outs[p.toNat]? = some out ∧ Q p out := by
  obtain ⟨net,hreach,hnet⟩ := h
  have hff := faultFree_of_reachable ha hreach
  obtain ⟨hlen,hall⟩ := joinAll_get houts
  refine ⟨hlen,fun p hp => ?_⟩
  obtain ⟨out,hout,hret⟩ := hall p hp
  rw [← hnet.nodes] at hret
  exact ⟨out,hout,(hff.unfailing ha (hprog p hp) hp).returns out hret⟩

theorem Polled.concludes (h : Polled ch n start env0) (ha : Arranged plan n l0 prog start)
    (hprog : ∀ p < n, InTurn plan n p (Q p) plan.kinds (prog p))
    (hroom : n.toNat * plan.kinds.length ≤ capacity) {Good : List A → Prop}
    (hgood : ∀ outs, outs.length = n.toNat → (∀ p < n, ∃ out, outs[p.toNat]? = some out ∧ Q p out) →
      Good outs) : Concludes n Good env0 := by
  intro es env hrun
  have hpolled := h.run ha hprog hroom hrun
  refine ⟨hpolled.unfailing ha hprog hroom,fun outs houts => ?_,hpolled.finishes ha hprog hroom⟩
  obtain ⟨hlen,hall⟩ := hpolled.outputs ha hprog houts
  exact hgood outs hlen hall

variable [Build] {channel : C}

omit [∀ k, RefusesUnchanged M (RoundInfo.Msg (St k))] in
theorem polled_connected (hempty : ch.items channel = []) (ha : Arranged plan n l0 prog start) :
    ∃ env0, Env.connected n channel start = .ok env0 ∧ Polled ch n start env0 := by
  obtain ⟨env0,hconnect,hcarries⟩ :=
    carries_connected (n := n) start hempty fun p => (ha.idle p).2
  exact ⟨env0,hconnect,_,(RoundBased.network n start).reachable_init,hcarries⟩

end Complete

end AsyncEnv

namespace RandomGeneration
open AsyncEnv Interaction Transition

end RandomGeneration
end RoundBased
