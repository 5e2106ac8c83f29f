import Mathlib.Algebra.Order.BigOperators.Group.Finset
import RoundBased.Lockstep
import RoundBased.SimulationProgress
import RoundBased.SimulationRefinement

/-! The synchronous simulation of programs that take the rounds in turn returns, with the outputs they
should have. -/
namespace RoundBased
open Interaction RoundsRouter Transition Simulation

variable {ι M A IoErr : Type} {St : ι → Type} [∀ k, RoundStore (St k)]

/-! How many calls such a program makes. -/
section Calls

/-- Sends a message or completes a round. -/
def Plain (e : NodeEvent St IoErr M) : Prop :=
  (∃ o, e = ⟨.send o,.ok ()⟩) ∨ ∃ k r, e = ⟨.complete k,r⟩

theorem length_of_plain {t : List (NodeEvent St IoErr M)} (h : ∀ e ∈ t, Plain e) :
    t.length = (t.filterMap sentBy).length + (completedIn t).length := by
  induction t with
  | nil => rfl
  | cons e t ih =>
    have hrest := ih fun x hx => h x (List.mem_cons_of_mem _ hx)
    rcases h e (List.mem_cons_self ..) with ⟨o,rfl⟩ | ⟨k,r,rfl⟩
    · have hsent : (⟨.send o,.ok ()⟩ :: t : List (NodeEvent St IoErr M)).filterMap sentBy =
          o :: t.filterMap sentBy := rfl
      have hdone : completedIn (⟨.send o,.ok ()⟩ :: t : List (NodeEvent St IoErr M)) =
          completedIn t := rfl
      rw [hsent,hdone,List.length_cons,List.length_cons,hrest]
      omega
    · have hsent : (⟨.complete k,r⟩ :: t : List (NodeEvent St IoErr M)).filterMap sentBy =
          t.filterMap sentBy := rfl
      have hdone : completedIn (⟨.complete k,r⟩ :: t : List (NodeEvent St IoErr M)) =
          k :: completedIn t := rfl
      rw [hsent,hdone,List.length_cons,List.length_cons,hrest]
      omega

variable [∀ k, RoundMsg M (RoundInfo.Msg (St k))] [ProtocolMsg M] {plan : Plan St} {n p : UInt16}
  {Q : A → Prop} {t : List (NodeEvent St IoErr M)} {prog q : NodeProg St IoErr M A}

theorem plain_of_steps (hprog : InTurn plan n p Q plan.kinds prog) (h : Steps prog t q)
    (hs : ∀ e ∈ t, Succeeds plan n p e) : ∀ e ∈ t, Plain e := by
  suffices hinv : Steps prog t q ∧ ((∀ e ∈ t, Succeeds plan n p e) → ∀ e ∈ t, Plain e) from
    hinv.2 hs
  apply h.invariant (P := fun t q => Steps prog t q ∧
    ((∀ e ∈ t, Succeeds plan n p e) → ∀ e ∈ t, Plain e))
  · exact ⟨.refl,fun _ e he => by cases he⟩
  · rintro t c cont r ⟨hsteps,ih⟩
    refine ⟨hsteps.snoc r,fun hs e he => ?_⟩
    have ht : ∀ e ∈ t, Succeeds plan n p e := fun e he => hs e (List.mem_append_left _ he)
    rcases List.mem_append.mp he with he | he
    · exact ih ht e he
    · have hr := hs e (List.mem_append_right _ he)
      rw [List.mem_singleton.mp he] at hr ⊢
      cases stage_of_steps hprog hsteps ht with
      | between _ _ _ _ hturn =>
        cases hturn with
        | round =>
          cases hr
          exact .inl ⟨_,rfl⟩
      | within => exact .inr ⟨_,_,rfl⟩

theorem Stage.calls_le (h : Stage plan n p Q t q) :
    (t.filterMap sentBy).length + (completedIn t).length ≤ 2 * plan.kinds.length := by
  cases h with
  | between done hkinds hann hcomp _ =>
    rw [← hann.length_eq,hcomp,hkinds,List.length_append]
    omega
  | within hkinds hann hcomp _ =>
    have hlen := hann.length_eq
    rw [List.length_append,List.length_singleton] at hlen
    rw [← hlen,hcomp,hkinds,List.length_append,List.length_cons]
    omega

theorem Stage.sent_le (h : Stage plan n p Q t q) :
    (t.filterMap sentBy).length ≤ plan.kinds.length := by
  cases h with
  | between done hkinds hann _ _ =>
    rw [← hann.length_eq,hkinds,List.length_append]
    omega
  | within hkinds hann _ _ =>
    have hlen := hann.length_eq
    rw [List.length_append,List.length_singleton] at hlen
    rw [← hlen,hkinds,List.length_append,List.length_cons]
    omega

theorem Stage.announced (h : Stage plan n p Q t q) :
    ∃ ks, List.Forall₂ (Announces plan p) ks (t.filterMap sentBy) := by
  cases h with
  | between done _ hann _ _ => exact ⟨done,hann⟩
  | within _ hann _ _ => exact ⟨_,hann⟩

omit [ProtocolMsg M] in
theorem Plan.Distinct.length_le (hd : plan.Distinct M) (hnodup : plan.kinds.Nodup) :
    plan.kinds.length ≤ 65536 := by
  have hmap : (plan.kinds.map fun k => (roundOf M St k).toNat).Nodup :=
    hnodup.map_on fun j hj k hk he => hd j hj k hk (UInt16.toNat_inj.mp he)
  have hsub : (plan.kinds.map fun k => (roundOf M St k).toNat) ⊆ List.range 65536 := by
    intro x hx
    obtain ⟨k,_,rfl⟩ := List.mem_map.mp hx
    exact List.mem_range.mpr (roundOf M St k).toNat_lt
  have hle := (hmap.subperm hsub).length_le
  rwa [List.length_map,List.length_range] at hle

end Calls

variable [ProtocolMsg M] [∀ k, RoundMsg M (RoundInfo.Msg (St k))]

section Honest

variable {plan : Plan St} {n p : UInt16} {Q : PartyIndex → A → Prop}
  {l0 : PartyIndex → Ledger M St} {prog : PartyIndex → NodeProg St IoErr M A}
  {net : Network St IoErr M A}

theorem FaultFree.plain (h : FaultFree plan n l0 prog net)
    (hprog : ∀ p < n, InTurn plan n p (Q p) plan.kinds (prog p)) (p : PartyIndex) :
    ∀ e ∈ (net.nodes p).history, Plain e := by
  by_cases hp : p < n
  · exact plain_of_steps (hprog p hp) (h.sound p hp).runs (h.sound p hp).succeeds
  · rw [h.outside p hp]
    exact fun e he => by cases he

theorem FaultFree.history_le (h : FaultFree plan n l0 prog net)
    (hprog : ∀ p < n, InTurn plan n p (Q p) plan.kinds (prog p)) (hp : p < n) :
    (net.nodes p).history.length ≤ 2 * plan.kinds.length := by
  rw [length_of_plain (h.plain hprog p)]
  exact (h.stage (hprog p hp) hp).calls_le

theorem FaultFree.broadcasts (h : FaultFree plan n l0 prog net)
    (hprog : ∀ p < n, InTurn plan n p (Q p) plan.kinds (prog p)) (hp : p < n) {o : Outgoing M}
    (ho : o ∈ (net.nodes p).sent) : ∃ reliable, o.recipient = .allParties reliable := by
  obtain ⟨ks,hann⟩ := (h.stage (hprog p hp) hp).announced
  obtain ⟨k,_,hk⟩ := partner_of_forall₂ hann.flip ho
  exact hk.recipient

end Honest

/-! Rounds that are registered as round inputs. -/
section Inputs

variable {T : ι → Type} [∀ k, RoundMsg M (RoundInfo.Msg (RoundInput (T k)))] {n : UInt16} {kinds : List ι} {types : ι → MessageType}
  {routers : PartyIndex → RoundsRouter M fun k => RoundInput (T k)}

theorem arranged_of_addInputs
    {prog : PartyIndex → NodeProg (fun k => RoundInput (T k)) IoErr M A}
    (hrouters : ∀ p < n, addInputs p n types kinds .new = .ok (routers p))
    (horderly : ∀ p < n, Orderly (inputs n kinds types) n p (prog p)) :
    ∃ l0, Arranged (inputs n kinds types) n l0 prog fun p => Node.start (routers p) (prog p) := by
  have hledgers : ∀ p, ∃ l : Ledger M fun k => RoundInput (T k), p < n → routers p = l.router ∧
      Prepared (inputs n kinds types) n p l := by
    intro p
    by_cases hp : p < n
    · obtain ⟨l,hl⟩ := prepared_of_addInputs (hrouters p hp)
      exact ⟨l,fun _ => hl⟩
    · exact ⟨.empty,fun hc => absurd hc hp⟩
  choose l0 hl0 using hledgers
  exact ⟨l0,fun p => ⟨rfl,rfl⟩,fun p hp => by rw [(hl0 p hp).1],fun p hp => (hl0 p hp).2,horderly⟩

end Inputs

variable [TypeIds St]

section Deadlocks

variable {n : UInt16} {start : PartyIndex → Node St DeliveryErr M A} {pos : ℕ}
  {s : Simulation (StateMachineImpl (PartyTask St M A) M) A M}
  {net : Network St DeliveryErr M A} {lost : Multiset (Packet M)}
  {st : StateMachineImpl (PartyTask St M A) M} {w : Bool}

/-- A party that waits for a message reads, and nothing is in its slots but what it enqueued. -/
theorem Node.StandsFor.reads {node : Node St DeliveryErr M A} (h : node.StandsFor st true)
    (hquiet : ∀ o, ⟨.enqueue o,.ok ()⟩ ∉ node.history) (i : UInt16) :
    (∃ k cont, node.activity = .reading k cont) ∧ slotPackets n i st.sharedState = 0 := by
  obtain ⟨hnone,k,hfuture⟩ := h.waits rfl
  have hshows := h.shows
  rw [hfuture] at hshows
  have hmakes : node.Makes .next k := hshows.makes
  have hout : st.sharedState.outgoingMsg = none := by
    by_contra hsome
    obtain ⟨o,ho⟩ := Option.ne_none_iff_exists'.mp hsome
    rcases h.unflushed o ho with ⟨⟨k',hk'⟩,_⟩ | henqueue
    · rw [hfuture] at hk'
      cases hk'
    · exact hquiet o henqueue.mem
  refine ⟨?_,by rw [slotPackets,hnone,hout]; rfl⟩
  cases hmakes with
  | next hact => exact ⟨_,_,hact⟩

/-- In a deadlock no message in flight can be read. -/
theorem Mirrors.atRest (h : Mirrors n s net lost) (hwf : WellFormed n.toNat s)
    (hquiet : ∀ j o, ⟨.enqueue o,.ok ()⟩ ∉ (net.nodes j).history) (hd : s.Deadlocked) :
    AtRest n start net := by
  -- a party has finished, or it reads and nothing is kept for it
  have hparty : ∀ j < n.toNat, (∃ a, s.parties[j]? = some (.finished a) ∧
      (net.nodes (.ofNat j)).activity = .running (.ret a)) ∨
      (∃ k cont, (net.nodes (.ofNat j)).activity = .reading k cont) ∧ s.packetsAt n j = 0 := by
    intro j hj
    have hlt : j < s.parties.length := by
      rw [hwf.parties]
      exact hj
    cases hget : s.parties[j] with
    | finished a =>
      have hsome : s.parties[j]? = some (.finished a) := by
        rw [List.getElem?_eq_getElem hlt,hget]
      exact .inl ⟨a,hsome,h.finished j a hsome⟩
    | active st w =>
      have hsome : s.parties[j]? = some (.active st w) := by
        rw [List.getElem?_eq_getElem hlt,hget]
      obtain ⟨rfl,hempty⟩ := hd.2.2 j st w hsome
      rw [UInt16.toNat_ofNat_of_lt' (Nat.lt_trans hj n.toNat_lt)] at hempty
      obtain ⟨hreads,hslots⟩ := (h.active j st true hsome).reads (n := n) (hquiet _) (.ofNat j)
      refine .inr ⟨hreads,?_⟩
      rw [packetsAt,hsome,List.getD_eq_getElem?_getD,hempty]
      simp only [Party.packets,hslots]
      rfl
  intro e net' hstep
  cases e with
  | acts p loopback =>
    obtain ⟨hp,node,out,hact,_⟩ := hstep
    have hcases := hparty p.toNat (UInt16.lt_iff_toNat_lt.mp hp)
    rw [UInt16.ofNat_toNat] at hcases
    rcases hcases with ⟨a,_,hret⟩ | ⟨⟨k,cont,hreading⟩,_⟩
    · rw [Node.act,hret] at hact
      cases hact
    · rw [Node.act,hreading] at hact
      cases hact
  | delivers packet id =>
    obtain ⟨hp,before,after,node,hflight,hread,_⟩ := hstep
    have hfinished : ∀ a, (net.nodes packet.recipient).activity ≠ .running (.ret a) := by
      intro a ha
      rw [Node.read,ha] at hread
      cases hread
    have hmem : packet ∈ (net.inFlight : Multiset (Packet M)) := by
      rw [hflight]
      simp
    rw [h.flight] at hmem
    rcases Multiset.mem_add.mp hmem with hkept | hlost
    · obtain ⟨j,hj,hat⟩ := Multiset.mem_sum.mp hkept
      rcases hparty j (Finset.mem_range.mp hj) with ⟨a,hsome,hret⟩ | ⟨_,hnone⟩
      · rw [packetsAt,hsome] at hat
        rcases Multiset.mem_add.mp hat with hslot | hqueue
        · cases Multiset.notMem_zero _ hslot
        · obtain ⟨msg,_,rfl⟩ := List.mem_map.mp hqueue
          exact hfinished a hret
      · rw [hnone] at hat
        cases Multiset.notMem_zero _ hat
    · rcases h.lost packet hlost with ⟨a,ha⟩ | ⟨_,o,_,hunflushed⟩
      · have hret := h.finished _ a ha
        rw [UInt16.ofNat_toNat] at hret
        exact hfinished a hret
      · exact hquiet _ o hunflushed.mem

end Deadlocks

section Complete

variable {plan : Plan St} {n : UInt16} {Q : PartyIndex → A → Prop}
  {l0 : PartyIndex → Ledger M St} {prog : PartyIndex → NodeProg St DeliveryErr M A}
  {start : PartyIndex → Node St DeliveryErr M A} {fuel m : ℕ}
  {s s' : Simulation (StateMachineImpl (PartyTask St M A) M) A M}

/-- A point of a run, with so much left to do. -/
structure Underway [Build] (plan : Plan St) (n : UInt16)
    (start : PartyIndex → Node St DeliveryErr M A) (fuel m : ℕ)
    (s : Simulation (StateMachineImpl (PartyTask St M A) M) A M) : Prop where
  run : ∃ es, Run (running (partyMachine fuel) (stateMachines n start)) (simulationOf n start) es s
  mirrored : ∃ net lost, (network n start).Reachable net ∧ Mirrors n s net lost ∧
    s.left (2 * plan.kinds.length) n net = m
  room : m + n.toNat < 2 ^ 64

/-- The outputs are as they should be. -/
def Complete (n : UInt16) (Q : PartyIndex → A → Prop) (o : Outcome A) : Prop :=
  ∃ outs, o = .returned (.ok outs) ∧ outs.length = n.toNat ∧
    ∀ p < n, ∃ out, outs[p.toNat]? = some out ∧ Q p out

theorem left_start (start : PartyIndex → Node St DeliveryErr M A) (K : ℕ) :
    (simulationOf n start).left K n (network n start).init ≤ n.toNat * ((6 * n.toNat + 1 + 4) * K + 4) := by
  have hparty : ∀ pos ∈ Finset.range n.toNat, Party.left K (6 * n.toNat + 1)
      ((network n start).init.nodes (.ofNat pos)) (simulationOf n start).parties[pos]? ≤
        (6 * n.toNat + 1 + 4) * K + 4 := by
    intro pos _
    cases hp : (simulationOf n start).parties[pos]? with
    | none => exact Nat.zero_le _
    | some p =>
      cases simulationOf_parties pos p hp
      have hwork := work_le K (6 * n.toNat + 1) ((network n start).init.nodes (.ofNat pos))
        (start (.ofNat pos)).party.future (start (.ofNat pos)).party.sharedState
      have hload : load (6 * n.toNat + 1) (start (.ofNat pos)).party.future
          (start (.ofNat pos)).party.sharedState = 2 := rfl
      rw [hload] at hwork
      rw [Party.left_active,if_neg Bool.false_ne_true]
      omega
  have hqueue : ∀ pos ∈ Finset.range n.toNat,
      ((simulationOf n start).messagesQueue.queue.getD pos []).length = 0 := by
    intro pos _
    simp only [simulationOf,fromFn,Simulation.start,MessagesQueue.new,List.getD_eq_getElem?_getD,
      List.getElem?_replicate]
    split <;> rfl
  have hid : (simulationOf n start).messagesQueue.nextId.toNat = 0 := rfl
  rw [Simulation.left,Finset.sum_eq_zero hqueue,hid]
  have hsum := Finset.sum_le_card_nsmul _ _ _ hparty
  rw [Finset.card_range,Nat.nsmul_eq_mul] at hsum
  exact hsum

variable [Build] [∀ k, RefusesUnchanged M (RoundInfo.Msg (St k))]

omit [Build] [∀ k, RefusesUnchanged M (RoundInfo.Msg (St k))] in
theorem room_start (hn : n.toNat < 65535) (hkinds : plan.kinds.length ≤ 65536) :
    (simulationOf n start).left (2 * plan.kinds.length) n (network n start).init + n.toNat <
      2 ^ 64 := by
  have hle := left_start (n := n) start (2 * plan.kinds.length)
  have hfactor : 6 * n.toNat + 1 + 4 ≤ 393210 := by omega
  have hcalls : 2 * plan.kinds.length ≤ 131072 := by omega
  have hmul := Nat.mul_le_mul hn.le (Nat.add_le_add_right (Nat.mul_le_mul hfactor hcalls) 4)
  omega

/-- A call of `proceed` returns, and what it sends is for all parties. -/
theorem Underway.proceeds (h : Underway plan n start fuel m s) (ha : Arranged plan n l0 prog start)
    (hprog : ∀ p < n, InTurn plan n p (Q p) plan.kinds (prog p))
    (hfuel : 8 * plan.kinds.length + 6 < fuel) {iter : PartyIter} {i : UInt16} {pos : ℕ}
    {st : StateMachineImpl (PartyTask St M A) M} {w : Bool} (hp : s.phase = .proceed iter i pos)
    (hparty : s.parties[pos]? = some (.active st w)) :
    ∃ st' res, (partyMachine fuel).proceed st = some (st',res) ∧ (∀ err, res ≠ .error err) ∧
      ∀ msg, res = .sendMsg msg → ∃ reliable, msg.recipient = .allParties reliable := by
  obtain ⟨⟨es,hrun⟩,⟨net,lost,hreach,hmirrors,_⟩,_⟩ := h
  obtain ⟨rfl,hpos,rfl,hcall⟩ :=
    hmirrors.called fuel start (run_mirrors hrun).1 (run_awake hrun) hp hparty
  have hlt : UInt16.ofNat pos < n := ofNat_lt hpos
  have hff : ∀ {net'}, Moved n start (.ofNat pos) net net' → FaultFree plan n l0 prog net' :=
    fun hmoved => faultFree_of_reachable ha (hmoved.reachable hreach)
  generalize (partyMachine fuel).proceed st = r at hcall
  cases hcall with
  | panics hmoved hpanics =>
    have hunfailing := (hff hmoved).unfailing ha (hprog _ hlt) hlt
    rcases hpanics with (hthrows | hacts) | ⟨packet,hmem,hrecipient,id,hreads⟩
    · exact absurd hthrows (hunfailing.throws _)
    · exact absurd hacts (hunfailing.acts _)
    · rw [hrecipient.symm] at hreads hunfailing
      exact absurd hreads (hunfailing.reads packet hmem rfl id _)
  | outOfFuel hmoved hempty =>
    have hspent := hempty (2 * plan.kinds.length) 0 ((hff hmoved).history_le hprog hlt)
    have hwork := work_le (2 * plan.kinds.length) 0 (net.nodes (.ofNat pos)) st.future st.sharedState
    have hload := load_le 0 st.future st.sharedState
    omega
  | output => exact ⟨_,_,rfl,fun _ he => (by cases he),fun _ he => by cases he⟩
  | needsOneMoreMessage => exact ⟨_,_,rfl,fun _ he => (by cases he),fun _ he => by cases he⟩
  | yielded => exact ⟨_,_,rfl,fun _ he => (by cases he),fun _ he => by cases he⟩
  | sendMsg hmoved _ _ _ hsent =>
    refine ⟨_,_,rfl,fun _ he => (by cases he),fun msg he => ?_⟩
    cases he
    exact (hff hmoved).broadcasts hprog hlt hsent

/-- Somebody can always go on. -/
theorem Underway.free (h : Underway plan n start fuel m s) (ha : Arranged plan n l0 prog start)
    (hprog : ∀ p < n, InTurn plan n p (Q p) plan.kinds (prog p)) : ¬ s.Deadlocked := by
  intro hd
  obtain ⟨⟨es,hrun⟩,⟨net,lost,hreach,hmirrors,_⟩,_⟩ := h
  have hwf := (run_mirrors hrun).1
  have hff := faultFree_of_reachable ha hreach
  have hquiet : ∀ j o, ⟨.enqueue o,.ok ()⟩ ∉ (net.nodes j).history := by
    intro j o henqueue
    rcases hff.plain hprog j _ henqueue with ⟨o',he⟩ | ⟨k,r,he⟩ <;> cases he
  -- a party that is left reads, but at rest all parties have finished
  have hleft := hd.2.1
  rw [hwf.left,List.countP_pos_iff] at hleft
  obtain ⟨party,hmem,hactive⟩ := hleft
  obtain ⟨pos,hget⟩ := List.mem_iff_getElem?.mp hmem
  have hpos : pos < n.toNat := hwf.parties ▸ (List.getElem?_eq_some_iff.mp hget).1
  cases party with
  | finished a => cases hactive
  | active st w =>
    obtain ⟨rfl,_⟩ := hd.2.2 pos st w hget
    obtain ⟨⟨k,cont,hreading⟩,_⟩ :=
      (hmirrors.active pos st true hget).reads (n := n) (hquiet _) (.ofNat pos)
    obtain ⟨a,hret,_⟩ :=
      hff.finished ha hprog (hmirrors.atRest hwf hquiet hd) (ofNat_lt hpos)
    rw [hreading] at hret
    cases hret

/-- The run only stops when all parties have finished. -/
theorem Underway.stops (h : Underway plan n start fuel m s) (ha : Arranged plan n l0 prog start)
    (hprog : ∀ p < n, InTurn plan n p (Q p) plan.kinds (prog p)) (hn : n.toNat < 65535)
    (hfuel : 8 * plan.kinds.length + 6 < fuel) {o : Outcome A}
    (hs : s.step (partyMachine fuel) = some (.stops o)) : Complete n Q o := by
  obtain ⟨⟨es,hrun⟩,⟨net,lost,hreach,hmirrors,hleft⟩,hroom⟩ := id h
  have hwf := (run_mirrors hrun).1
  have hff := faultFree_of_reachable ha hreach
  have hid : s.messagesQueue.nextId.toNat ≤ m := by
    rw [← hleft,Simulation.left]
    omega
  have hpanics : ∀ p, o ≠ .panicked p := by
    rintro p rfl
    obtain ⟨_,iter,i,pos,st,w,st',msg,hp,hparty,hm,hids⟩ := hwf.panics hn.le (.inl hn) hs
    have hplaced := hwf.placed
    rw [hp] at hplaced
    obtain ⟨_,hpos,_⟩ := hplaced
    have htaken : idsTaken s.messagesQueue.queue.length msg ≤ n.toNat := by
      rw [hwf.queues]
      unfold idsTaken
      split <;> omega
    omega
  have hstopped := stopped_of_step hs
  cases hstopped with
  | done hp hnone =>
    rw [hwf.left] at hnone
    obtain ⟨outs,houts,hmap⟩ := collect_finished (Nat.eq_zero_of_not_pos hnone)
    obtain ⟨hlen,hall⟩ := hmirrors.finished_all hwf.parties hmap
    refine ⟨outs,houts,hlen,fun p hp => ?_⟩
    obtain ⟨out,hout,hret⟩ := hall p hp
    exact ⟨out,hout,(hff.unfailing ha (hprog p hp) hp).returns out hret⟩
  | counter => exact absurd rfl (hpanics _)
  | index => exact absurd rfl (hpanics _)
  | send => exact absurd rfl (hpanics _)
  | left => exact absurd rfl (hpanics _)
  | refused hp hparty hq hm =>
    obtain ⟨hempty,_⟩ := (hmirrors.active _ _ _ hparty).waits rfl
    simp [partyMachine,StateMachineImpl.receivedMsg,SharedState.executorReceivedMsg,hempty] at hm
  | unknown hp hparty hm hq =>
    obtain ⟨_,_,hres,_,hsend⟩ := h.proceeds ha hprog hfuel hp hparty
    rw [hm] at hres
    cases hres
    obtain ⟨reliable,hrecipient⟩ := hsend _ rfl
    simp only [MessagesQueue.sendMessage,hrecipient] at hq
    obtain ⟨_,_,hq⟩ := Checked.bind_eq_ok.mp hq
    obtain ⟨_,_,hq⟩ := Checked.bind_eq_ok.mp hq
    cases hq
  | failed hp hparty hm =>
    obtain ⟨_,_,hres,hok,_⟩ := h.proceeds ha hprog hfuel hp hparty
    rw [hm] at hres
    cases hres
    exact absurd rfl (hok _)

/-- Every step calls no party or leaves less to do. -/
theorem Underway.progress (h : Underway plan n start fuel m s) (ha : Arranged plan n l0 prog start)
    (hprog : ∀ p < n, InTurn plan n p (Q p) plan.kinds (prog p)) (hn : n.toNat < 65535)
    (hfuel : 8 * plan.kinds.length + 6 < fuel) :
    MovesOn (partyMachine fuel) (Complete n Q) (Underway plan n start fuel) m s := by
  cases hstep : s.step (partyMachine fuel) with
  | none =>
    obtain ⟨iter,i,pos,st,w,hp,hparty,hnone⟩ := step_none hstep
    obtain ⟨_,_,hres,_⟩ := h.proceeds ha hprog hfuel hp hparty
    rw [hnone] at hres
    cases hres
  | some next =>
    cases next with
    | stops o => exact .stops hstep (h.stops ha hprog hn hfuel hstep)
    | goesOn s' e =>
      obtain ⟨⟨es,hrun⟩,⟨net,lost,hreach,hmirrors,hleft⟩,hroom⟩ := h
      have hrun' : ∃ es, Run (running (partyMachine fuel) (stateMachines n start))
          (simulationOf n start) es s' := ⟨_,hrun.snoc hstep⟩
      rcases hmirrors.step (run_mirrors hrun).1 (run_awake hrun) (stepped_of_step hstep) with
        ⟨phase,hidle,rfl⟩ | ⟨net',hnet⟩
      · exact .idles hidle hstep ⟨hrun',⟨net,lost,hreach,hmirrors.congr rfl rfl,hleft⟩,hroom⟩
      · obtain ⟨i,_,hmoved⟩ := hnet.moved
        obtain ⟨lost',hmirrors'⟩ := hnet.mirrors
        have hreach' := hmoved.reachable hreach
        have hff := faultFree_of_reachable ha hreach'
        have hid : s.messagesQueue.nextId.toNat ≤ m := by
          rw [← hleft,Simulation.left]
          omega
        have hlt := hnet.descends (2 * plan.kinds.length) (fun j hj => hff.history_le hprog hj)
          (by omega)
        rw [hleft] at hlt
        exact .calls hlt hstep ⟨hrun',⟨net',lost',hreach',hmirrors',rfl⟩,by omega⟩

/-- The simulation ends with outputs that are as they should be. -/
theorem ends_complete (hn : n.toNat < 65535) (ha : Arranged plan n l0 prog start)
    (hnodup : plan.kinds.Nodup) (hprog : ∀ p < n, InTurn plan n p (Q p) plan.kinds (prog p))
    (hfuel : 8 * plan.kinds.length + 6 < fuel) :
    (simulationOf n start).Ends (partyMachine fuel) (Complete n Q) := by
  have hprogresses : Progresses (partyMachine fuel) (Complete n Q)
      (Underway plan n start fuel) := by
    refine ⟨fun h => ?_,fun h => h.free ha hprog,fun h => h.progress ha hprog hn hfuel⟩
    obtain ⟨es,hrun⟩ := h.run
    exact (run_steady hrun).1
  have hroom : (simulationOf n start).left (2 * plan.kinds.length) n (network n start).init +
      n.toNat < 2 ^ 64 := by
    by_cases hzero : 0 < n.toNat
    · have hdistinct := (ha.prepared 0 (UInt16.lt_iff_toNat_lt.mpr hzero)).distinct
      exact room_start hn (hdistinct.length_le hnodup)
    · have hle := left_start (n := n) start (2 * plan.kinds.length)
      rw [Nat.eq_zero_of_not_pos hzero,Nat.zero_mul] at hle
      omega
  have hstart : Underway plan n start fuel _ (simulationOf n start) :=
    ⟨⟨[],.refl⟩,⟨_,0,(network n start).reachable_init,mirrors_start,rfl⟩,hroom⟩
  exact hprogresses.ends hstart

end Complete

namespace RandomGeneration

/-- Only the first of the two rounds. -/
abbrev firstRound : Plan fun k : RoundKind => RoundInput k.Msg :=
  inputs 2 [.round1] fun _ => .broadcast false

theorem exchange_inTurn (p : PartyIndex) :
    InTurn firstRound 2 p (fun commitments => commitments.length = 1) firstRound.kinds (exchange p) := by
  refine .round ⟨⟨false,rfl⟩,⟨⟨0,rfl⟩,fun j => wellRouted _ _⟩,_,rfl,rfl⟩ rfl fun out hout => .done ?_
  obtain ⟨f,hreleases,_⟩ := hout
  exact hreleases.length

theorem collectingFirst_registers {p : PartyIndex} (hp : p < 2) :
    addInputs p 2 (fun _ => .broadcast false) [RoundKind.round1] .new = .ok (collectingFirst p) := by
  rcases lt_two hp with rfl | rfl <;> rfl

theorem exchange_orderly (p : PartyIndex) : Orderly firstRound 2 p (exchange p) :=
  (exchange_inTurn p).orderly (fun j hj k hk _ => by
    rw [List.mem_singleton.mp hj,List.mem_singleton.mp hk]) (List.nodup_singleton _)

end RandomGeneration

section Agree

variable {T : ι → Type} [∀ k, RoundMsg M (RoundInfo.Msg (RoundInput (T k)))]
  [TypeIds fun k => RoundInput (T k)] {n : UInt16} {kinds : List ι} {types : ι → MessageType}
  {routers : PartyIndex → RoundsRouter M fun k => RoundInput (T k)}
  [∀ k, RefusesUnchanged M (RoundInfo.Msg (RoundInput (T k)))] [Build] {fuel : ℕ}
  {prog : PartyIndex → NodeProg (fun k => RoundInput (T k)) DeliveryErr M A}
  {net : Network (fun k => RoundInput (T k)) DeliveryErr M A} {outs : PartyIndex → A}

/-- If the simulation returns, it returns what the parties output in any complete run of the network,
whatever the order in which the messages are delivered there. -/
theorem simulation_agrees
    (hrouters : ∀ p < n, addInputs p n types kinds .new = .ok (routers p))
    (horderly : ∀ p < n, Orderly (inputs n kinds types) n p (prog p))
    (hcontent : ∀ p < n, ContentOnly (prog p))
    (h : (network n fun p => Node.start (routers p) (prog p)).Reachable net)
    (hfinished : Finished n outs net) {k : ℕ} {simulated : List A}
    (hrun : run (partyMachine fuel) k (simulationOf n fun p => Node.start (routers p) (prog p)) =
      some (.returned (.ok simulated))) : simulated = (partiesOf n).map outs := by
  obtain ⟨l0,ha⟩ := arranged_of_addInputs hrouters horderly
  obtain ⟨es,s,hsteps,hstop⟩ := stops_of_run (stateMachines n fun p =>
    Node.start (routers p) (prog p)) k hrun
  obtain ⟨hwf,net',lost,hreach,hmirrors⟩ := run_mirrors hsteps
  obtain ⟨hlen,hall⟩ :=
    hmirrors.finished_all hwf.parties (collect_ok (ok_of_stopped (stopped_of_step hstop)))
  apply List.ext_getElem?
  intro x
  by_cases hx : x < n.toNat
  · have hnat : (UInt16.ofNat x).toNat = x :=
      UInt16.toNat_ofNat_of_lt' (Nat.lt_trans hx n.toNat_lt)
    obtain ⟨out,hout,hret⟩ := hall _ (ofNat_lt hx)
    obtain ⟨rfl,_⟩ := (replays ha hcontent h hfinished hreach _ (ofNat_lt hx)).finished
      (hfinished _ (ofNat_lt hx)) hret
    rw [hnat] at hout
    rw [hout,partiesOf,List.map_map,List.getElem?_map,List.getElem?_range hx]
    rfl
  · rw [List.getElem?_eq_none (by omega),List.getElem?_eq_none (by simp [partiesOf]; omega)]

end Agree

namespace RandomGeneration

/-- Party 1 gets its message before party 0 has sent to it all that it will. -/
def exchanged : List (NetworkEvent Msg) :=
  acts 1 2 ++ acts 0 2 ++ [delivers 1 0 .round1 7,delivers 0 1 .round1 7]

theorem exchange_contentOnly (p : PartyIndex) : ContentOnly (exchange p) := by
  intro history k cont h out out' he
  cases h with
  | call h =>
    cases h with
    | refl => simp [othersMsgs,(Prod.mk.inj he).2]
    | call h => cases h

theorem simulation_agrees_exchange :
    letI : Build := .debug
    ∃ net, Network.exec 2 ⟨exchanging,[]⟩ exchanged = some net ∧
      Finished 2 (fun p => (heard p).1) net ∧ ∃ k simulated,
        run (partyMachine 20) k (simulationOf 2 exchanging) = some (.returned (.ok simulated)) ∧
        simulated = (partiesOf 2).map fun p => (heard p).1 := by
  let _ : Build := .debug
  have h : (Network.exec 2 ⟨exchanging,[]⟩ exchanged).isSome = true := by decide
  have hreach := Network.exec_reachable (Option.some_get h).symm
    (System.reachable_init (network 2 exchanging))
  have hfinished : Finished 2 (fun p => (heard p).1)
      ((Network.exec 2 ⟨exchanging,[]⟩ exchanged).get h) := by
    intro p hp
    rcases lt_two hp with rfl | rfl <;> rfl
  have hrun : run (partyMachine 20) 23 (simulationOf 2 exchanging) =
      some (.returned (.ok [(heard 0).1,(heard 1).1])) := rfl
  exact ⟨_,(Option.some_get h).symm,hfinished,23,_,hrun,
    simulation_agrees (fun _ hp => collectingFirst_registers hp) (fun p _ => exchange_orderly p)
      (fun p _ => exchange_contentOnly p) hreach hfinished hrun⟩

end RandomGeneration

end RoundBased
