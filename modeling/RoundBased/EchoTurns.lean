import RoundBased.EchoCompleteness
import RoundBased.EchoOutputs
import RoundBased.SimulationCompleteness

/-! Programs over the echo broadcast that take the rounds in turn, whatever else they do with the
outputs. The engine makes programs of them that take the rounds of the party in turn. -/
namespace RoundBased
open Feeding RoundsRouter

/-! Plans under which the outputs of rounds satisfy one more condition. -/
section Plan

variable {ι M : Type} {St : ι → Type} [∀ k, RoundStore (St k)]

theorem Gathers.and {S : Type} [RoundStore S] {i n : UInt16}
    {sends : PartyIndex → MessageType → RoundInfo.Msg S → Prop} {s : S}
    {Returns : RoundInfo.Output S → (PartyIndex → Option (RoundInfo.Msg S)) → Prop}
    (h : Gathers i n sends s Returns) {R : RoundInfo.Output S → Prop}
    (hR : ∀ msgs out, RoundBased.verdict s msgs = some (.ok out) → R out) :
    Gathers i n sends s fun out f => Returns out f ∧ R out := by
  refine ⟨h.obeys,fun msgs hnodup hmsgs => ?_⟩
  rcases h.verdict msgs hnodup hmsgs with hnone | ⟨out,hv,hall,hreturns⟩
  · exact .inl hnone
  · exact .inr ⟨out,hv,hall,hreturns,hR msgs out hv⟩

def Plan.and (plan : Plan St) (R : (k : ι) → RoundInfo.Output (St k) → Prop) : Plan St where
  kinds := plan.kinds
  sends := plan.sends
  returns p k out f := plan.returns p k out f ∧ R k out

variable [ProtocolMsg M] [∀ k, RoundMsg M (RoundInfo.Msg (St k))] {plan : Plan St}
  {R : (k : ι) → RoundInfo.Output (St k) → Prop} {n p : UInt16}

theorem Announces.and {k : ι} {o : Outgoing M} (h : Announces plan p k o) :
    Announces (plan.and R) p k o :=
  ⟨h.recipient,h.routable,h.sends⟩

omit [ProtocolMsg M] [∀ k, RoundMsg M (RoundInfo.Msg (St k))] in
theorem Plan.Returned.left {k : ι} {out : RoundInfo.Output (St k)}
    (h : (plan.and R).Returned n p k out) : plan.Returned n p k out ∧ R k out := by
  obtain ⟨f,⟨hreturns,hR⟩,hf⟩ := h
  exact ⟨⟨f,hreturns,hf⟩,hR⟩

theorem InTurn.map {A B IoErr : Type} {Q : A → Prop} {Q' : B → Prop} {ks : List ι}
    {prog : NodeProg St IoErr M A} (h : InTurn plan n p Q ks prog) {f : A → B}
    (hQ : ∀ a, Q a → Q' (f a)) : InTurn plan n p Q' ks (prog.map f) := by
  induction h with
  | done hq => exact .done (hQ _ hq)
  | @round k ks o cont next ho hcont _ ih =>
    have hmap : (cont (.ok ())).map f = .call (.complete k) fun r => (next r).map f :=
      congrArg (fun prog => prog.map f) hcont
    exact .round ho hmap ih

end Plan

namespace EchoBroadcast
open Gathering Interaction Transition WithEchoBroadcast

variable {ι H M A : Type} {T : ι → Type} {IoErr : Type} [∀ k, RoundMsg M (T k)]

/-- A program over the engine whose rounds are round inputs. -/
abbrev RoundsProg {ι : Type} (T : ι → Type) [∀ k, RoundMsg M (T k)] (IoErr A : Type) : Type :=
  Prog (Call (Round ι) M) (Answer (Res (PartyErr IoErr) IoErr fun k => RoundInput (T k))
    (Error IoErr)) Panic A

/-- Sends its value of each round and completes the round before the next one, as long as these
return what the others sent, and ends with a result in `Q`. -/
inductive TakesRounds (n p : UInt16) (value : PartyIndex → (k : ι) → T k) (Q : A → Prop) :
    List (Round ι) → RoundsProg (M := M) T IoErr A → Prop
  | done {a : A} : Q a → TakesRounds n p value Q [] (.ret a)
  | round {w : Round ι} {ws : List (Round ι)}
      {cont : Except (Error IoErr) Unit → RoundsProg (M := M) T IoErr A}
      {next : Res (PartyErr IoErr) IoErr (fun k => RoundInput (T k)) w → RoundsProg T IoErr A} :
      cont (.ok ()) = .call (.complete w) next →
      (∀ out : RoundMsgs (T w.kind), Heard n p (fun j => value j w.kind) out →
        out.ids.length = n.toNat - 1 → TakesRounds n p value Q ws (next (.ok out))) →
      TakesRounds n p value Q (w :: ws)
        (.call (.send ⟨.allParties w.reliable,toProtocolMsg (value p w.kind)⟩) cont)

/-- The round as it is set up. -/
def Round.setting (w : Round ι) : ι × Bool := (w.kind,w.reliable)

/-- There is an id of each message. -/
def Numbered (H M : Type) {ι : Type} (T : ι → Type) [∀ k, RoundMsg M (T k)] (n : UInt16) :
    (s : Sub ι) → RoundInfo.Output (SubStore H M (fun k => RoundInput (T k)) s) → Prop
  | .plain k,out => (RoundMsgs.ids (M := T k) out).length = n.toNat - 1
  | .main k,out => (NeedsOwnMsg.mainRoundOutput (S := RoundInput (T k)) out).ids.length = n.toNat - 1
  | .echo _,_ => True

section Turns

variable [ProtocolMsg M] [∀ k, ShortRoundMsg M (T k)] [Build] [Digest H M] [DecidableEq H]

/-- Everybody broadcasts its value of the round, and messages come with their ids. -/
def turnsPlan (H M : Type) {ι : Type} {T : ι → Type} [∀ k, RoundMsg M (T k)] [Digest H M]
    (n : UInt16) (rounds : List (ι × Bool)) (value : PartyIndex → (k : ι) → T k) :
    Plan (SubStore H M fun k => RoundInput (T k)) :=
  (echoPlan H M n rounds value).and (Numbered H M T n)

variable {e : WithEchoBroadcast M} {n p : UInt16} {all : List (ι × Bool)}
  {value : PartyIndex → (k : ι) → T k} {k : ι} {ks : List (Sub ι)} {Q : A → Prop}
  {cont : Except (Error IoErr) Unit → RoundsProg (M := M) T IoErr A}

theorem inTurn_ordinary
    {next : Res (PartyErr IoErr) IoErr (fun k => RoundInput (T k)) (.unmodified k) →
      RoundsProg (M := M) T IoErr A}
    (hs : e.sentReliableMsgs (RoundMsg.ROUND M (T k)) = none)
    (hcont : cont (.ok ()) = .call (.complete (.unmodified k)) next)
    (hnext : ∀ out : RoundMsgs (T k), Heard n p (fun j => value j k) out →
      out.ids.length = n.toNat - 1 →
      InTurn (turnsPlan H M n all value) n p (fun a => Q a.2) ks
        ((next (.ok out)).servedBy serve e)) :
    InTurn (turnsPlan H M n all value) n p (fun a => Q a.2) (.plain k :: ks)
      ((Prog.call (.send ⟨.allParties false,toProtocolMsg (value p k)⟩) cont :
        RoundsProg T IoErr A).servedBy serve e) := by
  have hon : e.onSend ⟨.allParties false,toProtocolMsg (value p k)⟩ =
      .ok (e,.ok (.allParties (toProtocolMsg (value p k)))) := by
    simp only [onSend,round_to (value p k),Except.map,hs]
    rfl
  have hserve : (serve e (.send ⟨.allParties false,toProtocolMsg (value p k)⟩) :
      PartyProg (PartyErr IoErr) IoErr H M (fun k => RoundInput (T k))
        (WithEchoBroadcast M × Except (Error IoErr) Unit)) = _ := (serve_handedOver hon).1
  refine Eq.mpr (congrArg (InTurn _ n p _ _) (Prog.servedBy_call hserve cont)) ?_
  have hcomplete : (cont (.ok ())).servedBy (serve (H := H)) e =
      (Prog.call (.complete (.unmodified k)) next : RoundsProg (M := M) T IoErr A).servedBy serve e :=
    congrArg (fun prog : RoundsProg (M := M) T IoErr A => prog.servedBy serve e) hcont
  refine .round announces_plain.and hcomplete fun out hout => ?_
  obtain ⟨⟨f,hrel,hf⟩,hids⟩ := hout.left
  refine hnext out (.of_releases hrel fun j hj => ?_) hids
  obtain ⟨v,_,hv,_,hvalue⟩ := hf j hj
  rw [hv,← hvalue]
  rfl

/-- A reliable round: the hash computed from the messages is the one that all others send. -/
theorem inTurn_reliable (hp : p < n)
    {next : Res (PartyErr IoErr) IoErr (fun k => RoundInput (T k)) (.withReliabilityCheck k) →
      RoundsProg (M := M) T IoErr A}
    (hs : e.sentReliableMsgs (RoundMsg.ROUND M (T k)) = some none)
    (hcont : cont (.ok ()) = .call (.complete (.withReliabilityCheck k)) next)
    (hnext : ∀ out : RoundMsgs (T k), Heard n p (fun j => value j k) out →
      out.ids.length = n.toNat - 1 →
      InTurn (turnsPlan H M n all value) n p (fun a => Q a.2) ks
        ((next (.ok out)).servedBy serve
          ((record e k (value p k)).remove (RoundMsg.ROUND M (T k))))) :
    InTurn (turnsPlan H M n all value) n p (fun a => Q a.2) (.main k :: .echo k :: ks)
      ((Prog.call (.send ⟨.allParties true,toProtocolMsg (value p k)⟩) cont :
        RoundsProg T IoErr A).servedBy serve e) := by
  have hon : e.onSend ⟨.allParties true,toProtocolMsg (value p k)⟩ =
      .ok (record e k (value p k),.ok (.allParties (toProtocolMsg (value p k)))) := by
    simp only [onSend,round_to (value p k),Except.map,hs]
    rfl
  have hserve : (serve e (.send ⟨.allParties true,toProtocolMsg (value p k)⟩) :
      PartyProg (PartyErr IoErr) IoErr H M (fun k => RoundInput (T k))
        (WithEchoBroadcast M × Except (Error IoErr) Unit)) = _ := (serve_handedOver hon).1
  refine Eq.mpr (congrArg (InTurn _ n p _ _) (Prog.servedBy_call hserve cont)) ?_
  have hcomplete : (cont (.ok ())).servedBy (serve (H := H)) (record e k (value p k)) =
      (Prog.call (.complete (.withReliabilityCheck k)) next :
        RoundsProg (M := M) T IoErr A).servedBy serve (record e k (value p k)) :=
    congrArg (fun prog : RoundsProg (M := M) T IoErr A => prog.servedBy serve _) hcont
  refine .round announces_main.and hcomplete fun needs hneeds => ?_
  obtain ⟨⟨f,hrec,hf⟩,hids⟩ := hneeds.left
  have hvalues : ∀ j, Others p n j → (f j).map (Main.msg (R := T k)) = some (value j k) := by
    intro j hj
    obtain ⟨v,_,hv,_,hvalue⟩ := hf j hj
    rw [hv,← hvalue]
    rfl
  have hslot : (record e k (value p k)).sentReliableMsgs
      (roundOf M (fun k => RoundInput (T k)) k) = some (some (toProtocolMsg (value p k))) :=
    Function.update_self ..
  have hhash := withMyMsg_spec hp hrec.params hrec.length (hrec.complete (some (value p k)))
  rw [hashOf_eq_commonHash hvalues] at hhash
  have hecho : ((record e k (value p k)).afterMainRound k (.ok needs) :
      PartyProg (PartyErr IoErr) IoErr H M (fun k => RoundInput (T k)) _) = _ :=
    afterMainRound_of_sent hslot hhash
  simp only [hecho]
  refine .round announces_echo.and rfl fun echoes hechoes => ?_
  obtain ⟨⟨g,hrel,hg⟩,_⟩ := hechoes.left
  have hmatch : ∀ hash ∈ echoes.receivedEchoes.messages, hash = commonHash H M n value k := by
    intro hash hmem
    obtain ⟨j,hj,hget⟩ := (mem_messages_iff hp hrel.i_eq hrel.length).mp hmem
    obtain ⟨v,_,hv,_,hvalue⟩ := hg j hj
    rw [hrel.get j hj,hv] at hget
    rw [← hvalue]
    exact (Option.some.inj hget).symm
  have hdone : (((record e k (value p k)).remove (RoundMsg.ROUND M (T k))).afterEchoRound k
      ⟨commonHash H M n value k,needs.mainRoundOutput⟩ (.ok echoes) :
      PartyProg (PartyErr IoErr) IoErr H M (fun k => RoundInput (T k)) _) = _ :=
    afterEchoRound_of_match hmatch
  have hrest := hnext _ (.of_releases hrec.releases hvalues) hids
  refine Eq.mpr (congrArg (InTurn _ n p _ ks) ?_) hrest
  exact congrArg (fun prog => Prog.bind prog _) hdone

/-- Served by the engine the program goes through the sub-rounds in turn. -/
theorem TakesRounds.inTurn (hp : p < n) {ws : List (Round ι)} {prog : RoundsProg (M := M) T IoErr A}
    (h : TakesRounds n p value Q ws prog)
    (hnodup : (ws.map fun w => RoundMsg.ROUND M (T w.kind)).Nodup)
    (hs : ∀ w ∈ ws, e.sentReliableMsgs (RoundMsg.ROUND M (T w.kind)) =
      if w.reliable then some none else none) :
    InTurn (turnsPlan H M n all value) n p (fun a => Q a.2)
      ((ws.map Round.setting).flatMap subRounds) (prog.servedBy serve e) := by
  induction h generalizing e with
  | done hq => exact .done hq
  | @round w ws cont next hcont _ ih =>
    rw [List.map_cons,List.nodup_cons] at hnodup
    have hslot := hs w (List.mem_cons_self ..)
    have hrest : ∀ e' : WithEchoBroadcast M, (∀ r, r ≠ RoundMsg.ROUND M (T w.kind) →
        e'.sentReliableMsgs r = e.sentReliableMsgs r) → ∀ w' ∈ ws,
          e'.sentReliableMsgs (RoundMsg.ROUND M (T w'.kind)) =
            if w'.reliable then some none else none := by
      intro e' he' w' hw'
      have hne : RoundMsg.ROUND M (T w'.kind) ≠ RoundMsg.ROUND M (T w.kind) := by
        intro he
        exact hnodup.1 (he ▸ List.mem_map_of_mem (f := fun w : Round ι => RoundMsg.ROUND M (T w.kind)) hw')
      rw [he' _ hne]
      exact hs w' (List.mem_cons_of_mem _ hw')
    cases w with
    | unmodified k =>
      exact inTurn_ordinary hslot hcont fun out hout hids =>
        ih out hout hids hnodup.2 (hrest e fun _ _ => rfl)
    | withReliabilityCheck k =>
      refine inTurn_reliable hp hslot hcont fun out hout hids =>
        ih out hout hids hnodup.2 (hrest _ fun r hr => ?_)
      exact (Function.update_of_ne hr ..).trans (Function.update_of_ne hr ..)

end Turns

section SetUp

variable [ProtocolMsg M] [∀ k, ShortRoundMsg M (T k)] [Build] [Digest H M] {n p : UInt16}
  {rounds : List (ι × Bool)} {value : PartyIndex → (k : ι) → T k} {k : ι}

omit [ProtocolMsg M] [∀ k, ShortRoundMsg M (T k)] [Build] in
theorem gathers_plain_numbered {s : RoundInput (T k)}
    (hs : RoundInput.new p n (.broadcast false) = .ok s) :
    Gathers p n ((turnsPlan H M n rounds value).sends (.plain k))
      (⟨⟨s⟩⟩ : WithError (WithMainMsg (RoundInput (T k))))
      ((turnsPlan H M n rounds value).returns p (.plain k)) :=
  (gathers_plain hs).and fun _ _ hv => RoundInput.length_ids_of_verdict hs (verdict_of_plain hv)

omit [Build] in
theorem gathers_main_numbered (hp : p < n) (h2 : 2 ≤ n.toNat) {main : MainRound H M (RoundInput (T k))}
    (hsound : main.Sound) (h : HoldsMain p n main fun _ => none) :
    Gathers p n ((turnsPlan H M n rounds value).sends (.main k))
      (⟨main⟩ : WithMainMsg (MainRound H M (RoundInput (T k))))
      ((turnsPlan H M n rounds value).returns p (.main k)) := by
  refine (gathers_mainRound hp hsound h).and fun msgs _ hv => ?_
  have hverdict := (verdict_withMainMsg main msgs).symm.trans hv
  exact MainRound.numbers_of_verdict (h.numbers h2 hp) hverdict

omit [ProtocolMsg M] [∀ k, ShortRoundMsg M (T k)] [Build] in
theorem gathers_echo_numbered {input : RoundInput H} (hs : RoundInput.broadcast p n = .ok input) :
    Gathers p n ((turnsPlan H M n rounds value).sends (.echo k))
      (⟨⟨input⟩⟩ : WithEchoError (EchoRound H (RoundInput (T k))) RoundInputError)
      ((turnsPlan H M n rounds value).returns p (.echo k)) :=
  (gathers_echo hs).and fun _ _ _ => trivial

theorem prepared_turns (hp : p < n) (value : PartyIndex → (k : ι) → T k) {e : WithEchoBroadcast M}
    {router : RoundsRouter (Msg H M) (SubStore H M fun k => RoundInput (T k))}
    (h : setUp p n rounds = .ok (e,router)) :
    ∃ l : Ledger (Msg H M) (SubStore H M fun k => RoundInput (T k)), router = l.router ∧
      Prepared (turnsPlan H M n rounds value) n p l := by
  obtain ⟨regs,hinputs,hadd⟩ := Checked.bind_eq_ok.mp h
  rw [← Ledger.router_empty] at hadd
  obtain ⟨l,rfl,hext,hregs,_⟩ := addRounds_registers hadd
  refine ⟨l,rfl,hext.received,hext.taken fun _ => rfl,fun s hs => ?_⟩
  obtain ⟨⟨k,reliable⟩,hr,hs⟩ := List.mem_flatMap.mp hs
  obtain ⟨⟨_,input⟩,hreg,rfl,hinput⟩ := partner_of_forall₂ (inputsOf_spec hinputs) hr
  have hregisters := hregs _ hreg
  have hreliable := RoundInput.requiresReliable_new hinput
  cases reliable with
  | false =>
    cases List.mem_singleton.mp hs
    refine ⟨_,hregisters.plain fun hc => ?_,gathers_plain_numbered hinput⟩
    rw [hreliable] at hc
    cases hc
  | true =>
    obtain ⟨main,echo,hnew,hm,hecho⟩ := hregisters.reliable hreliable
    obtain ⟨main',input',hnew',hinput',hholds⟩ := newStores_spec (H := H) (M := M) hinput
    cases hnew.symm.trans hnew'
    rcases List.mem_cons.mp hs with rfl | hs
    · have h2 := RoundInput.two_le_of_new hinput
      exact ⟨_,hm,gathers_main_numbered hp h2 (newStores_sound hnew) hholds⟩
    · cases List.mem_singleton.mp hs
      exact ⟨_,hecho,gathers_echo_numbered hinput'⟩

variable [DecidableEq H] {ws : List (Round ι)} {Q : PartyIndex → A → Prop}
  {parties : PartyIndex → WithEchoBroadcast M × RoundsRouter (Msg H M) (SubStore H M fun k =>
    RoundInput (T k))}
  {prog : PartyIndex → RoundsProg (M := M) T IoErr A}

omit [∀ k, ShortRoundMsg M (T k)] [Digest H M] [DecidableEq H] in
theorem nodup_of_setUp {e : WithEchoBroadcast M}
    {router : RoundsRouter (Msg H M) (SubStore H M fun k => RoundInput (T k))}
    (h : setUp p n rounds = .ok (e,router)) : (rounds.flatMap subRounds).Nodup := by
  have hnodup := (setUp_sent h).1
  have hmap : (rounds.map fun r => RoundMsg.ROUND M (T r.1)) =
      (rounds.map Prod.fst).map fun k => RoundMsg.ROUND M (T k) := by
    rw [List.map_map]
    rfl
  rw [hmap] at hnodup
  exact nodup_subRounds hnodup.of_map

/-- The program over the engine, which is dropped with the program. -/
def ownsEngine (e : WithEchoBroadcast M) (prog : RoundsProg (M := M) T IoErr A) :
    NodeProg (SubStore H M fun k => RoundInput (T k)) IoErr (Msg H M) A :=
  (prog.servedBy serve e).map Prod.snd

/-- Every party has set up the rounds and runs its program over the engine. -/
def roundsNodes (parties : PartyIndex → WithEchoBroadcast M × RoundsRouter (Msg H M) (SubStore H M
      fun k => RoundInput (T k)))
    (prog : PartyIndex → RoundsProg (M := M) T IoErr A) (p : PartyIndex) :
    Node (SubStore H M fun k => RoundInput (T k)) IoErr (Msg H M) A :=
  Node.start (parties p).2 (ownsEngine (parties p).1 (prog p))

theorem inTurn_of_setUp (hp : p < n) (hsetup : setUp p n (ws.map Round.setting) = .ok (parties p))
    (hprog : TakesRounds n p value (Q p) ws (prog p)) :
    InTurn (turnsPlan H M n (ws.map Round.setting) value) n p (Q p)
      (turnsPlan H M n (ws.map Round.setting) value).kinds (ownsEngine (parties p).1 (prog p)) := by
  obtain ⟨hnodup,hsent⟩ := setUp_sent hsetup
  rw [List.map_map] at hnodup
  have hturns : InTurn (turnsPlan H M n (ws.map Round.setting) value) n p (fun a => Q p a.2)
      ((ws.map Round.setting).flatMap subRounds) ((prog p).servedBy serve (parties p).1) :=
    hprog.inTurn hp hnodup fun w hw => hsent _ (List.mem_map_of_mem hw)
  exact hturns.map fun _ hq => hq

theorem arranged_turns (hsetup : ∀ p < n, setUp p n (ws.map Round.setting) = .ok (parties p))
    (hprog : ∀ p < n, TakesRounds n p value (Q p) ws (prog p)) :
    ∃ l0, Arranged (turnsPlan H M n (ws.map Round.setting) value) n l0
      (fun p => ownsEngine (parties p).1 (prog p)) (roundsNodes parties prog) := by
  have hledgers : ∀ p, ∃ l : Ledger (Msg H M) (SubStore H M fun k => RoundInput (T k)), p < n →
      (parties p).2 = l.router ∧
        Prepared (turnsPlan H M n (ws.map Round.setting) value) n p l := by
    intro p
    by_cases hp : p < n
    · obtain ⟨l,hl⟩ := prepared_turns hp value (hsetup p hp)
      exact ⟨l,fun _ => hl⟩
    · exact ⟨.empty,fun hc => absurd hc hp⟩
  choose l0 hl0 using hledgers
  refine ⟨l0,fun p => ⟨rfl,rfl⟩,fun p hp => ?_,fun p hp => (hl0 p hp).2,fun p hp => ?_⟩
  · rw [roundsNodes,(hl0 p hp).1]
  · exact (inTurn_of_setUp hp (hsetup p hp) (hprog p hp)).orderly (hl0 p hp).2.distinct
      (nodup_of_setUp (hsetup p hp))

variable [TypeIds (SubStore H M fun k => RoundInput (T k))]

/-- Under every order of delivery no operation fails, and when no step is possible any more all
parties have finished. -/
theorem turns_complete (hsetup : ∀ p < n, setUp p n (ws.map Round.setting) = .ok (parties p))
    (hprog : ∀ p < n, TakesRounds n p value (Q p) ws (prog p))
    {net : Network (SubStore H M fun k => RoundInput (T k)) IoErr (Msg H M) A}
    (h : (network n (roundsNodes parties prog)).Reachable net) :
    (∀ p < n, Unfailing net p (Q p)) ∧ (AtRest n (roundsNodes parties prog) net → ∀ p < n, ∃ a,
      (net.nodes p).activity = .running (.ret a) ∧ Q p a) := by
  obtain ⟨l0,ha⟩ := arranged_turns hsetup hprog
  have hff := faultFree_of_reachable ha h
  have hturns := fun p hp => inTurn_of_setUp hp (hsetup p hp) (hprog p hp)
  exact ⟨fun p hp => hff.unfailing (Q := Q) ha (hturns p hp) hp,
    fun hrest p hp => hff.finished (Q := Q) ha hturns hrest hp⟩

end SetUp

section Simulated

variable [ProtocolMsg M] [∀ k, ShortRoundMsg M (T k)] [Build] [Digest H M] [DecidableEq H]
  [TypeIds (SubStore H M fun k => RoundInput (T k))] {n : UInt16} {ws : List (Round ι)}
  {value : PartyIndex → (k : ι) → T k} {Q : PartyIndex → A → Prop}
  {parties : PartyIndex → WithEchoBroadcast M × RoundsRouter (Msg H M) (SubStore H M fun k =>
    RoundInput (T k))}
  {prog : PartyIndex → RoundsProg (M := M) T DeliveryErr A}

omit [Build] in
theorem length_subRounds_le (rounds : List (ι × Bool)) :
    (rounds.flatMap subRounds).length ≤ 2 * rounds.length := by
  induction rounds with
  | nil => exact Nat.le_refl _
  | cons r rounds ih =>
    have hr : (subRounds r).length ≤ 2 := by
      obtain ⟨k,reliable⟩ := r
      cases reliable <;> simp [subRounds]
    rw [List.flatMap_cons,List.length_append,List.length_cons]
    omega

theorem simulated_of_nodup (hn : n.toNat < 65535)
    (hnodup : ((ws.map Round.setting).flatMap subRounds).Nodup)
    (hsetup : ∀ p < n, setUp p n (ws.map Round.setting) = .ok (parties p))
    (hprog : ∀ p < n, TakesRounds n p value (Q p) ws (prog p)) {fuel : ℕ}
    (hfuel : 16 * ws.length + 6 < fuel) :
    ∃ k outs, Simulation.run (partyMachine fuel) k (simulationOf n (roundsNodes parties prog)) =
      some (.returned (.ok outs)) ∧ outs.length = n.toNat ∧
      ∀ p < n, ∃ out, outs[p.toNat]? = some out ∧ Q p out := by
  obtain ⟨l0,ha⟩ := arranged_turns hsetup hprog
  have hlen := length_subRounds_le (ws.map Round.setting)
  rw [List.length_map] at hlen
  have hfuel' : 8 * (turnsPlan H M n (ws.map Round.setting) value).kinds.length + 6 < fuel := by
    show 8 * ((ws.map Round.setting).flatMap subRounds).length + 6 < fuel
    omega
  obtain ⟨k,o,hrun,outs,rfl,houts,hall⟩ := ends_complete (Q := Q) hn ha hnodup
    (fun p hp => inTurn_of_setUp hp (hsetup p hp) (hprog p hp)) hfuel'
  exact ⟨k,outs,hrun,houts,hall⟩

/-- The simulation of such programs returns an output of each party. -/
theorem simulated_turns_complete (hn : n.toNat < 65535)
    (hsetup : ∀ p < n, setUp p n (ws.map Round.setting) = .ok (parties p))
    (hprog : ∀ p < n, TakesRounds n p value (Q p) ws (prog p)) {fuel : ℕ}
    (hfuel : 16 * ws.length + 6 < fuel) :
    ∃ k outs, Simulation.run (partyMachine fuel) k (simulationOf n (roundsNodes parties prog)) =
      some (.returned (.ok outs)) ∧ outs.length = n.toNat ∧
      ∀ p < n, ∃ out, outs[p.toNat]? = some out ∧ Q p out := by
  by_cases hzero : 0 < n
  · exact simulated_of_nodup hn (nodup_of_setUp (hsetup 0 hzero)) hsetup hprog hfuel
  -- without parties any list of rounds would do
  · have hnone : ∀ p : PartyIndex, ¬ p < n := fun p hp =>
      hzero (UInt16.lt_of_le_of_lt (UInt16.zero_le) hp)
    have hnodup : ((([] : List (Round ι)).map Round.setting).flatMap subRounds).Nodup := List.nodup_nil
    have hprog' : ∀ p < n, TakesRounds n p value (Q p) [] (prog p) := fun p hp => absurd hp (hnone p)
    refine simulated_of_nodup hn hnodup (fun p hp => absurd hp (hnone p)) hprog' ?_
    rw [List.length_nil]
    omega

end Simulated

end EchoBroadcast
end RoundBased
