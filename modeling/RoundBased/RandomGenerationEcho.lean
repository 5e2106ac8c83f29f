import RoundBased.EchoOutputs
import RoundBased.RandomGenerationRuns

/-! Random generation over the echo broadcast, where any set of parties is corrupted. -/
namespace RoundBased
namespace RandomGeneration
open EchoBroadcast Interaction RoundsRouter Transition WithEchoBroadcast

/-- The messages that were gathered, `v` stands for those of nobody. -/
theorem received_of_gathered {T M : Type} {q n : UInt16} {received : List (Incoming M)}
    {from? : M → Option T} {out : RoundMsgs T} (h : Gathered q n received from? out) (hq : q < n)
    (v : T) : Received q n out fun j => (out.ids.getD (slotIndex q j) 0,(out.get j).getD v) := by
  refine received_of_get hq h.i_eq h.ids h.length fun j hj => ?_
  obtain ⟨_,_,_,t,_,ht⟩ := h.origin j hj
  rw [ht]
  rfl

/-- Errors of completing a round over the engine. -/
abbrev EchoRecvErr (IoErr : Type) : Type :=
  EchoBroadcast.CompleteRoundError (PartyErr IoErr (EchoBroadcast.Error RoundInputError)) IoErr

/-- What the protocol returns over the engine. -/
abbrev EchoResult (IoErr : Type) : Type :=
  Except (Error (EchoRecvErr IoErr) (EchoBroadcast.Error IoErr)) Randomness

section Program

variable [Build] {H IoErr : Type} (digest : Randomness → Vector UInt8 32)

/-- The program of a party over the engine. -/
def echoProg (own : Randomness) : EchoProg CommitMsg Decommits IoErr Msg (EchoResult IoErr) :=
  protocolOfRandomGeneration digest (.withReliabilityCheck none) (.unmodified (some ())) id id own

/-- Wraps a party and defines the rounds. -/
def echoSetup (i n : UInt16) : Checked (Engine H Msg CommitMsg Decommits) := do
  let round1 ← RoundInput.reliableBroadcast i n
  let (mpc,router,_) ← (wrap i n : WithEchoBroadcast Msg).addRound .new none round1
  let round2 ← RoundInput.broadcast i n
  let (mpc,router,_) ← mpc.addRound router (some ()) round2
  return (mpc,router)

variable {digest} {n p : UInt16} {engine : Engine H Msg CommitMsg Decommits} {own : Randomness}

omit [Build] in
theorem rounds_of_echoSetup (h : echoSetup p n = .ok engine) :
    ∃ (s1 : RoundInput CommitMsg) (s2 : RoundInput DecommitMsg),
      RoundInput.reliableBroadcast p n = .ok s1 ∧ RoundInput.broadcast p n = .ok s2 ∧
      (wrap p n).addRounds .new [⟨none,s1⟩,⟨some (),s2⟩] = .ok engine := by
  obtain ⟨s1,hs1,h⟩ := Checked.bind_eq_ok.mp h
  obtain ⟨⟨mpc,router,w⟩,hadd1,h⟩ := Checked.bind_eq_ok.mp h
  obtain ⟨s2,hs2,h⟩ := Checked.bind_eq_ok.mp h
  obtain ⟨⟨mpc',router',w'⟩,hadd2,h⟩ := Checked.bind_eq_ok.mp h
  cases h
  refine ⟨s1,s2,hs1,hs2,?_⟩
  exact Checked.bind_eq_ok.mpr ⟨_,hadd1,Checked.bind_eq_ok.mpr ⟨_,hadd2,rfl⟩⟩

omit [Build] in
theorem not_reliable_broadcast {s : RoundInput DecommitMsg} (hs : RoundInput.broadcast p n = .ok s) :
    requiresReliableBroadcast (S := Focus CommitMsg Decommits (some ())) s ≠ some true := by
  have hreliable : requiresReliableBroadcast (S := Focus CommitMsg Decommits (some ())) s = some false :=
    RoundInput.requiresReliable_new hs
  rw [hreliable]
  decide

theorem joins_of_echoSetup (h : echoSetup p n = .ok engine) :
    Joins n p engine (echoProg digest own : EchoProg CommitMsg Decommits IoErr Msg _) := by
  obtain ⟨s1,s2,hs1,hs2,hadd⟩ := rounds_of_echoSetup h
  refine ⟨_,s1,hs1,List.mem_cons_self ..,hadd,fun done w cont hsteps => ?_⟩
  rcases steps_protocol hsteps with hc | hc | ⟨hc | hc,_⟩
  · cases hc
  · cases hc
    exact ⟨_,List.mem_cons_self ..,if_pos (requiresReliable_focus hs1)⟩
  · cases hc
  · cases hc
    exact ⟨_,List.mem_cons_of_mem _ (List.mem_singleton_self _),if_neg (not_reliable_broadcast hs2)⟩

/-- The router of the party, before anything was received. -/
structure Opened (p n : UInt16) (engine : Engine H Msg CommitMsg Decommits)
    (l : Ledger (EchoBroadcast.Msg H Msg) (SubStore H Msg (Focus CommitMsg Decommits)))
    (main : MainRound H Msg (RoundInput CommitMsg)) (input : RoundInput H)
    (s2 : RoundInput DecommitMsg) : Prop where
  router : engine.2 = l.router
  received : l.received = []
  awaits : Awaits p n l main input
  broadcast : RoundInput.broadcast p n = .ok s2
  registered : l.registered (roundOf (EchoBroadcast.Msg H Msg)
    (SubStore H Msg (Focus CommitMsg Decommits)) (.plain (some ()))) =
      some ⟨.plain (some ()),(⟨⟨s2⟩⟩ : WithError (WithMainMsg (RoundInput DecommitMsg)))⟩

theorem opened_of_echoSetup (h : echoSetup p n = .ok engine) :
    ∃ l main input s2, Opened p n engine l main input s2 := by
  obtain ⟨s1,s2,hs1,hs2,hadd⟩ := rounds_of_echoSetup h
  rw [← Ledger.router_empty] at hadd
  obtain ⟨l,hl,hext,hregs,_⟩ := addRounds_registers hadd
  obtain ⟨main,input,ha⟩ := awaits_of_registers hs1 (hregs _ (List.mem_cons_self ..))
  have hplain := (hregs ⟨some (),s2⟩ (by simp)).plain (not_reliable_broadcast hs2)
  exact ⟨l,main,input,s2,hl,hext.received,ha,hs2,hplain⟩

end Program

section Party

variable [Build] {H IoErr : Type} [Digest H Msg] [DecidableEq H]
  {digest : Randomness → Vector UInt8 32} {n p : UInt16} {engine : Engine H Msg CommitMsg Decommits}
  {own : Randomness}
  {node : Node (SubStore H Msg (Focus CommitMsg Decommits)) IoErr (EchoBroadcast.Msg H Msg)
    (WithEchoBroadcast Msg × EchoResult IoErr)}

theorem offered_main (h : node.Runs ((echoProg digest own).servedBy serve engine.1))
    {dest : MessageDestination} {m : Msg} (hmem : ⟨dest,.main m⟩ ∈ node.offered) :
    m = .commitMsg ⟨digest own⟩ ∨ m = .decommitMsg ⟨own⟩ ∧
      ∃ out, HasReturned engine (echoProg digest own) node.history out := by
  obtain ⟨event,hevent,hoffered⟩ := List.mem_filterMap.mp hmem
  have hhanded : handsOver event.1 = offeredBy event := by
    obtain ⟨c,ans⟩ := event
    cases c <;> rfl
  obtain ⟨done,before,after,a,c,cont,outgoing,hsteps,hserves,hhistory,hsends,hmsg⟩ :=
    main_sent h hevent (hhanded.trans hoffered)
  have hnone : ∀ w, c ≠ .complete w := by
    rintro w rfl
    rcases hsends with hc | hc <;> cases hc
  rcases steps_protocol hsteps with hc | hc | ⟨hc | hc,ans,out,hans,hok⟩
  · refine .inl ?_
    rcases hsends with hs | hs
    · cases hc.symm.trans hs
      exact hmsg.symm
    · cases hc.symm.trans hs
  · exact absurd hc (hnone _)
  · refine .inr ⟨?_,?_⟩
    · rcases hsends with hs | hs
      · cases hc.symm.trans hs
        exact hmsg.symm
      · cases hc.symm.trans hs
    · have hans' : ans = .ok out := hok
      exact ⟨out,done,before,a,after,_,hsteps,hserves,hhistory,hans' ▸ hans⟩
  · exact absurd hc (hnone _)

theorem returned_cases (h : node.Runs ((echoProg digest own).servedBy serve engine.1))
    {e : WithEchoBroadcast Msg} {res : EchoResult IoErr}
    (hret : node.activity = .running (.ret (e,res))) :
    (∃ err, res = .error err ∧ err.Unrelated) ∨ ∃ (commitments : RoundMsgs CommitMsg)
      (randomness : RoundMsgs DecommitMsg),
      HasReturned engine (echoProg digest own) node.history commitments ∧
      ⟨.complete (.plain (some ())),.ok randomness⟩ ∈ node.history ∧
      outputRandomness digest own commitments randomness = .ok res := by
  have hruns : Steps ((echoProg digest own).servedBy serve engine.1) node.history
      node.activity.prog := h
  rw [hret] at hruns
  obtain ⟨done,hserves,hsteps⟩ := serves_of_ret hruns
  rcases steps_protocol hsteps with herr | ⟨ans,commitments,hans,hok,ans',randomness,hans',hok',hout⟩
  · exact .inl herr
  · have hans1 : ans = .ok commitments := hok
    have hans2 : ans' = .ok randomness := hok'
    subst hans1 hans2
    refine .inr ⟨commitments,randomness,?_,?_,hout⟩
    · exact ⟨done,node.history,e,[],_,hsteps,hserves,by simp,hans⟩
    · obtain ⟨_,_,before,a,u,b,more,_,_,hu,hhistory⟩ := hserves.of_mem hans'
      obtain ⟨_,answer,rfl,hanswer⟩ := steps_unmodified hu
      have hanswer' : answer = .ok randomness := by
        cases answer with
        | error err => cases hanswer
        | ok out =>
          cases hanswer
          rfl
      rw [hhistory,hanswer']
      simp

end Party
section Network

variable [Build] {H IoErr : Type} [Digest H Msg] [DecidableEq H]
  [TypeIds (SubStore H Msg (Focus CommitMsg Decommits))] {digest : Randomness → Vector UInt8 32}
  {n : UInt16} {honest : PartyIndex → Prop} {engines : PartyIndex → Engine H Msg CommitMsg Decommits}
  {r : PartyIndex → Randomness} {p j : PartyIndex}
  {nodes nodes' : PartyIndex → Node (SubStore H Msg (Focus CommitMsg Decommits)) IoErr
    (EchoBroadcast.Msg H Msg) (WithEchoBroadcast Msg × EchoResult IoErr)}

/-- The parties start to generate randomness, where `r` is what each of them has generated. -/
def echoParties (IoErr : Type) (digest : Randomness → Vector UInt8 32)
    (engines : PartyIndex → Engine H Msg CommitMsg Decommits) (r : PartyIndex → Randomness) :
    PartyIndex → Node (SubStore H Msg (Focus CommitMsg Decommits)) IoErr (EchoBroadcast.Msg H Msg)
      (WithEchoBroadcast Msg × EchoResult IoErr) :=
  echoStart engines fun p => echoProg digest (r p)

theorem faithful_of_echoSetup (hsetup : ∀ p, honest p → echoSetup p n = .ok (engines p))
    (hr : (corruptedNetwork honest (echoParties IoErr digest engines r)).Reachable nodes) :
    ∀ p, honest p → ∃ l main input s2, Opened p n (engines p) l main input s2 ∧
      Faithful honest l.registered ((echoProg digest (r p)).servedBy serve (engines p).1) nodes p := by
  have hledgers : ∀ p, ∃ l : Ledger (EchoBroadcast.Msg H Msg)
      (SubStore H Msg (Focus CommitMsg Decommits)), honest p →
        ∃ main input s2, Opened p n (engines p) l main input s2 := by
    intro p
    by_cases hp : honest p
    · obtain ⟨l,hl⟩ := opened_of_echoSetup (hsetup p hp)
      exact ⟨l,fun _ => hl⟩
    · exact ⟨.empty,fun hc => absurd hc hp⟩
  choose l hl using hledgers
  have hfaithful : ∀ p, honest p → Faithful honest (l p).registered
      ((echoProg digest (r p)).servedBy serve (engines p).1) nodes p := by
    refine faithful_of_reachable (fun p hp => ?_) hr
    obtain ⟨main,input,s2,ho⟩ := hl p hp
    exact ⟨l p,ho.received,rfl,by rw [echoParties,echoStart,ho.router]⟩
  intro p hp
  obtain ⟨main,input,s2,ho⟩ := hl p hp
  exact ⟨l p,main,input,s2,ho,hfaithful p hp⟩

/-- What comes from an honest party is its commitment, or what it has committed to. -/
theorem sent_by_honest (hsetup : ∀ p, honest p → echoSetup p n = .ok (engines p))
    (hr : (corruptedNetwork honest (echoParties IoErr digest engines r)).Reachable nodes)
    (hp : honest p) {incoming : Incoming (EchoBroadcast.Msg H Msg)}
    (hmem : incoming ∈ (nodes p).received) (hj : honest incoming.sender) :
    (∀ t : CommitMsg, mainOf CommitMsg incoming.msg = some t → t = ⟨digest (r incoming.sender)⟩) ∧
      ∀ t : DecommitMsg, mainOf DecommitMsg incoming.msg = some t → t = ⟨r incoming.sender⟩ := by
  obtain ⟨_,_,_,_,_,hfaithful⟩ := faithful_of_echoSetup hsetup hr p hp
  obtain ⟨_,_,_,_,_,hsender⟩ := faithful_of_echoSetup hsetup hr _ hj
  obtain ⟨⟨dest,msg⟩,hoffered,heq⟩ := List.mem_map.mp (hfaithful.authentic incoming hmem hj)
  have hmsg : msg = incoming.msg := congrArg Prod.snd heq
  rw [← hmsg]
  cases msg with
  | echo round hash => exact ⟨fun t ht => (by cases ht),fun t ht => (by cases ht)⟩
  | main m =>
    rcases offered_main hsender.runs (List.mem_filter.mp hoffered).1 with rfl | ⟨rfl,_⟩
    · exact ⟨fun t ht => (by cases ht; rfl),fun t ht => (by cases ht)⟩
    · exact ⟨fun t ht => (by cases ht),fun t ht => (by cases ht; rfl)⟩

/-- What an honest party has received in the two rounds. -/
structure View (honest : PartyIndex → Prop) (digest : Randomness → Vector UInt8 32)
    (r : PartyIndex → Randomness) (n p : UInt16) (commitments : RoundMsgs CommitMsg)
    (randomness : RoundMsgs DecommitMsg) (c : PartyIndex → MsgId × CommitMsg)
    (d : PartyIndex → MsgId × DecommitMsg) : Prop where
  commits : Received p n commitments c
  opens : Received p n randomness d
  commitment : ∀ j, Others p n j → commitments.get j = some (c j).2
  ofHonest : ∀ j, Others p n j → honest j → (c j).2 = ⟨digest (r j)⟩ ∧ (d j).2 = ⟨r j⟩

theorem view_of_returned (hsetup : ∀ p, honest p → echoSetup p n = .ok (engines p))
    (hr : (corruptedNetwork honest (echoParties IoErr digest engines r)).Reachable nodes)
    (hp : honest p) {commitments : RoundMsgs CommitMsg} {randomness : RoundMsgs DecommitMsg}
    (hret : HasReturned (engines p) (echoProg digest (r p)) (nodes p).history commitments)
    (hmem : ⟨.complete (.plain (some ())),.ok randomness⟩ ∈ (nodes p).history) :
    ∃ c d, View honest digest r n p commitments randomness c d := by
  obtain ⟨l,main,input,s2,ho,hf⟩ := faithful_of_echoSetup hsetup hr p hp
  have hlt : p < n := RoundInput.lt_of_new ho.broadcast
  obtain ⟨sent,own,hdone,_⟩ := mainDone_of_returned (joins_of_echoSetup (hsetup p hp)) ho.awaits
    hf.explained hret
  obtain ⟨before,after,needs,hhistory,rfl,_⟩ := hdone.completed
  have hgathered := gathered_main hlt (RoundInput.two_le_of_new ho.broadcast) ho.awaits hf.explained
    (hhistory ▸ List.mem_append_right _ (List.mem_cons_self ..))
  have hgathered' : Gathered p n (nodes p).received (mainOf DecommitMsg) randomness :=
    gathered_plain (V := fun _ => DecommitMsg) ho.broadcast ho.registered hf.explained hmem
  refine ⟨_,_,received_of_gathered hgathered hlt ⟨zero⟩,received_of_gathered hgathered' hlt ⟨zero⟩,
    fun j hj => ?_,fun j hj hhonest => ?_⟩
  · obtain ⟨_,_,_,t,_,ht⟩ := hgathered.origin j hj
    rw [ht]
    rfl
  · obtain ⟨incoming,hincoming,rfl,t,hof,ht⟩ := hgathered.origin j hj
    obtain ⟨incoming',hincoming',hsender,t',hof',ht'⟩ := hgathered'.origin _ hj
    rw [ht,ht']
    refine ⟨(sent_by_honest hsetup hr hp hincoming hhonest).1 t hof,?_⟩
    rw [← hsender] at hhonest ⊢
    exact (sent_by_honest hsetup hr hp hincoming' hhonest).2 t' hof'

/-- Whatever the corrupted parties do, no honest party blames an honest party. -/
theorem honest_not_blamed (hn : n.toNat < 65535)
    (hsetup : ∀ p, honest p → echoSetup p n = .ok (engines p))
    (hr : (corruptedNetwork honest (echoParties IoErr digest engines r)).Reachable nodes)
    (hp : honest p) {e : WithEchoBroadcast Msg} {guiltyParties : List Blame}
    (hret : (nodes p).activity = .running (.ret (e,.error
      (.partiesOpenedRandomnessDoesntMatchCommitment guiltyParties)))) :
    guiltyParties ≠ [] ∧ ∀ blame ∈ guiltyParties, blame.guiltyParty < n ∧ ¬ honest blame.guiltyParty := by
  obtain ⟨l,main,input,s2,ho,hf⟩ := faithful_of_echoSetup hsetup hr p hp
  have hlt := UInt16.lt_iff_toNat_lt.mp (RoundInput.lt_of_new ho.broadcast)
  rcases returned_cases hf.runs hret with ⟨err,herr,hunrelated⟩ | ⟨commitments,randomness,hreturned,hmem,hout⟩
  · cases herr
    cases hunrelated
  obtain ⟨c,d,hview⟩ := view_of_returned hsetup hr hp hreturned hmem
  have heq := (outputRandomness_eq hlt hn hview.commits hview.opens (r p)).symm.trans hout
  by_cases hnobody : (othersOf p n).filter (Cheats digest c d) = []
  · rw [if_pos hnobody] at heq
    cases heq
  rw [if_neg hnobody] at heq
  cases heq
  refine ⟨fun hnil => hnobody (List.map_eq_nil_iff.mp hnil),fun blame hblame => ?_⟩
  obtain ⟨j,hj,rfl⟩ := List.mem_map.mp hblame
  obtain ⟨hothers,hcheats⟩ := List.mem_filter.mp hj
  have hother := (mem_othersOf hlt).mp hothers
  refine ⟨hother.1,fun hhonest => ?_⟩
  obtain ⟨hc,hd⟩ := hview.ofHonest j hother hhonest
  have hcheats' : (c j).2.commitment ≠ digest (d j).2.randomness := of_decide_eq_true hcheats
  rw [hc,hd] at hcheats'
  exact hcheats' rfl

end Network

/-! Three parties, of which the last one is corrupted. Digests are what they are digests of. -/
section ThreeParties

def enginesOfThree (p : PartyIndex) : Engine Hash Msg CommitMsg Decommits :=
  letI : Build := .debug
  ((echoSetup p 3).toOption).getD (wrap p 3,.new)

def threeParties : PartyIndex → Node (SubStore Hash Msg (Focus CommitMsg Decommits)) Unit
    (EchoBroadcast.Msg Hash Msg) (WithEchoBroadcast Msg × EchoResult Unit) :=
  letI : Build := .debug
  echoParties Unit id enginesOfThree bytesOf

/-- The commitment of `j` reaches `p`. -/
def commits (p j : PartyIndex) (id : MsgId) : CorruptedEvent (EchoBroadcast.Msg Hash Msg) :=
  .delivers p ⟨id,j,.broadcast false,.main (.commitMsg ⟨bytesOf j⟩)⟩

def echoes (p j : PartyIndex) (id : MsgId) : CorruptedEvent (EchoBroadcast.Msg Hash Msg) :=
  .delivers p ⟨id,j,.broadcast false,.echo 0
    ⟨TAG,[0,1,2].map fun j => some (.commitMsg ⟨bytesOf j⟩),0,3⟩⟩

/-- What is opened in the name of `j`. -/
def opens (p j : PartyIndex) (id : MsgId) (randomness : Randomness) :
    CorruptedEvent (EchoBroadcast.Msg Hash Msg) :=
  .delivers p ⟨id,j,.broadcast false,.main (.decommitMsg ⟨randomness⟩)⟩

/-- Party 0 opens its randomness. -/
def openingRun : List (CorruptedEvent (EchoBroadcast.Msg Hash Msg)) :=
  [.acts 0,.acts 1,.acts 0,.acts 1,commits 0 2 0,commits 0 1 1,commits 1 0 2,commits 1 2 3,
    .acts 0,.acts 1,.acts 0,echoes 0 1 4,echoes 0 2 5,.acts 0]

theorem setup_three : ∀ p : PartyIndex, p < 2 → echoSetup p 3 = .ok (enginesOfThree p) := by
  intro p hp
  rcases lt_two hp with rfl | rfl <;> rfl

/-- Party 2 opens something else than it has committed to. -/
def blamingRun : List (CorruptedEvent (EchoBroadcast.Msg Hash Msg)) :=
  openingRun ++ [.acts 0,.acts 1,echoes 1 0 6,echoes 1 2 7,.acts 1,opens 0 1 8 (bytesOf 1),
    opens 0 2 9 (bytesOf 3)]

theorem honest_not_blamed_three :
    letI : Build := .debug
    ∃ nodes e, execHonest (· < 2) threeParties blamingRun = some nodes ∧
      (nodes 0).activity = .running (.ret (e,.error
        (.partiesOpenedRandomnessDoesntMatchCommitment [⟨2,0,9⟩]))) ∧
      ([⟨2,0,9⟩] : List Blame) ≠ [] ∧ ∀ blame ∈ ([⟨2,0,9⟩] : List Blame),
        blame.guiltyParty < 3 ∧ ¬ blame.guiltyParty < 2 := by
  let _ : Build := .debug
  have h : (execHonest (· < 2) threeParties blamingRun).isSome = true := by decide
  have hreach : (corruptedNetwork (· < 2) threeParties).Reachable
      ((execHonest (· < 2) threeParties blamingRun).get h) :=
    execHonest_reachable (Option.some_get h).symm (System.reachable_init _)
  exact ⟨_,_,(Option.some_get h).symm,rfl,honest_not_blamed (by decide) setup_three hreach
    (by decide : (0 : PartyIndex) < 2) rfl⟩

end ThreeParties

end RandomGeneration
end RoundBased
