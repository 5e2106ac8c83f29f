import RoundBased.EchoTurns
import RoundBased.RandomGenerationEcho

/-! Honest runs of the protocol of random generation over the echo broadcast. The parties output what
they output without it, under every order of delivery and in the simulation. -/
namespace RoundBased
namespace RandomGeneration
open EchoBroadcast Interaction RoundsRouter Transition WithEchoBroadcast

/-- The rounds, as they are named when they are defined over the engine. -/
def echoRounds : List (EchoBroadcast.Round RoundKind) := [.withReliabilityCheck .round1,.unmodified .round2]

section Program

variable [Build] (H : Type) {IoErr : Type} (digest : Randomness → Vector UInt8 32)
  (r : PartyIndex → Randomness) {n p : UInt16}

/-- The program of party `i` over the engine. -/
def echoTurns (i : PartyIndex) : RoundsProg (M := Msg) RoundKind.Msg IoErr (EchoResult IoErr) :=
  protocolOfRandomGeneration digest (.withReliabilityCheck .round1) (.unmodified .round2) id id (r i)

/-- Wraps a party and defines the rounds. -/
def setupOverEcho (i n : UInt16) :
    Checked (WithEchoBroadcast Msg × RoundsRouter (EchoBroadcast.Msg H Msg) (SubStore H Msg fun k =>
      RoundInput (RoundKind.Msg k))) := do
  let round1 ← RoundInput.reliableBroadcast i n
  let (mpc,router,_) ← (wrap i n : WithEchoBroadcast Msg).addRound .new RoundKind.round1 round1
  let round2 ← RoundInput.broadcast i n
  let (mpc,router,_) ← mpc.addRound router RoundKind.round2 round2
  return (mpc,router)

/-- Party `i` of `n`. -/
def partyOverEcho [Digest H Msg] [DecidableEq H] (n : UInt16) (i : PartyIndex) :
    Node (SubStore H Msg fun k => RoundInput (RoundKind.Msg k)) IoErr (EchoBroadcast.Msg H Msg)
      (EchoResult IoErr) :=
  roundsNodes (fun i => (setupOverEcho H i n).toOption.getD (wrap i n,.new)) (echoTurns digest r) i

variable {H} {digest r}

theorem setUp_of_setupOverEcho {party} (h : setupOverEcho H p n = .ok party) :
    setUp p n (echoRounds.map Round.setting) = .ok party := by
  obtain ⟨s1,hs1,h⟩ := Checked.bind_eq_ok.mp h
  obtain ⟨⟨mpc,router,w⟩,hadd1,h⟩ := Checked.bind_eq_ok.mp h
  obtain ⟨s2,hs2,h⟩ := Checked.bind_eq_ok.mp h
  obtain ⟨⟨mpc',router',w'⟩,hadd2,h⟩ := Checked.bind_eq_ok.mp h
  cases h
  refine Checked.bind_eq_ok.mpr ⟨[⟨.round1,s1⟩,⟨.round2,s2⟩],?_,?_⟩
  · exact Checked.bind_eq_ok.mpr ⟨s1,hs1,Checked.bind_eq_ok.mpr ⟨_,Checked.bind_eq_ok.mpr
      ⟨s2,hs2,rfl⟩,rfl⟩⟩
  · exact Checked.bind_eq_ok.mpr ⟨_,hadd1,Checked.bind_eq_ok.mpr ⟨_,hadd2,rfl⟩⟩

theorem setupOverEcho_ok (h2 : 2 ≤ n.toNat) (hi : p < n) : ∃ party, setupOverEcho H p n = .ok party := by
  have hlt := UInt16.lt_iff_toNat_lt.mp hi
  obtain ⟨s1,hs1⟩ : ∃ s : RoundInput CommitMsg, RoundInput.reliableBroadcast p n = .ok s :=
    ⟨_,dif_pos ⟨h2,hlt⟩⟩
  obtain ⟨s2,hs2⟩ : ∃ s : RoundInput DecommitMsg, RoundInput.broadcast p n = .ok s :=
    ⟨_,dif_pos ⟨h2,hlt⟩⟩
  obtain ⟨main,echo,hnew,_⟩ := newStores_spec (H := H) (M := Msg) hs1
  -- the three rounds of the party have different numbers
  let l0 : Ledger (EchoBroadcast.Msg H Msg) (SubStore H Msg fun k => RoundInput (RoundKind.Msg k)) := .empty
  let l1 := l0.register (.main .round1) ⟨main⟩ rfl
  let l2 := l1.register (.echo .round1) ⟨⟨echo⟩⟩ rfl
  let l3 := l2.register (.plain .round2) ⟨⟨s2⟩⟩ rfl
  have hmain := l0.addRound_spec (.main .round1) ⟨main⟩ rfl
  rw [Ledger.router_empty] at hmain
  have hecho := l1.addRound_spec (.echo .round1) ⟨⟨echo⟩⟩ rfl
  have hplain := l2.addRound_spec (.plain .round2) ⟨⟨s2⟩⟩ rfl
  have hreliable : requiresReliableBroadcast s1 = some true := RoundInput.requiresReliable_new hs1
  have hnot : requiresReliableBroadcast s2 ≠ some true := by
    have hfalse : requiresReliableBroadcast s2 = some false := RoundInput.requiresReliable_new hs2
    rw [hfalse]
    decide
  let sent : WithEchoBroadcast Msg := { (wrap p n : WithEchoBroadcast Msg) with
    sentReliableMsgs := Function.update (wrap p n).sentReliableMsgs 0 (some none) }
  have hadd1 : (wrap p n : WithEchoBroadcast Msg).addRound .new RoundKind.round1 s1 =
      .ok (sent,l2.router,.withReliabilityCheck .round1) := by
    refine (if_pos hreliable).trans ?_
    exact Checked.bind_eq_ok.mpr ⟨_,hnew,Checked.bind_eq_ok.mpr ⟨_,hmain,
      Checked.bind_eq_ok.mpr ⟨_,hecho,rfl⟩⟩⟩
  have hadd2 : sent.addRound l2.router RoundKind.round2 s2 =
      .ok (sent,l3.router,.unmodified .round2) := by
    refine (if_neg hnot).trans ?_
    exact Checked.bind_eq_ok.mpr ⟨_,hplain,rfl⟩
  exact ⟨_,Checked.bind_eq_ok.mpr ⟨s1,hs1,Checked.bind_eq_ok.mpr ⟨_,hadd1,
    Checked.bind_eq_ok.mpr ⟨s2,hs2,Checked.bind_eq_ok.mpr ⟨_,hadd2,rfl⟩⟩⟩⟩⟩

omit [Build] in
theorem received_of_heard {k : RoundKind} {out : RoundMsgs k.Msg} (hp : p < n)
    (h : Heard n p (fun j => RandomGeneration.contribution digest r j k) out)
    (hids : out.ids.length = n.toNat - 1) : Received p n out fun j =>
      (out.ids.getD (slotIndex p j) 0,RandomGeneration.contribution digest r j k) :=
  received_of_get hp h.i_eq hids h.length h.get

/-- The program takes the two rounds, and ends with the sum. -/
theorem echoTurns_takesRounds (hn : n.toNat < 65535) (hp : p < n) :
    TakesRounds n p (RandomGeneration.contribution digest r) (fun res => res = .ok (total r n))
      echoRounds (echoTurns digest r p : RoundsProg RoundKind.Msg IoErr _) := by
  refine .round (w := .withReliabilityCheck RoundKind.round1) rfl fun commitments hcommitments hids => ?_
  refine .round (w := .unmodified RoundKind.round2) rfl fun randomness hrandomness hids' => ?_
  have hc : Received (T := CommitMsg) p n commitments fun j => (_,⟨digest (r j)⟩) :=
    received_of_heard (k := .round1) hp hcommitments hids
  have hd : Received (T := DecommitMsg) p n randomness fun j => (_,⟨r j⟩) :=
    received_of_heard (k := .round2) hp hrandomness hids'
  have hout : (outputRandomness digest (r p) commitments randomness :
      Checked (EchoResult IoErr)) = .ok (.ok (total r n)) :=
    output_total digest r hn hp hc hd
  simp only [id,hout]
  exact .done rfl

theorem setUp_parties (h2 : 2 ≤ n.toNat) (hp : p < n) :
    setUp p n (echoRounds.map Round.setting) =
      .ok ((setupOverEcho H p n).toOption.getD (wrap p n,.new)) := by
  obtain ⟨party,hparty⟩ := setupOverEcho_ok (H := H) h2 hp
  rw [hparty]
  exact setUp_of_setupOverEcho hparty

end Program

section Runs

variable [Build] {H IoErr : Type} [Digest H Msg] [DecidableEq H]
  (digest : Randomness → Vector UInt8 32) (r : PartyIndex → Randomness) {n : UInt16}

/-- Among honest parties that run over the echo broadcast no operation ever fails, and when no step is
possible any more all of them have output what they would have without it. -/
theorem echo_generates_total (h2 : 2 ≤ n.toNat) (hn : n.toNat < 65535)
    {net : Network (SubStore H Msg fun k => RoundInput (RoundKind.Msg k)) IoErr
      (EchoBroadcast.Msg H Msg) (EchoResult IoErr)}
    (h : (network n (partyOverEcho H digest r n)).Reachable net) :
    (∀ p < n, Unfailing net p fun res => res = .ok (total r n)) ∧
    (AtRest n (partyOverEcho H digest r n) net → ∀ p < n,
      (net.nodes p).activity = .running (.ret (.ok (total r n)))) := by
  obtain ⟨hsafe,hlive⟩ := turns_complete (Q := fun _ res => res = .ok (total r n))
    (fun p hp => setUp_parties h2 hp) (fun p hp => echoTurns_takesRounds hn hp) h
  refine ⟨hsafe,fun hrest p hp => ?_⟩
  obtain ⟨res,hret,rfl⟩ := hlive hrest p hp
  exact hret

end Runs

/-! Two parties that commit to their randomness by itself. The echo of party 0 overtakes its commitment,
and what party 1 opens overtakes its echo. -/
section TwoParties

def commitOf (j : PartyIndex) : EchoBroadcast.Msg Hash Msg := .main (.commitMsg ⟨bytesOf j⟩)

def echoMsg : EchoBroadcast.Msg Hash Msg :=
  .echo 0 (commonHash Hash Msg 2 (RandomGeneration.contribution id bytesOf) RoundKind.round1)

def openingMsg (j : PartyIndex) : EchoBroadcast.Msg Hash Msg := .main (.decommitMsg ⟨bytesOf j⟩)

def echoGeneratingTwo : Network (SubStore Hash Msg fun k => RoundInput (RoundKind.Msg k)) Unit
    (EchoBroadcast.Msg Hash Msg) (EchoResult Unit) :=
  letI : Build := .debug
  ⟨partyOverEcho Hash id bytesOf 2,[]⟩

def echoGeneratingRun : List (NetworkEvent (EchoBroadcast.Msg Hash Msg)) :=
  [.acts 0 false,.acts 1 true,.acts 0 false,reads 0 1 (commitOf 1) 0,.acts 0 false,.acts 0 false,
    .acts 1 false,reads 1 0 echoMsg 1,reads 1 1 (commitOf 1) 2,reads 1 0 (commitOf 0) 3,.acts 1 false,
    .acts 1 false,.acts 1 false,.acts 1 false,reads 0 1 (openingMsg 1) 4,reads 0 1 echoMsg 5,.acts 0 false,
    .acts 0 false,reads 1 0 (openingMsg 0) 6]

theorem echo_generates_total_two :
    letI : Build := .debug
    ∃ net, echoGeneratingTwo.exec 2 echoGeneratingRun = some net ∧
      (∀ p : PartyIndex, p < 2 → Unfailing net p fun res => res = .ok (total bytesOf 2)) ∧
      ∀ p : PartyIndex, p < 2 → (net.nodes p).activity = .running (.ret (.ok (total bytesOf 2))) := by
  let _ : Build := .debug
  have h : (echoGeneratingTwo.exec 2 echoGeneratingRun).isSome = true := by decide
  have hreach : (network 2 (partyOverEcho Hash id bytesOf 2)).Reachable
      ((echoGeneratingTwo.exec 2 echoGeneratingRun).get h) :=
    Network.exec_reachable (Option.some_get h).symm (System.reachable_init _)
  obtain ⟨hsafe,hlive⟩ := echo_generates_total id bytesOf (by decide) (by decide) hreach
  refine ⟨_,(Option.some_get h).symm,hsafe,hlive (atRest_of_finished fun p hp => ?_)⟩
  rcases lt_two hp with rfl | rfl <;> exact ⟨_,rfl⟩

end TwoParties

section Simulated

variable [Build] (H : Type) [Digest H Msg] [DecidableEq H] (digest : Randomness → Vector UInt8 32)
  (r : PartyIndex → Randomness) {n : UInt16}

/-- The simulation returns as well, and the checks of its result succeed with the same output. -/
theorem echo_simulates_total (h2 : 2 ≤ n.toNat) (hn : n.toNat < 65535) {fuel : ℕ} (hfuel : 38 < fuel)
    (debug : Error (EchoRecvErr DeliveryErr) (EchoBroadcast.Error DeliveryErr) → String)
    (debug' : Randomness → String) :
    ∃ k outs, Simulation.run (partyMachine fuel) k (simulationOf n (partyOverEcho H digest r n)) =
      some (.returned (.ok outs)) ∧
      (SimResult.expectOk debug outs).bind (SimResult.expectEq debug') = .ok (total r n) := by
  have hprog : ∀ p < n, TakesRounds n p (RandomGeneration.contribution digest r)
      (fun res : EchoResult DeliveryErr => res = .ok (total r n)) echoRounds (echoTurns digest r p) :=
    fun p hp => echoTurns_takesRounds hn hp
  obtain ⟨k,outs,hrun,hlen,hall⟩ := simulated_turns_complete hn
    (fun p hp => setUp_parties (H := H) h2 hp) hprog hfuel
  exact ⟨k,outs,hrun,checks_of_parties debug debug' (by omega) hlen hall⟩

end Simulated

theorem echo_simulates_total_three :
    letI : Build := .debug
    ∃ k outs, Simulation.run (partyMachine 39) k (simulationOf 3 (partyOverEcho Hash id bytesOf 3)) =
      some (.returned (.ok outs)) ∧ (SimResult.expectOk (fun _ => "") outs).bind
        (SimResult.expectEq fun _ => "") = .ok (total bytesOf 3) := by
  let _ : Build := .debug
  exact echo_simulates_total Hash id bytesOf (by decide) (by decide) (by decide) _ _

end RandomGeneration
end RoundBased
