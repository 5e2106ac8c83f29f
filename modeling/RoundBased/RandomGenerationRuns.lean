import RoundBased.EchoOutputs
import RoundBased.EchoPlan
import RoundBased.RandomGenerationProtocol
import RoundBased.SimulationCompleteness
import RoundBased.SimulationResult

/-! Honest runs of the protocol of random generation: under every order of delivery, and in the
simulation, all parties output the sum of what all of them have generated. -/
namespace RoundBased

namespace RoundInput

variable {M : Type} {i n : UInt16} {t : MessageType}

theorem gathers_with_ids {s : RoundInput M} (hs : new i n t = .ok s) :
    Gathers i n (fun _ msgType _ => isExpectedType t msgType = true) s fun out f =>
      Releases i n out f ∧ out.ids.length = n.toNat - 1 := by
  obtain ⟨hobeys,hverdict⟩ := gathers hs
  refine ⟨hobeys,fun msgs hnodup hmsgs => ?_⟩
  rcases hverdict msgs hnodup hmsgs with hnone | ⟨out,hv,hall,hrel⟩
  · exact .inl hnone
  · exact .inr ⟨out,hv,hall,hrel,length_ids_of_verdict hs hv⟩

end RoundInput

namespace RandomGeneration
open Interaction RoundsRouter Simulation Transition

/-! The sum of the randomness of all parties does not depend on the order. -/
section Sum

theorem xor_comm (x y : Randomness) : xor x y = xor y x := by
  ext k hk
  simp [xor,UInt8.xor_comm]

theorem xor_assoc (x y z : Randomness) : xor (xor x y) z = xor x (xor y z) := by
  ext k hk
  simp [xor,UInt8.xor_assoc]

def zero : Randomness := .replicate 32 0

theorem zero_xor (x : Randomness) : xor zero x = x := by
  ext k hk
  simp [xor,zero]

variable {n : UInt16} {i : PartyIndex} (r : PartyIndex → Randomness)

/-- What all parties have generated, summed up. -/
def total (n : UInt16) : Randomness := (partiesOf n).foldl (fun x j => xor x (r j)) zero

theorem partiesOf_perm (hi : i < n) : (partiesOf n).Perm (i :: othersOf i n) := by
  have hlt := UInt16.lt_iff_toNat_lt.mp hi
  have hnodup : (i :: othersOf i n).Nodup := by
    refine List.nodup_cons.mpr ⟨fun hmem => ((mem_othersOf hlt).mp hmem).2 rfl,?_⟩
    exact (othersOf_ascending hlt).imp fun hab => UInt16.ne_of_lt hab
  refine (List.perm_ext_iff_of_nodup (nodup_partiesOf n) hnodup).mpr fun j => ?_
  rw [mem_partiesOf,List.mem_cons,mem_othersOf hlt]
  constructor
  · intro hj
    by_cases hji : j = i
    · exact .inl hji
    · exact .inr ⟨hj,hji⟩
  · rintro (rfl | hj)
    · exact hi
    · exact hj.1

/-- Starting from its own randomness a party gets the same. -/
theorem foldl_others (hi : i < n) :
    (othersOf i n).foldl (fun x j => xor x (r j)) (r i) = total r n := by
  have hcomm : ∀ x ∈ partiesOf n, ∀ y ∈ partiesOf n, ∀ z : Randomness,
      xor (xor z (r x)) (r y) = xor (xor z (r y)) (r x) := by
    intro x _ y _ z
    rw [xor_assoc,xor_comm (r x),← xor_assoc]
  rw [total,(partiesOf_perm hi).foldl_eq' hcomm,List.foldl_cons,zero_xor]

end Sum

/-! The parties on the engine without the echo broadcast. -/
section Parties

variable [Build] {IoErr : Type} (digest : Randomness → Vector UInt8 32)
  (r : PartyIndex → Randomness) {n : UInt16} {i p : PartyIndex}

/-- Errors of completing a round. -/
abbrev RecvErr (IoErr : Type) : Type := CompleteRoundError RoundInputError IoErr

/-- Defines the rounds. -/
def setup (i n : UInt16) : Checked (RoundsRouter Msg Store) := do
  let round1 ← RoundInput.reliableBroadcast i n
  let (router,_) ← RoundsRouter.new.addRound RoundKind.round1 round1
  let round2 ← RoundInput.broadcast i n
  let (router,_) ← router.addRound RoundKind.round2 round2
  return router

/-- The program of a party whose rounds are defined. -/
def prog (i : PartyIndex) :
    NodeProg Store IoErr Msg (Except (Error (RecvErr IoErr) IoErr) Randomness) :=
  protocolOfRandomGeneration digest RoundKind.round1 RoundKind.round2 id id (r i)

/-- Party `i` of `n`. -/
def party (n : UInt16) (i : PartyIndex) :
    Node Store IoErr Msg (Except (Error (RecvErr IoErr) IoErr) Randomness) :=
  Node.start ((setup i n).toOption.getD .new) (prog digest r i)

/-- The type of the messages of each round. -/
def types : RoundKind → MessageType
  | .round1 => .broadcast true
  | .round2 => .broadcast false

/-- What party `j` sends in each round. -/
def contribution (j : PartyIndex) : (k : RoundKind) → k.Msg
  | .round1 => (⟨digest (r j)⟩ : CommitMsg)
  | .round2 => (⟨r j⟩ : DecommitMsg)

/-- What the parties have agreed on. -/
def agreed (n : UInt16) : Plan Store where
  kinds := [.round1,.round2]
  sends k j msgType v := isExpectedType (types k) msgType = true ∧ v = contribution digest r j k
  returns p _ out f := RoundInput.Releases p n out f ∧ out.ids.length = n.toNat - 1

omit [Build] in
theorem setup_eq (i n : UInt16) : setup i n = addInputs i n types [.round1,.round2] .new := by
  rfl

omit [Build] in
theorem setup_ok (h2 : 2 ≤ n.toNat) (hi : i < n) : ∃ router, setup i n = .ok router := by
  have hnew : ∀ {T : Type} (t : MessageType), ∃ s : RoundInput T, RoundInput.new i n t = .ok s := by
    intro T t
    exact ⟨_,dif_pos ⟨h2,UInt16.lt_iff_toNat_lt.mp hi⟩⟩
  obtain ⟨s1,hs1⟩ := hnew (T := CommitMsg) (.broadcast true)
  obtain ⟨s2,hs2⟩ := hnew (T := DecommitMsg) (.broadcast false)
  let l : Ledger Msg Store := Ledger.empty.register RoundKind.round1 s1 rfl
  have hadd1 := (Ledger.empty : Ledger Msg Store).addRound_spec RoundKind.round1 s1 rfl
  rw [Ledger.router_empty] at hadd1
  have hadd2 := l.addRound_spec RoundKind.round2 s2 rfl
  refine ⟨(l.register RoundKind.round2 s2 rfl).router,?_⟩
  exact Checked.bind_eq_ok.mpr ⟨s1,hs1,Checked.bind_eq_ok.mpr ⟨_,hadd1,
    Checked.bind_eq_ok.mpr ⟨s2,hs2,Checked.bind_eq_ok.mpr ⟨_,hadd2,rfl⟩⟩⟩⟩

omit [Build] in
theorem nodup_kinds : (agreed digest r n).kinds.Nodup := by
  show [RoundKind.round1,.round2].Nodup
  decide

omit [Build] in
theorem prepared_of_setup {router : RoundsRouter Msg Store} (h : setup p n = .ok router) :
    ∃ l : Ledger Msg Store, router = l.router ∧ Prepared (agreed digest r n) n p l := by
  rw [setup_eq,← Ledger.router_empty] at h
  obtain ⟨l,hl,hext,hkinds⟩ := addInputs_registers h
  refine ⟨l,hl,hext.received,hext.taken fun _ => rfl,fun k hk => ?_⟩
  obtain ⟨s,hs,hreg⟩ := hkinds k hk
  exact ⟨s,hreg,(RoundInput.gathers_with_ids hs).mono (fun _ _ _ h => h.1) fun _ _ h => h⟩

omit [Build] in
theorem received_of_returned {k : RoundKind} {out : RoundMsgs k.Msg} (hp : p < n)
    (h : (agreed digest r n).Returned n p k out) :
    Received p n out fun j => (out.ids.getD (slotIndex p j) 0,contribution digest r j k) := by
  obtain ⟨f,⟨hreleases,hids⟩,hf⟩ := h
  refine received_of_get hp hreleases.i_eq hids hreleases.length fun j hj => ?_
  obtain ⟨v,msgType,hv,_,rfl⟩ := hf j hj
  exact (hreleases.get j hj).trans hv

/-- If all have opened what they had committed to, the sum is output. -/
theorem output_total (hn : n.toNat < 65535) (hp : p < n) {commitments : RoundMsgs CommitMsg}
    {randomness : RoundMsgs DecommitMsg} {idOf idOf' : PartyIndex → MsgId}
    (hc : Received p n commitments fun j => (idOf j,⟨digest (r j)⟩))
    (hd : Received p n randomness fun j => (idOf' j,⟨r j⟩)) {RecvErr SendErr : Type} :
    (outputRandomness digest (r p) commitments randomness :
      Checked (Except (Error RecvErr SendErr) Randomness)) = .ok (.ok (total r n)) := by
  have hnobody : (othersOf p n).filter (Cheats digest (fun j => (idOf j,⟨digest (r j)⟩))
      fun j => (idOf' j,⟨r j⟩)) = [] := by
    rw [List.filter_eq_nil_iff]
    intro j _
    simp [Cheats]
  have hsum : (othersOf p n).foldl (fun x j => xor x (r j)) (r p) = total r n := foldl_others r hp
  refine (outputRandomness_eq (UInt16.lt_iff_toNat_lt.mp hp) hn hc hd (r p)).trans ?_
  rw [if_pos hnobody,← hsum]

/-- The program announces the messages of its party, and ends with the sum. -/
theorem prog_inTurn (hn : n.toNat < 65535) (hp : p < n) :
    InTurn (agreed digest r n) n p (fun res => res = .ok (total r n)) (agreed digest r n).kinds
      (prog digest r p : NodeProg Store IoErr Msg _) := by
  refine .round ⟨⟨true,rfl⟩,⟨⟨0,rfl⟩,fun j => wellRouted _ _⟩,⟨digest (r p)⟩,rfl,rfl,rfl⟩ rfl
    fun commitments hcommitments => ?_
  refine .round ⟨⟨false,rfl⟩,⟨⟨1,rfl⟩,fun j => wellRouted _ _⟩,⟨r p⟩,rfl,rfl,rfl⟩ rfl
    fun randomness hrandomness => ?_
  have hc : Received (T := CommitMsg) p n commitments fun j => (_,⟨digest (r j)⟩) :=
    received_of_returned digest r (k := .round1) hp hcommitments
  have hd : Received (T := DecommitMsg) p n randomness fun j => (_,⟨r j⟩) :=
    received_of_returned digest r (k := .round2) hp hrandomness
  have hout : (outputRandomness digest (r p) commitments randomness :
      Checked (Except (Error (RecvErr IoErr) IoErr) Randomness)) = .ok (.ok (total r n)) :=
    output_total digest r hn hp hc hd
  simp only [id,hout]
  exact .done rfl

theorem arranged (h2 : 2 ≤ n.toNat) (hn : n.toNat < 65535) :
    ∃ l0, Arranged (agreed digest r n) n l0
      (prog digest r : PartyIndex → NodeProg Store IoErr Msg _) (party digest r n) := by
  have hledgers : ∀ p, ∃ l : Ledger Msg Store, p < n → setup p n = .ok l.router ∧
      Prepared (agreed digest r n) n p l := by
    intro p
    by_cases hp : p < n
    · obtain ⟨router,hrouter⟩ := setup_ok h2 hp
      obtain ⟨l,rfl,hprepared⟩ := prepared_of_setup digest r hrouter
      exact ⟨l,fun _ => ⟨hrouter,hprepared⟩⟩
    · exact ⟨.empty,fun hc => absurd hc hp⟩
  choose l0 hl0 using hledgers
  refine ⟨l0,fun p => ⟨rfl,rfl⟩,fun p hp => ?_,fun p hp => (hl0 p hp).2,fun p hp => ?_⟩
  · rw [party,(hl0 p hp).1]
    rfl
  · exact (prog_inTurn digest r hn hp).orderly (hl0 p hp).2.distinct (nodup_kinds digest r)

/-- Among honest parties no operation ever fails, nobody is blamed, and when no step is possible any
more all parties have output the sum of what all of them have generated. -/
theorem generates_total (h2 : 2 ≤ n.toNat) (hn : n.toNat < 65535)
    {net : Network Store IoErr Msg (Except (Error (RecvErr IoErr) IoErr) Randomness)}
    (h : (network n (party digest r n)).Reachable net) :
    (∀ p < n, Unfailing net p fun res => res = .ok (total r n)) ∧
    (AtRest n (party digest r n) net → ∀ p < n,
      (net.nodes p).activity = .running (.ret (.ok (total r n)))) := by
  obtain ⟨l0,ha⟩ := arranged digest r h2 hn
  have hff := faultFree_of_reachable ha h
  refine ⟨fun p hp => ?_,fun hrest p hp => ?_⟩
  · exact hff.unfailing (Q := fun _ res => res = .ok (total r n)) ha (prog_inTurn digest r hn hp) hp
  · obtain ⟨res,hret,rfl⟩ := hff.finished (Q := fun _ res => res = .ok (total r n)) ha
      (fun q hq => prog_inTurn digest r hn hq) hrest hp
    exact hret

end Parties

/-- Two parties that commit to their randomness by itself. -/
def generatingTwo : Network Store Unit Msg (Except (Error (RecvErr Unit) Unit) Randomness) :=
  letI : Build := .debug
  ⟨party id bytesOf 2,[]⟩

/-- Party 1 gets the commitment of party 0 after what it opens. -/
def generatingRun : List (NetworkEvent Msg) :=
  [.acts 0 false,.acts 1 false,.acts 0 false,.acts 1 false,
    .delivers ⟨0,1,.broadcast true,.commitMsg ⟨bytesOf 1⟩⟩ 4,.acts 0 false,.acts 0 false,
    .delivers ⟨1,0,.broadcast false,.decommitMsg ⟨bytesOf 0⟩⟩ 5,
    .delivers ⟨1,0,.broadcast true,.commitMsg ⟨bytesOf 0⟩⟩ 6,.acts 1 false,.acts 1 false,
    .delivers ⟨0,1,.broadcast false,.decommitMsg ⟨bytesOf 1⟩⟩ 7]

theorem generates_total_two :
    letI : Build := .debug
    ∃ net, generatingTwo.exec 2 generatingRun = some net ∧
      (∀ p : PartyIndex, p < 2 → Unfailing net p fun res => res = .ok (total bytesOf 2)) ∧
      ∀ p : PartyIndex, p < 2 → (net.nodes p).activity = .running (.ret (.ok (total bytesOf 2))) := by
  let _ : Build := .debug
  have h : (generatingTwo.exec 2 generatingRun).isSome = true := by decide
  have hreach : (network 2 (party id bytesOf 2)).Reachable
      ((generatingTwo.exec 2 generatingRun).get h) :=
    Network.exec_reachable (Option.some_get h).symm (System.reachable_init _)
  obtain ⟨hsafe,hlive⟩ := generates_total id bytesOf (by decide) (by decide) hreach
  refine ⟨_,(Option.some_get h).symm,hsafe,hlive (atRest_of_finished fun p hp => ?_)⟩
  rcases lt_two hp with rfl | rfl <;> exact ⟨_,rfl⟩

section Simulated

variable [Build] (digest : Randomness → Vector UInt8 32) (r : PartyIndex → Randomness) {n : UInt16}

/-- The checks succeed if there is such an output of each party. -/
theorem checks_of_parties {E T : Type} [BEq T] [LawfulBEq T] (debugErr : E → String) (debug : T → String)
    {outs : SimResult (Except E T)} {value : T} (hpos : 0 < n.toNat) (hlen : outs.length = n.toNat)
    (hall : ∀ p < n, ∃ out, outs[p.toNat]? = some out ∧ out = .ok value) :
    (SimResult.expectOk debugErr outs).bind (SimResult.expectEq debug) = .ok value := by
  have hlt := n.toNat_lt
  refine SimResult.checks_of_forall debugErr debug (by omega) ?_ fun res hres => ?_
  · rw [← List.length_pos_iff,hlen]
    exact hpos
  · obtain ⟨x,hx,rfl⟩ := List.getElem_of_mem hres
    rw [hlen] at hx
    obtain ⟨out,hout,rfl⟩ := hall (.ofNat x) (ofNat_lt hx)
    rw [UInt16.toNat_ofNat_of_lt' (Nat.lt_trans hx hlt)] at hout
    exact List.getElem_eq_iff _ |>.mpr hout

/-- The simulation of the protocol returns, and the checks of its result succeed with the sum of
what all parties have generated. -/
theorem simulates_total (h2 : 2 ≤ n.toNat) (hn : n.toNat < 65535) {fuel : ℕ} (hfuel : 22 < fuel)
    (debug : Error (RecvErr DeliveryErr) DeliveryErr → String) (debug' : Randomness → String) :
    ∃ k outs, run (partyMachine fuel) k (simulationOf n (party digest r n)) =
      some (.returned (.ok outs)) ∧
      (SimResult.expectOk debug outs).bind (SimResult.expectEq debug') = .ok (total r n) := by
  obtain ⟨l0,ha⟩ := arranged digest r h2 hn
  obtain ⟨k,o,hrun,outs,rfl,hlen,hall⟩ := ends_complete (Q := fun _ res => res = .ok (total r n)) hn ha
    (nodup_kinds digest r) (fun p hp => prog_inTurn digest r hn hp) hfuel
  exact ⟨k,outs,hrun,checks_of_parties debug debug' (by omega) hlen hall⟩

end Simulated

theorem simulates_total_three :
    letI : Build := .debug
    ∃ k outs, run (partyMachine 23) k (simulationOf 3 (party id bytesOf 3)) =
      some (.returned (.ok outs)) ∧ (SimResult.expectOk (fun _ => "") outs).bind
        (SimResult.expectEq fun _ => "") = .ok (total bytesOf 3) := by
  let _ : Build := .debug
  exact simulates_total id bytesOf (by decide) (by decide) (by decide) _ _

end RandomGeneration
end RoundBased
