import RoundBased.EchoPlan

/-! Honest parties that run over the echo broadcast and take the rounds in turn. -/
namespace RoundBased
namespace EchoBroadcast
open Interaction RoundsRouter Transition WithEchoBroadcast

variable {ι H M : Type} {T : ι → Type} {IoErr : Type}

/-- The error of the operation that failed. -/
inductive Failure (IoErr : Type)
  | send (err : Error IoErr)
  | complete (err : CompleteRoundError (PartyErr IoErr (Error RoundInputError)) IoErr)

/-- The outputs of rounds, oldest first. -/
abbrev Outputs {ι : Type} (T : ι → Type) : Type := List ((k : ι) × RoundMsgs (T k))

/-- What is returned when a round is added. -/
def witnessOf : ι × Bool → Round ι
  | (k,true) => .withReliabilityCheck k
  | (k,false) => .unmodified k

def Round.reliable : Round ι → Bool
  | unmodified _ => false
  | withReliabilityCheck _ => true

/-- Broadcasts the value of each round and completes the round before the next one, until an
operation fails. -/
def takeRounds [∀ k, RoundMsg M (T k)] (value : (k : ι) → T k) : List (Round ι) → Outputs T →
    Prog (Call (Round ι) M) (Answer (Res (PartyErr IoErr) IoErr fun k => RoundInput (T k))
      (Error IoErr)) Panic (Except (Failure IoErr) (Outputs T))
  | [],outs => .ret (.ok outs)
  | w :: rounds,outs =>
    .call (.send ⟨.allParties w.reliable,toProtocolMsg (value w.kind)⟩) fun
      | .error err => .ret (.error (.send err))
      | .ok () => .call (.complete w) fun
        | .error err => .ret (.error (.complete err))
        | .ok out => takeRounds value rounds (outs ++ [⟨w.kind,out⟩])

/-- The output holds exactly what the others sent. -/
structure Heard {V : Type} (n p : UInt16) (value : PartyIndex → V) (out : RoundMsgs V) : Prop where
  i_eq : out.i = p
  length : out.messages.length = n.toNat - 1
  get : ∀ j, Others p n j → out.get j = some (value j)

/-- There is an output of each round. -/
structure Delivered (n p : UInt16) (rounds : List (ι × Bool))
    (value : PartyIndex → (k : ι) → T k) (outs : Outputs T) : Prop where
  kinds : outs.map Sigma.fst = rounds.map Prod.fst
  heard : ∀ out ∈ outs, Heard n p (fun j => value j out.1) out.2

section Outputs

variable {n p : UInt16}

theorem Heard.of_releases {V : Type} {out : RoundMsgs V} {f : PartyIndex → Option V}
    {value : PartyIndex → V} (h : RoundInput.Releases p n out f)
    (hf : ∀ j, Others p n j → f j = some (value j)) : Heard n p value out :=
  ⟨h.i_eq,h.length,fun j hj => (h.get j hj).trans (hf j hj)⟩

theorem Delivered.cons {rounds : List (ι × Bool)} {value : PartyIndex → (k : ι) → T k}
    {outs : Outputs T} {k : ι} {reliable : Bool} {out : RoundMsgs (T k)}
    (h : Delivered n p rounds value outs) (ho : Heard n p (fun j => value j k) out) :
    Delivered n p ((k,reliable) :: rounds) value (⟨k,out⟩ :: outs) := by
  refine ⟨by rw [List.map_cons,List.map_cons,h.kinds],fun x hx => ?_⟩
  rcases List.mem_cons.mp hx with rfl | hx
  · exact ho
  · exact h.heard x hx

theorem eq_of_mem_subRounds {r r' : ι × Bool} {s : Sub ι} (h : s ∈ subRounds r)
    (h' : s ∈ subRounds r') : r.1 = r'.1 := by
  obtain ⟨k,reliable⟩ := r
  obtain ⟨k',reliable'⟩ := r'
  cases reliable <;> cases reliable' <;> simp only [subRounds,List.mem_cons,List.not_mem_nil,
    or_false] at h h' <;> grind

theorem nodup_subRounds {rounds : List (ι × Bool)} (h : (rounds.map Prod.fst).Nodup) :
    (rounds.flatMap subRounds).Nodup := by
  rw [List.nodup_flatMap]
  constructor
  · rintro ⟨k,reliable⟩ _
    cases reliable <;> simp [subRounds]
  · refine (List.pairwise_map.mp h).imp fun hne => ?_
    exact fun s hs hs' => hne (eq_of_mem_subRounds hs hs')

end Outputs

section Messages

variable [∀ k, RoundMsg M (T k)] [ProtocolMsg M] [∀ k, ShortRoundMsg M (T k)] {n p : UInt16} {rounds : List (ι × Bool)} {value : PartyIndex → (k : ι) → T k} {k : ι}

instance {V : Type} [RoundMsg M V] [ShortRoundMsg M V] :
    ShortRoundMsg M (RoundInfo.Msg (RoundInput V)) :=
  inferInstanceAs (ShortRoundMsg M V)

theorem short_value (v : T k) : (.main (toProtocolMsg v) : Msg H M).Short :=
  ⟨_,round_to v,ShortRoundMsg.round_lt⟩

theorem fromProtocolMsg_value (v : T k) :
    fromProtocolMsg (.main (toProtocolMsg v) : Msg H M) = .ok (⟨v⟩ : Main (T k)) :=
  from_to_main ⟨v⟩

variable [Build] [Digest H M]

theorem announces_plain : Announces (M := Msg H M) (echoPlan H M n rounds value) p (.plain k)
    (.allParties (.main (toProtocolMsg (value p k)))) where
  recipient := ⟨false,rfl⟩
  routable := routable_of_short (short_value (value p k))
  sends := ⟨(⟨value p k⟩ : Main (T k)),fromProtocolMsg_value _,rfl,rfl⟩

theorem announces_main : Announces (M := Msg H M) (echoPlan H M n rounds value) p (.main k)
    (.allParties (.main (toProtocolMsg (value p k)))) where
  recipient := ⟨false,rfl⟩
  routable := routable_of_short (short_value (value p k))
  sends := ⟨(⟨value p k⟩ : Main (T k)),fromProtocolMsg_value _,rfl,rfl⟩

theorem announces_echo : Announces (M := Msg H M) (echoPlan H M n rounds value) p (.echo k)
    (.allParties (.echo (RoundMsg.ROUND M (T k)) (commonHash H M n value k))) where
  recipient := ⟨false,rfl⟩
  routable := routable_of_short (ShortRoundMsg.round_lt (M := M) (T := T k))
  sends := ⟨(⟨commonHash H M n value k⟩ : EchoMsg H (T k)),from_to_echo ⟨_⟩,rfl,rfl⟩

end Messages

section Engine

variable [ProtocolMsg M] {St : ι → Type} [∀ k, RoundStore (St k)]
  [∀ k, RoundMsg M (RoundInfo.Msg (St k))] [∀ k, LawfulRoundMsg M (RoundInfo.Msg (St k))]
  [Digest H M] [DecidableEq H] {CErr : Type → Type} {SErr : Type} {e : WithEchoBroadcast M} {k : ι}

theorem afterMainRound_of_sent {t : RoundInfo.Msg (St k)} {needs : NeedsOwnMsg H M (St k)}
    {check : ReliabilityCheck H (St k)} {hash : H}
    (hs : e.sentReliableMsgs (roundOf M St k) = some (some (toProtocolMsg t)))
    (hh : needs.withMyMsg (some t) = .ok (check,hash)) :
    (e.afterMainRound k (.ok needs) : PartyProg CErr SErr H M St
      (WithEchoBroadcast M × Res CErr SErr St (.withReliabilityCheck k))) =
    .call (.send (.allParties (.echo (roundOf M St k) hash)))
      ((e.remove (roundOf M St k)).afterSend k check) := by
  have hback := LawfulRoundMsg.from_to (M := M) t
  have hsent : (e.sentMsg k : Except EchoError (Option (RoundInfo.Msg (St k)))) =
      .ok (some t) := by
    simp only [sentMsg,hs,hback]
  exact afterMainRound_eq hsent hh

omit [ProtocolMsg M] [∀ k, LawfulRoundMsg M (RoundInfo.Msg (St k))] [Digest H M] in
theorem afterEchoRound_of_match {check : ReliabilityCheck H (St k)}
    {echoes : EchoRoundOutput H (St k)}
    (h : ∀ hash ∈ echoes.receivedEchoes.messages, hash = check.expectedHash) :
    (e.afterEchoRound k check (.ok echoes) : PartyProg CErr SErr H M St
      (WithEchoBroadcast M × Res CErr SErr St (.withReliabilityCheck k))) =
    .ret (e,.ok check.mainRoundOutput) := by
  rw [afterEchoRound_eq,ReliabilityCheck.withEchoOutput,if_neg]
  · rfl
  · simpa using h

end Engine

section Turns

variable [∀ k, RoundMsg M (T k)] [ProtocolMsg M] [∀ k, ShortRoundMsg M (T k)] [Build] [Digest H M]
  [DecidableEq H]

/-- What is left to do in these rounds, over the engine. -/
def remaining (e : WithEchoBroadcast M) (value : (k : ι) → T k) (rounds : List (ι × Bool))
    (outs : Outputs T) : NodeProg (SubStore H M fun k => RoundInput (T k)) IoErr (Msg H M)
      (WithEchoBroadcast M × Except (Failure IoErr) (Outputs T)) :=
  (takeRounds value (rounds.map witnessOf) outs).servedBy serve e

variable {e : WithEchoBroadcast M} {n p : UInt16} {all rounds : List (ι × Bool)}
  {value : PartyIndex → (k : ι) → T k} {k : ι} {ks : List (Sub ι)} {outs : Outputs T}
  {Q : WithEchoBroadcast M × Except (Failure IoErr) (Outputs T) → Prop}

theorem remaining_ordinary (hs : e.sentReliableMsgs (RoundMsg.ROUND M (T k)) = none)
    (hnext : ∀ out, Heard n p (fun j => value j k) out →
      InTurn (echoPlan H M n all value) n p Q ks
        (remaining e (value p) rounds (outs ++ [⟨k,out⟩]))) :
    InTurn (echoPlan H M n all value) n p Q (.plain k :: ks)
      (remaining e (value p) ((k,false) :: rounds) outs) := by
  have hon : e.onSend ⟨.allParties false,toProtocolMsg (value p k)⟩ =
      .ok (e,.ok (.allParties (toProtocolMsg (value p k)))) := by
    simp only [onSend,round_to (value p k),Except.map,hs]
    rfl
  have hserve : (serve e (.send ⟨.allParties false,toProtocolMsg (value p k)⟩) :
      PartyProg (PartyErr IoErr) IoErr H M (fun k => RoundInput (T k))
        (WithEchoBroadcast M × Except (Error IoErr) Unit)) = _ := (serve_handedOver hon).1
  have hcall : remaining (H := H) e (value p) ((k,false) :: rounds) outs = _ :=
    Prog.servedBy_call hserve _
  rw [hcall]
  refine .round announces_plain rfl fun out hout => ?_
  obtain ⟨f,hrel,hf⟩ := hout
  refine hnext out (.of_releases hrel fun j hj => ?_)
  obtain ⟨v,_,hv,_,hvalue⟩ := hf j hj
  rw [hv,← hvalue]
  rfl

/-- The engine after a message was sent in the reliable round. -/
def record (e : WithEchoBroadcast M) (k : ι) (v : T k) : WithEchoBroadcast M :=
  { e with
    sentReliableMsgs := Function.update e.sentReliableMsgs (RoundMsg.ROUND M (T k))
      (some (some (toProtocolMsg v))) }

/-- A reliable round: the hash computed from the messages is the one that all others send. -/
theorem remaining_reliable (hp : p < n)
    (hs : e.sentReliableMsgs (RoundMsg.ROUND M (T k)) = some none)
    (hnext : ∀ out, Heard n p (fun j => value j k) out →
      InTurn (echoPlan H M n all value) n p Q ks
        (remaining ((record e k (value p k)).remove (RoundMsg.ROUND M (T k))) (value p) rounds
          (outs ++ [⟨k,out⟩]))) :
    InTurn (echoPlan H M n all value) n p Q (.main k :: .echo k :: ks)
      (remaining e (value p) ((k,true) :: rounds) outs) := by
  have hon : e.onSend ⟨.allParties true,toProtocolMsg (value p k)⟩ =
      .ok (record e k (value p k),.ok (.allParties (toProtocolMsg (value p k)))) := by
    simp only [onSend,round_to (value p k),Except.map,hs]
    rfl
  have hserve : (serve e (.send ⟨.allParties true,toProtocolMsg (value p k)⟩) :
      PartyProg (PartyErr IoErr) IoErr H M (fun k => RoundInput (T k))
        (WithEchoBroadcast M × Except (Error IoErr) Unit)) = _ := (serve_handedOver hon).1
  have hcall : remaining (H := H) e (value p) ((k,true) :: rounds) outs = _ :=
    Prog.servedBy_call hserve _
  rw [hcall]
  refine .round announces_main rfl fun needs hneeds => ?_
  obtain ⟨f,hrec,hf⟩ := hneeds
  have hvalues : ∀ j, Others p n j → (f j).map (Main.msg (R := T k)) = some (value j k) := by
    intro j hj
    obtain ⟨v,_,hv,_,hvalue⟩ := hf j hj
    rw [hv,← hvalue]
    rfl
  have hslot : (record e k (value p k)).sentReliableMsgs
      (roundOf M (fun k => RoundInput (T k)) k) = some (some (toProtocolMsg (value p k))) :=
    Function.update_self ..
  have hhash := withMyMsg_spec hp hrec.params hrec.length (hrec.complete (some (value p k)))
  rw [hashOf_eq_commonHash hvalues] at hhash
  have hecho : ((record e k (value p k)).afterMainRound k (.ok needs) :
      PartyProg (PartyErr IoErr) IoErr H M (fun k => RoundInput (T k)) _) = _ :=
    afterMainRound_of_sent hslot hhash
  simp only [hecho]
  refine .round announces_echo rfl fun echoes hechoes => ?_
  obtain ⟨g,hrel,hg⟩ := hechoes
  have hmatch : ∀ hash ∈ echoes.receivedEchoes.messages, hash = commonHash H M n value k := by
    intro hash hmem
    obtain ⟨j,hj,hget⟩ := (mem_messages_iff hp hrel.i_eq hrel.length).mp hmem
    obtain ⟨v,_,hv,_,hvalue⟩ := hg j hj
    rw [hrel.get j hj,hv] at hget
    rw [← hvalue]
    exact (Option.some.inj hget).symm
  have hdone : (((record e k (value p k)).remove (RoundMsg.ROUND M (T k))).afterEchoRound k
      ⟨commonHash H M n value k,needs.mainRoundOutput⟩ (.ok echoes) :
      PartyProg (PartyErr IoErr) IoErr H M (fun k => RoundInput (T k)) _) = _ :=
    afterEchoRound_of_match hmatch
  have hrest := hnext _ (.of_releases hrec.releases hvalues)
  refine Eq.mpr (congrArg (InTurn _ n p Q ks) ?_) hrest
  exact congrArg (fun prog => Prog.bind prog _) hdone

/-- The program goes through the sub-rounds in turn. -/
theorem remaining_inTurn (hp : p < n)
    (hnodup : (rounds.map fun r => RoundMsg.ROUND M (T r.1)).Nodup)
    (hs : ∀ r ∈ rounds, e.sentReliableMsgs (RoundMsg.ROUND M (T r.1)) =
      if r.2 then some none else none)
    (hQ : ∀ e' outs', Delivered n p rounds value outs' → Q (e',.ok (outs ++ outs'))) :
    InTurn (echoPlan H M n all value) n p Q (rounds.flatMap subRounds)
      (remaining e (value p) rounds outs) := by
  induction rounds generalizing e outs with
  | nil =>
    apply InTurn.done
    have hdone := hQ e [] ⟨rfl,fun _ hx => (by cases hx)⟩
    rwa [List.append_nil] at hdone
  | cons r rounds ih =>
    obtain ⟨k,reliable⟩ := r
    rw [List.map_cons,List.nodup_cons] at hnodup
    have hslot := hs _ (List.mem_cons_self ..)
    have hrest : ∀ e' : WithEchoBroadcast M, (∀ r, r ≠ RoundMsg.ROUND M (T k) →
        e'.sentReliableMsgs r = e.sentReliableMsgs r) →
        ∀ out, Heard n p (fun j => value j k) out →
          InTurn (echoPlan H M n all value) n p Q (rounds.flatMap subRounds)
            (remaining e' (value p) rounds (outs ++ [⟨k,out⟩])) := by
      intro e' he' out hout
      refine ih hnodup.2 (fun r hr => ?_) fun e'' outs' houts => ?_
      · rw [he' _ fun he => hnodup.1 (he ▸ List.mem_map_of_mem hr)]
        exact hs r (List.mem_cons_of_mem _ hr)
      · rw [List.append_assoc]
        exact hQ e'' _ (houts.cons hout)
    cases reliable with
    | false => exact remaining_ordinary hslot (hrest e fun _ _ => rfl)
    | true =>
      refine remaining_reliable hp hslot (hrest _ fun r hr => ?_)
      exact (Function.update_of_ne hr ..).trans (Function.update_of_ne hr ..)

end Turns

section Completeness

variable [∀ k, RoundMsg M (T k)] [ProtocolMsg M] [∀ k, ShortRoundMsg M (T k)] [Build] [Digest H M]
  [DecidableEq H] {n : UInt16} {rounds : List (ι × Bool)} {value : PartyIndex → (k : ι) → T k}
  {parties : PartyIndex → WithEchoBroadcast M × RoundsRouter (Msg H M) (SubStore H M fun k =>
    RoundInput (T k))}

/-- Every party has registered the rounds and starts to take them. -/
def echoNodes (parties : PartyIndex → WithEchoBroadcast M × RoundsRouter (Msg H M) (SubStore H M
      fun k => RoundInput (T k)))
    (value : PartyIndex → (k : ι) → T k) (rounds : List (ι × Bool)) (p : PartyIndex) :
    Node (SubStore H M fun k => RoundInput (T k)) IoErr (Msg H M)
      (WithEchoBroadcast M × Except (Failure IoErr) (Outputs T)) :=
  Node.start (parties p).2 (remaining (parties p).1 (value p) rounds [])

/-- The program has finished, and no operation has failed. -/
def Completes (n p : UInt16) (rounds : List (ι × Bool)) (value : PartyIndex → (k : ι) → T k)
    (a : WithEchoBroadcast M × Except (Failure IoErr) (Outputs T)) : Prop :=
  ∃ outs, a.2 = .ok outs ∧ Delivered n p rounds value outs

theorem program_inTurn (IoErr : Type) (value : PartyIndex → (k : ι) → T k) {p : PartyIndex}
    (hp : p < n) (hsetup : setUp p n rounds = .ok (parties p)) :
    InTurn (echoPlan H M n rounds value) n p
      (Completes n p rounds value : _ × Except (Failure IoErr) _ → Prop)
      (rounds.flatMap subRounds) (remaining (parties p).1 (value p) rounds []) := by
  obtain ⟨hnodup,hsent⟩ := setUp_sent hsetup
  exact remaining_inTurn hp hnodup hsent fun _ outs houts => ⟨outs,rfl,houts⟩

theorem arranged_of_setUp (IoErr : Type) (value : PartyIndex → (k : ι) → T k)
    (hsetup : ∀ p < n, setUp p n rounds = .ok (parties p)) :
    ∃ l0, Arranged (echoPlan H M n rounds value) n l0
      (fun p => remaining (parties p).1 (value p) rounds [])
      (echoNodes parties value rounds : _ → Node _ IoErr _ _) := by
  have hledgers : ∀ p, ∃ l : Ledger (Msg H M) (SubStore H M fun k => RoundInput (T k)), p < n →
      (parties p).2 = l.router ∧ Prepared (echoPlan H M n rounds value) n p l := by
    intro p
    by_cases hp : p < n
    · obtain ⟨l,hl⟩ := prepared_of_setUp hp value (hsetup p hp)
      exact ⟨l,fun _ => hl⟩
    · exact ⟨.empty,fun hc => absurd hc hp⟩
  choose l0 hl0 using hledgers
  refine ⟨l0,fun p => ⟨rfl,rfl⟩,fun p hp => ?_,fun p hp => (hl0 p hp).2,fun p hp => ?_⟩
  · rw [echoNodes,(hl0 p hp).1]
  · apply (program_inTurn IoErr value hp (hsetup p hp)).orderly (hl0 p hp).2.distinct
    apply nodup_subRounds
    have hnodup := (setUp_sent (hsetup p hp)).1
    have hmap : (rounds.map fun r => RoundMsg.ROUND M (T r.1)) =
        (rounds.map Prod.fst).map fun k => RoundMsg.ROUND M (T k) := by
      rw [List.map_map]
      rfl
    rw [hmap] at hnodup
    exact hnodup.of_map

variable [TypeIds (SubStore H M fun k => RoundInput (T k))]

/-- Among honest parties no operation ever fails, whatever the order of delivery, and when no step
is possible any more all parties have completed all rounds and hold what the others sent. -/
theorem echo_completeness (hsetup : ∀ p < n, setUp p n rounds = .ok (parties p))
    {net : Network (SubStore H M fun k => RoundInput (T k)) IoErr (Msg H M)
      (WithEchoBroadcast M × Except (Failure IoErr) (Outputs T))}
    (h : (network n (echoNodes parties value rounds)).Reachable net) :
    (∀ p < n, Unfailing net p (Completes n p rounds value)) ∧
    (AtRest n (echoNodes parties value rounds) net → ∀ p < n, ∃ a,
      (net.nodes p).activity = .running (.ret a) ∧ Completes n p rounds value a) := by
  obtain ⟨l0,ha⟩ := arranged_of_setUp IoErr value hsetup
  have hff := faultFree_of_reachable ha h
  refine ⟨fun p hp => ?_,fun hrest p hp => ?_⟩
  · exact hff.unfailing (Q := fun p => Completes n p rounds value) ha
      (program_inTurn IoErr value hp (hsetup p hp)) hp
  · exact hff.finished (Q := fun p => Completes n p rounds value) ha
      (fun q hq => program_inTurn IoErr value hq (hsetup q hq)) hrest hp

end Completeness

/-! Random generation with a reliable first round. Echoes overtake the messages of the main round,
and messages of the second round the echoes. -/
section RandomGeneration

open RandomGeneration

/-- What party `p` sends in the two rounds. -/
def contribution (p : PartyIndex) : (k : RoundKind) → k.Msg
  | .round1 => (⟨.replicate 32 p.toUInt8⟩ : CommitMsg)
  | .round2 => (⟨.replicate 32 p.toUInt8⟩ : DecommitMsg)

def reliableCommitments : List (RoundKind × Bool) := [(.round1,true),(.round2,false)]

abbrev GenerationStore : Sub RoundKind → Type :=
  SubStore Hash RandomGeneration.Msg fun k : RoundKind => RoundInput k.Msg

def generator (p : PartyIndex) : WithEchoBroadcast RandomGeneration.Msg ×
    RoundsRouter (Msg Hash RandomGeneration.Msg) GenerationStore :=
  letI : Build := .debug
  ((setUp p 2 reliableCommitments).toOption).getD (wrap p 2,.new)

def generating : Network GenerationStore Unit (Msg Hash RandomGeneration.Msg)
    (WithEchoBroadcast RandomGeneration.Msg × Except (Failure Unit) (Outputs RoundKind.Msg)) :=
  ⟨echoNodes generator contribution reliableCommitments,[]⟩

def commitmentOf (j : PartyIndex) : Msg Hash RandomGeneration.Msg :=
  .main (toProtocolMsg (contribution j .round1))

def randomnessOf (j : PartyIndex) : Msg Hash RandomGeneration.Msg :=
  .main (toProtocolMsg (contribution j .round2))

def echoOf : Msg Hash RandomGeneration.Msg :=
  .echo 0 (commonHash Hash RandomGeneration.Msg 2 contribution .round1)

/-- The message of `j` reaches `p`. -/
def reads (p j : PartyIndex) (msg : Msg Hash RandomGeneration.Msg) (id : MsgId) :
    NetworkEvent (Msg Hash RandomGeneration.Msg) :=
  .delivers ⟨p,j,.broadcast false,msg⟩ id

/-- Party 1 gets the echo of party 0 before its commitment, and party 0 the randomness of party 1
before its echo. The commitment of party 1 is looped back. -/
def overtakingRun : List (NetworkEvent (Msg Hash RandomGeneration.Msg)) :=
  [.acts 0 false,.acts 1 true,.acts 0 false,reads 0 1 (commitmentOf 1) 0,.acts 0 false,
    .acts 0 false,.acts 1 false,reads 1 0 echoOf 1,reads 1 1 (commitmentOf 1) 2,
    reads 1 0 (commitmentOf 0) 3,.acts 1 false,.acts 1 false,.acts 1 false,.acts 1 false,
    reads 0 1 (randomnessOf 1) 4,reads 0 1 echoOf 5,.acts 0 false,.acts 0 false,
    reads 1 0 (randomnessOf 0) 6]

instance (k : RoundKind) : ShortRoundMsg RandomGeneration.Msg k.Msg :=
  inferInstanceAs (ShortRoundMsg RandomGeneration.Msg (RoundInfo.Msg (Store k)))

theorem echo_completeness_generation :
    letI : Build := .debug
    ∃ net, generating.exec 2 overtakingRun = some net ∧
      (∀ p < 2, Unfailing net p (Completes 2 p reliableCommitments contribution)) ∧
      ∀ p < 2, ∃ a, (net.nodes p).activity = .running (.ret a) ∧
        Completes 2 p reliableCommitments contribution a := by
  let _ : Build := .debug
  have h : (generating.exec 2 overtakingRun).isSome = true := by decide
  have hsetup : ∀ p < 2, setUp p 2 reliableCommitments = .ok (generator p) := by
    intro p hp
    rcases lt_two hp with rfl | rfl <;> rfl
  have hreach : (network 2 (echoNodes generator contribution reliableCommitments)).Reachable
      ((generating.exec 2 overtakingRun).get h) :=
    Network.exec_reachable (Option.some_get h).symm (System.reachable_init _)
  obtain ⟨hsafe,hlive⟩ := echo_completeness hsetup hreach
  refine ⟨_,(Option.some_get h).symm,hsafe,hlive (atRest_of_finished fun p hp => ?_)⟩
  rcases lt_two hp with rfl | rfl <;> exact ⟨_,rfl⟩

end RandomGeneration

end EchoBroadcast
end RoundBased
