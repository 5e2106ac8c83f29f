import RoundBased.EchoVectors

/-! Honest parties run over the echo broadcast, the others are corrupted. As soon as one honest
party has returned the output of a reliable round, all of them have completed its main round with
the same messages. -/
namespace RoundBased
namespace EchoBroadcast
open Interaction RoundsRouter Transition WithEchoBroadcast

variable {ι H M T IoErr A : Type} {St : ι → Type} [∀ k, RoundStore (St k)] [RoundMsg M T]
  [∀ k, RoundMsg M (RoundInfo.Msg (St k))] [ProtocolMsg M]

section Slots

variable {n q q' : UInt16} {history history' : History H M T St IoErr} {sent sent' : Option M}
  {own own' : Option T} {out out' : RoundMsgs T} {vector : List (Option M)}

theorem MainDone.slot (h : MainDone n q history sent own out vector) {j : PartyIndex} (hj : j < n) :
    vector[j.toNat]? = some ((if j = q then own else out.get j).map toProtocolMsg) := by
  rw [h.vector_eq]
  exact getElem?_hashedMsgs hj

theorem MainDone.agree [LawfulRoundMsg M T] (h : MainDone n q history sent own out vector)
    (h' : MainDone n q' history' sent' own' out' vector) {j : PartyIndex} (hj : j < n) :
    (if j = q then own else out.get j) = if j = q' then own' else out'.get j := by
  have hslot := Option.some.inj ((h.slot hj).symm.trans (h'.slot hj))
  exact Option.map_injective (fun _ _ => to_injective) hslot

end Slots

section Honest

variable [Build] [LawfulRoundMsg M T] [Digest H M] [DecidableEq H]

/-- A program of a party over the engine. -/
abbrev EchoProg {ι : Type} (T : Type) (St : ι → Type) [∀ k, RoundStore (St k)] (IoErr M A : Type) :
    Type :=
  Prog (Call (Round (Option ι)) M) (Answer (Res (PartyErr IoErr) IoErr (Focus T St)) (Error IoErr))
    Panic A

/-- An engine and the rounds of its party. -/
abbrev Engine (H M T : Type) {ι : Type} (St : ι → Type) [∀ k, RoundStore (St k)] [RoundMsg M T]
    [∀ k, RoundMsg M (RoundInfo.Msg (St k))] : Type :=
  WithEchoBroadcast M × RoundsRouter (Msg H M) (SubStore H M (Focus T St))

/-- Party `p` of `n` has wrapped its party and registered rounds, among them the reliable one, and
runs a program that completes rounds with the witnesses of their registration. -/
def Joins (n p : UInt16) (engine : Engine H M T St) (prog : EchoProg T St IoErr M A) : Prop :=
  ∃ (regs : List ((k : Option ι) × Focus T St k)) (store : RoundInput T),
    RoundInput.reliableBroadcast p n = .ok store ∧ ⟨none,store⟩ ∈ regs ∧
    (wrap p n).addRounds .new regs = .ok engine ∧
    ∀ done w cont, Steps prog done (.call (.complete w) cont) → ∃ reg ∈ regs, witness reg = w

/-- Completing the reliable round has returned `out` to the program. -/
def HasReturned (engine : Engine H M T St) (prog : EchoProg T St IoErr M A)
    (history : History H M T St IoErr) (out : RoundMsgs T) : Prop :=
  ∃ done made e rest q, Steps prog done q ∧ Serves serve engine.1 done made e ∧
    history = made ++ rest ∧ ⟨.complete (.withReliabilityCheck none),.ok out⟩ ∈ done

section Party

variable {n p : UInt16} {engine : Engine H M T St} {prog : EchoProg T St IoErr M A}
  {l : Ledger (Msg H M) (SubStore H M (Focus T St))} {main : MainRound H M (RoundInput T)}
  {input : RoundInput H}
  {node : Node (SubStore H M (Focus T St)) IoErr (Msg H M) (WithEchoBroadcast M × A)}

omit [Digest H M] [DecidableEq H] in
theorem Joins.awaits (h : Joins n p engine prog) :
    ∃ (l : Ledger (Msg H M) (SubStore H M (Focus T St))) (main : MainRound H M (RoundInput T))
      (input : RoundInput H), engine.2 = l.router ∧ l.received = [] ∧ Awaits p n l main input := by
  obtain ⟨regs,store,hs,hreg,h0,_⟩ := h
  obtain ⟨l,hl,hext,hregs,_⟩ := addRounds_registers (l := .empty) h0
  obtain ⟨main,input,ha⟩ := awaits_of_registers hs (hregs _ hreg)
  exact ⟨l,main,input,hl,hext.received,ha⟩

/-- The main round is completed, and the hashes of the others have come. -/
theorem mainDone_of_returned (hj : Joins n p engine prog) (ha : Awaits p n l main input)
    (h : node.Explained l.registered) {out : RoundMsgs T}
    (hret : HasReturned engine prog node.history out) :
    ∃ sent own, MainDone n p node.history sent own out (hashedMsgs M p n own out.get) ∧
      ∀ j, Others p n j → ∃ incoming ∈ node.received, incoming.sender = j ∧
        incoming.msg = .echo (RoundMsg.ROUND M T) (hashOf H M p n own out.get) := by
  obtain ⟨regs,store,hs,hreg,h0,_⟩ := hj
  obtain ⟨done,made,e,rest,_,_,hserves,hhistory,hmem⟩ := hret
  obtain ⟨_,_,before,a,u,b,more,_,hbefore,hu,rfl⟩ := hserves.of_mem hmem
  obtain ⟨needs,check,hash,echoes,hh,hout,rfl⟩ := steps_released hu
  have hmain : node.history = before ++ mainEvent none (.ok needs) ::
      (sendEvent none hash (.ok ()) :: echoEvent none (.ok echoes) :: (more ++ rest)) := by
    rw [hhistory]
    simp
  have hecho : node.history = (before ++ [mainEvent none (.ok needs),
      sendEvent none hash (.ok ())]) ++ echoEvent none (.ok echoes) :: (more ++ rest) := by
    rw [hhistory]
    simp
  obtain ⟨rfl,sent,own,hhash,hdone⟩ := mainDone_of_hashes hs hreg h0 ha h hbefore hmain hh
  obtain rfl := (withEchoOutput_ok hout).1
  refine ⟨sent,own,hdone,fun j hj => ?_⟩
  obtain ⟨incoming,hincoming,hsender,hmsg⟩ :=
    echo_origin (RoundInput.lt_of_new hs) ha h hecho hout hj
  refine ⟨incoming,hincoming,hsender,?_⟩
  rw [hmsg,hhash]

/-- A party that has handed an echo of the round to its channel has completed the main round. -/
theorem mainDone_of_offered (hj : Joins n p engine prog) (ha : Awaits p n l main input)
    (h : node.Explained l.registered) (hruns : node.Runs (prog.servedBy serve engine.1))
    {dest : MessageDestination} {hash : H}
    (hoffered : ⟨dest,.echo (RoundMsg.ROUND M T) hash⟩ ∈ node.offered) :
    ∃ sent own out, MainDone n p node.history sent own out (hashedMsgs M p n own out.get) ∧
      hash = hashOf H M p n own out.get := by
  obtain ⟨regs,store,hs,hreg,h0,hw⟩ := hj
  obtain ⟨event,hmem,hevent⟩ := List.mem_filterMap.mp hoffered
  have hhanded : handsOver event.1 = offeredBy event := by
    obtain ⟨c,ans⟩ := event
    cases c <;> rfl
  obtain ⟨done,before,after,a,k,needs,check,cont,hsteps,hserves,hhistory,hh,hround⟩ :=
    echo_sent hruns hmem (hhanded.trans hevent)
  -- the round of the echo is the reliable one, since no other registered round has its number
  obtain rfl : k = none := by
    obtain ⟨reg,hmem,hwit⟩ := hw done _ cont hsteps
    obtain ⟨hrel,rfl⟩ := reliable_of_witness hwit
    exact reliable_inj h0 hmem hreg hrel (requiresReliable_focus hs) hround
  obtain ⟨_,sent,own,hhash,hdone⟩ := mainDone_of_hashes hs hreg h0 ha h hserves hhistory hh
  exact ⟨sent,own,_,hdone,hhash⟩

omit [Build] [LawfulRoundMsg M T] [Digest H M] [DecidableEq H] in
theorem MainDone.unique {init : UInt16 → Option ((s : Sub (Option ι)) × SubStore H M (Focus T St) s)}
    (h : node.Explained init) {q : UInt16} {sent sent' : Option M} {own own' : Option T}
    {out out' : RoundMsgs T} {vector vector' : List (Option M)}
    (h1 : MainDone n q node.history sent own out vector)
    (h2 : MainDone n q node.history sent' own' out' vector') : out = out' := by
  obtain ⟨_,_,needs,hhistory,rfl,_⟩ := h1.completed
  obtain ⟨_,_,needs',hhistory',rfl,_⟩ := h2.completed
  rw [Explained.main_unique h hhistory hhistory']

end Party

/-- All honest parties have completed the main round with the messages `vector`, where that of each
of them is what it had sent, and the outputs they have returned agree. -/
structure Agreement (honest : PartyIndex → Prop) (n : UInt16)
    (history : PartyIndex → History H M T St IoErr) (returned : PartyIndex → RoundMsgs T → Prop)
    (vector : List (Option M)) (sent : PartyIndex → Option M) (own : PartyIndex → Option T) :
    Prop where
  length : vector.length = n.toNat
  completed : ∀ q, honest q → ∃ out, MainDone n q (history q) (sent q) (own q) out vector
  slot : ∀ q, honest q → vector[q.toNat]? = some ((own q).map toProtocolMsg)
  lossless : (∀ (m : M) (t : T), fromProtocolMsg m = .ok t → toProtocolMsg t = m) →
    ∀ q, honest q → vector[q.toNat]? = some (sent q)
  released : ∀ q out, honest q → returned q out → ∀ j, Others q n j →
    ∃ t, out.get j = some t ∧ vector[j.toNat]? = some (some (toProtocolMsg t))
  others : ∀ q q' out out', honest q → honest q' → returned q out → returned q' out' →
    ∀ j, Others q n j → j ≠ q' → out.get j = out'.get j
  ofHonest : ∀ q q' out, honest q → honest q' → q ≠ q' → returned q out →
    out.get q' = own q' ∧ (own q').isSome = true

omit [Build] [Digest H M] [DecidableEq H] in
theorem agreement_of_mainDone {honest : PartyIndex → Prop} {n : UInt16}
    {history : PartyIndex → History H M T St IoErr} {returned : PartyIndex → RoundMsgs T → Prop}
    {vector : List (Option M)} {sent : PartyIndex → Option M} {own : PartyIndex → Option T}
    {outs : PartyIndex → RoundMsgs T} {p : PartyIndex} (hp : honest p)
    (hlt : ∀ q, honest q → q < n)
    (hdone : ∀ q, honest q → MainDone n q (history q) (sent q) (own q) (outs q) vector)
    (hret : ∀ q out, honest q → returned q out → out = outs q) :
    Agreement honest n history returned vector sent own where
  length := by rw [(hdone p hp).vector_eq,length_hashedMsgs]
  completed q hq := ⟨outs q,hdone q hq⟩
  slot q hq := by rw [(hdone q hq).slot (hlt q hq),if_pos rfl]
  lossless hto q hq := by
    rw [(hdone q hq).slot (hlt q hq),if_pos rfl]
    have hown := (hdone q hq).own_eq
    cases hs : sent q with
    | none =>
      rw [hs] at hown
      rw [Option.map_eq_none_iff.mp hown.symm]
      rfl
    | some m =>
      rw [hs] at hown
      obtain ⟨t,ht,hfrom⟩ := Option.map_eq_some_iff.mp hown.symm
      rw [ht,← hto m t hfrom.symm]
      rfl
  released q out hq ho j hj := by
    obtain rfl := hret q out hq ho
    obtain ⟨t,ht⟩ := Option.isSome_iff_exists.mp ((hdone q hq).complete j hj)
    refine ⟨t,ht,?_⟩
    rw [(hdone q hq).slot hj.1,if_neg hj.2,ht]
    rfl
  others q q' out out' hq hq' ho ho' j hj hne := by
    have hagree := (hdone q hq).agree (hdone q' hq') hj.1
    rw [if_neg hj.2,if_neg hne] at hagree
    rw [hret q out hq ho,hret q' out' hq' ho',hagree]
  ofHonest q q' out hq hq' hne ho := by
    have hagree := (hdone q hq).agree (hdone q' hq') (hlt q' hq')
    rw [if_neg hne.symm,if_pos rfl] at hagree
    rw [hret q out hq ho,← hagree]
    exact ⟨rfl,(hdone q hq).complete q' ⟨hlt q' hq',hne.symm⟩⟩

section Network

variable {n : UInt16} {honest : PartyIndex → Prop} {engines : PartyIndex → Engine H M T St}
  {prog : PartyIndex → EchoProg T St IoErr M A}

/-- The parties start to run their programs. -/
def echoStart (engines : PartyIndex → Engine H M T St) (prog : PartyIndex → EchoProg T St IoErr M A)
    (p : PartyIndex) : Node (SubStore H M (Focus T St)) IoErr (Msg H M) (WithEchoBroadcast M × A) :=
  Node.start (engines p).2 ((prog p).servedBy serve (engines p).1)

omit [ProtocolMsg M] [Build] [LawfulRoundMsg M T] [Digest H M] [DecidableEq H] in
theorem Joins.lt {p : PartyIndex} {engine : Engine H M T St} {prog : EchoProg T St IoErr M A}
    (h : Joins n p engine prog) : p < n := by
  obtain ⟨_,_,hs,_⟩ := h
  exact RoundInput.lt_of_new hs

variable [TypeIds (SubStore H M (Focus T St))]
  {nodes : PartyIndex → Node (SubStore H M (Focus T St)) IoErr (Msg H M) (WithEchoBroadcast M × A)}

theorem faithful_of_joins (hjoins : ∀ p, honest p → Joins n p (engines p) (prog p))
    (hr : (corruptedNetwork honest (echoStart engines prog)).Reachable nodes) :
    ∀ p, honest p → ∃ (l : Ledger (Msg H M) (SubStore H M (Focus T St)))
      (main : MainRound H M (RoundInput T)) (input : RoundInput H), Awaits p n l main input ∧
      Faithful honest l.registered ((prog p).servedBy serve (engines p).1) nodes p := by
  have hledgers : ∀ p, ∃ l : Ledger (Msg H M) (SubStore H M (Focus T St)), honest p →
      (engines p).2 = l.router ∧ l.received = [] ∧ ∃ (main : MainRound H M (RoundInput T))
        (input : RoundInput H), Awaits p n l main input := by
    intro p
    by_cases hp : honest p
    · obtain ⟨l,main,input,hl,hreceived,ha⟩ := (hjoins p hp).awaits
      exact ⟨l,fun _ => ⟨hl,hreceived,main,input,ha⟩⟩
    · exact ⟨.empty,fun hc => absurd hc hp⟩
  choose l hl using hledgers
  have hfaithful : ∀ p, honest p →
      Faithful honest (l p).registered ((prog p).servedBy serve (engines p).1) nodes p := by
    refine faithful_of_reachable (fun p hp => ⟨l p,(hl p hp).2.1,rfl,?_⟩) hr
    rw [echoStart,(hl p hp).1]
  intro p hp
  obtain ⟨_,_,main,input,ha⟩ := hl p hp
  exact ⟨l p,main,input,ha,hfaithful p hp⟩

/-- Whatever the corrupted parties do: if an honest party has returned the output of the reliable
round, all honest parties have completed its main round with the same messages. -/
theorem agreement_of_returned (hinj : Function.Injective (Digest.hash : HashInput M → H))
    (hjoins : ∀ p, honest p → Joins n p (engines p) (prog p))
    (hr : (corruptedNetwork honest (echoStart engines prog)).Reachable nodes) {p : PartyIndex}
    {out : RoundMsgs T} (hp : honest p)
    (hret : HasReturned (engines p) (prog p) (nodes p).history out) :
    ∃ vector, ∀ q, honest q → ∃ sent own out, MainDone n q (nodes q).history sent own out vector := by
  have hfaithful := faithful_of_joins hjoins hr
  obtain ⟨l,main,input,ha,hf⟩ := hfaithful p hp
  obtain ⟨sent,own,hdone,hechoes⟩ := mainDone_of_returned (hjoins p hp) ha hf.explained hret
  refine ⟨hashedMsgs M p n own out.get,fun q hq => ?_⟩
  by_cases hqp : q = p
  · subst hqp
    exact ⟨sent,own,out,hdone⟩
  -- the hash that was received from `q` is the one it has sent
  obtain ⟨incoming,hincoming,rfl,hmsg⟩ := hechoes q ⟨(hjoins q hq).lt,hqp⟩
  obtain ⟨⟨dest,msg⟩,hmem,heq⟩ := List.mem_map.mp (hf.authentic incoming hincoming hq)
  have hoffered := (List.mem_filter.mp hmem).1
  have hecho : msg = incoming.msg := congrArg Prod.snd heq
  rw [hecho,hmsg] at hoffered
  obtain ⟨lq,mainq,inputq,haq,hfq⟩ := hfaithful _ hq
  obtain ⟨sentq,ownq,outq,hdoneq,hhash⟩ :=
    mainDone_of_offered (hjoins _ hq) haq hfq.explained hfq.runs hoffered
  have hvector : hashedMsgs M p n own out.get = hashedMsgs M incoming.sender n ownq outq.get :=
    congrArg HashInput.msgs (hinj hhash)
  rw [hvector]
  exact ⟨sentq,ownq,outq,hdoneq⟩

/-- Agreement: for any behaviour of the corrupted parties and any order of delivery, once an honest
party has returned the output of the reliable round, all honest parties agree on its messages. -/
theorem echo_agreement (hinj : Function.Injective (Digest.hash : HashInput M → H))
    (hjoins : ∀ p, honest p → Joins n p (engines p) (prog p))
    (hr : (corruptedNetwork honest (echoStart engines prog)).Reachable nodes) {p : PartyIndex}
    {out : RoundMsgs T} (hp : honest p)
    (hret : HasReturned (engines p) (prog p) (nodes p).history out) :
    ∃ vector sent own, Agreement honest n (fun q => (nodes q).history)
      (fun q => HasReturned (engines q) (prog q) (nodes q).history) vector sent own := by
  obtain ⟨vector,hvector⟩ := agreement_of_returned hinj hjoins hr hp hret
  have hall : ∀ q, ∃ (sent : Option M) (own : Option T) (out : RoundMsgs T), honest q →
      MainDone n q (nodes q).history sent own out vector := by
    intro q
    by_cases hq : honest q
    · obtain ⟨sent,own,out,h⟩ := hvector q hq
      exact ⟨sent,own,out,fun _ => h⟩
    · exact ⟨none,none,out,fun hc => absurd hc hq⟩
  choose sent own outs hdone using hall
  have hreturned : ∀ q o, honest q →
      HasReturned (engines q) (prog q) (nodes q).history o → o = outs q := by
    intro q o hq ho
    obtain ⟨l,main,input,ha,hf⟩ := faithful_of_joins hjoins hr q hq
    obtain ⟨_,_,h,_⟩ := mainDone_of_returned (hjoins q hq) ha hf.explained ho
    exact h.unique hf.explained (hdone q hq)
  exact ⟨vector,sent,own,agreement_of_mainDone hp (fun q hq => (hjoins q hq).lt) hdone hreturned⟩

end Network

end Honest

/-! Three parties that broadcast commitments. Party 2 is corrupted: it sends its commitment to both
others, but the right hash to one of them only. -/
section Commitments

open RandomGeneration

/-- The commitment of party `p`. -/
def commitmentBy (p : PartyIndex) : CommitMsg := ⟨.replicate 32 p.toUInt8⟩

/-- Party `p` of three has registered round 1. -/
def committing (p : PartyIndex) : Engine Hash RandomGeneration.Msg CommitMsg Decommits :=
  letI : Build := .debug
  (((RoundInput.reliableBroadcast p 3).bind fun store =>
    (wrap p 3).addRounds .new [⟨none,store⟩]).toOption).getD (wrap p 3,.new)

/-- The party broadcasts its commitment and completes the round. -/
def announcesCommitment (p : PartyIndex) : EchoProg CommitMsg Decommits Unit RandomGeneration.Msg Unit :=
  .call (.send (.reliableBroadcast (.commitMsg (commitmentBy p)))) fun _ =>
    .call (.complete (.withReliabilityCheck none)) fun _ => .ret ()

def commitmentFrom (p j : PartyIndex) (id : MsgId) :
    CorruptedEvent (Msg Hash RandomGeneration.Msg) :=
  .delivers p ⟨id,j,.broadcast false,.main (.commitMsg (commitmentBy j))⟩

def commonVector : List (Option RandomGeneration.Msg) :=
  [0,1,2].map fun j => some (.commitMsg (commitmentBy j))

def echoFrom (p j : PartyIndex) (id : MsgId) (vector : List (Option RandomGeneration.Msg)) :
    CorruptedEvent (Msg Hash RandomGeneration.Msg) :=
  .delivers p ⟨id,j,.broadcast false,.echo 0 ⟨TAG,vector,0,3⟩⟩

def twoFacedRun : List (CorruptedEvent (Msg Hash RandomGeneration.Msg)) :=
  [.acts 0,.acts 1,.acts 0,commitmentFrom 0 2 0,commitmentFrom 0 1 1,.acts 0,.acts 1,
    commitmentFrom 1 0 2,commitmentFrom 1 2 3,.acts 1,.acts 1,.acts 0,
    echoFrom 0 1 4 commonVector,echoFrom 0 2 5 commonVector,echoFrom 1 2 6 []]

def twoFaced : Option (PartyIndex → Node (SubStore Hash RandomGeneration.Msg (Focus CommitMsg
    Decommits)) Unit (Msg Hash RandomGeneration.Msg)
    (WithEchoBroadcast RandomGeneration.Msg × Unit)) :=
  letI : Build := .debug
  execHonest (· < 2) (echoStart committing announcesCommitment) twoFacedRun


/-- The engine once the commitment was sent. -/
def committed (p : PartyIndex) : WithEchoBroadcast RandomGeneration.Msg :=
  let e := (committing p).1
  ⟨e.i,e.n,Function.update e.sentReliableMsgs 0 (some (some (.commitMsg (commitmentBy p))))⟩

def gathered : RoundMsgs CommitMsg := ⟨0,[1,0],[commitmentBy 1,commitmentBy 2]⟩

/-- The calls of party 0. -/
def gatheringRun : History Hash RandomGeneration.Msg CommitMsg Decommits Unit :=
  let hash : Hash := ⟨TAG,commonVector,0,3⟩
  [⟨.send (.allParties (.main (.commitMsg (commitmentBy 0)))),.ok ()⟩,
    mainEvent none (.ok ⟨⟨0,3⟩,gathered,none :: commonVector.tail⟩),
    sendEvent none hash (.ok ()),
    echoEvent none (.ok ⟨⟨0,[4,5],[hash,hash]⟩⟩)]

theorem hasReturned_gathered : HasReturned (committing 0) (announcesCommitment 0) gatheringRun gathered := by
  have hsend : Steps
      (serve (committing 0).1 (.send (.reliableBroadcast (.commitMsg (commitmentBy 0)))))
      (gatheringRun.take 1) (.ret (committed 0,.ok ())) := .call .refl
  have hcomplete : Steps (serve (committed 0) (.complete (.withReliabilityCheck none)))
      (gatheringRun.drop 1) (.ret ((committed 0).remove 0,.ok gathered)) :=
    .call (.call (.call .refl))
  exact ⟨_,gatheringRun,_,[],_,.call (.call .refl),.snoc (.snoc .refl hsend) hcomplete,rfl,
    List.mem_cons_of_mem _ (List.mem_singleton_self _)⟩

theorem announces_completes {p : PartyIndex} {w : Round (Option Unit)}
    {done : List (EngineEvent (PartyErr Unit) Unit RandomGeneration.Msg (Focus CommitMsg Decommits))}
    {cont : _ → EchoProg CommitMsg Decommits Unit RandomGeneration.Msg Unit}
    (h : Steps (announcesCommitment p) done (.call (.complete w) cont)) : w = .withReliabilityCheck none := by
  cases h with
  | call h =>
    cases h with
    | refl => rfl
    | call h => cases h

theorem echo_agreement_commitments :
    letI : Build := .debug
    ∃ nodes vector sent own, twoFaced = some nodes ∧
      HasReturned (committing 0) (announcesCommitment 0) (nodes 0).history gathered ∧
      Agreement (· < 2) 3 (fun q => (nodes q).history)
        (fun q => HasReturned (committing q) (announcesCommitment q) (nodes q).history) vector sent own := by
  let _ : Build := .debug
  have h : twoFaced.isSome = true := by decide
  have hjoins : ∀ p : PartyIndex, p < 2 → Joins 3 p (committing p) (announcesCommitment p) := by
    intro p hp
    obtain ⟨store,hs,hadd⟩ : ∃ store : RoundInput CommitMsg,
        RoundInput.reliableBroadcast p 3 = .ok store ∧
        (wrap p 3).addRounds .new [⟨none,store⟩] = .ok (committing p) := by
      rcases lt_two hp with rfl | rfl <;> exact ⟨_,rfl,rfl⟩
    refine ⟨_,store,hs,List.mem_singleton_self _,hadd,fun done w cont hsteps => ?_⟩
    rw [announces_completes hsteps]
    exact ⟨_,List.mem_singleton_self _,if_pos (requiresReliable_focus hs)⟩
  have hreach : (corruptedNetwork (· < 2) (echoStart committing announcesCommitment)).Reachable
      (twoFaced.get h) :=
    execHonest_reachable (Option.some_get h).symm (System.reachable_init _)
  have hret : HasReturned (committing 0) (announcesCommitment 0) (twoFaced.get h 0).history gathered :=
    hasReturned_gathered
  obtain ⟨vector,sent,own,hagree⟩ :=
    echo_agreement Function.injective_id hjoins hreach (by decide : (0 : PartyIndex) < 2) hret
  exact ⟨_,vector,sent,own,(Option.some_get h).symm,hret,hagree⟩

end Commitments

end EchoBroadcast
end RoundBased
