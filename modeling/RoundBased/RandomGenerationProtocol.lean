import Mathlib.Data.List.Perm.Basic
import RoundBased.Node
import RoundBased.RandomGeneration
import RoundBased.RoundViews

/-! The protocol of random generation: every party commits to its randomness, opens it once it has the
commitments of the others, and outputs the sum of all that was opened. -/
namespace RoundBased
namespace RandomGeneration
open Interaction Iteration

abbrev Randomness : Type := Vector UInt8 32

/-- Blames a party in cheating during the protocol. -/
structure Blame where
  guiltyParty : UInt16
  commitmentMsg : MsgId
  decommitmentMsg : MsgId
  deriving DecidableEq

/-- Protocol error. -/
inductive Error (RecvErr SendErr : Type)
  | round1Send (err : SendErr)
  | round1Receive (err : RecvErr)
  | round2Send (err : SendErr)
  | round2Receive (err : RecvErr)
  | partiesOpenedRandomnessDoesntMatchCommitment (guiltyParties : List Blame)

/-- `x ^= r`, byte by byte. -/
def xor (x r : Randomness) : Randomness := Vector.zipWith (· ^^^ ·) x r

section Protocol

variable {RecvErr SendErr : Type} (digest : Randomness → Vector UInt8 32)

/-- A message of the first round and one of the second, each with the party that sent it. -/
abbrev Opening : Type := (UInt16 × MsgId × CommitMsg) × UInt16 × MsgId × DecommitMsg

/-- The body of the loop over the openings. -/
def verifyOpening (acc : List Blame × Randomness) : Opening → List Blame × Randomness
  | ((partyI,comMsgId,commit),(_,decomMsgId,decommit)) =>
    let commitmentExpected := digest decommit.randomness
    if commit.commitment ≠ commitmentExpected then
      (acc.1 ++ [⟨partyI,comMsgId,decomMsgId⟩],acc.2)
    else (acc.1,xor acc.2 decommit.randomness)

/-- The result, once both rounds are completed. The loop cannot go on for longer than there are
messages. -/
def outputRandomness [Build] (localRandomness : Randomness) (commitments : RoundMsgs CommitMsg)
    (randomness : RoundMsgs DecommitMsg) : Checked (Except (Error RecvErr SendErr) Randomness) := do
  let commits ← commitments.intoIterIndexed
  let decommits ← randomness.intoIterIndexed
  let openings := commits.zip decommits
  let (guiltyParties,output) ← fold (verifyOpening digest) openings.next
    (commitments.messages.length + 1) openings.state ([],localRandomness)
  if ¬ guiltyParties.isEmpty then
    return .error (.partiesOpenedRandomnessDoesntMatchCommitment guiltyParties)
  else return .ok output

section Engines

variable [Build] {κ : Type} {Res : κ → Type}

/-- Opens the local randomness, receives what the others have opened, and verifies it. -/
def openRandomness (round2 : κ) (result2 : Res round2 → Except RecvErr (RoundMsgs DecommitMsg))
    (localRandomness : Randomness) (commitments : RoundMsgs CommitMsg) :
    Prog (Call κ Msg) (Answer Res SendErr) Panic (Except (Error RecvErr SendErr) Randomness) :=
  .call (.send (.allParties (.decommitMsg ⟨localRandomness⟩))) fun sent : Except SendErr Unit =>
    match sent with
    | .error err => .ret (.error (.round2Send err))
    | .ok () => .call (.complete round2) fun res : Res round2 =>
      match result2 res with
      | .error err => .ret (.error (.round2Receive err))
      | .ok randomness =>
        match outputRandomness digest localRandomness commitments randomness with
        | .error panic => .throw panic
        | .ok result => .ret result

/-- Carries out the protocol, on any engine: its rounds are named `round1` and `round2`, and complete
with such results. -/
def protocolOfRandomGeneration (round1 round2 : κ)
    (result1 : Res round1 → Except RecvErr (RoundMsgs CommitMsg))
    (result2 : Res round2 → Except RecvErr (RoundMsgs DecommitMsg)) (localRandomness : Randomness) :
    Prog (Call κ Msg) (Answer Res SendErr) Panic (Except (Error RecvErr SendErr) Randomness) :=
  let commitment := digest localRandomness
  .call (.send (.reliableBroadcast (.commitMsg ⟨commitment⟩))) fun sent : Except SendErr Unit =>
    match sent with
    | .error err => .ret (.error (.round1Send err))
    | .ok () => .call (.complete round1) fun res : Res round1 =>
      match result1 res with
      | .error err => .ret (.error (.round1Receive err))
      | .ok commitments => openRandomness digest round2 result2 localRandomness commitments

variable {digest} {round1 round2 : κ} {result1 : Res round1 → Except RecvErr (RoundMsgs CommitMsg)}
  {result2 : Res round2 → Except RecvErr (RoundMsgs DecommitMsg)} {own : Randomness}
  {commitments : RoundMsgs CommitMsg} {done : List (Event (Call κ Msg) (Answer Res SendErr))}

/-- Errors that are not about cheating. -/
def Error.Unrelated : Error RecvErr SendErr → Prop
  | .partiesOpenedRandomnessDoesntMatchCommitment _ => False
  | _ => True

/-- What the verified openings come to, if there are openings. -/
def Verified (digest : Randomness → Vector UInt8 32) (own : Randomness)
    (commitments : RoundMsgs CommitMsg) (round2 : κ)
    (result2 : Res round2 → Except RecvErr (RoundMsgs DecommitMsg))
    (done : List (Event (Call κ Msg) (Answer Res SendErr)))
    (res : Except (Error RecvErr SendErr) Randomness) : Prop :=
  ∃ ans randomness, ⟨.complete round2,ans⟩ ∈ done ∧ result2 ans = .ok randomness ∧
    outputRandomness digest own commitments randomness = .ok res

theorem steps_openRandomness {q : Prog (Call κ Msg) (Answer Res SendErr) Panic _}
    (h : Steps (openRandomness digest round2 result2 own commitments) done q) :
    q.Conforms (fun c => c = .send (.allParties (.decommitMsg ⟨own⟩)) ∨ c = .complete round2)
      fun res => (∃ err, res = .error err ∧ err.Unrelated) ∨
        Verified digest own commitments round2 result2 done res := by
  cases h with
  | refl => exact .inl rfl
  | @call _ _ sent _ _ h =>
    cases sent with
    | error err =>
      obtain ⟨rfl,rfl⟩ := steps_ret h
      exact .inl ⟨_,rfl,trivial⟩
    | ok _ =>
      cases h with
      | refl => exact .inr rfl
      | @call _ _ ans _ _ h =>
        cases hans : result2 ans with
        | error err =>
          simp only [hans] at h
          obtain ⟨rfl,rfl⟩ := steps_ret h
          exact .inl ⟨_,rfl,trivial⟩
        | ok randomness =>
          cases hout : (outputRandomness digest own commitments randomness :
              Checked (Except (Error RecvErr SendErr) Randomness)) with
          | error panic =>
            simp only [hans,hout] at h
            cases h
            trivial
          | ok result =>
            simp only [hans,hout] at h
            obtain ⟨rfl,rfl⟩ := steps_ret h
            exact .inr ⟨ans,randomness,by simp,hans,hout⟩

/-- The randomness is opened only once the commitments of the others were received. -/
theorem steps_protocol {q : Prog (Call κ Msg) (Answer Res SendErr) Panic _}
    (h : Steps (protocolOfRandomGeneration digest round1 round2 result1 result2 own) done q) :
    q.Conforms (fun c => c = .send (.reliableBroadcast (.commitMsg ⟨digest own⟩)) ∨
        c = .complete round1 ∨
        (c = .send (.allParties (.decommitMsg ⟨own⟩)) ∨ c = .complete round2) ∧
          ∃ ans commitments, ⟨.complete round1,ans⟩ ∈ done ∧ result1 ans = .ok commitments)
      fun res => (∃ err, res = .error err ∧ err.Unrelated) ∨
        ∃ ans commitments, ⟨.complete round1,ans⟩ ∈ done ∧ result1 ans = .ok commitments ∧
          Verified digest own commitments round2 result2 done res := by
  cases h with
  | refl => exact .inl rfl
  | @call _ _ sent _ _ h =>
    cases sent with
    | error err =>
      obtain ⟨rfl,rfl⟩ := steps_ret h
      exact .inl ⟨_,rfl,trivial⟩
    | ok _ =>
      cases h with
      | refl => exact .inr (.inl rfl)
      | @call _ _ ans _ _ h =>
        cases hans : result1 ans with
        | error err =>
          simp only [hans] at h
          obtain ⟨rfl,rfl⟩ := steps_ret h
          exact .inl ⟨_,rfl,trivial⟩
        | ok commitments =>
          simp only [hans] at h
          refine (steps_openRandomness h).imp (fun c hc => ?_) fun res hres => ?_
          · exact .inr (.inr ⟨hc,ans,commitments,by simp,hans⟩)
          · refine hres.imp id fun ⟨ans',randomness,hmem,hans',hout⟩ => ?_
            exact ⟨ans,commitments,(by simp),hans,ans',randomness,(by simp [hmem]),hans',hout⟩

end Engines

end Protocol

/-! What the loop over the openings comes to. -/
section Openings

variable {digest : Randomness → Vector UInt8 32} {RecvErr SendErr : Type} {i n : UInt16}

/-- The messages of party `j`, where `c` and `d` are those received in the two rounds. -/
def openingOf (c : PartyIndex → MsgId × CommitMsg) (d : PartyIndex → MsgId × DecommitMsg)
    (j : PartyIndex) : Opening :=
  ((j,(c j).1,(c j).2),(j,(d j).1,(d j).2))

/-- The randomness of party `j` is not the one it has committed to. -/
def Cheats (digest : Randomness → Vector UInt8 32) (c : PartyIndex → MsgId × CommitMsg)
    (d : PartyIndex → MsgId × DecommitMsg) (j : PartyIndex) : Prop :=
  (c j).2.commitment ≠ digest (d j).2.randomness

instance (c : PartyIndex → MsgId × CommitMsg) (d : PartyIndex → MsgId × DecommitMsg) :
    DecidablePred (Cheats digest c d) := fun _ => inferInstanceAs (Decidable (_ ≠ _))

variable {c : PartyIndex → MsgId × CommitMsg} {d : PartyIndex → MsgId × DecommitMsg}

/-- The loop blames those that cheat, and adds up what the others have opened. -/
theorem foldl_verifyOpening (js : List PartyIndex) (acc : List Blame × Randomness) :
    (js.map (openingOf c d)).foldl (verifyOpening digest) acc =
      (acc.1 ++ (js.filter (Cheats digest c d)).map fun j => ⟨j,(c j).1,(d j).1⟩,
        (js.filter fun j => ¬ Cheats digest c d j).foldl (fun x j => xor x (d j).2.randomness) acc.2) := by
  induction js generalizing acc with
  | nil => simp
  | cons j js ih =>
    rw [List.map_cons,List.foldl_cons,ih]
    by_cases hj : Cheats digest c d j
    · have hverify : verifyOpening digest acc (openingOf c d j) =
          (acc.1 ++ [⟨j,(c j).1,(d j).1⟩],acc.2) := if_pos hj
      rw [hverify,List.filter_cons_of_pos (by simpa using hj),
        List.filter_cons_of_neg (by simpa using hj),List.map_cons,List.append_assoc]
      rfl
    · have hverify : verifyOpening digest acc (openingOf c d j) =
          (acc.1,xor acc.2 (d j).2.randomness) := if_neg hj
      rw [hverify,List.filter_cons_of_neg (by simpa using hj),
        List.filter_cons_of_pos (by simpa using hj),List.foldl_cons]

/-- What the messages received in both rounds come to. -/
structure Received {T : Type} (i n : UInt16) (out : RoundMsgs T) (f : PartyIndex → MsgId × T) :
    Prop where
  i_eq : out.i = i
  ids : out.ids = (othersOf i n).map fun j => (f j).1
  messages : out.messages = (othersOf i n).map fun j => (f j).2

theorem received_of_get {T : Type} {out : RoundMsgs T} (hi : i < n) (hout : out.i = i)
    (hids : out.ids.length = n.toNat - 1) (hlen : out.messages.length = n.toNat - 1)
    {v : PartyIndex → T} (hget : ∀ j, Others i n j → out.get j = some (v j)) :
    Received i n out fun j => (out.ids.getD (slotIndex i j) 0,v j) := by
  have hlt := UInt16.lt_iff_toNat_lt.mp hi
  refine ⟨hout,eq_map_othersOf hlt hids fun j hj => ?_,eq_map_othersOf hlt hlen fun j hj => ?_⟩
  · have hslot : slotIndex i j < out.ids.length := by
      rw [hids]
      exact (slotIndex_lt_iff hlt hj.2).mpr hj.1
    show _ = some (out.ids.getD _ _)
    rw [List.getD_eq_getElem?_getD,List.getElem?_eq_getElem hslot,Option.getD_some]
  · have hj' := hget j hj
    rwa [RoundMsgs.get,hout] at hj'

/-- With fewer than 65535 parties the loop runs through the messages of all the others. -/
theorem outputRandomness_eq [Build] (hi : i.toNat < n.toNat) (hn : n.toNat < 65535)
    {commitments : RoundMsgs CommitMsg} {randomness : RoundMsgs DecommitMsg}
    (hc : Received i n commitments c) (hd : Received i n randomness d) (own : Randomness) :
    (outputRandomness digest own commitments randomness :
      Checked (Except (Error RecvErr SendErr) Randomness)) =
    .ok (if (othersOf i n).filter (Cheats digest c d) = [] then
      .ok ((othersOf i n).foldl (fun x j => xor x (d j).2.randomness) own)
    else .error (.partiesOpenedRandomnessDoesntMatchCommitment
      (((othersOf i n).filter (Cheats digest c d)).map fun j => ⟨j,(c j).1,(d j).1⟩))) := by
  obtain ⟨it,m,hit,hsteps,hlast,_⟩ := RoundMsgs.steps_intoIterIndexed hc.i_eq hi hc.ids hc.messages
  obtain ⟨it',m',hit',hsteps',_⟩ := RoundMsgs.steps_intoIterIndexed hd.i_eq hi hd.ids hd.messages
  obtain ⟨m'',hnone⟩ := hlast hn
  have hitems : ((othersOf i n).map fun j => (j,(c j).1,(c j).2)).zip
      ((othersOf i n).map fun j => (j,(d j).1,(d j).2)) = (othersOf i n).map (openingOf c d) := by
    rw [List.zip_map']
    rfl
  have hyields : Yields (zip it.next it'.next) (it.state,it'.state)
      ((othersOf i n).map (openingOf c d)) := by
    rw [← hitems]
    exact ⟨_,_,hsteps.zip hsteps' (by simp),zip_of_left_done hnone⟩
  have hcalls : ((othersOf i n).map (openingOf c d)).length < commitments.messages.length + 1 := by
    rw [hc.messages,List.length_map,List.length_map]
    exact Nat.lt_succ_self _
  have hfold := hyields.fold (verifyOpening digest) hcalls ([],own)
  rw [foldl_verifyOpening] at hfold
  simp only [outputRandomness,hit,hit',bind,Except.bind,Iter.zip,hfold,List.nil_append]
  by_cases hnobody : (othersOf i n).filter (Cheats digest c d) = []
  · have hall : (othersOf i n).filter (fun j => ¬ Cheats digest c d j) = othersOf i n := by
      rw [List.filter_eq_self]
      rw [List.filter_eq_nil_iff] at hnobody
      simpa using hnobody
    simp only [hnobody,hall,List.map_nil,List.isEmpty_nil]
    rfl
  · have hblamed : (((othersOf i n).filter (Cheats digest c d)).map fun j =>
        (⟨j,(c j).1,(d j).1⟩ : Blame)).isEmpty = false := by
      simpa using hnobody
    rw [if_neg hnobody,hblamed]
    rfl

/-- Whatever messages the stores of the two rounds were fed with: the parties that opened other
randomness than they had committed to are blamed, each with the messages that were accepted from it,
and nobody else is. Without such parties the output is the sum of what was opened. -/
theorem blames_cheaters [Build] (digest : Randomness → Vector UInt8 32) {s1 : RoundInput CommitMsg} {s2 : RoundInput DecommitMsg}
    (h1 : RoundInput.reliableBroadcast i n = .ok s1) (h2 : RoundInput.broadcast i n = .ok s2)
    (hn : n.toNat < 65535) {msgs1 : List (Incoming CommitMsg)} {msgs2 : List (Incoming DecommitMsg)}
    {commitments : RoundMsgs CommitMsg} {randomness : RoundMsgs DecommitMsg}
    (hout1 : (s1.addAll msgs1).output = .ok commitments)
    (hout2 : (s2.addAll msgs2).output = .ok randomness) (own : Randomness) :
    ∃ (c : PartyIndex → MsgId × CommitMsg) (d : PartyIndex → MsgId × DecommitMsg),
      (∀ j, Others i n j → ∃ com decom, RoundInput.AcceptedFrom s1 msgs1 j com ∧
        RoundInput.AcceptedFrom s2 msgs2 j decom ∧ c j = (com.id,com.msg) ∧
        d j = (decom.id,decom.msg)) ∧
      ((∃ j, Others i n j ∧ Cheats digest c d j) → ∃ guiltyParties,
        (outputRandomness digest own commitments randomness :
          Checked (Except (Error RecvErr SendErr) Randomness)) =
            .ok (.error (.partiesOpenedRandomnessDoesntMatchCommitment guiltyParties)) ∧
        guiltyParties.Pairwise (fun a b => a.guiltyParty < b.guiltyParty) ∧
        ∀ blame, blame ∈ guiltyParties ↔ ∃ j, Others i n j ∧ Cheats digest c d j ∧
          blame = ⟨j,(c j).1,(d j).1⟩) ∧
      ((∀ j, Others i n j → ¬ Cheats digest c d j) →
        (outputRandomness digest own commitments randomness :
          Checked (Except (Error RecvErr SendErr) Randomness)) =
            .ok (.ok ((othersOf i n).foldl (fun x j => xor x (d j).2.randomness) own))) := by
  obtain ⟨hi1,hin,c,hids1,hmsgs1,hc⟩ := RoundInput.output_accepted h1 hout1
  obtain ⟨hi2,_,d,hids2,hmsgs2,hd⟩ := RoundInput.output_accepted h2 hout2
  have heq : (outputRandomness digest own commitments randomness :
      Checked (Except (Error RecvErr SendErr) Randomness)) = _ :=
    outputRandomness_eq hin hn ⟨hi1,hids1,hmsgs1⟩ ⟨hi2,hids2,hmsgs2⟩ own
  refine ⟨c,d,fun j hj => ?_,fun ⟨j,hj,hcheats⟩ => ?_,fun hall => ?_⟩
  · obtain ⟨com,hcom,hcj⟩ := (RoundInput.acceptedFrom_iff h1 hj).mp (hc j hj)
    obtain ⟨decom,hdecom,hdj⟩ := (RoundInput.acceptedFrom_iff h2 hj).mp (hd j hj)
    exact ⟨com,decom,hcom,hdecom,hcj.symm,hdj.symm⟩
  · have hsome : (othersOf i n).filter (Cheats digest c d) ≠ [] := by
      intro hnil
      rw [List.filter_eq_nil_iff] at hnil
      exact hnil j ((mem_othersOf hin).mpr hj) (by simpa using hcheats)
    rw [if_neg hsome] at heq
    refine ⟨_,heq,?_,fun blame => ?_⟩
    · rw [List.pairwise_map]
      exact (othersOf_ascending hin).filter _
    · simp only [List.mem_map,List.mem_filter,decide_eq_true_eq,mem_othersOf hin,and_assoc]
      exact exists_congr fun j => and_congr_right fun _ => and_congr_right fun _ => eq_comm
  · have hnone : (othersOf i n).filter (Cheats digest c d) = [] := by
      rw [List.filter_eq_nil_iff]
      intro j hj
      simpa using hall j ((mem_othersOf hin).mp hj)
    rwa [if_pos hnone] at heq

/-- The randomness of party `j`. -/
def bytesOf (j : PartyIndex) : Randomness := .replicate 32 j.toUInt8

/-- Party 1 opens what it has committed to, party 2 opens something else. -/
theorem blames_cheaters_three :
    letI : Build := .debug
    ∃ (s1 : RoundInput CommitMsg) (s2 : RoundInput DecommitMsg),
      RoundInput.reliableBroadcast 0 3 = .ok s1 ∧ RoundInput.broadcast 0 3 = .ok s2 ∧
      let msgs1 : List (Incoming CommitMsg) :=
        [⟨7,1,.broadcast true,⟨bytesOf 1⟩⟩,⟨8,2,.broadcast true,⟨bytesOf 1⟩⟩]
      let msgs2 : List (Incoming DecommitMsg) :=
        [⟨9,2,.broadcast false,⟨bytesOf 2⟩⟩,⟨10,1,.broadcast false,⟨bytesOf 1⟩⟩]
      ∃ (c : PartyIndex → MsgId × CommitMsg) (d : PartyIndex → MsgId × DecommitMsg),
        (∀ j, Others 0 3 j → ∃ com decom, RoundInput.AcceptedFrom s1 msgs1 j com ∧
          RoundInput.AcceptedFrom s2 msgs2 j decom ∧ c j = (com.id,com.msg) ∧
          d j = (decom.id,decom.msg)) ∧
        ∃ j, Others 0 3 j ∧ Cheats id c d j ∧ (⟨2,8,9⟩ : Blame) = ⟨j,(c j).1,(d j).1⟩ := by
  let _ : Build := .debug
  obtain ⟨s1,h1⟩ : ∃ s : RoundInput CommitMsg, RoundInput.reliableBroadcast 0 3 = .ok s := ⟨_,rfl⟩
  obtain ⟨s2,h2⟩ : ∃ s : RoundInput DecommitMsg, RoundInput.broadcast 0 3 = .ok s := ⟨_,rfl⟩
  refine ⟨s1,s2,h1,h2,?_⟩
  intro msgs1 msgs2
  let commitments : RoundMsgs CommitMsg := ⟨0,[7,8],[⟨bytesOf 1⟩,⟨bytesOf 1⟩]⟩
  let randomness : RoundMsgs DecommitMsg := ⟨0,[10,9],[⟨bytesOf 1⟩,⟨bytesOf 2⟩]⟩
  have hout1 : (s1.addAll msgs1).output = .ok commitments := by
    cases h1
    rfl
  have hout2 : (s2.addAll msgs2).output = .ok randomness := by
    cases h2
    rfl
  have hblames : (outputRandomness id (bytesOf 0) commitments randomness :
      Checked (Except (Error Unit Unit) Randomness)) =
        .ok (.error (.partiesOpenedRandomnessDoesntMatchCommitment [⟨2,8,9⟩])) := rfl
  obtain ⟨c,d,hcd,hcheaters,hnobody⟩ := blames_cheaters id h1 h2 (by decide) hout1 hout2 (bytesOf 0)
  refine ⟨c,d,hcd,?_⟩
  by_cases hany : ∃ j, Others 0 3 j ∧ Cheats id c d j
  · obtain ⟨guiltyParties,hguilty,_,hmem⟩ := hcheaters hany
    rw [hblames] at hguilty
    cases hguilty
    exact (hmem _).mp (List.mem_singleton_self _)
  · have hsum := hnobody fun j hj hcheats => hany ⟨j,hj,hcheats⟩
    rw [hblames] at hsum
    cases hsum

end Openings

end RandomGeneration
end RoundBased
