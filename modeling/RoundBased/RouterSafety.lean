import Mathlib.Data.List.Nodup
import RoundBased.RandomGeneration
import RoundBased.Transition

/-! The internal errors of the router are unreachable. Witnesses are linear: a session
knows which of them are still around. -/
namespace RoundBased
open Transition RoundsRouter

variable {ι M : Type} {St : ι → Type} [∀ k, RoundStore (St k)]
  [ProtocolMsg M] [∀ k, RoundMsg M (RoundInfo.Msg (St k))] [TypeIds St]

inductive RouterOp (M : Type) (St : ι → Type)
  | addRound (k : ι) (messageStore : St k)
  | receivedMsg (incoming : Incoming M)
  | completeRound (k : ι)

/-- A router and the witnesses it has issued that still exist. -/
structure Session (M : Type) (St : ι → Type) [∀ k, RoundStore (St k)] where
  router : RoundsRouter M St
  witnesses : List ι

namespace Session

/-- An operation that does not panic. Completing a round consumes the witness, unless it
is handed back. -/
inductive Step : Session M St → RouterOp M St → Session M St → Prop
  | addRound {s : Session M St} {k : ι} {messageStore : St k} {router : RoundsRouter M St}
      {w : Round k} : s.router.addRound k messageStore = .ok (router,w) →
      Step s (.addRound k messageStore) ⟨router,k :: s.witnesses⟩
  | receivedMsg {s : Session M St} {incoming : Incoming M} {router : RoundsRouter M St}
      {res : Except UnregisteredRound Unit} :
      s.router.receivedMsg incoming = .ok (router,res) →
      Step s (.receivedMsg incoming) ⟨router,s.witnesses⟩
  | handedBack {s : Session M St} {k : ι} {pre post : List ι} {w w' : Round k}
      {router : RoundsRouter M St} : s.witnesses = pre ++ k :: post →
      s.router.completeRound w = .ok (router,.error w') →
      Step s (.completeRound k) ⟨router,pre ++ k :: post⟩
  | completed {s : Session M St} {k : ι} {pre post : List ι} {w : Round k}
      {router : RoundsRouter M St} {res : RoundResult (St k) Empty} :
      s.witnesses = pre ++ k :: post → s.router.completeRound w = .ok (router,.ok res) →
      Step s (.completeRound k) ⟨router,pre ++ post⟩

end Session

namespace RouterOp

/-- Only stores that obey their contract are registered. -/
def Admissible : RouterOp M St → Prop
  | addRound _ messageStore => Obeys messageStore
  | _ => True

/-- The round the operation registers. -/
def registers : RouterOp M St → Option UInt16
  | addRound k _ => some (roundOf M St k)
  | _ => none

end RouterOp

def sessions (M : Type) (St : ι → Type) [∀ k, RoundStore (St k)] [ProtocolMsg M]
    [∀ k, RoundMsg M (RoundInfo.Msg (St k))] [TypeIds St] :
    System (Session M St) (RouterOp M St) where
  init := ⟨.new,[]⟩
  step s op t := op.Admissible ∧ s.Step op t

/-- The round of the witness is registered, obeys its contract and was not taken. -/
def Ledger.Claimable (l : Ledger M St) (k : ι) : Prop :=
  ∃ s : St k, l.registered (roundOf M St k) = some ⟨k,s⟩ ∧
    l.taken (roundOf M St k) = false ∧ Obeys s

/-- The invariant of sessions after the operations `ops`. -/
structure Tracks (ops : List (RouterOp M St)) (s : Session M St) (l : Ledger M St) :
    Prop where
  router_eq : s.router = l.router
  nodup : (s.witnesses.map (roundOf M St)).Nodup
  claimable : ∀ k ∈ s.witnesses, l.Claimable k
  registered : ∀ n, (l.registered n).isSome = true → ∃ op ∈ ops, op.registers = some n

omit [TypeIds St] in
theorem Ledger.Claimable.register {l : Ledger M St} {j k : ι} (hj : l.Claimable j)
    {s : St k} (h : l.registered (roundOf M St k) = none) : (l.register k s h).Claimable j := by
  obtain ⟨t,hr,ht,ho⟩ := hj
  have hne : roundOf M St j ≠ roundOf M St k := by
    intro he
    rw [he,h] at hr
    cases hr
  refine ⟨t,?_,?_,ho⟩
  · simp [Ledger.register,Function.update_of_ne hne,hr]
  · simp [Ledger.register,Function.update_of_ne hne,ht]

omit [TypeIds St] in
theorem Ledger.Claimable.take {l : Ledger M St} {j : ι} (hj : l.Claimable j) {n : UInt16}
    (hne : roundOf M St j ≠ n) : (l.take n).Claimable j := by
  obtain ⟨t,hr,ht,ho⟩ := hj
  exact ⟨t,hr,by simp [Ledger.take,Function.update_of_ne hne,ht],ho⟩

/-- The results `completeRound` can have for a witness that still exists. -/
def Benign {k : ι} (res : Except (Round k) (RoundResult (St k) Empty)) : Prop :=
  (∃ w, res = .error w) ∨ (∃ out, res = .ok (.ok out)) ∨
    ∃ e, res = .ok (.error (.processMsg e))

theorem Ledger.Claimable.completeRound [∀ k, LawfulRoundMsg M (RoundInfo.Msg (St k))]
    {l : Ledger M St} {k : ι} (h : l.Claimable k) (w : Round k) :
    ∃ res, Benign res ∧
      ((∃ w', res = .error w') ∧ l.router.completeRound w = .ok (l.router,res) ∨
      (∃ r, res = .ok r) ∧
        l.router.completeRound w = .ok ((l.take (roundOf M St k)).router,res)) := by
  obtain ⟨s,hr,ht,ho⟩ := h
  rw [l.completeRound_spec w hr ht,outcome_eq_verdict ho fun msg _ => wellRouted _ msg.msg]
  cases hv : verdict s (roundMsgs (RoundInfo.Msg (St k)) l.received) with
  | none => exact ⟨_,.inl ⟨w,rfl⟩,.inl ⟨⟨w,rfl⟩,rfl⟩⟩
  | some v =>
    cases v with
    | ok out => exact ⟨_,.inr (.inl ⟨out,rfl⟩),.inr ⟨⟨_,rfl⟩,rfl⟩⟩
    | error e => exact ⟨_,.inr (.inr ⟨e,rfl⟩),.inr ⟨⟨_,rfl⟩,rfl⟩⟩

section

variable [LawfulProtocolMsg M] [∀ k, LawfulRoundMsg M (RoundInfo.Msg (St k))]

/-- One operation keeps track. -/
theorem Tracks.step {ops : List (RouterOp M St)} {s t : Session M St} {l : Ledger M St}
    {op : RouterOp M St} (h : Tracks ops s l) (ha : op.Admissible) (hs : s.Step op t) :
    ∃ l', Tracks (ops ++ [op]) t l' := by
  have hreg : ∀ n, (l.registered n).isSome = true →
      ∃ o ∈ ops ++ [op], o.registers = some n := by
    intro n hn
    obtain ⟨o,ho,hr⟩ := h.registered n hn
    exact ⟨o,List.mem_append_left _ ho,hr⟩
  cases hs with
  | @addRound k messageStore router w hadd =>
    rw [h.router_eq] at hadd
    obtain ⟨hnone,rfl⟩ := l.addRound_ok hadd
    have hfresh : ∀ j ∈ s.witnesses, roundOf M St j ≠ roundOf M St k := by
      intro j hj he
      obtain ⟨t,hr,_⟩ := h.claimable j hj
      rw [he,hnone] at hr
      cases hr
    refine ⟨_,rfl,?_,fun j hj => ?_,fun n hn => ?_⟩
    · rw [List.map_cons,List.nodup_cons]
      refine ⟨fun hm => ?_,h.nodup⟩
      obtain ⟨j,hj,he⟩ := List.mem_map.mp hm
      exact hfresh j hj he
    · rcases List.mem_cons.mp hj with rfl | hj
      · exact ⟨messageStore,by simp [Ledger.register],by simp [Ledger.register],ha⟩
      · exact (h.claimable j hj).register hnone
    · by_cases he : n = roundOf M St k
      · exact ⟨_,List.mem_append_right _ (List.mem_singleton_self _),by rw [he]; rfl⟩
      · exact hreg n (by simpa [Ledger.register,Function.update_of_ne he] using hn)
  | @receivedMsg incoming router res hrecv =>
    obtain ⟨n,hn⟩ := LawfulProtocolMsg.round_ok incoming.msg
    cases hr : l.registered n with
    | none =>
      rw [h.router_eq,l.receivedMsg_unregistered hn hr] at hrecv
      cases hrecv
      exact ⟨l,rfl,h.nodup,h.claimable,hreg⟩
    | some r =>
      have hsome : (l.registered n).isSome = true := by rw [hr]; rfl
      rw [h.router_eq,l.receivedMsg_spec hn hsome] at hrecv
      cases hrecv
      exact ⟨_,rfl,h.nodup,h.claimable,hreg⟩
  | @handedBack k pre post w w' router hw hcomplete =>
    have hk : k ∈ s.witnesses := by simp [hw]
    obtain ⟨res,_,⟨_,he⟩ | ⟨⟨r,rfl⟩,he⟩⟩ := (h.claimable k hk).completeRound w
    · rw [h.router_eq,he] at hcomplete
      cases hcomplete
      exact ⟨l,rfl,hw ▸ h.nodup,hw ▸ h.claimable,hreg⟩
    · rw [h.router_eq,he] at hcomplete
      cases hcomplete
  | @completed k pre post w router r hw hcomplete =>
    have hk : k ∈ s.witnesses := by simp [hw]
    obtain ⟨res,_,⟨⟨w',rfl⟩,he⟩ | ⟨_,he⟩⟩ := (h.claimable k hk).completeRound w
    · rw [h.router_eq,he] at hcomplete
      cases hcomplete
    · rw [h.router_eq,he] at hcomplete
      cases hcomplete
      have hnd := h.nodup
      rw [hw,List.map_append,List.map_cons,List.nodup_middle,← List.map_append,
        List.nodup_cons] at hnd
      refine ⟨_,rfl,hnd.2,fun j hj => ?_,hreg⟩
      have hjw : j ∈ s.witnesses := by
        rw [hw]
        rcases List.mem_append.mp hj with hj | hj
        · exact List.mem_append_left _ hj
        · exact List.mem_append_right _ (List.mem_cons_of_mem _ hj)
      exact (h.claimable j hjw).take fun hc => hnd.1 (hc ▸ List.mem_map_of_mem hj)

theorem tracks_run {ops : List (RouterOp M St)} {s : Session M St}
    (h : Run (sessions M St) (sessions M St).init ops s) : ∃ l, Tracks ops s l := by
  apply h.invariant (P := fun ops s => ∃ l, Tracks ops s l)
  · exact ⟨.empty,rfl,List.nodup_nil,fun _ hk => (by cases hk),fun _ hn => (by cases hn)⟩
  · rintro ops s op t _ ⟨l,hl⟩ ⟨ha,hs⟩
    exact hl.step ha hs

end

/-- Whatever operations came before, a round whose witness exists is in progress or
completed, completing it gives the witness back, an output or an error of the store, and
no other operation panics. -/
theorem router_safety [LawfulProtocolMsg M] [∀ k, LawfulRoundMsg M (RoundInfo.Msg (St k))]
    {ops : List (RouterOp M St)} {s : Session M St}
    (h : Run (sessions M St) (sessions M St).init ops s) :
    (∀ k ∈ s.witnesses, ∃ state : ProcessRoundMessageImpl (St k),
      s.router.rounds (roundOf M St k) = some (some ⟨k,state⟩) ∧ state ≠ .gone) ∧
    (∀ k ∈ s.witnesses, ∀ w : Round k, ∃ router res,
      s.router.completeRound w = .ok (router,res) ∧ Benign res) ∧
    (∀ incoming : Incoming M, ∃ router res,
      s.router.receivedMsg incoming = .ok (router,res)) ∧
    (∀ (k : ι) (messageStore : St k), (∀ op ∈ ops, op.registers ≠ some (roundOf M St k)) →
      ∃ router w, s.router.addRound k messageStore = .ok (router,w)) := by
  obtain ⟨l,hl⟩ := tracks_run h
  rw [hl.router_eq]
  refine ⟨fun k hk => ?_,fun k hk w => ?_,fun incoming => ?_,fun k messageStore hnew => ?_⟩
  · obtain ⟨st,hr,ht,_⟩ := hl.claimable k hk
    refine ⟨progress st (l.received.filter (isOf (roundOf M St k))),?_,?_⟩
    · simp [Ledger.entry,hr,ht]
    · exact progress_ne_gone st _
  · obtain ⟨res,hb,⟨_,he⟩ | ⟨_,he⟩⟩ := (hl.claimable k hk).completeRound w
    · exact ⟨_,res,he,hb⟩
    · exact ⟨_,res,he,hb⟩
  · obtain ⟨n,hn⟩ := LawfulProtocolMsg.round_ok incoming.msg
    cases hr : l.registered n with
    | none => exact ⟨_,_,l.receivedMsg_unregistered hn hr⟩
    | some r => exact ⟨_,_,l.receivedMsg_spec hn (by rw [hr]; rfl)⟩
  · have hnone : l.registered (roundOf M St k) = none := by
      by_contra hc
      obtain ⟨op,hop,hr⟩ := hl.registered _ (Option.isSome_iff_ne_none.mpr hc)
      exact hnew op hop hr
    exact ⟨_,_,l.addRound_spec k messageStore hnone⟩

namespace RandomGeneration

/-- What the first of two parties registers. -/
def firstInput {T : Type} (msgType : MessageType) : RoundInput T where
  i := 0
  n := 2
  messagesIds := [0]
  messages := [none]
  leftMessages := 1
  expectedMsgType := msgType
  two_le := by decide
  i_lt := by decide
  ids_length := rfl
  messages_length := rfl
  left_eq := rfl

/-- Round 1 is completed too early, and the message of round 2 comes before that of round 1. -/
def overtaking : List (RouterOp Msg Store) :=
  [.addRound .round1 (firstInput (.broadcast true)),.addRound .round2 (firstInput (.broadcast false)),
    .completeRound .round1,.receivedMsg ⟨0,1,.broadcast false,.decommitMsg ⟨.replicate 32 5⟩⟩,
    .receivedMsg ⟨1,1,.broadcast true,.commitMsg ⟨.replicate 32 7⟩⟩]

theorem run_overtaking : ∃ s : Session Msg Store,
    Run (sessions Msg Store) (sessions Msg Store).init overtaking s ∧
    s.witnesses = [.round2,.round1] ∧
    ∃ router, s.router.completeRound (⟨⟩ : Round RoundKind.round1) =
      .ok (router,.ok (.ok ⟨0,[1],[⟨.replicate 32 7⟩]⟩)) := by
  have h1 : Run (sessions Msg Store) (sessions Msg Store).init (overtaking.take 1) ⟨_,[.round1]⟩ :=
    .snoc .refl ⟨RoundInput.obeys _,.addRound rfl⟩
  have h2 : Run (sessions Msg Store) (sessions Msg Store).init (overtaking.take 2)
      ⟨_,[.round2,.round1]⟩ := .snoc h1 ⟨RoundInput.obeys _,.addRound rfl⟩
  have h3 : Run (sessions Msg Store) (sessions Msg Store).init (overtaking.take 3)
      ⟨_,[.round2] ++ .round1 :: []⟩ := .snoc h2 ⟨trivial,.handedBack (w := ⟨⟩) rfl rfl⟩
  have h4 : Run (sessions Msg Store) (sessions Msg Store).init (overtaking.take 4)
      ⟨_,[.round2,.round1]⟩ := .snoc h3 ⟨trivial,.receivedMsg rfl⟩
  exact ⟨_,.snoc h4 ⟨trivial,.receivedMsg rfl⟩,rfl,_,rfl⟩

end RandomGeneration

open RandomGeneration in
theorem router_safety_commitments :
    RoundInput.reliableBroadcast 0 2 = .ok (firstInput (.broadcast true) : Store .round1) ∧
    RoundInput.broadcast 0 2 = .ok (firstInput (.broadcast false) : Store .round2) ∧
    ∃ (s s' : Session Msg Store) (w : Round RoundKind.round1),
      Run (sessions Msg Store) (sessions Msg Store).init overtaking s ∧
      s.router.completeRound w = .ok (s'.router,.ok (.ok ⟨0,[1],[⟨.replicate 32 7⟩]⟩)) ∧
      s'.witnesses = [.round2] ∧
      (∃ state, s'.router.rounds 1 = some (some ⟨.round2,state⟩) ∧ state ≠ .gone) ∧
      ∀ w : Round RoundKind.round2, ∃ router res,
        s'.router.completeRound w = .ok (router,res) ∧ Benign res := by
  obtain ⟨s,hrun,hwitnesses,router,hcomplete⟩ := run_overtaking
  have hpost : s.witnesses = [.round2] ++ .round1 :: [] := hwitnesses
  have hrun' : Run (sessions Msg Store) (sessions Msg Store).init
      (overtaking ++ [.completeRound .round1]) ⟨router,[.round2]⟩ :=
    .snoc hrun ⟨trivial,.completed hpost hcomplete⟩
  have hsafe := router_safety hrun'
  have hmem : RoundKind.round2 ∈ [RoundKind.round2] := List.mem_singleton_self _
  exact ⟨rfl,rfl,s,⟨router,[.round2]⟩,⟨⟩,hrun,hcomplete,rfl,hsafe.1 .round2 hmem,
    hsafe.2.1 .round2 hmem⟩

end RoundBased
