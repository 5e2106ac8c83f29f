import RoundBased.FaultFree

/-! Where the output of a round comes from: whatever is received, it is the output of the store
of the round, fed with some of the messages of the round that were received. -/
namespace RoundBased
open Feeding Interaction RoundsRouter

namespace ProcessRoundMessageImpl

variable {M S : Type} [RoundStore S] [RoundMsg M (RoundInfo.Msg S)] {s : S}
  {received : List (Incoming M)} {p p' : ProcessRoundMessageImpl S}

/-- What the round has come to, unless it failed, is due to messages of the round. -/
def FedFrom (s : S) (received : List (Incoming M)) : ProcessRoundMessageImpl S → Prop
  | inProgress s' => wantsMore s' = true ∧
    ∃ msgs, msgs.Sublist (roundMsgs (RoundInfo.Msg S) received) ∧ (store S).feed s msgs = .ok s'
  | completed (.ok out) =>
    ∃ msgs, msgs.Sublist (roundMsgs (RoundInfo.Msg S) received) ∧ verdict s msgs = some (.ok out)
  | _ => True

theorem sublist_append {T : Type} [RoundMsg M T] {msgs : List (Incoming T)}
    (h : msgs.Sublist (roundMsgs T received)) (more : List (Incoming M)) :
    msgs.Sublist (roundMsgs T (received ++ more)) := by
  rw [roundMsgs,List.filterMap_append]
  exact h.trans (List.sublist_append_left ..)

theorem fedFrom_new (s : S) (received : List (Incoming M)) : (new s).FedFrom s received := by
  unfold new
  by_cases hw : wantsMore s = true
  · rw [if_pos hw]
    exact ⟨hw,[],List.nil_sublist _,rfl⟩
  · rw [if_neg hw]
    cases ho : output s with
    | error s' => trivial
    | ok out =>
      refine ⟨[],List.nil_sublist _,?_⟩
      simp only [verdict,Collector.feed,hw,Bool.false_eq_true,if_false,ho]

theorem FedFrom.append (h : p.FedFrom s received) (more : List (Incoming M)) :
    p.FedFrom s (received ++ more) := by
  cases p with
  | inProgress s' =>
    obtain ⟨hw,msgs,hsub,hf⟩ := h
    exact ⟨hw,msgs,sublist_append hsub more,hf⟩
  | gone => trivial
  | completed res =>
    cases res with
    | error err => trivial
    | ok out =>
      obtain ⟨msgs,hsub,hv⟩ := h
      exact ⟨msgs,sublist_append hsub more,hv⟩

variable [ProtocolMsg M]

theorem addToStore_ok {s s' : S} {msg : Incoming M} (h : addToStore s msg = .ok (s',.ok ())) :
    ∃ x, roundMsgs (RoundInfo.Msg S) [msg] = [x] ∧ (store S).add s x = .ok s' := by
  unfold addToStore at h
  split at h
  · rename_i m _
    cases hr : round m with
    | error e => rw [hr] at h; cases h
    | ok n => rw [hr] at h; cases h
  · rename_i x hx
    refine ⟨x,by simp only [roundMsgs,List.filterMap_cons,hx,Except.toOption,List.filterMap_nil],?_⟩
    cases ha : addMessage s x with
    | mk s1 r =>
      cases r with
      | error e => rw [ha] at h; cases h
      | ok u =>
        rw [ha] at h
        cases h
        simp only [store_add,ha]

theorem FedFrom.processMessage {msg : Incoming M} (h : p.FedFrom s received)
    (hp : p.processMessage msg = .ok p') : p'.FedFrom s (received ++ [msg]) := by
  cases p with
  | completed res => cases hp; exact h.append [msg]
  | gone => cases hp; exact h.append [msg]
  | inProgress s1 =>
    obtain ⟨hw,msgs,hsub,hf⟩ := h
    simp only [ProcessRoundMessageImpl.processMessage] at hp
    cases ha : addToStore s1 msg with
    | error x => rw [ha] at hp; cases hp
    | ok r =>
      obtain ⟨s2,res⟩ := r
      rw [ha] at hp
      cases hp
      cases res with
      | error err => trivial
      | ok u =>
        obtain ⟨x,hx,hadd⟩ := addToStore_ok ha
        have hsub' : (msgs ++ [x]).Sublist (roundMsgs (RoundInfo.Msg S) (received ++ [msg])) := by
          rw [roundMsgs,List.filterMap_append]
          exact hsub.append (hx ▸ List.Sublist.refl _)
        have hw1 : (store S).wants s1 = true := hw
        have hf' : (store S).feed s (msgs ++ [x]) = .ok s2 := by
          rw [feed_snoc,hf]
          simp only [Except.bind,hw1,if_true,hadd]
        by_cases hw2 : wantsMore s2 = true
        · simp only [hw2,if_true]
          exact ⟨hw2,_,hsub',hf'⟩
        · simp only [hw2,Bool.false_eq_true,if_false,outputStore]
          cases ho : output s2 with
          | error s3 => trivial
          | ok out =>
            refine ⟨_,hsub',?_⟩
            simp only [verdict,hf',hw2,Bool.false_eq_true,if_false,ho]

end ProcessRoundMessageImpl

variable {ι M A : Type} {St : ι → Type} [∀ k, RoundStore (St k)]
  [∀ k, RoundMsg M (RoundInfo.Msg (St k))] {IoErr : Type}

/-- The rounds started with the stores `init`, have come to where they are by what was received,
and the outputs of those in `returned` were taken. -/
structure RoundsRouter.Fed (init : UInt16 → Option ((k : ι) × St k)) (received : List (Incoming M))
    (returned : List UInt16) (router : RoundsRouter M St) : Prop where
  fedFrom : ∀ n k p, router.rounds n = some (some ⟨k,p⟩) →
    ∃ s, init n = some ⟨k,s⟩ ∧ p.FedFrom s received
  gone : ∀ n ∈ returned, ∃ k, router.rounds n = some (some ⟨k,.gone⟩)

/-- The output is that of the store of the round, for messages of the round. -/
def OriginOf (init : UInt16 → Option ((k : ι) × St k)) (received : List (Incoming M)) (k : ι)
    (out : RoundInfo.Output (St k)) : Prop :=
  ∀ s, init (roundOf M St k) = some ⟨k,s⟩ → ∃ msgs,
    msgs.Sublist (roundMsgs (RoundInfo.Msg (St k)) received) ∧ verdict s msgs = some (.ok out)

theorem OriginOf.append {init : UInt16 → Option ((k : ι) × St k)} {received : List (Incoming M)}
    {k : ι} {out : RoundInfo.Output (St k)} (h : OriginOf init received k out)
    (more : List (Incoming M)) : OriginOf init (received ++ more) k out := by
  intro s hs
  obtain ⟨msgs,hsub,hv⟩ := h s hs
  exact ⟨msgs,ProcessRoundMessageImpl.sublist_append hsub more,hv⟩

/-- Completing a round has returned no output, or one that was not returned before. -/
def RoundsRouter.Yields (init : UInt16 → Option ((k : ι) × St k)) (received : List (Incoming M))
    (returned : List UInt16) {k : ι} (res : Except (Round k) (RoundResult (St k) IoErr))
    (router : RoundsRouter M St) : Prop :=
  ((∀ out, res ≠ .ok (.ok out)) ∧ router.Fed init received returned) ∨
  ∃ out, res = .ok (.ok out) ∧ roundOf M St k ∉ returned ∧ OriginOf init received k out ∧
    router.Fed init received (returned ++ [roundOf M St k])

namespace RoundsRouter.Fed

variable {init : UInt16 → Option ((k : ι) × St k)} {received : List (Incoming M)}
  {returned : List UInt16} {router router' : RoundsRouter M St}

theorem replace (h : Fed init received returned router) {n : UInt16} {k : ι}
    {p p' : ProcessRoundMessageImpl (St k)} (hn : router.rounds n = some (some ⟨k,p⟩))
    (hp : ∀ s, init n = some ⟨k,s⟩ → p'.FedFrom s received) (hgone : p ≠ .gone ∨ p' = .gone) :
    Fed init received returned (router.insert n ⟨k,p'⟩) := by
  refine ⟨fun m j q hm => ?_,fun m hm => ?_⟩
  · by_cases he : m = n
    · subst he
      simp only [insert,Function.update_self,Option.some.injEq] at hm
      cases hm
      obtain ⟨s,hs,_⟩ := h.fedFrom m k p hn
      exact ⟨s,hs,hp s hs⟩
    · simp only [insert,Function.update_of_ne he] at hm
      exact h.fedFrom m j q hm
  · obtain ⟨j,hj⟩ := h.gone m hm
    by_cases he : m = n
    · subst he
      rw [hn] at hj
      cases hj
      rcases hgone with hne | rfl
      · exact absurd rfl hne
      · exact ⟨k,Function.update_self ..⟩
    · exact ⟨j,(Function.update_of_ne he ..).trans hj⟩

theorem append (h : Fed init received returned router) (more : List (Incoming M)) :
    Fed init (received ++ more) returned router := by
  refine ⟨fun n k p hn => ?_,h.gone⟩
  obtain ⟨s,hs,hp⟩ := h.fedFrom n k p hn
  exact ⟨s,hs,hp.append more⟩

theorem receivedMsg [ProtocolMsg M] (h : Fed init received returned router)
    {incoming : Incoming M} {res : Except UnregisteredRound Unit}
    (hr : router.receivedMsg incoming = .ok (router',res)) :
    Fed init (received ++ [incoming]) returned router' := by
  unfold RoundsRouter.receivedMsg at hr
  cases hn : round incoming.msg with
  | error p => rw [hn] at hr; cases hr
  | ok n =>
    simp only [hn] at hr
    split at hr
    · cases hr
      exact h.append _
    · cases hr
      exact h.append _
    · rename_i k p hentry
      split at hr
      · rename_i hmore
        cases hp : p.processMessage incoming with
        | error x => rw [hp] at hr; cases hr
        | ok p' =>
          rw [hp] at hr
          cases hr
          refine (h.append _).replace hentry (fun s hs => ?_) (.inl ?_)
          · obtain ⟨s',hs',hfed⟩ := h.fedFrom n k p hentry
            rw [hs] at hs'
            cases hs'
            exact hfed.processMessage hp
          · rintro rfl
            cases hmore
      · cases hr
        exact h.append _

variable [TypeIds St]

/-- An output is taken once. -/
theorem completeRound (h : Fed init received returned router) {k : ι} {w : Round k}
    {res : Except (Round k) (RoundResult (St k) Empty)}
    (hc : router.completeRound w = .ok (router',res)) :
    Yields init received returned res router' := by
  cases he : router.rounds (roundOf M St k) with
  | none =>
    simp only [RoundsRouter.completeRound,he] at hc
    cases hc
    exact .inl ⟨fun out => (by simp),h⟩
  | some entry =>
    cases entry with
    | none =>
      simp only [RoundsRouter.completeRound,he] at hc
      cases hc
      exact .inl ⟨fun out => (by simp),h⟩
    | some boxed =>
      obtain ⟨j,p⟩ := boxed
      simp only [RoundsRouter.completeRound,he] at hc
      have hgone : Fed init received returned (router.insert (roundOf M St k) ⟨j,.gone⟩) :=
        h.replace he (fun _ _ => trivial) (.inr rfl)
      cases p with
      | inProgress s =>
        cases hc
        exact .inl ⟨fun out => (by simp),h⟩
      | gone =>
        cases hc
        exact .inl ⟨fun out => (by simp [retrieveRoundOutput]),hgone⟩
      | completed result =>
        cases result with
        | error err =>
          cases hc
          refine .inl ⟨fun out hout => ?_,hgone⟩
          simp only [retrieveRoundOutput] at hout
          split at hout <;> cases hout
        | ok out =>
          cases hc
          cases hr : (retrieveRoundOutput k (.ok (.ok (.ofOutput j out))) :
              RoundResult (St k) Empty) with
          | error err => exact .inl ⟨fun out' => (by simp),hgone⟩
          | ok out' =>
            refine .inr ⟨out',rfl,fun hmem => ?_,fun s hs => ?_,⟨hgone.fedFrom,fun n hn => ?_⟩⟩
            · obtain ⟨i,hi⟩ := h.gone _ hmem
              rw [he] at hi
              cases hi
            · obtain ⟨s',hs',hfed⟩ := h.fedFrom _ j _ he
              rw [hs] at hs'
              cases hs'
              simp only [retrieveRoundOutput,Any.downcastOutput_ofOutput,Except.mapError] at hr
              cases hr
              exact hfed
            · rcases List.mem_append.mp hn with hn | hn
              · exact hgone.gone n hn
              · rw [List.mem_singleton.mp hn]
                exact ⟨j,Function.update_self ..⟩

theorem checkCompleted [ProtocolMsg M] (h : Fed init received returned router) {k : ι}
    {w : Round k} {res : Except (Round k) (RoundResult (St k) IoErr)}
    (hc : checkCompleted router w = .ok (router',res)) :
    Yields init received returned res router' := by
  unfold RoundBased.checkCompleted at hc
  cases hr : router.completeRound w with
  | error p => rw [hr] at hc; cases hc
  | ok r =>
    obtain ⟨router1,res1⟩ := r
    rw [hr] at hc
    cases hc
    rcases h.completeRound hr with ⟨hres,hfed⟩ | ⟨out,rfl,hnew,horigin,hfed⟩
    · refine .inl ⟨fun out hout => ?_,hfed⟩
      cases res1 with
      | error w => cases hout
      | ok res1 =>
        cases res1 with
        | error err => cases hout
        | ok out1 => exact hres out1 rfl
    · exact .inr ⟨out,rfl,hnew,horigin,hfed⟩

theorem completeTurn [ProtocolMsg M] (h : Fed init received returned router) {k : ι}
    {w : Round k} {incoming : Incoming M} {res : Except (Round k) (RoundResult (St k) IoErr)}
    (hc : completeTurn router w (.ok incoming) = .ok (router',res)) :
    Yields init (received ++ [incoming]) returned res router' := by
  unfold RoundBased.completeTurn at hc
  cases hr : router.receivedMsg incoming with
  | error p => simp only [hr] at hc; cases hc
  | ok r =>
    obtain ⟨router1,res1⟩ := r
    have h1 := h.receivedMsg hr
    cases res1 with
    | error e =>
      simp only [hr] at hc
      cases hc
      exact .inl ⟨fun out hout => (by cases hout),h1⟩
    | ok u =>
      simp only [hr] at hc
      exact h1.checkCompleted hc

end RoundsRouter.Fed

/-- The number of the round whose output was returned. -/
def returnedRound : NodeEvent St IoErr M → Option UInt16
  | ⟨.complete k,.ok _⟩ => some (roundOf M St k)
  | _ => none

/-- The outputs a party has returned are due to what it has received, and no two are of one
round. -/
structure Node.Explained (init : UInt16 → Option ((k : ι) × St k)) (node : Node St IoErr M A) :
    Prop where
  fed : node.router.Fed init node.received (node.history.filterMap returnedRound)
  once : (node.history.filterMap returnedRound).Nodup
  origin : ∀ k (out : RoundInfo.Output (St k)), ⟨.complete k,.ok out⟩ ∈ node.history →
    OriginOf init node.received k out

namespace Node.Explained

variable {init : UInt16 → Option ((k : ι) × St k)} {self node : Node St IoErr M A}

theorem start [ProtocolMsg M] {l : Ledger M St} (hl : l.received = [])
    (prog : NodeProg St IoErr M A) : Explained l.registered (Node.start l.router prog) := by
  refine ⟨⟨fun n k p hn => ?_,fun n hn => (by cases hn)⟩,List.nodup_nil,fun k out hmem => (by cases hmem)⟩
  have hentry : l.entry n = some (some ⟨k,p⟩) := hn
  unfold Ledger.entry at hentry
  cases hr : l.registered n with
  | none => rw [hr] at hentry; cases hentry
  | some reg =>
    obtain ⟨j,s⟩ := reg
    simp only [hr,hl,Option.map_some,List.filter_nil,progress_nil,Option.some.injEq] at hentry
    cases hentry
    refine ⟨s,rfl,?_⟩
    split
    · trivial
    · exact ProcessRoundMessageImpl.fedFrom_new s _

theorem answer (h : Explained init self) {c : Call ι M}
    (cont : PartyAnswer St IoErr M c → NodeProg St IoErr M A) {ans : PartyAnswer St IoErr M c}
    (hans : returnedRound (⟨c,ans⟩ : NodeEvent St IoErr M) = none) :
    Explained init (self.answer c cont ans) := by
  have hreturned : (self.history ++ [(⟨c,ans⟩ : NodeEvent St IoErr M)]).filterMap returnedRound =
      self.history.filterMap returnedRound := by
    rw [List.filterMap_append,List.filterMap_cons_none hans,List.filterMap_nil,List.append_nil]
  refine ⟨hreturned.symm ▸ h.fed,hreturned.symm ▸ h.once,fun k out hmem => ?_⟩
  rcases List.mem_append.mp hmem with hmem | hmem
  · exact h.origin k out hmem
  · cases List.mem_singleton.mp hmem
    cases hans

theorem settle (h : Explained init self) {received : List (Incoming M)} {k : ι}
    (cont : RoundResult (St k) IoErr → NodeProg St IoErr M A)
    {r : RoundsRouter M St × Except (Round k) (RoundResult (St k) IoErr)}
    (horigin : ∀ j (out : RoundInfo.Output (St j)), ⟨.complete j,.ok out⟩ ∈ self.history →
      OriginOf init received j out)
    (hr : Yields init received (self.history.filterMap returnedRound) r.2 r.1) :
    Explained init (({ self with received := received }).settle k cont r) := by
  obtain ⟨router,res⟩ := r
  rcases hr with ⟨hres,hfed⟩ | ⟨out,rfl,hnew,hout,hfed⟩
  · have hself : Explained init
        ({ self with router := router, received := received } : Node St IoErr M A) :=
      ⟨hfed,h.once,horigin⟩
    cases res with
    | error w => exact ⟨hfed,h.once,horigin⟩
    | ok res =>
      cases res with
      | ok out => exact absurd rfl (hres out)
      | error err => exact hself.answer (c := .complete k) cont rfl
  · let event : NodeEvent St IoErr M := ⟨.complete k,.ok out⟩
    have hreturned : (self.history ++ [event]).filterMap returnedRound =
        self.history.filterMap returnedRound ++ [roundOf M St k] := by
      rw [List.filterMap_append]
      rfl
    refine ⟨hreturned.symm ▸ hfed,?_,fun j o hmem => ?_⟩
    · have hnodup : (self.history.filterMap returnedRound ++ [roundOf M St k]).Nodup :=
        h.once.append (List.nodup_singleton _) (by simpa using hnew)
      exact hreturned.symm ▸ hnodup
    · rcases List.mem_append.mp hmem with hmem | hmem
      · exact horigin j o hmem
      · cases List.mem_singleton.mp hmem
        exact hout

variable [ProtocolMsg M] [TypeIds St]

theorem act (h : Explained init self) {out : List (Outgoing M)}
    (ha : self.act = some (.ok (node,out))) : Explained init node := by
  obtain ⟨c,cont,_,hcall⟩ := act_cases ha
  cases c with
  | complete k =>
    simp only [call] at hcall
    cases hr : (checkCompleted self.router (⟨⟩ : Round k) :
        Checked (RoundsRouter M St × Except (Round k) (RoundResult (St k) IoErr))) with
    | error p => rw [hr] at hcall; cases hcall
    | ok r =>
      rw [hr] at hcall
      cases hcall
      exact h.settle cont h.origin (h.fed.checkCompleted hr)
  | send msg => cases hcall; exact h.answer cont rfl
  | enqueue msg => cases hcall; exact h.answer cont rfl
  | flush => cases hcall; exact h.answer cont rfl
  | yieldNow => cases hcall; exact h.answer cont rfl

theorem read (h : Explained init self) {incoming : Incoming M}
    (hr : self.read incoming = some (.ok node)) : Explained init node := by
  obtain ⟨k,cont,r,_,hturn,rfl⟩ := read_cases hr
  exact h.settle cont (fun j out hmem => (h.origin j out hmem).append _) (h.fed.completeTurn hturn)

end Node.Explained
end RoundBased
