import RoundBased.EchoRouting

/-! Where the errors of a round come from: an error of processing a message was returned by a
store of the round that is completed. -/
namespace RoundBased
open RoundsRouter

variable {ι M : Type} {St : ι → Type} [∀ k, RoundStore (St k)] {IoErr : Type}

/-- All errors of the stores are in `Q`. -/
def StoreErrors (Q : ∀ k, RoundInfo.Error (St k) → Prop) : Prop :=
  ∀ k (s s' : St k) msg e, addMessage s msg = (s',.error e) → Q k e

namespace ProcessRoundMessageImpl

variable {S : Type} [RoundStore S] {Q : RoundInfo.Error S → Prop}

/-- If the round failed to process a message, then with an error in `Q`. -/
def FailsWithin (Q : RoundInfo.Error S → Prop) (self : ProcessRoundMessageImpl S) : Prop :=
  ∀ e, self = .completed (.error (.processMsg e)) → Q e

theorem new_failsWithin (s : S) : (new s).FailsWithin Q := by
  intro e he
  unfold new at he
  split at he
  · cases he
  · cases ho : output s with
    | ok out => simp [ho,Except.mapError] at he
    | error s' => simp only [ho,Except.mapError] at he; cases he

theorem outputStore_failsWithin (p : ProcessRoundMessageImpl S) :
    p.outputStore.FailsWithin Q := by
  intro e he
  unfold outputStore at he
  split at he
  · split at he <;> cases he
  · cases he

variable [ProtocolMsg M] [RoundMsg M (RoundInfo.Msg S)]

/-- An error of adding a message is one of the store, or not an error of processing it. -/
theorem addToStore_error (hQ : ∀ (s s' : S) msg e, addMessage s msg = (s',.error e) → Q e)
    {s s' : S} {msg : Incoming M} {e : RoundInfo.Error S}
    (h : addToStore s msg = .ok (s',.error (.processMsg e))) : Q e := by
  unfold addToStore at h
  split at h
  · rename_i m _
    cases hr : round m with
    | error p => rw [hr] at h; cases h
    | ok n => rw [hr] at h; cases h
  · rename_i m _
    cases ha : addMessage s m with
    | mk s1 r =>
      cases r with
      | ok u => rw [ha] at h; cases h
      | error e' =>
        rw [ha] at h
        cases h
        exact hQ _ _ _ _ ha

theorem FailsWithin.processMessage
    (hQ : ∀ (s s' : S) msg e, addMessage s msg = (s',.error e) → Q e)
    {p p' : ProcessRoundMessageImpl S} {msg : Incoming M} (h : p.FailsWithin Q)
    (hp : p.processMessage msg = .ok p') : p'.FailsWithin Q := by
  cases p with
  | completed res => cases hp; exact h
  | gone => cases hp; exact h
  | inProgress s =>
    simp only [ProcessRoundMessageImpl.processMessage] at hp
    cases ha : addToStore s msg with
    | error x => rw [ha] at hp; cases hp
    | ok r =>
      obtain ⟨s1,res⟩ := r
      rw [ha] at hp
      simp only [Except.map,Except.ok.injEq] at hp
      subst hp
      cases res with
      | ok u =>
        simp only
        split
        · intro e he
          cases he
        · exact outputStore_failsWithin _
      | error err =>
        intro e he
        cases he
        exact addToStore_error hQ ha

end ProcessRoundMessageImpl

/-- The rounds are of the kinds `kinds`, and those that failed did with errors in `Q`. -/
structure RoundsRouter.Tidy (Q : ∀ k, RoundInfo.Error (St k) → Prop) (kinds : UInt16 → Option ι)
    (router : RoundsRouter M St) : Prop where
  kindAt_eq : router.kindAt = kinds
  failsWithin : ∀ n k p, router.rounds n = some (some ⟨k,p⟩) → p.FailsWithin (Q k)

namespace RoundsRouter.Tidy

variable {Q : ∀ k, RoundInfo.Error (St k) → Prop} {kinds : UInt16 → Option ι}
  {router router' : RoundsRouter M St}

theorem new : Tidy Q (fun _ => none) (RoundsRouter.new : RoundsRouter M St) :=
  ⟨rfl,fun _ _ _ h => (by cases h)⟩

theorem insert (h : Tidy Q kinds router) (n : UInt16) {k : ι}
    {p : ProcessRoundMessageImpl (St k)} (hp : p.FailsWithin (Q k)) :
    Tidy Q (Function.update kinds n (some k)) (router.insert n ⟨k,p⟩) := by
  refine ⟨by rw [kindAt_insert,h.kindAt_eq],fun m j q hm => ?_⟩
  by_cases he : m = n
  · subst he
    simp only [RoundsRouter.insert,Function.update_self,Option.some.injEq] at hm
    cases hm
    exact hp
  · simp only [RoundsRouter.insert,Function.update_of_ne he] at hm
    exact h.failsWithin m j q hm

theorem replace (h : Tidy Q kinds router) {n : UInt16} {k : ι}
    {p p' : ProcessRoundMessageImpl (St k)} (hn : router.rounds n = some (some ⟨k,p⟩))
    (hp : p'.FailsWithin (Q k)) : Tidy Q kinds (router.insert n ⟨k,p'⟩) := by
  have hkind : kinds n = some k := by
    rw [← h.kindAt_eq]
    simp [kindAt,hn]
  have hins := h.insert n hp
  rwa [← hkind,Function.update_eq_self] at hins

variable [∀ k, RoundMsg M (RoundInfo.Msg (St k))]

theorem addRound (h : Tidy Q kinds router) {k : ι} {s : St k} {w : Round k}
    (ha : router.addRound k s = .ok (router',w)) :
    kinds (roundOf M St k) = none ∧
      Tidy Q (Function.update kinds (roundOf M St k) (some k)) router' := by
  simp only [RoundsRouter.addRound] at ha
  split at ha
  · cases ha
  · rename_i hfree
    cases ha
    rw [Bool.not_eq_true,Option.isSome_eq_false_iff,Option.isNone_iff_eq_none] at hfree
    refine ⟨by rw [← h.kindAt_eq,kindAt,hfree]; rfl,h.insert _ ?_⟩
    exact ProcessRoundMessageImpl.new_failsWithin s

section Complete

variable [TypeIds St]

theorem completeRound (h : Tidy Q kinds router) {k : ι} (hk : kinds (roundOf M St k) = some k)
    {w : Round k} {res : Except (Round k) (RoundResult (St k) Empty)}
    (hc : router.completeRound w = .ok (router',res)) :
    Tidy Q kinds router' ∧ ∀ e, res = .ok (.error (.processMsg e)) → Q k e := by
  cases he : router.rounds (roundOf M St k) with
  | none =>
    rw [← h.kindAt_eq] at hk
    simp [kindAt,he] at hk
  | some entry =>
    cases entry with
    | none =>
      rw [← h.kindAt_eq] at hk
      simp [kindAt,he] at hk
    | some boxed =>
      obtain ⟨j,p⟩ := boxed
      have hj : j = k := by
        rw [← h.kindAt_eq] at hk
        simpa [kindAt,he] using hk
      subst hj
      have hgone : Tidy Q kinds (router.insert (roundOf M St j) ⟨j,.gone⟩) :=
        h.replace he fun e hgone => (by cases hgone)
      simp only [RoundsRouter.completeRound,he] at hc
      cases p with
      | inProgress s =>
        cases hc
        exact ⟨h,fun e hres => (by cases hres)⟩
      | gone =>
        cases hc
        exact ⟨hgone,fun e hres => (by cases hres)⟩
      | completed result =>
        cases result with
        | ok out =>
          cases hc
          refine ⟨hgone,fun e hres => ?_⟩
          simp [retrieveRoundOutput,Except.mapError] at hres
        | error err =>
          cases hc
          refine ⟨hgone,fun e hres => ?_⟩
          simp only [retrieveRoundOutput,Any.downcastError_ofError,Except.ok.injEq,
            Except.error.injEq] at hres
          exact h.failsWithin _ j _ he e (by rw [hres])

theorem checkCompleted [ProtocolMsg M] (h : Tidy Q kinds router) {k : ι}
    (hk : kinds (roundOf M St k) = some k) {w : Round k}
    {res : Except (Round k) (RoundResult (St k) IoErr)}
    (hc : checkCompleted router w = .ok (router',res)) :
    Tidy Q kinds router' ∧ ∀ e, res = .ok (.error (.processMsg e)) → Q k e := by
  unfold RoundBased.checkCompleted at hc
  cases hr : router.completeRound w with
  | error p => rw [hr] at hc; cases hc
  | ok r =>
    obtain ⟨router1,res1⟩ := r
    rw [hr] at hc
    cases hc
    obtain ⟨htidy,hwithin⟩ := h.completeRound hk hr
    refine ⟨htidy,fun e hres => hwithin e ?_⟩
    cases res1 with
    | error w => cases hres
    | ok res1 =>
      cases res1 with
      | ok out => cases hres
      | error err =>
        cases err with
        | processMsg e' => cases hres; rfl
        | router err => cases hres
        | io err => cases hres
        | unexpectedEof => cases hres

end Complete

variable [ProtocolMsg M] (hQ : StoreErrors Q)
include hQ

theorem receivedMsg (h : Tidy Q kinds router) {incoming : Incoming M}
    {res : Except UnregisteredRound Unit}
    (hr : router.receivedMsg incoming = .ok (router',res)) : Tidy Q kinds router' := by
  unfold RoundsRouter.receivedMsg at hr
  cases hn : round incoming.msg with
  | error p => rw [hn] at hr; cases hr
  | ok n =>
    simp only [hn] at hr
    split at hr
    · cases hr
      exact h
    · cases hr
      exact h
    · rename_i k p hentry
      split at hr
      · cases hp : p.processMessage incoming with
        | error x => rw [hp] at hr; cases hr
        | ok p' =>
          rw [hp] at hr
          cases hr
          exact h.replace hentry ((h.failsWithin n k p hentry).processMessage (hQ k) hp)
      · cases hr
        exact h

variable [TypeIds St] {k : ι}

theorem completeTurn (h : Tidy Q kinds router) (hk : kinds (roundOf M St k) = some k)
    {w : Round k} {item : Except IoErr (Incoming M)}
    {res : Except (Round k) (RoundResult (St k) IoErr)}
    (hc : completeTurn router w item = .ok (router',res)) :
    Tidy Q kinds router' ∧ ∀ e, res = .ok (.error (.processMsg e)) → Q k e := by
  unfold RoundBased.completeTurn at hc
  cases item with
  | error e =>
    cases hc
    exact ⟨h,fun e hres => (by cases hres)⟩
  | ok incoming =>
    cases hr : router.receivedMsg incoming with
    | error p => simp only [hr] at hc; cases hc
    | ok r =>
      obtain ⟨router1,res1⟩ := r
      have h1 := h.receivedMsg hQ hr
      cases res1 with
      | error e =>
        simp only [hr] at hc
        cases hc
        exact ⟨h1,fun e hres => (by cases hres)⟩
      | ok u =>
        simp only [hr] at hc
        exact h1.checkCompleted hk hc

theorem completeLoop (h : Tidy Q kinds router) (hk : kinds (roundOf M St k) = some k)
    {w : Round k} {items rest : List (Except IoErr (Incoming M))} {res : RoundResult (St k) IoErr}
    (hc : completeLoop router w items = .ok (router',rest,res)) :
    Tidy Q kinds router' ∧ ∀ e, res = .error (.processMsg e) → Q k e := by
  induction items generalizing router w with
  | nil =>
    cases hc
    exact ⟨h,fun e hres => (by cases hres)⟩
  | cons item items ih =>
    unfold RoundBased.completeLoop at hc
    cases ht : RoundBased.completeTurn router w item with
    | error p => simp only [ht] at hc; cases hc
    | ok r =>
      obtain ⟨router1,res1⟩ := r
      obtain ⟨h1,hwithin⟩ := h.completeTurn hQ hk ht
      cases res1 with
      | ok res1 =>
        simp only [ht] at hc
        cases hc
        exact ⟨h1,fun e hres => hwithin e (congrArg _ hres)⟩
      | error w' =>
        simp only [ht] at hc
        exact ih h1 hc

end RoundsRouter.Tidy

/-- Of a round that is completed, an error of processing a message is one of its stores. -/
theorem MpcParty.complete_within [∀ k, RoundMsg M (RoundInfo.Msg (St k))] [ProtocolMsg M]
    [TypeIds St] {Q : ∀ k, RoundInfo.Error (St k) → Prop} (hQ : StoreErrors Q)
    {kinds : UInt16 → Option ι} {party party' : MpcParty M St IoErr} {k : ι} {w : Round k}
    {res : RoundResult (St k) IoErr} (h : party.router.Tidy Q kinds)
    (hk : kinds (roundOf M St k) = some k) (hc : party.complete w = .ok (party',res)) :
    party'.router.Tidy Q kinds ∧ ∀ e, res = .error (.processMsg e) → Q k e := by
  unfold MpcParty.complete at hc
  cases hr : (checkCompleted party.router w :
      Checked (RoundsRouter M St × Except (Round k) (RoundResult (St k) IoErr))) with
  | error p => simp only [hr] at hc; cases hc
  | ok r =>
    obtain ⟨router1,res1⟩ := r
    obtain ⟨h1,hwithin⟩ := h.checkCompleted hk hr
    cases res1 with
    | ok res1 =>
      simp only [hr] at hc
      cases hc
      exact ⟨h1,fun e hres => hwithin e (congrArg _ hres)⟩
    | error w' =>
      simp only [hr] at hc
      cases hl : completeLoop router1 w' party.incomings with
      | error p => rw [hl] at hc; cases hc
      | ok r =>
        obtain ⟨router2,rest,res2⟩ := r
        rw [hl] at hc
        cases hc
        exact h1.completeLoop hQ hk hl

end RoundBased
