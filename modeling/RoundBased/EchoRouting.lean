import RoundBased.EchoBroadcast

/-! How messages of a protocol with echo broadcast rounds are routed. The round number of an
echo is computed from a field that the sender chooses. -/
namespace RoundBased
open Transition RoundsRouter

section Router

variable {ι M : Type} {St : ι → Type} [∀ k, RoundStore (St k)]
  [ProtocolMsg M] [∀ k, RoundMsg M (RoundInfo.Msg (St k))]

/-- The round ended because it was given a message of another round. -/
def ProcessRoundMessageImpl.EndedByBug {S : Type} [RoundStore S]
    (self : ProcessRoundMessageImpl S) : Prop :=
  ∃ a b, self = .completed (.error (.ofBug (.messageFromAnotherRound a b)))

/-- Every round is stored under its number, and none was given a message of another one. -/
structure RoundsRouter.Sound (router : RoundsRouter M St) : Prop where
  present : ∀ n, router.rounds n ≠ some none
  keyed : ∀ n k p, router.rounds n = some (some ⟨k,p⟩) → n = roundOf M St k
  clean : ∀ n k p, router.rounds n = some (some ⟨k,p⟩) → ¬ p.EndedByBug

/-- Kind of the round with number `n`. -/
def RoundsRouter.kindAt (router : RoundsRouter M St) (n : UInt16) : Option ι :=
  (router.rounds n).join.map Sigma.fst

omit [ProtocolMsg M] [∀ k, RoundMsg M (RoundInfo.Msg (St k))] in
theorem RoundsRouter.kindAt_insert (router : RoundsRouter M St) (n : UInt16) (b : Boxed St) :
    (router.insert n b).kindAt = Function.update router.kindAt n (some b.1) := by
  funext m
  by_cases hm : m = n
  · subst hm
    simp [kindAt,RoundsRouter.insert]
  · simp [kindAt,RoundsRouter.insert,Function.update_of_ne hm]

namespace RoundsRouter.Sound

omit [ProtocolMsg M] in
theorem new : Sound (RoundsRouter.new : RoundsRouter M St) :=
  ⟨fun _ h => (by cases h),fun _ _ _ h => (by cases h),fun _ _ _ h => (by cases h)⟩

variable {router : RoundsRouter M St}

omit [ProtocolMsg M] in
theorem insert (h : Sound router) {k : ι} {p : ProcessRoundMessageImpl (St k)}
    (hp : ¬ p.EndedByBug) : Sound (router.insert (roundOf M St k) ⟨k,p⟩) := by
  refine ⟨fun n hn => ?_,fun n j q hn => ?_,fun n j q hn => ?_⟩ <;>
    by_cases he : n = roundOf M St k
  · subst he
    simp [RoundsRouter.insert] at hn
  · simp only [RoundsRouter.insert,Function.update_of_ne he] at hn
    exact h.present n hn
  · subst he
    simp only [RoundsRouter.insert,Function.update_self,Option.some.injEq,Sigma.mk.injEq] at hn
    rw [hn.1]
  · simp only [RoundsRouter.insert,Function.update_of_ne he] at hn
    exact h.keyed n j q hn
  · subst he
    simp only [RoundsRouter.insert,Function.update_self,Option.some.injEq] at hn
    cases hn
    exact hp
  · simp only [RoundsRouter.insert,Function.update_of_ne he] at hn
    exact h.clean n j q hn

omit [ProtocolMsg M] in
theorem addRound (h : Sound router) {k : ι} {s : St k} {router' : RoundsRouter M St} {w : Round k}
    (ha : router.addRound k s = .ok (router',w)) :
    Sound router' ∧ router.kindAt (roundOf M St k) = none ∧
      router'.kindAt = Function.update router.kindAt (roundOf M St k) (some k) := by
  simp only [RoundsRouter.addRound] at ha
  split at ha
  · cases ha
  · rename_i hfree
    cases ha
    rw [Bool.not_eq_true,Option.isSome_eq_false_iff,Option.isNone_iff_eq_none] at hfree
    refine ⟨h.insert ?_,by rw [kindAt,hfree]; rfl,router.kindAt_insert _ _⟩
    rintro ⟨a,b,hab⟩
    unfold ProcessRoundMessageImpl.new at hab
    split at hab
    · cases hab
    · cases ho : output s with
      | ok out => simp [ho,Except.mapError] at hab
      | error s' => simp only [ho,Except.mapError] at hab; cases hab

theorem processMessage {k : ι} {p : ProcessRoundMessageImpl (St k)} {incoming : Incoming M}
    (hp : ¬ p.EndedByBug) (hw : WellRouted (RoundInfo.Msg (St k)) incoming.msg)
    (hn : round incoming.msg = .ok (roundOf M St k)) :
    ∃ p', p.processMessage incoming = .ok p' ∧ ¬ p'.EndedByBug := by
  cases p with
  | completed result => exact ⟨_,rfl,hp⟩
  | gone => exact ⟨_,rfl,hp⟩
  | inProgress s =>
    obtain ⟨t,ht⟩ := hw.mpr hn
    simp only [ProcessRoundMessageImpl.processMessage,ProcessRoundMessageImpl.addToStore,
      Incoming.tryMap,ht]
    refine ⟨_,rfl,?_⟩
    rintro ⟨a,b,hab⟩
    cases ha : addMessage s ⟨incoming.id,incoming.sender,incoming.msgType,t⟩ with
    | mk s' r =>
      rw [ha] at hab
      cases r with
      | error e => cases hab
      | ok u =>
        simp only [Except.mapError] at hab
        split at hab
        · cases hab
        · simp only [ProcessRoundMessageImpl.outputStore] at hab
          split at hab <;> cases hab

theorem receivedMsg (h : Sound router) {incoming : Incoming M} {n : UInt16}
    (hn : round incoming.msg = .ok n)
    (hw : ∀ k, WellRouted (RoundInfo.Msg (St k)) incoming.msg) :
    ∃ router' res, router.receivedMsg incoming = .ok (router',res) ∧ Sound router' ∧
      router'.kindAt = router.kindAt ∧ ((router.rounds n = none ∧ router' = router ∧ res = .error ⟨n,false⟩) ∨
      ((∃ k p, router.rounds n = some (some ⟨k,p⟩) ∧ roundOf M St k = n) ∧ res = .ok () ∧
        ∀ m, m ≠ n → router'.rounds m = router.rounds m)) := by
  simp only [RoundsRouter.receivedMsg,hn]
  cases he : router.rounds n with
  | none => exact ⟨router,_,rfl,h,rfl,.inl ⟨rfl,rfl,rfl⟩⟩
  | some entry =>
    cases entry with
    | none => exact absurd he (h.present n)
    | some boxed =>
      obtain ⟨k,p⟩ := boxed
      have hk := h.keyed n k p he
      by_cases hneeds : p.needsMoreMessages = true
      · obtain ⟨p',hp',hclean⟩ := processMessage (h.clean n k p he) (hw k) (hk ▸ hn)
        simp only [hneeds,if_true,hp',Except.map]
        refine ⟨_,_,rfl,hk ▸ h.insert hclean,?_,.inr ⟨⟨k,p,rfl,hk.symm⟩,rfl,fun m hm => ?_⟩⟩
        · have hkind : router.kindAt n = some k := by simp [kindAt,he]
          rw [kindAt_insert,← hkind,Function.update_eq_self]
        · simp [RoundsRouter.insert,Function.update_of_ne hm]
      · simp only [hneeds,Bool.false_eq_true,if_false]
        exact ⟨router,_,rfl,h,rfl,.inr ⟨⟨k,p,rfl,hk.symm⟩,rfl,fun _ _ => rfl⟩⟩

omit [ProtocolMsg M] in
theorem completeRound [TypeIds St] (h : Sound router) {k : ι}
    (hk : router.kindAt (roundOf M St k) = some k) (w : Round k) :
    ∃ router' res, router.completeRound w = .ok (router',res) ∧ Sound router' ∧
      router'.kindAt = router.kindAt ∧
      ∀ a b, res ≠ .ok (.error (.ofBug (.messageFromAnotherRound a b))) := by
  cases he : router.rounds (roundOf M St k) with
  | none => simp [kindAt,he] at hk
  | some entry =>
    cases entry with
    | none => simp [kindAt,he] at hk
    | some boxed =>
      obtain ⟨j,p⟩ := boxed
      have hj : j = k := by simpa [kindAt,he] using hk
      subst hj
      have hclean := h.clean _ j p he
      have hgone : Sound (router.insert (roundOf M St j) ⟨j,.gone⟩) ∧
          (router.insert (roundOf M St j) ⟨j,.gone⟩).kindAt = router.kindAt := by
        refine ⟨h.insert fun ⟨_,_,hab⟩ => (by cases hab),?_⟩
        rw [kindAt_insert]
        simp only [← hk,Function.update_eq_self]
      simp only [RoundsRouter.completeRound,he]
      cases p with
      | inProgress s => exact ⟨router,_,rfl,h,rfl,fun _ _ hab => (by cases hab)⟩
      | gone => exact ⟨_,_,rfl,hgone.1,hgone.2,fun _ _ hab => (by cases hab)⟩
      | completed result =>
        cases result with
        | ok out =>
          refine ⟨_,_,rfl,hgone.1,hgone.2,fun a b hab => ?_⟩
          simp [retrieveRoundOutput,Except.mapError] at hab
        | error err =>
          refine ⟨_,_,rfl,hgone.1,hgone.2,fun a b hab => ?_⟩
          simp only [retrieveRoundOutput,Any.downcastError_ofError,Except.ok.injEq,
            Except.error.injEq] at hab
          exact hclean ⟨a,b,by rw [hab]⟩

end RoundsRouter.Sound

section Sessions

variable [TypeIds St]

/-- Sessions with any stores. -/
def anySessions (M : Type) (St : ι → Type) [∀ k, RoundStore (St k)] [ProtocolMsg M]
    [∀ k, RoundMsg M (RoundInfo.Msg (St k))] [TypeIds St] :
    System (Session M St) (RouterOp M St) :=
  ⟨⟨.new,[]⟩,Session.Step⟩

/-- The router is sound and knows the rounds of all witnesses. -/
structure Session.Sound (s : Session M St) : Prop where
  router : s.router.Sound
  witnesses : ∀ k ∈ s.witnesses, s.router.kindAt (roundOf M St k) = some k

theorem Session.Sound.step {s t : Session M St} {op : RouterOp M St} (h : s.Sound)
    (hop : ∀ incoming, op = .receivedMsg incoming → Routable M St incoming.msg)
    (hs : s.Step op t) : t.Sound := by
  cases hs with
  | @addRound k messageStore router w hadd =>
    obtain ⟨hsound,hfree,hkind⟩ := h.router.addRound hadd
    refine ⟨hsound,fun j hj => ?_⟩
    rw [hkind]
    by_cases hjk : roundOf M St j = roundOf M St k
    · rcases List.mem_cons.mp hj with rfl | hj
      · exact Function.update_self ..
      · have hkj := h.witnesses j hj
        rw [hjk,hfree] at hkj
        cases hkj
    · rw [Function.update_of_ne hjk]
      rcases List.mem_cons.mp hj with rfl | hj
      · exact absurd rfl hjk
      · exact h.witnesses j hj
  | @receivedMsg incoming router res hrecv =>
    obtain ⟨⟨n,hn⟩,hw⟩ := hop incoming rfl
    obtain ⟨router',res',he,hsound,hkind,_⟩ := h.router.receivedMsg hn hw
    rw [he] at hrecv
    cases hrecv
    exact ⟨hsound,fun j hj => by rw [hkind]; exact h.witnesses j hj⟩
  | @handedBack k pre post w w' router hw hcomplete =>
    obtain ⟨router',res',he,hsound,hkind,_⟩ := h.router.completeRound (h.witnesses k (by simp [hw])) w
    rw [he] at hcomplete
    cases hcomplete
    refine ⟨hsound,fun j hj => ?_⟩
    rw [hkind]
    exact h.witnesses j (hw ▸ hj)
  | @completed k pre post w router r hw hcomplete =>
    obtain ⟨router',res',he,hsound,hkind,_⟩ := h.router.completeRound (h.witnesses k (by simp [hw])) w
    rw [he] at hcomplete
    cases hcomplete
    refine ⟨hsound,fun j hj => ?_⟩
    rw [hkind]
    apply h.witnesses j
    rw [hw]
    rcases List.mem_append.mp hj with hj | hj
    · exact List.mem_append_left _ hj
    · exact List.mem_append_right _ (List.mem_cons_of_mem _ hj)

theorem session_sound {ops : List (RouterOp M St)} {s : Session M St}
    (h : Run (anySessions M St) (anySessions M St).init ops s)
    (hops : ∀ incoming, .receivedMsg incoming ∈ ops → Routable M St incoming.msg) : s.Sound := by
  revert hops
  apply h.invariant (P := fun ops s =>
    (∀ incoming, .receivedMsg incoming ∈ ops → Routable M St incoming.msg) → s.Sound)
  · exact fun _ => ⟨.new,fun _ hk => (by cases hk)⟩
  · intro ops s op t _ hs hstep hops
    refine (hs fun m hm => hops m (List.mem_append_left _ hm)).step (fun m hm => ?_) hstep
    exact hops m (List.mem_append_right _ (by rw [hm]; exact List.mem_singleton_self _))

end Sessions
end Router

namespace EchoBroadcast

section Law

variable {H M : Type} [Build] [ProtocolMsg M]

/-- Whether the message is an echo, and the main round it belongs to. -/
def Msg.kind : Msg H M → Bool × Checked UInt16
  | .echo r _ => (true,.ok r)
  | .main m => (false,round m)

/-- The number of the message, not bounded by the size of its type. -/
def Msg.number : Msg H M → Checked ℕ
  | .echo r _ => .ok (2 * r.toNat + 1)
  | .main m => (round m).map fun n => 2 * n.toNat

/-- The law of `RoundMsg` for sub-messages `T`, over the messages in `msgs`. -/
structure SubMsgLaw (T : Type) [RoundMsg (Msg H M) T] (msgs : List (Msg H M)) : Prop where
  from_to : ∀ t : T, fromProtocolMsg (toProtocolMsg t : Msg H M) = .ok t
  from_ok_iff : ∀ m ∈ msgs, (∃ t : T, fromProtocolMsg m = .ok t) ↔
    round m = .ok (RoundMsg.ROUND (Msg H M) T)
  from_error : ∀ m ∈ msgs, ∀ m', fromProtocolMsg (T := T) m = .error m' → m' = m

section Routes

variable {ι : Type} {St : ι → Type} [∀ k, RoundStore (St k)]
  [∀ k, RoundMsg M (RoundInfo.Msg (St k))]

/-- At most the echo store of main round `r` was touched. -/
def OnlyEcho (r : UInt16) (router router' : RoundsRouter (Msg H M) (SubStore H M St))
    (res : Except UnregisteredRound Unit) : Prop :=
  (router' = router ∧ ∃ n, res = .error ⟨n,false⟩) ∨
    ∃ n k p, router.rounds n = some (some ⟨.echo k,p⟩) ∧ roundOf M St k = r ∧
      ∀ m, m ≠ n → router'.rounds m = router.rounds m

/-- The messages in `msgs` can do no harm to the router of the session. -/
structure Harmless [TypeIds (SubStore H M St)] (msgs : List (Msg H M))
    (s : Session (Msg H M) (SubStore H M St)) : Prop where
  receivedMsg : ∀ incoming, incoming.msg ∈ msgs → ∃ router res,
    s.router.receivedMsg incoming = .ok (router,res) ∧
      ∀ r hash, incoming.msg = .echo r hash → OnlyEcho r s.router router res
  completeRound : ∀ k ∈ s.witnesses, ∀ w : RoundBased.Round k, ∃ router res,
    s.router.completeRound w = .ok (router,res) ∧
      ∀ a b, res ≠ .ok (.error (.ofBug (.messageFromAnotherRound a b)))

end Routes

/-- The law of the message type, over the messages in `msgs`. -/
structure MsgLaw (msgs : List (Msg H M)) : Prop where
  exact : ∀ m ∈ msgs, ∃ n, round m = .ok n ∧ m.number = .ok n.toNat
  echo : ∀ (T : Type) [RoundMsg M T] [ShortRoundMsg M T], SubMsgLaw (EchoMsg H T) msgs
  main : ∀ (T : Type) [RoundMsg M T] [ShortRoundMsg M T], SubMsgLaw (Main T) msgs
  distinct : ∀ m ∈ msgs, ∀ m' ∈ msgs, m.kind ≠ m'.kind → round m ≠ round m'
  harmless : ∀ {ι : Type} {St : ι → Type} [∀ k, RoundStore (St k)]
    [∀ k, RoundMsg M (RoundInfo.Msg (St k))] [∀ k, ShortRoundMsg M (RoundInfo.Msg (St k))]
    [TypeIds (SubStore H M St)] {ops : List (RouterOp (Msg H M) (SubStore H M St))}
    {s : Session (Msg H M) (SubStore H M St)}, Run (anySessions _ _) (anySessions _ _).init ops s →
    (∀ incoming, .receivedMsg incoming ∈ ops → incoming.msg ∈ msgs) → Harmless msgs s

variable [ShortProtocolMsg M]

theorem exact_of_fits {m : Msg H M} (h : m.Fits) :
    ∃ n, round m = .ok n ∧ m.number = .ok n.toNat := by
  cases m with
  | echo r hash =>
    refine ⟨_,round_echo hash h,?_⟩
    rw [toNat_two_mul_add_one h]
    rfl
  | main m =>
    obtain ⟨n,hn,hlt⟩ := ShortProtocolMsg.round_lt m
    refine ⟨_,round_main hn hlt,?_⟩
    rw [toNat_two_mul hlt,Msg.number,hn]
    rfl

omit [Build] [ShortProtocolMsg M] in
theorem fits_of_exact {m : Msg H M} {n : UInt16} (h : m.number = .ok n.toNat) : m.Fits := by
  cases m with
  | main m => trivial
  | echo r hash =>
    have hn : 2 * r.toNat + 1 = n.toNat := Except.ok.inj h
    have hlt : n.toNat < 65536 := n.toNat_lt
    change r.toNat < 32768
    omega

theorem kind_eq_of_round_eq {m m' : Msg H M} (h : m.Fits) (h' : m'.Fits)
    (he : round m = round m') : m.kind = m'.kind := by
  cases m with
  | echo r hash =>
    rw [round_echo hash h] at he
    cases m' with
    | echo r' hash' =>
      rw [round_echo hash' h'] at he
      rw [Msg.kind,Msg.kind,two_mul_add_one_inj h h' (Except.ok.inj he)]
    | main m' =>
      obtain ⟨n,hn,hlt⟩ := ShortProtocolMsg.round_lt m'
      rw [round_main hn hlt] at he
      exact absurd (Except.ok.inj he).symm (two_mul_ne_add_one hlt h)
  | main m =>
    obtain ⟨n,hn,hlt⟩ := ShortProtocolMsg.round_lt m
    rw [round_main hn hlt] at he
    cases m' with
    | echo r' hash' =>
      rw [round_echo hash' h'] at he
      exact absurd (Except.ok.inj he) (two_mul_ne_add_one hlt h')
    | main m' =>
      obtain ⟨n',hn',hlt'⟩ := ShortProtocolMsg.round_lt m'
      rw [round_main hn' hlt'] at he
      rw [Msg.kind,Msg.kind,hn,hn',two_mul_inj hlt hlt' (Except.ok.inj he)]

section Routes

variable {ι : Type} {St : ι → Type} [∀ k, RoundStore (St k)]
  [∀ k, RoundMsg M (RoundInfo.Msg (St k))] [∀ k, ShortRoundMsg M (RoundInfo.Msg (St k))]

omit [ShortProtocolMsg M] in
/-- Messages of short numbers are routed to the right sub-round. -/
theorem routable_of_short {m : Msg H M} (h : m.Short) :
    Routable (Msg H M) (SubStore H M St) m where
  round_ok := round_ok_of_short h
  wellRouted s := by
    cases s with
    | plain k => exact wellRouted_main (T := RoundInfo.Msg (St k)) h
    | main k => exact wellRouted_main (T := RoundInfo.Msg (St k)) h
    | echo k => exact wellRouted_echo (T := RoundInfo.Msg (St k)) h

omit [Build] [ShortProtocolMsg M] in
/-- The sub-round with the number of an echo of main round `r` is the echo round of `r`. -/
theorem echo_of_roundOf {s : Sub ι} {r : UInt16} (hr : r.toNat < 32768)
    (h : roundOf (Msg H M) (SubStore H M St) s = 2 * r + 1) :
    ∃ k, s = .echo k ∧ roundOf M St k = r := by
  cases s with
  | plain k =>
    have hlt := ShortRoundMsg.round_lt (M := M) (T := RoundInfo.Msg (St k))
    exact absurd h (two_mul_ne_add_one hlt hr)
  | main k =>
    have hlt := ShortRoundMsg.round_lt (M := M) (T := RoundInfo.Msg (St k))
    exact absurd h (two_mul_ne_add_one hlt hr)
  | echo k =>
    have hlt := ShortRoundMsg.round_lt (M := M) (T := RoundInfo.Msg (St k))
    exact ⟨k,rfl,two_mul_add_one_inj hlt hr h⟩

theorem harmless_of_fits [TypeIds (SubStore H M St)] {msgs : List (Msg H M)}
    (hfits : ∀ m ∈ msgs, m.Fits) {s : Session (Msg H M) (SubStore H M St)} (h : s.Sound) :
    Harmless msgs s where
  receivedMsg incoming hmem := by
    obtain ⟨⟨n,hn⟩,hw⟩ : Routable (Msg H M) (SubStore H M St) incoming.msg :=
      routable_of_short (hfits _ hmem).short
    obtain ⟨router,res,he,_,_,hcases⟩ := h.router.receivedMsg hn hw
    refine ⟨router,res,he,fun r hash hr => ?_⟩
    have hfit := hfits _ hmem
    rw [hr] at hfit hn
    rw [round_echo hash hfit] at hn
    cases hn
    rcases hcases with ⟨_,hsame,hres⟩ | ⟨⟨k,p,hk,hround⟩,_,hother⟩
    · exact .inl ⟨hsame,_,hres⟩
    · obtain ⟨j,rfl,hj⟩ := echo_of_roundOf hfit hround
      exact .inr ⟨_,j,p,hk,hj,hother⟩
  completeRound k hk w := by
    obtain ⟨router,res,he,_,_,hne⟩ := h.router.completeRound (h.witnesses k hk) w
    exact ⟨router,res,he,hne⟩

end Routes

/-- The law holds over exactly the messages whose round number fits. -/
theorem msg_law (msgs : List (Msg H M)) : MsgLaw msgs ↔ ∀ m ∈ msgs, m.Fits := by
  constructor
  · intro h m hm
    obtain ⟨n,_,hn⟩ := h.exact m hm
    exact fits_of_exact hn
  · intro h
    refine ⟨fun m hm => exact_of_fits (h m hm),fun T _ _ => ?_,fun T _ _ => ?_,?_,?_⟩
    · exact ⟨from_to_echo,fun m hm => wellRouted_echo (h m hm).short,
        fun m _ m' => RefusesUnchanged.from_error m m'⟩
    · exact ⟨from_to_main,fun m hm => wellRouted_main (h m hm).short,
        fun m _ m' => RefusesUnchanged.from_error m m'⟩
    · exact fun m hm m' hm' hne he => hne (kind_eq_of_round_eq (h m hm) (h m' hm') he)
    · intro ι St _ _ _ _ ops s hrun hops
      apply harmless_of_fits h
      exact session_sound hrun fun incoming hop => routable_of_short (h _ (hops incoming hop)).short

end Law

section Overflow

open RandomGeneration

instance (H : Type) : TypeIds (SubStore H RandomGeneration.Msg Store) := .ofKinds _

theorem not_msgLaw_echo [Build] : ¬ MsgLaw [(.echo 32768 () : Msg Unit RandomGeneration.Msg)] := by
  intro h
  obtain ⟨n,_,hn⟩ := h.exact _ (List.mem_singleton_self _)
  have hfit : (32768 : UInt16).toNat < 32768 := fits_of_exact hn
  exact absurd hfit (by decide)

/-- An echo of round 32768 panics where overflows are checked. Where they are not it passes
for an echo of round 0, which it is not, and round 0 ends with an internal error. -/
theorem echo_round_overflows :
    (letI : Build := .debug
     ¬ MsgLaw [(.echo 32768 () : Msg Unit RandomGeneration.Msg)] ∧
      round (.echo 32768 () : Msg Unit RandomGeneration.Msg) = .error .overflow) ∧
    (letI : Build := .release
     ¬ MsgLaw [(.echo 32768 () : Msg Unit RandomGeneration.Msg)] ∧
      round (.echo 32768 () : Msg Unit RandomGeneration.Msg) =
        round (.echo 0 () : Msg Unit RandomGeneration.Msg) ∧
      ∃ (s : Store .round1) (e : WithEchoBroadcast RandomGeneration.Msg)
        (r0 r1 r2 : RoundsRouter (Msg Unit RandomGeneration.Msg)
          (SubStore Unit RandomGeneration.Msg Store)),
        RoundInput.reliableBroadcast 0 2 = .ok s ∧
        (wrap 0 2).addRounds .new [⟨RoundKind.round1,s⟩] = .ok (e,r0) ∧
        r0.receivedMsg ⟨0,1,.broadcast false,.echo 32768 ()⟩ = .ok (r1,.ok ()) ∧
        r1.completeRound (⟨⟩ : RoundBased.Round (Sub.echo RoundKind.round1)) =
          .ok (r2,.ok (.error (.ofBug (.messageFromAnotherRound 1 1))))) := by
  refine ⟨⟨@not_msgLaw_echo .debug,rfl⟩,@not_msgLaw_echo .release,rfl,?_⟩
  exact ⟨_,_,_,_,_,rfl,rfl,rfl,rfl⟩

/-- The largest echo round that fits. -/
theorem msg_law_random_generation :
    letI : Build := .debug
    MsgLaw [.main (.commitMsg ⟨Vector.replicate 32 0⟩),
      (.echo 32767 () : Msg Unit RandomGeneration.Msg)] := by
  let _ : Build := .debug
  refine (msg_law _).mpr fun m hm => ?_
  rcases List.mem_cons.mp hm with rfl | hm
  · trivial
  · rw [List.mem_singleton.mp hm]
    exact (by decide : (32767 : UInt16).toNat < 32768)

end Overflow
end EchoBroadcast
end RoundBased
