import RoundBased.Router

/-! What a router stands for: the registered stores, all the messages of their rounds
received so far, and the rounds whose output was taken. The state of every round is a
function of this ledger. -/
namespace RoundBased
open Feeding ProcessRoundMessageImpl RoundsRouter

variable {ι M : Type} {St : ι → Type} [∀ k, RoundStore (St k)]
  [ProtocolMsg M] [∀ k, RoundMsg M (RoundInfo.Msg (St k))]

/-- The message counts for round `n`. -/
def isOf (n : UInt16) (msg : Incoming M) : Bool :=
  match round msg.msg with
  | .ok m => m == n
  | .error _ => false

theorem isOf_iff {n : UInt16} {msg : Incoming M} :
    isOf n msg = true ↔ round msg.msg = .ok n := by
  unfold isOf
  split <;> rename_i h <;> simp [h]

/-- A store as a collector of the protocol messages of its round. -/
@[simps] def routed (M : Type) [ProtocolMsg M] (S : Type) [RoundStore S]
    [RoundMsg M (RoundInfo.Msg S)] :
    Collector S (Incoming M) (CompleteRoundError (RoundInfo.Error S) Empty) where
  wants := wantsMore
  add s msg :=
    match msg.tryMap (fromProtocolMsg (T := RoundInfo.Msg S)) with
    | .error _ =>
      let n := RoundMsg.ROUND M (RoundInfo.Msg S)
      .error (.ofBug (.messageFromAnotherRound n n))
    | .ok msg => ((store S).add s msg).mapError .processMsg

/-- The state of a round that received `msgs`. -/
def progress {S : Type} [RoundStore S] [RoundMsg M (RoundInfo.Msg S)] (s : S)
    (msgs : List (Incoming M)) : ProcessRoundMessageImpl S :=
  match (routed M S).feed s msgs with
  | .ok s' => .new s'
  | .error e => .completed (.error e)

section

variable {S : Type} [RoundStore S] [RoundMsg M (RoundInfo.Msg S)]

theorem progress_nil (s : S) : progress s ([] : List (Incoming M)) = .new s := rfl

theorem progress_of_stops {s : S} {msgs : List (Incoming M)} (h : (routed M S).Stops s msgs)
    (msg : Incoming M) : progress s (msgs ++ [msg]) = progress s msgs := by
  unfold progress
  rw [h.feed_append]

theorem progress_of_not_stops {s : S} {msgs : List (Incoming M)}
    (h : ¬ (routed M S).Stops s msgs) :
    ∃ s', (routed M S).feed s msgs = .ok s' ∧ wantsMore s' = true ∧
      progress s msgs = .inProgress s' := by
  obtain ⟨s',hf,hw⟩ := not_stops_iff.mp h
  have hw' : wantsMore s' = true := hw
  exact ⟨s',hf,hw',by simp [progress,hf,ProcessRoundMessageImpl.new,hw']⟩

theorem progress_ne_gone (s : S) (msgs : List (Incoming M)) : progress s msgs ≠ .gone := by
  unfold progress
  split
  · unfold ProcessRoundMessageImpl.new
    split <;> simp
  · simp

theorem needsMoreMessages_progress (s : S) (msgs : List (Incoming M)) :
    (progress s msgs).needsMoreMessages = true ↔ ¬ (routed M S).Stops s msgs := by
  constructor
  · intro h hs
    unfold progress at h
    cases hf : (routed M S).feed s msgs with
    | error e => simp [hf,needsMoreMessages] at h
    | ok s' =>
      have hw : wantsMore s' = false := hs s' hf
      simp [hf,ProcessRoundMessageImpl.new,hw,needsMoreMessages] at h
  · intro h
    obtain ⟨s',_,_,hp⟩ := progress_of_not_stops h
    rw [hp]
    rfl

omit [ProtocolMsg M] in
theorem tryMap_error {T E : Type} {msg : Incoming M} {f : M → Except E T} {e : E}
    (h : msg.tryMap f = .error e) : f msg.msg = .error e := by
  unfold Incoming.tryMap at h
  split at h <;> simp_all

theorem processMessage_progress [RefusesUnchanged M (RoundInfo.Msg S)] {s : S}
    {msgs : List (Incoming M)} (hs : ¬ (routed M S).Stops s msgs) {msg : Incoming M}
    (hmsg : round msg.msg = .ok (RoundMsg.ROUND M (RoundInfo.Msg S))) :
    (progress s msgs).processMessage msg = .ok (progress s (msgs ++ [msg])) := by
  obtain ⟨s',hf,hw,hp⟩ := progress_of_not_stops hs
  have hstep : (routed M S).feed s (msgs ++ [msg]) = (routed M S).add s' msg := by
    rw [feed_snoc,hf]
    simp [Except.bind,hw]
  rw [hp]
  unfold progress
  rw [hstep]
  cases hc : msg.tryMap (fromProtocolMsg (T := RoundInfo.Msg S)) with
  | error m =>
    have hm : m = msg.msg := RefusesUnchanged.from_error _ _ (tryMap_error hc)
    simp [processMessage,addToStore,hc,hm,hmsg,Except.map]
  | ok msg' =>
    cases ha : addMessage s' msg' with
    | mk t r =>
      cases r with
      | error e => simp [processMessage,addToStore,hc,ha,Except.map,Except.mapError]
      | ok u =>
        by_cases ht : wantsMore t = true
        · simp [processMessage,addToStore,hc,ha,Except.map,Except.mapError,ht,
            ProcessRoundMessageImpl.new]
        · rw [Bool.not_eq_true] at ht
          cases ho : output t <;>
            simp [processMessage,addToStore,hc,ha,Except.map,Except.mapError,ht,
              ProcessRoundMessageImpl.new,outputStore,ho]

end

/-- The history a router is a function of. -/
structure Ledger (M : Type) {ι : Type} (St : ι → Type) [∀ k, RoundStore (St k)]
    [ProtocolMsg M] [∀ k, RoundMsg M (RoundInfo.Msg (St k))] where
  registered : UInt16 → Option ((k : ι) × St k)
  taken : UInt16 → Bool
  received : List (Incoming M)
  keyed : ∀ n k s, registered n = some ⟨k,s⟩ → n = roundOf M St k
  routed : ∀ msg ∈ received, ∃ n, round msg.msg = .ok n ∧ (registered n).isSome = true

namespace Ledger

def empty : Ledger M St where
  registered _ := none
  taken _ := false
  received := []
  keyed _ _ _ h := by cases h
  routed _ h := by cases h

/-- The state of the round with number `n`. -/
def entry (l : Ledger M St) (n : UInt16) : Option (Option (Boxed St)) :=
  (l.registered n).map fun r =>
    some ⟨r.1,if l.taken n then .gone else progress r.2 (l.received.filter (isOf n))⟩

def router (l : Ledger M St) : RoundsRouter M St := ⟨l.entry⟩

@[simp] theorem router_rounds (l : Ledger M St) : l.router.rounds = l.entry := rfl

theorem router_congr {l l' : Ledger M St} (h : ∀ m, l'.entry m = l.entry m) :
    l'.router = l.router := by
  have hentry : l'.entry = l.entry := funext h
  simp [router,hentry]

theorem insert_router {l l' : Ledger M St} {n : UInt16} {b : Boxed St}
    (hn : l'.entry n = some (some b)) (hne : ∀ m, m ≠ n → l'.entry m = l.entry m) :
    l.router.insert n b = l'.router := by
  have hentry : Function.update l.entry n (some (some b)) = l'.entry := by
    funext m
    by_cases hm : m = n
    · subst hm; simp [hn]
    · rw [Function.update_of_ne hm,hne m hm]
  simp [RoundsRouter.insert,router,hentry]

theorem router_empty : (empty : Ledger M St).router = RoundsRouter.new := rfl

def register (l : Ledger M St) (k : ι) (s : St k)
    (h : l.registered (roundOf M St k) = none) : Ledger M St where
  registered := Function.update l.registered (roundOf M St k) (some ⟨k,s⟩)
  taken := Function.update l.taken (roundOf M St k) false
  received := l.received
  keyed n j t hn := by
    by_cases he : n = roundOf M St k
    · subst he
      rw [Function.update_self] at hn
      cases hn
      rfl
    · rw [Function.update_of_ne he] at hn
      exact l.keyed n j t hn
  routed msg hmsg := by
    obtain ⟨n,hn,hr⟩ := l.routed msg hmsg
    refine ⟨n,hn,?_⟩
    have he : n ≠ roundOf M St k := by
      rintro rfl
      rw [h] at hr
      cases hr
    rw [Function.update_of_ne he]
    exact hr

def receive (l : Ledger M St) (msg : Incoming M) {n : UInt16} (hn : round msg.msg = .ok n)
    (h : (l.registered n).isSome = true) : Ledger M St where
  registered := l.registered
  taken := l.taken
  received := l.received ++ [msg]
  keyed := l.keyed
  routed m hm := by
    rcases List.mem_append.mp hm with hm | hm
    · exact l.routed m hm
    · rw [List.mem_singleton.mp hm]
      exact ⟨n,hn,h⟩

def take (l : Ledger M St) (n : UInt16) : Ledger M St :=
  { l with taken := Function.update l.taken n true }

/-- More rounds are registered. -/
structure Extends (l l' : Ledger M St) : Prop where
  registered : ∀ n r, l.registered n = some r → l'.registered n = some r
  received : l'.received = l.received
  taken : (∀ n, l.taken n = false) → ∀ n, l'.taken n = false

theorem Extends.refl {l : Ledger M St} : l.Extends l := ⟨fun _ _ h => h,rfl,fun h => h⟩

theorem Extends.trans {l l' l'' : Ledger M St} (h : l.Extends l') (h' : l'.Extends l'') :
    l.Extends l'' where
  registered n r hr := h'.registered n r (h.registered n r hr)
  received := h'.received.trans h.received
  taken ht := h'.taken (h.taken ht)

theorem extends_register {l : Ledger M St} {k : ι} {s : St k}
    (h : l.registered (roundOf M St k) = none) : l.Extends (l.register k s h) where
  registered n r hr := by
    have hne : n ≠ roundOf M St k := by
      rintro rfl
      rw [h] at hr
      cases hr
    simp only [register,Function.update_of_ne hne]
    exact hr
  received := rfl
  taken ht n := by
    by_cases hn : n = roundOf M St k
    · subst hn
      simp [register]
    · simp only [register,Function.update_of_ne hn]
      exact ht n

theorem registered_register {l : Ledger M St} {k : ι} {s : St k}
    (h : l.registered (roundOf M St k) = none) :
    (l.register k s h).registered (roundOf M St k) = some ⟨k,s⟩ := by
  simp [register]

theorem received_filter_of_unregistered (l : Ledger M St) {n : UInt16}
    (h : l.registered n = none) : l.received.filter (isOf n) = [] := by
  rw [List.filter_eq_nil_iff]
  intro msg hmsg hof
  obtain ⟨m,hm,hr⟩ := l.routed msg hmsg
  rw [isOf_iff,hm] at hof
  cases hof
  rw [h] at hr
  cases hr

theorem addRound_spec (l : Ledger M St) (k : ι) (s : St k)
    (h : l.registered (roundOf M St k) = none) :
    l.router.addRound k s = .ok ((l.register k s h).router,⟨⟩) := by
  have hfree : (l.entry (roundOf M St k)).isSome = false := by simp [entry,h]
  have hrouter : l.router.insert (roundOf M St k) ⟨k,.new s⟩ = (l.register k s h).router := by
    apply insert_router
    · simp [entry,register,l.received_filter_of_unregistered h,progress_nil]
    · intro n hn
      simp [entry,register,Function.update_of_ne hn]
  simp [RoundsRouter.addRound,hfree,hrouter]

theorem addRound_ok (l : Ledger M St) {k : ι} {s : St k} {router : RoundsRouter M St} {w : Round k}
    (h : l.router.addRound k s = .ok (router,w)) :
    ∃ hnew : l.registered (roundOf M St k) = none, router = (l.register k s hnew).router := by
  have hnew : l.registered (roundOf M St k) = none := by
    cases hc : l.registered (roundOf M St k) with
    | none => rfl
    | some r => simp [RoundsRouter.addRound,entry,hc] at h
  rw [l.addRound_spec k s hnew] at h
  cases h
  exact ⟨hnew,rfl⟩

/-- A message of an unregistered round changes nothing and is reported. -/
theorem receivedMsg_unregistered (l : Ledger M St) {msg : Incoming M} {n : UInt16}
    (hn : round msg.msg = .ok n) (h : l.registered n = none) :
    l.router.receivedMsg msg = .ok (l.router,.error ⟨n,false⟩) := by
  simp [RoundsRouter.receivedMsg,hn,entry,h]

theorem receivedMsg_spec [∀ k, RefusesUnchanged M (RoundInfo.Msg (St k))] (l : Ledger M St)
    {msg : Incoming M} {n : UInt16} (hn : round msg.msg = .ok n)
    (h : (l.registered n).isSome = true) :
    l.router.receivedMsg msg = .ok ((l.receive msg hn h).router,.ok ()) := by
  obtain ⟨⟨k,s⟩,hr⟩ := Option.isSome_iff_exists.mp h
  have hk : n = roundOf M St k := l.keyed n k s hr
  have hself : isOf n msg = true := isOf_iff.mpr hn
  have hother : ∀ m, m ≠ n → isOf m msg = false := by
    intro m hm
    by_contra hc
    rw [Bool.not_eq_false,isOf_iff,hn] at hc
    exact hm (Except.ok.inj hc).symm
  have hentry : ∀ m, m ≠ n → (l.receive msg hn h).entry m = l.entry m := by
    intro m hm
    simp [entry,receive,hother m hm]
  have hsame : (l.receive msg hn h).entry n = l.entry n →
      (l.receive msg hn h).router = l.router := by
    intro he
    apply router_congr
    intro m
    by_cases hm : m = n
    · subst hm; exact he
    · exact hentry m hm
  simp only [RoundsRouter.receivedMsg,hn,router_rounds]
  rw [show l.entry n = some (some ⟨k,if l.taken n then .gone else
    progress s (l.received.filter (isOf n))⟩) by simp [entry,hr]]
  by_cases ht : l.taken n = true
  · have hrouter := hsame (by simp [entry,receive,hr,ht])
    simp [ht,needsMoreMessages,hrouter]
  · simp only [ht,Bool.false_eq_true,if_false]
    by_cases hs : (RoundBased.routed M (St k)).Stops s (l.received.filter (isOf n))
    · have hneeds : (progress s (l.received.filter (isOf n))).needsMoreMessages = false := by
        rw [← Bool.not_eq_true,needsMoreMessages_progress,not_not]
        exact hs
      have hrouter := hsame (by simp [entry,receive,hr,ht,hself,progress_of_stops hs])
      simp [hneeds,hrouter]
    · have hneeds := (needsMoreMessages_progress s _).mpr hs
      have hrouter : l.router.insert n
          ⟨k,progress s (l.received.filter (isOf n) ++ [msg])⟩ = (l.receive msg hn h).router :=
        insert_router (by simp [entry,receive,hr,ht,hself]) hentry
      rw [if_pos hneeds,processMessage_progress hs (hn.trans (congrArg _ hk))]
      simp [Except.map,hrouter]

/-- What the round has come to, unless it needs more messages. -/
def outcome {k : ι} (s : St k) (msgs : List (Incoming M)) :
    Option (RoundResult (St k) Empty) :=
  match progress s msgs with
  | .completed result => some result
  | _ => none

variable [TypeIds St]

/-- The witness is handed back exactly when the round needs more messages. -/
theorem completeRound_spec (l : Ledger M St) {k : ι} {s : St k} (w : Round k)
    (h : l.registered (roundOf M St k) = some ⟨k,s⟩)
    (ht : l.taken (roundOf M St k) = false) :
    l.router.completeRound w =
      match outcome s (l.received.filter (isOf (roundOf M St k))) with
      | none => .ok (l.router,.error w)
      | some result => .ok ((l.take (roundOf M St k)).router,.ok result) := by
  have hrouter : l.router.insert (roundOf M St k) ⟨k,.gone⟩ =
      (l.take (roundOf M St k)).router := by
    apply insert_router
    · simp [entry,take,h]
    · intro m hm
      simp [entry,take,Function.update_of_ne hm]
  unfold outcome
  simp only [RoundsRouter.completeRound,router_rounds,entry,h,ht,Option.map_some,
    Bool.false_eq_true,if_false]
  have hnot := progress_ne_gone s (l.received.filter (isOf (roundOf M St k)))
  cases hp : progress s (l.received.filter (isOf (roundOf M St k))) with
  | inProgress s' => simp [needsMoreMessages]
  | gone => exact absurd hp hnot
  | completed result =>
    cases result with
    | ok out => simp [needsMoreMessages,takeOutput,Except.map,retrieveRoundOutput,
        Except.mapError,hrouter]
    | error err => simp [needsMoreMessages,takeOutput,Except.map,retrieveRoundOutput,hrouter]

/-- Whatever witness is used, at most the round with its number is taken. -/
theorem completeRound_keeps (l : Ledger M St) {k : ι} (w : Round k) :
    ∃ l' res, l.router.completeRound w = .ok (l'.router,res) ∧
      (l' = l ∨ l' = l.take (roundOf M St k)) := by
  simp only [RoundsRouter.completeRound,router_rounds,entry]
  cases hr : l.registered (roundOf M St k) with
  | none => exact ⟨l,_,rfl,.inl rfl⟩
  | some r =>
    obtain ⟨j,s⟩ := r
    have htake : l.router.insert (roundOf M St k) ⟨j,.gone⟩ =
        (l.take (roundOf M St k)).router := by
      apply insert_router
      · simp [entry,take,hr]
      · intro m hm
        simp [entry,take,Function.update_of_ne hm]
    simp only [Option.map_some]
    cases ht : l.taken (roundOf M St k) with
    | true => exact ⟨l.take _,_,by rw [← htake]; rfl,.inr rfl⟩
    | false =>
      simp only [Bool.false_eq_true,if_false]
      cases progress s (l.received.filter (isOf (roundOf M St k))) with
      | inProgress s' => exact ⟨l,_,rfl,.inl rfl⟩
      | gone => exact ⟨l.take _,_,by rw [← htake]; rfl,.inr rfl⟩
      | completed result =>
        cases result with
        | ok out => exact ⟨l.take _,_,by rw [← htake]; rfl,.inr rfl⟩
        | error err => exact ⟨l.take _,_,by rw [← htake]; rfl,.inr rfl⟩

end Ledger

/-! With lawful messages a round gets exactly the messages that convert to it. -/

/-- The messages of one round among all received messages. -/
def roundMsgs {M : Type} (T : Type) [RoundMsg M T] (msgs : List (Incoming M)) :
    List (Incoming T) :=
  msgs.filterMap fun msg => (msg.tryMap (fromProtocolMsg (T := T))).toOption

section

variable {S : Type} [RoundStore S] [RoundMsg M (RoundInfo.Msg S)]

omit [ProtocolMsg M] in
theorem roundMsgs_append (T : Type) [RoundMsg M T] (xs ys : List (Incoming M)) :
    roundMsgs T (xs ++ ys) = roundMsgs T xs ++ roundMsgs T ys :=
  List.filterMap_append

theorem routed_feed (s : S) {msgs : List (Incoming M)}
    (hlaw : ∀ msg ∈ msgs, WellRouted (RoundInfo.Msg S) msg.msg) :
    (routed M S).feed s (msgs.filter (isOf (RoundMsg.ROUND M (RoundInfo.Msg S)))) =
      ((store S).feed s (roundMsgs (RoundInfo.Msg S) msgs)).mapError .processMsg := by
  induction msgs generalizing s with
  | nil => rfl
  | cons msg msgs ih =>
    have hiff := hlaw msg (List.mem_cons_self ..)
    replace ih := fun s => ih s fun m hm => hlaw m (List.mem_cons_of_mem _ hm)
    unfold WellRouted at hiff
    cases hc : (fromProtocolMsg msg.msg : Except M (RoundInfo.Msg S)) with
    | error m =>
      have hnot : isOf (RoundMsg.ROUND M (RoundInfo.Msg S)) msg = false := by
        rw [← Bool.not_eq_true,isOf_iff,← hiff,hc]
        simp
      have hskip : roundMsgs (RoundInfo.Msg S) (msg :: msgs) =
          roundMsgs (RoundInfo.Msg S) msgs := by
        simp [roundMsgs,Incoming.tryMap,hc,Except.toOption]
      rw [List.filter_cons_of_neg (by simp [hnot]),hskip]
      exact ih s
    | ok t =>
      have hof : isOf (RoundMsg.ROUND M (RoundInfo.Msg S)) msg = true := by
        rw [isOf_iff,← hiff,hc]
        exact ⟨t,rfl⟩
      have htake : roundMsgs (RoundInfo.Msg S) (msg :: msgs) =
          ⟨msg.id,msg.sender,msg.msgType,t⟩ :: roundMsgs (RoundInfo.Msg S) msgs := by
        simp [roundMsgs,Incoming.tryMap,hc,Except.toOption]
      rw [List.filter_cons_of_pos hof,htake]
      simp only [Collector.feed,routed_wants,store_wants,routed_add,Incoming.tryMap,hc]
      by_cases hw : wantsMore s = true
      · simp only [hw,if_true]
        cases (store S).add s ⟨msg.id,msg.sender,msg.msgType,t⟩ with
        | error e => rfl
        | ok s' => exact ih s'
      · simp only [hw,Bool.false_eq_true,if_false]
        rfl

/-- The outcome of a round is the verdict of its store. -/
theorem outcome_eq_verdict {k : ι} {s : St k} (h : Obeys s) {msgs : List (Incoming M)}
    (hlaw : ∀ msg ∈ msgs, WellRouted (RoundInfo.Msg (St k)) msg.msg) :
    Ledger.outcome s (msgs.filter (isOf (roundOf M St k))) =
      (verdict s (roundMsgs (RoundInfo.Msg (St k)) msgs)).map
        (Except.mapError .processMsg) := by
  unfold Ledger.outcome progress verdict
  rw [routed_feed s hlaw]
  cases hf : (store (St k)).feed s (roundMsgs (RoundInfo.Msg (St k)) msgs) with
  | error e => rfl
  | ok s' =>
    by_cases hw : wantsMore s' = true
    · simp [Except.mapError,ProcessRoundMessageImpl.new,hw]
    · rw [Bool.not_eq_true] at hw
      obtain ⟨out,ho⟩ := h.feed hf hw
      simp [Except.mapError,ProcessRoundMessageImpl.new,hw,ho]

end
end RoundBased
