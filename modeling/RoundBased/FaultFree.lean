import RoundBased.Collecting
import RoundBased.Network

/-! Networks in which every program sends each message once and completes each round once:
no operation fails, and a completed round returns what the others have sent. -/
namespace RoundBased
open Interaction RoundsRouter Transition

/-- Fed with one message of each party, the store outputs as soon as it has one of each of
the others. -/
structure Gathers {S : Type} [RoundStore S] (i n : UInt16)
    (sends : PartyIndex → MessageType → RoundInfo.Msg S → Prop) (s : S)
    (Returns : RoundInfo.Output S → (PartyIndex → Option (RoundInfo.Msg S)) → Prop) : Prop where
  obeys : Obeys s
  verdict : ∀ msgs : List (Incoming (RoundInfo.Msg S)), (msgs.map Incoming.sender).Nodup →
    (∀ msg ∈ msgs, msg.sender < n ∧ sends msg.sender msg.msgType msg.msg) →
    (verdict s msgs = none ∧ ∃ j, Others i n j ∧ firstOf msgs j = none) ∨
    ∃ out, verdict s msgs = some (.ok out) ∧ (∀ j, Others i n j → ∃ v, firstOf msgs j = some v) ∧
      Returns out (firstOf msgs)

/-- What the parties have agreed on: the rounds, what each of them sends in a round, and what
a party gets from a round for the messages it received. -/
structure Plan {ι : Type} (St : ι → Type) [∀ k, RoundStore (St k)] where
  kinds : List ι
  sends : (k : ι) → PartyIndex → MessageType → RoundInfo.Msg (St k) → Prop
  returns : PartyIndex → (k : ι) → RoundInfo.Output (St k) →
    (PartyIndex → Option (RoundInfo.Msg (St k))) → Prop

variable {ι M A : Type} {St : ι → Type} [∀ k, RoundStore (St k)] {IoErr : Type}

/-- The round has returned what the others send in it. -/
def Plan.Returned (plan : Plan St) (n p : UInt16) (k : ι) (out : RoundInfo.Output (St k)) : Prop :=
  ∃ f, plan.returns p k out f ∧
    ∀ j, Others p n j → ∃ v msgType, f j = some v ∧ plan.sends k j msgType v

/-- The operation did what it should. -/
def Succeeds (plan : Plan St) (n p : UInt16) : NodeEvent St IoErr M → Prop
  | ⟨.complete k,res⟩ => ∃ out, res = .ok out ∧ plan.Returned n p k out
  | ⟨.send _,res⟩ => res = .ok ()
  | ⟨.enqueue _,res⟩ => res = .ok ()
  | ⟨.flush,res⟩ => res = .ok ()
  | ⟨.yieldNow,_⟩ => True

variable [ProtocolMsg M] [∀ k, RoundMsg M (RoundInfo.Msg (St k))]

/-- The message belongs to one of the rounds, and is one that the party sends in it. -/
def Belongs (plan : Plan St) (j : PartyIndex) (msgType : MessageType) (msg : M) : Prop :=
  Routable M St msg ∧
    ∃ k ∈ plan.kinds, ∃ v, fromProtocolMsg msg = .ok v ∧ plan.sends k j msgType v

/-- No party gets both messages, if they are of one round. -/
def Disjoint (n : UInt16) (o o' : Outgoing M) : Prop :=
  round o.msg = round o'.msg → ∀ j < n, o.recipient.reaches j = true →
    o'.recipient.reaches j = false

/-- The call keeps to the rounds: every round is completed once, and every party gets at
most one message of each round. -/
def Permitted (plan : Plan St) (n p : UInt16) (history : List (NodeEvent St IoErr M)) :
    Call ι M → Prop
  | .complete k => k ∈ plan.kinds ∧ ∀ e ∈ history, e.1 ≠ .complete k
  | .send o => Belongs plan p o.recipient.msgType o.msg ∧
    ∀ o' ∈ history.filterMap sentBy, Disjoint n o' o
  | .enqueue o => Belongs plan p o.recipient.msgType o.msg ∧
    ∀ o' ∈ history.filterMap sentBy, Disjoint n o' o
  | .flush => True
  | .yieldNow => True

/-- As long as all operations succeed the program makes permitted calls. -/
def Orderly (plan : Plan St) (n p : UInt16) (prog : NodeProg St IoErr M A) : Prop :=
  ∀ history c cont, Steps prog history (.call c cont) → (∀ e ∈ history, Succeeds plan n p e) →
    Permitted plan n p history c

section Sent

variable {plan : Plan St} {n p : UInt16} {prog : NodeProg St IoErr M A}

omit [ProtocolMsg M] [∀ k, RoundMsg M (RoundInfo.Msg (St k))] in
theorem sentBy_some {e : NodeEvent St IoErr M} {o : Outgoing M} (h : sentBy e = some o) :
    e.1 = .send o ∨ e.1 = .enqueue o := by
  unfold sentBy at h
  split at h <;> cases h
  · exact .inl rfl
  · exact .inr rfl

theorem Permitted.of_sentBy {history : List (NodeEvent St IoErr M)} {e : NodeEvent St IoErr M}
    (h : Permitted plan n p history e.1) {o : Outgoing M} (ho : sentBy e = some o) :
    Belongs plan p o.recipient.msgType o.msg ∧
      ∀ o' ∈ history.filterMap sentBy, Disjoint n o' o := by
  rcases sentBy_some ho with he | he
  · rwa [he] at h
  · rwa [he] at h

theorem Orderly.sent (ho : Orderly plan n p prog) {history : List (NodeEvent St IoErr M)}
    {q : NodeProg St IoErr M A} (h : Steps prog history q)
    (hs : ∀ e ∈ history, Succeeds plan n p e) :
    (∀ o ∈ history.filterMap sentBy, Belongs plan p o.recipient.msgType o.msg) ∧
      (history.filterMap sentBy).Pairwise (Disjoint n) := by
  suffices hinv : Steps prog history q ∧ ((∀ e ∈ history, Succeeds plan n p e) →
      (∀ o ∈ history.filterMap sentBy, Belongs plan p o.recipient.msgType o.msg) ∧
        (history.filterMap sentBy).Pairwise (Disjoint n)) from hinv.2 hs
  apply h.invariant (P := fun history q => Steps prog history q ∧
    ((∀ e ∈ history, Succeeds plan n p e) →
      (∀ o ∈ history.filterMap sentBy, Belongs plan p o.recipient.msgType o.msg) ∧
        (history.filterMap sentBy).Pairwise (Disjoint n)))
  · exact ⟨.refl,fun _ => ⟨fun o ho => (by cases ho),List.Pairwise.nil⟩⟩
  · rintro t c cont r ⟨hsteps,ih⟩
    refine ⟨hsteps.snoc r,fun hs => ?_⟩
    have ht : ∀ e ∈ t, Succeeds plan n p e := fun e he => hs e (List.mem_append_left _ he)
    obtain ⟨hbelongs,hpairwise⟩ := ih ht
    have hperm := ho t c cont hsteps ht
    rw [List.filterMap_append]
    cases hsent : sentBy ⟨c,r⟩ with
    | none =>
      rw [List.filterMap_cons_none hsent,List.filterMap_nil,List.append_nil]
      exact ⟨hbelongs,hpairwise⟩
    | some o =>
      obtain ⟨hb,hd⟩ := Permitted.of_sentBy (e := ⟨c,r⟩) hperm hsent
      simp only [List.filterMap_cons,hsent,List.filterMap_nil]
      refine ⟨fun x hx => ?_,List.pairwise_append.mpr ⟨hpairwise,List.pairwise_singleton ..,?_⟩⟩
      · rcases List.mem_append.mp hx with hx | hx
        · exact hbelongs x hx
        · rwa [List.mem_singleton.mp hx]
      · intro x hx y hy
        rw [List.mem_singleton.mp hy]
        exact hd x hx

end Sent

/-- What a party has read: messages of the rounds, at most one of each round from each
party. -/
structure Readable (plan : Plan St) (n : UInt16) (received : List (Incoming M)) : Prop where
  belongs : ∀ msg ∈ received, msg.sender < n ∧ Belongs plan msg.sender msg.msgType msg.msg
  distinct : received.Pairwise fun a b => a.sender = b.sender → round a.msg ≠ round b.msg

section RoundMsgs

variable {plan : Plan St} {n : UInt16} {received : List (Incoming M)} {k : ι}

omit [∀ k, RoundStore (St k)] [∀ k, RoundMsg M (RoundInfo.Msg (St k))] [ProtocolMsg M] in
theorem tryMap_toOption {T E : Type} {f : M → Except E T} {msg : Incoming M} {x : Incoming T}
    (h : (msg.tryMap f).toOption = some x) : x.sender = msg.sender ∧ x.msgType = msg.msgType ∧
      f msg.msg = .ok x.msg := by
  unfold Incoming.tryMap at h
  cases hf : f msg.msg with
  | error e => rw [hf] at h; cases h
  | ok t => rw [hf] at h; cases h; exact ⟨rfl,rfl,rfl⟩

omit [ProtocolMsg M] [∀ k, RoundStore (St k)] [∀ k, RoundMsg M (RoundInfo.Msg (St k))] in
theorem mem_roundMsgs {T : Type} [RoundMsg M T] {x : Incoming T} (h : x ∈ roundMsgs T received) :
    ∃ msg ∈ received, x.sender = msg.sender ∧ x.msgType = msg.msgType ∧
      fromProtocolMsg msg.msg = .ok x.msg := by
  obtain ⟨msg,hmsg,hconv⟩ := List.mem_filterMap.mp h
  exact ⟨msg,hmsg,tryMap_toOption hconv⟩

/-- Rounds of the plan have different numbers. -/
def Plan.Distinct (M : Type) {ι : Type} {St : ι → Type} [∀ k, RoundStore (St k)]
    [∀ k, RoundMsg M (RoundInfo.Msg (St k))] (plan : Plan St) : Prop :=
  ∀ j ∈ plan.kinds, ∀ k ∈ plan.kinds, roundOf M St j = roundOf M St k → j = k

theorem Belongs.round_eq {msg : M} {msgType : MessageType} {j : PartyIndex}
    (h : Belongs plan j msgType msg) {t : RoundInfo.Msg (St k)}
    (ht : fromProtocolMsg msg = .ok t) : round msg = .ok (roundOf M St k) :=
  (h.1.wellRouted k).mp ⟨t,ht⟩

theorem Belongs.sends (hd : plan.Distinct M) (hk : k ∈ plan.kinds) {msg : M}
    {msgType : MessageType} {j : PartyIndex} (h : Belongs plan j msgType msg)
    {t : RoundInfo.Msg (St k)} (ht : fromProtocolMsg msg = .ok t) : plan.sends k j msgType t := by
  have hround := h.round_eq ht
  obtain ⟨hroutable,i,hi,v,hv,hsends⟩ := h
  have hround' := (hroutable.wellRouted i).mp ⟨v,hv⟩
  rw [hround] at hround'
  obtain rfl := hd i hi k hk (Except.ok.inj hround').symm
  rw [ht] at hv
  cases hv
  exact hsends

theorem Readable.roundMsgs (h : Readable plan n received) (hd : plan.Distinct M)
    (hk : k ∈ plan.kinds) :
    ((RoundBased.roundMsgs (RoundInfo.Msg (St k)) received).map Incoming.sender).Nodup ∧
    ∀ msg ∈ RoundBased.roundMsgs (RoundInfo.Msg (St k)) received,
      msg.sender < n ∧ plan.sends k msg.sender msg.msgType msg.msg := by
  constructor
  · unfold RoundBased.roundMsgs List.Nodup
    rw [List.pairwise_map,List.pairwise_filterMap]
    refine h.distinct.imp_of_mem fun {a b} ha hb hab x hx y hy he => ?_
    obtain ⟨hxs,_,hxm⟩ := tryMap_toOption hx
    obtain ⟨hys,_,hym⟩ := tryMap_toOption hy
    apply hab
    · rw [← hxs,he,hys]
    · rw [(h.belongs a ha).2.round_eq hxm,(h.belongs b hb).2.round_eq hym]
  · intro x hx
    obtain ⟨msg,hmsg,hs,ht,hm⟩ := mem_roundMsgs hx
    obtain ⟨hlt,hb⟩ := h.belongs msg hmsg
    rw [hs,ht]
    exact ⟨hlt,hb.sends hd hk hm⟩

end RoundMsgs

/-- How a party starts: its rounds are registered, with stores that gather. -/
structure Prepared (plan : Plan St) (n p : UInt16) (l : Ledger M St) : Prop where
  received : l.received = []
  free : ∀ r, l.taken r = false
  gathers : ∀ k ∈ plan.kinds, ∃ s, l.registered (roundOf M St k) = some ⟨k,s⟩ ∧
    Gathers p n (plan.sends k) s (plan.returns p k)

/-- The output is that of the messages received from the others. -/
def OutputOf (plan : Plan St) (n p : UInt16) (received : List (Incoming M)) (k : ι)
    (out : RoundInfo.Output (St k)) : Prop :=
  ∃ f, plan.returns p k out f ∧ ∀ j, Others p n j → ∃ v, f j = some v ∧
    ∃ msg ∈ received, msg.sender = j ∧ fromProtocolMsg msg.msg = .ok v

/-- The party is as it should be: nothing failed, it waits only for messages it has not read,
and its rounds have returned what it read. -/
structure Sound (plan : Plan St) (n p : UInt16) (l0 : Ledger M St) (prog : NodeProg St IoErr M A)
    (node : Node St IoErr M A) : Prop where
  runs : node.Runs prog
  succeeds : ∀ e ∈ node.history, Succeeds plan n p e
  ledger : ∃ l : Ledger M St, node.router = l.router ∧ l.received = node.received ∧
    l.registered = l0.registered ∧ ∀ k ∈ plan.kinds, (∀ e ∈ node.history, e.1 ≠ .complete k) →
      l.taken (roundOf M St k) = false
  returned : ∀ k (out : RoundInfo.Output (St k)), ⟨.complete k,.ok out⟩ ∈ node.history →
    OutputOf plan n p node.received k out
  waits : ∀ k cont, node.activity = .reading k cont → ∃ j, Others p n j ∧
    ∀ msg ∈ node.received, msg.sender = j → round msg.msg ≠ .ok (roundOf M St k)

section Sound

variable {plan : Plan St} {n p : UInt16} {l0 : Ledger M St} {prog : NodeProg St IoErr M A}
  {self : Node St IoErr M A}

theorem Prepared.distinct (h : Prepared plan n p l0) : plan.Distinct M := by
  intro j hj k hk he
  obtain ⟨s,hs,_⟩ := h.gathers j hj
  obtain ⟨t,ht,_⟩ := h.gathers k hk
  rw [he,ht] at hs
  exact (congrArg Sigma.fst (Option.some.inj hs)).symm

theorem Prepared.sound (h : Prepared plan n p l0) :
    Sound plan n p l0 prog (Node.start l0.router prog) where
  runs := .refl
  succeeds e he := by cases he
  ledger := ⟨l0,rfl,h.received,rfl,fun k _ _ => h.free _⟩
  returned k out he := by cases he
  waits k cont ha := by cases ha

variable [TypeIds St]

/-- Checking a round that was not completed before: it returns what was read, or a message
is missing. -/
theorem Sound.checkCompleted (IoErr : Type) (hp : Prepared plan n p l0) {l : Ledger M St}
    {k : ι} (hk : k ∈ plan.kinds) (hreg : l.registered = l0.registered)
    (ht : l.taken (roundOf M St k) = false) (hr : Readable plan n l.received) :
    ((checkCompleted l.router (⟨⟩ : Round k) : Checked (RoundsRouter M St ×
        Except (Round k) (RoundResult (St k) IoErr))) = .ok (l.router,.error ⟨⟩) ∧
      ∃ j, Others p n j ∧ ∀ msg ∈ l.received, msg.sender = j →
        round msg.msg ≠ .ok (roundOf M St k)) ∨
    ∃ out, checkCompleted l.router (⟨⟩ : Round k) =
        .ok ((l.take (roundOf M St k)).router,(.ok (.ok out) :
          Except (Round k) (RoundResult (St k) IoErr))) ∧ OutputOf plan n p l.received k out := by
  obtain ⟨s,hs,hg⟩ := hp.gathers k hk
  rw [← hreg] at hs
  have hspec := checkCompleted_spec IoErr (⟨⟩ : Round k) hs ht hg.obeys
    fun msg hmsg => (hr.belongs msg hmsg).2.1
  obtain ⟨hnodup,htyped⟩ := hr.roundMsgs hp.distinct hk
  rcases hg.verdict _ hnodup htyped with ⟨hv,j,hj,hnone⟩ | ⟨out,hv,hall,hret⟩
  · rw [hv] at hspec
    refine .inl ⟨hspec,j,hj,fun msg hmsg hsender hround => ?_⟩
    obtain ⟨t,ht⟩ := ((hr.belongs msg hmsg).2.1.wellRouted k).mpr hround
    have hmem : msg.map (fun _ => t) ∈ roundMsgs (RoundInfo.Msg (St k)) l.received :=
      List.mem_filterMap.mpr ⟨msg,hmsg,by simp only [Incoming.tryMap,ht]; rfl⟩
    have hfirst := firstOf_of_mem hnodup hmem
    rw [Incoming.map_sender,hsender,hnone] at hfirst
    cases hfirst
  · rw [hv] at hspec
    refine .inr ⟨out,hspec,_,hret,fun j hj => ?_⟩
    obtain ⟨v,hv⟩ := hall j hj
    obtain ⟨x,hx,hxs,rfl⟩ := firstOf_mem hv
    obtain ⟨msg,hmsg,hs,_,hm⟩ := mem_roundMsgs hx
    exact ⟨_,hv,msg,hmsg,hs.symm.trans hxs,hm⟩

omit [ProtocolMsg M] [TypeIds St] in
theorem OutputOf.append {received : List (Incoming M)} {k : ι} {out : RoundInfo.Output (St k)}
    (h : OutputOf plan n p received k out) (more : List (Incoming M)) :
    OutputOf plan n p (received ++ more) k out := by
  obtain ⟨f,hret,hf⟩ := h
  refine ⟨f,hret,fun j hj => ?_⟩
  obtain ⟨v,hv,msg,hmsg,hm⟩ := hf j hj
  exact ⟨v,hv,msg,List.mem_append_left _ hmsg,hm⟩

omit [TypeIds St] in
theorem OutputOf.returned {received : List (Incoming M)} {k : ι} {out : RoundInfo.Output (St k)}
    (h : OutputOf plan n p received k out) (hr : Readable plan n received) (hd : plan.Distinct M)
    (hk : k ∈ plan.kinds) : plan.Returned n p k out := by
  obtain ⟨f,hret,hf⟩ := h
  refine ⟨f,hret,fun j hj => ?_⟩
  obtain ⟨v,hv,msg,hmsg,rfl,hm⟩ := hf j hj
  exact ⟨v,msg.msgType,hv,(hr.belongs msg hmsg).2.sends hd hk hm⟩

theorem Sound.settle (h : Sound plan n p l0 prog self) (hp : Prepared plan n p l0) {k : ι}
    {cont : RoundResult (St k) IoErr → NodeProg St IoErr M A}
    (hsteps : Steps prog self.history (.call (.complete k) cont))
    (hperm : Permitted plan n p self.history (.complete k))
    {more : List (Incoming M)} {l : Ledger M St} (hl : l.received = self.received ++ more)
    (hreg : l.registered = l0.registered)
    (htaken : ∀ k ∈ plan.kinds, (∀ e ∈ self.history, e.1 ≠ .complete k) →
      l.taken (roundOf M St k) = false)
    (hr : Readable plan n (self.received ++ more)) :
    ∃ r, RoundBased.checkCompleted l.router (⟨⟩ : Round k) = .ok r ∧
      Sound plan n p l0 prog
        (({ self with received := self.received ++ more }).settle k cont r) := by
  obtain ⟨hk,hnew⟩ := hperm
  have hr' : Readable plan n l.received := by rwa [hl]
  rcases Sound.checkCompleted IoErr hp hk hreg (htaken k hk hnew) hr' with
    ⟨hcheck,j,hj,hmissing⟩ | ⟨out,hcheck,hout⟩
  · refine ⟨_,hcheck,hsteps,h.succeeds,⟨l,rfl,hl,hreg,htaken⟩,
      fun i out hi => (h.returned i out hi).append more,?_⟩
    intro i cont' ha
    cases ha
    rw [hl] at hmissing
    exact ⟨j,hj,hmissing⟩
  · have hreturned := hout.returned hr' hp.distinct hk
    rw [hl] at hout
    refine ⟨_,hcheck,hsteps.snoc _,fun e he => ?_,⟨l.take _,rfl,hl,hreg,fun i hi hnot => ?_⟩,
      fun i out' hi => ?_,fun i cont' ha => (by cases ha)⟩
    · rcases List.mem_append.mp he with he | he
      · exact h.succeeds e he
      · rw [List.mem_singleton.mp he]
        exact ⟨out,rfl,hreturned⟩
    · have hne : i ≠ k := by
        rintro rfl
        exact hnot ⟨.complete i,.ok out⟩ (List.mem_append_right _ (List.mem_singleton_self _)) rfl
      have hround : roundOf M St i ≠ roundOf M St k := fun he => hne (hp.distinct i hi k hk he)
      simp only [Ledger.take,Function.update_of_ne hround]
      exact htaken i hi fun e he => hnot e (List.mem_append_left _ he)
    · rcases List.mem_append.mp hi with hi | hi
      · exact (h.returned i out' hi).append more
      · cases List.mem_singleton.mp hi
        exact hout

/-- A party that is sound makes its next call without a failure. -/
theorem Sound.call (h : Sound plan n p l0 prog self) (hp : Prepared plan n p l0) (ho : Orderly plan n p prog)
    (hr : Readable plan n self.received) {c : Call ι M}
    {cont : PartyAnswer St IoErr M c → NodeProg St IoErr M A}
    (ha : self.activity = .running (.call c cont)) :
    ∃ node out, self.act = some (.ok (node,out)) ∧ Sound plan n p l0 prog node := by
  have hsteps : Steps prog self.history (.call c cont) := by
    have hruns := h.runs
    unfold Node.Runs at hruns
    rwa [ha] at hruns
  have hperm := ho _ _ _ hsteps h.succeeds
  have hanswer : ∀ ans : PartyAnswer St IoErr M c, (∀ k, c ≠ .complete k) → Succeeds plan n p ⟨c,ans⟩ →
      Sound plan n p l0 prog (self.answer c cont ans) := by
    intro ans hc hs
    refine ⟨hsteps.snoc ans,fun e he => ?_,?_,fun k out he => ?_,fun k cont' hk => (by cases hk)⟩
    · rcases List.mem_append.mp he with he | he
      · exact h.succeeds e he
      · rwa [List.mem_singleton.mp he]
    · obtain ⟨l,hl,hreceived,hreg,htaken⟩ := h.ledger
      exact ⟨l,hl,hreceived,hreg,fun k hk hnot =>
        htaken k hk fun e he => hnot e (List.mem_append_left _ he)⟩
    · rcases List.mem_append.mp he with he | he
      · exact h.returned k out he
      · cases List.mem_singleton.mp he
        exact absurd rfl (hc k)
  unfold Node.act
  rw [ha]
  cases c with
  | complete k =>
    obtain ⟨l,hl,hreceived,hreg,htaken⟩ := h.ledger
    have hl' : l.received = self.received ++ [] := by rw [hreceived,List.append_nil]
    have hr' : Readable plan n (self.received ++ []) := by rwa [List.append_nil]
    obtain ⟨r,hcheck,hsound⟩ := h.settle hp hsteps hperm hl' hreg htaken hr'
    have hself : ({ self with received := self.received ++ [] } : Node St IoErr M A) = self := by
      rw [List.append_nil]
    rw [hself] at hsound
    refine ⟨self.settle k cont r,[],?_,hsound⟩
    simp only [Node.call,hl]
    exact congrArg (fun r => some (Except.map _ r)) hcheck
  | send msg => exact ⟨_,_,rfl,hanswer (.ok ()) (fun k hk => by cases hk) rfl⟩
  | enqueue msg => exact ⟨_,_,rfl,hanswer (.ok ()) (fun k hk => by cases hk) rfl⟩
  | flush => exact ⟨_,_,rfl,hanswer (.ok ()) (fun k hk => by cases hk) rfl⟩
  | yieldNow => exact ⟨_,_,rfl,hanswer () (fun k hk => by cases hk) trivial⟩

/-- A party that is sound reads the next message without a failure. -/
theorem Sound.read [∀ k, RefusesUnchanged M (RoundInfo.Msg (St k))]
    (h : Sound plan n p l0 prog self) (hp : Prepared plan n p l0) (ho : Orderly plan n p prog)
    {incoming : Incoming M} (hr : Readable plan n (self.received ++ [incoming])) {k : ι}
    {cont : RoundResult (St k) IoErr → NodeProg St IoErr M A}
    (ha : self.activity = .reading k cont) :
    ∃ node, self.read incoming = some (.ok node) ∧ Sound plan n p l0 prog node := by
  have hsteps : Steps prog self.history (.call (.complete k) cont) := by
    have hruns := h.runs
    unfold Node.Runs at hruns
    rwa [ha] at hruns
  have hperm := ho _ _ _ hsteps h.succeeds
  obtain ⟨l,hl,hreceived,hreg,htaken⟩ := h.ledger
  obtain ⟨_,hroutable,j,hj,v,hv,_⟩ := hr.belongs incoming (by simp)
  have hround := (hroutable.wellRouted j).mp ⟨v,hv⟩
  obtain ⟨s,hs,_⟩ := hp.gathers j hj
  rw [← hreg] at hs
  have hsome : (l.registered (roundOf M St j)).isSome = true := by rw [hs]; rfl
  have hl' : (l.receive incoming hround hsome).received = self.received ++ [incoming] :=
    congrArg (· ++ [incoming]) hreceived
  obtain ⟨r,hcheck,hsound⟩ := h.settle (l := l.receive incoming hround hsome) hp hsteps hperm hl'
    hreg htaken hr
  have hturn : completeTurn self.router (⟨⟩ : Round k) (.ok incoming : Except IoErr _) = .ok r := by
    rw [hl]
    simp only [completeTurn,l.receivedMsg_spec hround hsome,hcheck]
  refine ⟨_,?_,hsound⟩
  unfold Node.read
  rw [ha]
  exact congrArg (fun r => some (Except.map _ r)) hturn

end Sound
end RoundBased
