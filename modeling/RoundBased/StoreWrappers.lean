import RoundBased.EchoRounds
import RoundBased.RandomGeneration

/-! Wrappers of a store. A store that keeps the contract keeps it in every wrapper. -/
namespace RoundBased
open Feeding

section Contract

variable {S : Type} [RoundStore S]

theorem store_add_ok {s s' : S} {msg : Incoming (RoundInfo.Msg S)} :
    (store S).add s msg = .ok s' ↔ addMessage s msg = (s',.ok ()) := by
  simp only [store_add]
  split
  · rename_i t ht
    rw [ht]
    simp
  · rename_i t e ht
    rw [ht]
    simp

/-- Reached from `s` by messages the store took. -/
inductive Accepted (s : S) : S → Prop
  | refl : Accepted s s
  | add {a b : S} {msg : Incoming (RoundInfo.Msg S)} :
      Accepted s a → addMessage a msg = (b,.ok ()) → Accepted s b

theorem Accepted.of_reach {s s' : S} (h : (store S).Reach s s') : Accepted s s' := by
  induction h with
  | refl => exact .refl
  | add _ _ ha ih => exact .add ih (store_add_ok.mp ha)

/-- The store outputs as soon as it wants no more messages, and gives itself back until then. -/
structure Lawful (s : S) : Prop where
  outputs : ∀ s', Accepted s s' → wantsMore s' = false → ∃ out, output s' = .ok out
  unchanged : ∀ s', Accepted s s' → wantsMore s' = true → output s' = .error s'

theorem Lawful.obeys {s : S} (h : Lawful s) : Obeys s :=
  fun s' hs hw => h.outputs s' (.of_reach hs) hw

theorem RoundInput.lawful {M : Type} (s : RoundInput M) : Lawful s where
  outputs s' _ hw := by
    obtain ⟨out,hout,_⟩ := RoundInput.output_spec (s := s') hw
    exact ⟨out,hout⟩
  unchanged s' _ hw := by
    have hleft : 0 < s'.leftMessages := of_decide_eq_true hw
    exact if_pos hleft

/-- While messages are wanted and taken, the next wanted one is not refused by a `broken` error. -/
def Excludes (s : S) (broken : RoundInfo.Error S → Prop) : Prop :=
  ∀ s', (store S).Reach s s' → wantsMore s' = true →
    ∀ msg e, (addMessage s' msg).2 = .error e → ¬ broken e

/-- Hands over the messages one after another, and lists the results. -/
def addMessages (s : S) : List (Incoming (RoundInfo.Msg S)) →
    S × List (Except (RoundInfo.Error S) Unit)
  | [] => (s,[])
  | msg :: msgs =>
    let r := addMessage s msg
    let rs := addMessages r.1 msgs
    (rs.1,r.2 :: rs.2)

end Contract

section Transparent

variable {W S : Type} [RoundStore W] [RoundStore S]

/-- A wrapper that leaves everything to the wrapped store, up to its own types of messages,
outputs and errors. -/
structure Transparent (wrap : S → W) (f : RoundInfo.Msg W → RoundInfo.Msg S)
    (out : RoundInfo.Output S → RoundInfo.Output W)
    (err : RoundInfo.Error S → RoundInfo.Error W) : Prop where
  add : ∀ s msg, addMessage (wrap s) msg =
    (wrap (addMessage s (msg.map f)).1,(addMessage s (msg.map f)).2.mapError err)
  wants : ∀ s, wantsMore (wrap s) = wantsMore s
  output : ∀ s, output (wrap s) = ((output s).map out).mapError wrap

variable {wrap : S → W} {f : RoundInfo.Msg W → RoundInfo.Msg S}
  {out : RoundInfo.Output S → RoundInfo.Output W} {err : RoundInfo.Error S → RoundInfo.Error W}

/-- After any messages, the wrapper has answered, wants and outputs as the wrapped store. -/
def BehavesAs (wrap : S → W) (f : RoundInfo.Msg W → RoundInfo.Msg S)
    (out : RoundInfo.Output S → RoundInfo.Output W)
    (err : RoundInfo.Error S → RoundInfo.Error W) (s : S) : Prop :=
  ∀ msgs, let w := addMessages (wrap s) msgs
    let t := addMessages s (msgs.map fun msg => msg.map f)
    w.2 = t.2.map (fun res => res.mapError err) ∧ wantsMore w.1 = wantsMore t.1 ∧
      RoundStore.output w.1 = ((RoundStore.output t.1).map out).mapError wrap

theorem Transparent.addMessages (h : Transparent wrap f out err) (s : S)
    (msgs : List (Incoming (RoundInfo.Msg W))) :
    addMessages (wrap s) msgs =
      (wrap (addMessages s (msgs.map fun msg => msg.map f)).1,
        (addMessages s (msgs.map fun msg => msg.map f)).2.map fun res => res.mapError err) := by
  induction msgs generalizing s with
  | nil => rfl
  | cons msg msgs ih =>
    simp only [RoundBased.addMessages,List.map_cons,h.add s msg]
    rw [ih]

theorem Transparent.behavesAs (h : Transparent wrap f out err) (s : S) :
    BehavesAs wrap f out err s := by
  intro msgs
  simp only [h.addMessages s msgs]
  exact ⟨trivial,h.wants _,h.output _⟩

theorem Transparent.add_ok (h : Transparent wrap f out err) {s : S} {w : W}
    {msg : Incoming (RoundInfo.Msg W)} (ha : addMessage (wrap s) msg = (w,.ok ())) :
    ∃ s', w = wrap s' ∧ addMessage s (msg.map f) = (s',.ok ()) := by
  rw [h.add s msg] at ha
  generalize addMessage s (msg.map f) = r at ha
  obtain ⟨s',res⟩ := r
  cases res with
  | ok u => cases ha; exact ⟨s',rfl,rfl⟩
  | error e => cases ha

/-- What a wrapper comes to is what the wrapped store comes to. -/
theorem Transparent.accepted (h : Transparent wrap f out err) {s : S} {w : W}
    (ha : Accepted (wrap s) w) : ∃ s', w = wrap s' ∧ Accepted s s' := by
  induction ha with
  | refl => exact ⟨s,rfl,.refl⟩
  | add _ hadd ih =>
    obtain ⟨a,rfl,hs⟩ := ih
    obtain ⟨b,rfl,hb⟩ := h.add_ok hadd
    exact ⟨b,rfl,.add hs hb⟩

theorem Transparent.reach (h : Transparent wrap f out err) {s : S} {w : W}
    (hw : (store W).Reach (wrap s) w) : ∃ s', w = wrap s' ∧ (store S).Reach s s' := by
  induction hw with
  | refl => exact ⟨s,rfl,.refl⟩
  | add _ hwants hadd ih =>
    obtain ⟨a,rfl,hs⟩ := ih
    obtain ⟨b,rfl,hb⟩ := h.add_ok (store_add_ok.mp hadd)
    exact ⟨b,rfl,.add hs ((h.wants a).symm.trans hwants) (store_add_ok.mpr hb)⟩

theorem Transparent.lawful (h : Transparent wrap f out err) {s : S} (hs : Lawful s) :
    Lawful (wrap s) where
  outputs w hw hwants := by
    obtain ⟨s',rfl,ha⟩ := h.accepted hw
    obtain ⟨o,ho⟩ := hs.outputs s' ha ((h.wants s').symm.trans hwants)
    refine ⟨out o,?_⟩
    rw [h.output s',ho]
    rfl
  unchanged w hw hwants := by
    obtain ⟨s',rfl,ha⟩ := h.accepted hw
    rw [h.output s',hs.unchanged s' ha ((h.wants s').symm.trans hwants)]
    rfl

/-- The errors of a wrapper are those of the wrapped store. -/
theorem Transparent.excludes (h : Transparent wrap f out err) {s : S}
    {broken : RoundInfo.Error S → Prop} (hs : Excludes s broken)
    {broken' : RoundInfo.Error W → Prop} (hb : ∀ e, broken' (err e) → broken e) :
    Excludes (wrap s) broken' := by
  intro w hw hwants msg e he
  obtain ⟨s',rfl,hreach⟩ := h.reach hw
  rw [h.add s' msg] at he
  have hspared := hs s' hreach ((h.wants s').symm.trans hwants) (msg.map f)
  generalize addMessage s' (msg.map f) = r at he hspared
  obtain ⟨t,res⟩ := r
  cases res with
  | ok u => cases he
  | error e' =>
    cases he
    intro hbroken
    exact hspared e' rfl (hb e' hbroken)

end Transparent

namespace EchoBroadcast

variable {H M S : Type} [RoundStore S]

/-! The wrappers that only change a type. -/

theorem mapError_id {E T : Type} (res : Except E T) : res.mapError id = res := by
  cases res <;> rfl

theorem transparent_withMainMsg :
    Transparent (WithMainMsg.mk : S → WithMainMsg S) Main.msg id id where
  add s msg := by
    rw [mapError_id]
    rfl
  wants _ := rfl
  output s := by
    change (output s).mapError WithMainMsg.mk = _
    cases output s <;> rfl

theorem transparent_withError : Transparent (WithError.mk : S → WithError S) id id .main where
  add _ _ := rfl
  wants _ := rfl
  output s := by
    change (output s).mapError WithError.mk = _
    cases output s <;> rfl

theorem transparent_withEchoError [HasEchoError S] (E : Type) :
    Transparent (WithEchoError.mk : S → WithEchoError S E) id id
      fun e => .echo (cast HasEchoError.error_eq e) where
  add _ _ := rfl
  wants _ := rfl
  output s := by
    change (output s).mapError WithEchoError.mk = _
    cases output s <;> rfl

theorem transparent_withProp {P : Type} [Property P] (value : P) :
    Transparent (fun s : S => setProp s value) id id id where
  add s msg := by
    rw [mapError_id]
    rfl
  wants _ := rfl
  output s := by
    change (output s).mapError _ = _
    cases output s <;> rfl

theorem EchoRound.lawful (self : EchoRound H S) : Lawful self where
  outputs s' _ hw := by
    obtain ⟨out,hout,_⟩ := RoundInput.output_spec (s := s'.echoRound) hw
    have ho : output s' = .ok ⟨out⟩ := by simp only [output,hout]
    exact ⟨_,ho⟩
  unchanged s' _ hw := by
    have hout : s'.echoRound.output = .error s'.echoRound :=
      s'.echoRound.lawful.unchanged s'.echoRound .refl hw
    simp only [output,hout]

/-! A main round asks its store whether it is complete when it is built and after every
message, so that a store it still holds wants more. -/

/-- The main round lost its store, or was left without an output. -/
def EchoError.Internal (self : EchoError) : Prop :=
  self.reason = .stateGone ∨ self.reason = .unexpectedMainRoundState ∨
    self.reason = .mainRoundFinishedButStoreDoesntOutput

/-- The error is one of the main protocol in `main`, or one of the echo broadcast in `echo`. -/
def Error.Either {E : Type} (main : E → Prop) (echo : EchoError → Prop) : Error E → Prop
  | .main err => main err
  | .echo err => echo err

namespace MainRound

/-- The main round over `s` collects messages its store wants, or has its output. -/
def Ready (s : S) (self : MainRound H M S) : Prop :=
  (∃ st, self.state = .ongoing st ∧ (store S).Reach s st ∧ RoundStore.wantsMore st = true) ∨
    ∃ out, self.state = .output out

theorem ready_new {i n : UInt16} {s : S} (hs : Lawful s) {main : MainRound H M S}
    {echo : EchoRound H S} (h : newStores i n s = .ok (main,echo)) : main.Ready s := by
  unfold newStores at h
  cases hb : (RoundInput.broadcast i n : Checked (RoundInput H)) with
  | error p => rw [hb] at h; cases h
  | ok e =>
    rw [hb] at h
    cases h
    cases hw : RoundStore.wantsMore s with
    | true =>
      refine .inl ⟨s,?_,.refl,hw⟩
      simp only [hs.unchanged s .refl hw]
    | false =>
      obtain ⟨out,ho⟩ := hs.outputs s .refl hw
      refine .inr ⟨out,?_⟩
      simp only [ho]

theorem Ready.output {s : S} {self : MainRound H M S} (h : self.Ready s) :
    (self.wantsMore = true → self.output = .error self) ∧
      (self.wantsMore = false → ∃ out, self.output = .ok out) := by
  obtain ⟨params,state,received⟩ := self
  rcases h with ⟨st,hst,_,_⟩ | ⟨out,hst⟩
  · cases hst
    exact ⟨fun _ => rfl,fun hw => absurd hw (by simp [wantsMore])⟩
  · cases hst
    exact ⟨fun hw => absurd hw (by simp [wantsMore]),fun _ => ⟨_,rfl⟩⟩

variable [ProtocolMsg M] [RoundMsg M (RoundInfo.Msg S)] [LawfulRoundMsg M (RoundInfo.Msg S)]

omit [ProtocolMsg M] [LawfulRoundMsg M (RoundInfo.Msg S)] in
theorem record_error {self : MainRound H M S} {incoming : Incoming (RoundInfo.Msg S)}
    {err : Error (RoundInfo.Error S)} (h : (self.record incoming).2 = .error err) :
    ∃ e, err = .echo e ∧ ¬ e.Internal := by
  unfold record at h
  split at h
  · cases h; exact ⟨_,rfl,by simp [EchoError.Internal]⟩
  · cases h; exact ⟨_,rfl,by simp [EchoError.Internal]⟩
  · cases h

/-- What an ongoing main round does with a message, by what its store does. -/
theorem addMessage_ongoing {self : MainRound H M S} {st : S} (hst : self.state = .ongoing st)
    {incoming msg : Incoming (RoundInfo.Msg S)}
    (hmsg : { incoming with msgType := .broadcast true } = msg) :
    (∃ st' e, RoundStore.addMessage st msg = (st',.error e) ∧
      self.addMessage incoming = ({ self with state := .ongoing st' },.error (.main e))) ∨
    (∃ st' self', RoundStore.addMessage st msg = (st',.ok ()) ∧ self'.state = .ongoing st' ∧
      self.addMessage incoming =
        if RoundStore.wantsMore st' then (self',.ok ()) else self'.finish) ∨
    ∃ e, (self.addMessage incoming).2 = .error (.echo e) ∧ ¬ e.Internal := by
  cases hr : RoundStore.addMessage st msg with
  | mk st' res =>
    cases res with
    | error e =>
      refine .inl ⟨st',e,rfl,?_⟩
      simp only [MainRound.addMessage,hst,cloneIncomingRoundMsg_eq,hmsg,hr]
    | ok u =>
      cases hrec : ({ self with state := .ongoing st' } : MainRound H M S).record msg with
      | mk self' res =>
        cases res with
        | error e =>
          have herr := record_error (congrArg Prod.snd hrec)
          obtain ⟨e,rfl,he⟩ := herr
          refine .inr (.inr ⟨e,?_,he⟩)
          simp only [MainRound.addMessage,hst,cloneIncomingRoundMsg_eq,hmsg,hr,hrec]
        | ok u =>
          refine .inr (.inl ⟨st',self',rfl,record_state hrec,?_⟩)
          simp only [MainRound.addMessage,hst,cloneIncomingRoundMsg_eq,hmsg,hr,hrec]

/-- A message leaves the main round ready, or it is refused for a reason of the store or of
the message. -/
theorem addMessage_ready {s : S} (hs : Lawful s) {self : MainRound H M S} (h : self.Ready s)
    (incoming : Incoming (RoundInfo.Msg S)) :
    ((self.addMessage incoming).2 = .ok () → (self.addMessage incoming).1.Ready s) ∧
    ∀ err, (self.addMessage incoming).2 = .error err →
      err.Either (fun e => ∃ st, (store S).Reach s st ∧ RoundStore.wantsMore st = true ∧
        ∃ msg, (RoundStore.addMessage st msg).2 = .error e) fun e => ¬ e.Internal := by
  rcases h with ⟨st,hst,hreach,hwants⟩ | ⟨out,hst⟩
  · have hcases := addMessage_ongoing hst (rfl : { incoming with msgType := .broadcast true } = _)
    rcases hcases with
      ⟨st',e,hadd,hself⟩ | ⟨st',self',hadd,hst',hself⟩ | ⟨e,hself,he⟩
    · rw [hself]
      refine ⟨fun hok => (by cases hok),fun err herr => ?_⟩
      cases herr
      exact ⟨st,hreach,hwants,_,congrArg Prod.snd hadd⟩
    · have hreach' : (store S).Reach s st' := .add hreach hwants (store_add_ok.mpr hadd)
      cases hw : RoundStore.wantsMore st' with
      | true =>
        rw [hself,if_pos hw]
        exact ⟨fun _ => .inl ⟨st',hst',hreach',hw⟩,fun err herr => (by cases herr)⟩
      | false =>
        -- the store is lawful, so it outputs as soon as it wants no more
        obtain ⟨out,ho⟩ := hs.outputs st' (.of_reach hreach') hw
        have hfin : self'.finish = ({ self' with state := .output out },.ok ()) := by
          simp only [finish,hst',ho]
        rw [hself,if_neg (by rw [hw]; exact Bool.false_ne_true),hfin]
        exact ⟨fun _ => .inr ⟨out,rfl⟩,fun err herr => (by cases herr)⟩
    · rw [hself]
      refine ⟨fun hok => (by cases hok),fun err herr => ?_⟩
      cases herr
      exact he
  · have hself : self.addMessage incoming =
        (self,.error (.ofReason .receivedMainMsgWhenRoundOver)) := by
      simp only [MainRound.addMessage,hst]
    rw [hself]
    refine ⟨fun hok => (by cases hok),fun err herr => ?_⟩
    cases herr
    simp [Error.Either,Error.ofReason,EchoError.Internal]

theorem Ready.accepted {s : S} (hs : Lawful s) {self self' : MainRound H M S}
    (h : self.Ready s) (ha : Accepted self self') : self'.Ready s := by
  induction ha with
  | refl => exact h
  | @add a b msg _ hadd ih =>
    have hstep := (addMessage_ready hs ih msg).1
    have ha : a.addMessage msg = (b,.ok ()) := hadd
    rw [ha] at hstep
    exact hstep rfl

/-- The main round over a lawful store is lawful. -/
theorem Ready.lawful {s : S} (hs : Lawful s) {self : MainRound H M S} (h : self.Ready s) :
    Lawful self where
  outputs _ ha hw := (h.accepted hs ha).output.2 hw
  unchanged _ ha hw := (h.accepted hs ha).output.1 hw

theorem Ready.excludes {s : S} (hs : Lawful s) {self : MainRound H M S} (h : self.Ready s)
    {broken : RoundInfo.Error S → Prop} (hb : Excludes s broken) :
    Excludes self (Error.Either broken EchoError.Internal) := by
  intro self' hreach _ msg err herr
  have herr' := (addMessage_ready hs (h.accepted hs (.of_reach hreach)) msg).2 err herr
  cases err with
  | main e =>
    obtain ⟨st,hst,hw,msg',he⟩ := herr'
    exact hb st hst hw msg' e he
  | echo e => exact herr'

end MainRound

theorem EchoRound.excludes (self : EchoRound H S) : Excludes self EchoError.Internal := by
  intro s' _ _ msg e he
  have hadd : (addMessage s' msg).2 =
      (s'.echoRound.addMessage (msg.map EchoMsg.hash)).2.mapError fun e => ⟨.handleEcho e⟩ := rfl
  rw [hadd] at he
  cases hr : (s'.echoRound.addMessage (msg.map EchoMsg.hash)).2 with
  | ok u => rw [hr] at he; cases he
  | error e' =>
    rw [hr] at he
    cases he
    simp [EchoError.Internal]

/-- A lawful store in any number of wrappers, with the errors of main rounds as they are seen
from the outside. -/
inductive Nested : {S : Type} → [RoundStore S] → S → (RoundInfo.Error S → Prop) → Prop
  | store {S : Type} [RoundStore S] {s : S} : Lawful s → Nested s fun _ => False
  | mainRound {H M S : Type} [RoundStore S] [ProtocolMsg M] [RoundMsg M (RoundInfo.Msg S)]
      [LawfulRoundMsg M (RoundInfo.Msg S)] {s : S} {broken : RoundInfo.Error S → Prop}
      {i n : UInt16} {main : MainRound H M S} {echo : EchoRound H S} :
      Nested s broken → newStores i n s = .ok (main,echo) →
        Nested main (Error.Either broken EchoError.Internal)
  | echoRound {H M S : Type} [RoundStore S] {s : S} {i n : UInt16} {main : MainRound H M S}
      {echo : EchoRound H S} :
      newStores i n s = .ok (main,echo) → Nested echo EchoError.Internal
  | withMainMsg {S : Type} [RoundStore S] {s : S} {broken : RoundInfo.Error S → Prop} :
      Nested s broken → Nested (⟨s⟩ : WithMainMsg S) broken
  | withError {S : Type} [RoundStore S] {s : S} {broken : RoundInfo.Error S → Prop} :
      Nested s broken → Nested (⟨s⟩ : WithError S) (Error.Either broken fun _ => False)
  | withEchoError {S E : Type} [RoundStore S] [HasEchoError S] {s : S}
      {broken : RoundInfo.Error S → Prop} :
      Nested s broken → Nested (⟨s⟩ : WithEchoError S E)
        (Error.Either (fun _ => False) fun e => broken (cast HasEchoError.error_eq.symm e))
  | withProp {P S : Type} [Property P] [RoundStore S] {s : S}
      {broken : RoundInfo.Error S → Prop} (value : P) :
      Nested s broken → Nested (setProp s value) broken

theorem Nested.lawful {s : S} {broken : RoundInfo.Error S → Prop} (h : Nested s broken) :
    Lawful s := by
  induction h with
  | store h => exact h
  | mainRound _ hnew ih => exact (MainRound.ready_new ih hnew).lawful ih
  | echoRound _ => exact EchoRound.lawful _
  | withMainMsg _ ih => exact transparent_withMainMsg.lawful ih
  | withError _ ih => exact transparent_withError.lawful ih
  | @withEchoError _ E _ _ _ _ _ ih => exact (transparent_withEchoError E).lawful ih
  | withProp value _ ih => exact (transparent_withProp value).lawful ih

theorem Nested.excludes {s : S} {broken : RoundInfo.Error S → Prop} (h : Nested s broken) :
    Excludes s broken := by
  induction h with
  | store _ => exact fun _ _ _ _ _ _ hfalse => hfalse
  | mainRound hs hnew ih => exact (MainRound.ready_new hs.lawful hnew).excludes hs.lawful ih
  | echoRound _ => exact EchoRound.excludes _
  | withMainMsg _ ih => exact transparent_withMainMsg.excludes ih fun _ h => h
  | withError _ ih => exact transparent_withError.excludes ih fun _ h => h
  | @withEchoError _ E _ _ _ _ _ ih =>
    refine (transparent_withEchoError E).excludes ih fun e h => ?_
    simpa [Error.Either] using h
  | withProp value _ ih => exact (transparent_withProp value).excludes ih fun _ h => h

/-- However a lawful store is wrapped, it stays lawful, its main rounds stay intact, and one
more transparent wrapper changes nothing but types. -/
theorem wrappers_lawful {s : S} {broken : RoundInfo.Error S → Prop} (h : Nested s broken) :
    Lawful s ∧ Excludes s broken ∧
      BehavesAs (WithMainMsg.mk : S → WithMainMsg S) Main.msg id id s ∧
      BehavesAs (WithError.mk : S → WithError S) id id .main s ∧
      (∀ (_ : HasEchoError S) (E : Type), BehavesAs (WithEchoError.mk : S → WithEchoError S E)
        id id (fun e => .echo (cast HasEchoError.error_eq e)) s) ∧
      ∀ (P : Type) (_ : Property P) (value : P),
        BehavesAs (fun s : S => setProp s value) id id id s :=
  ⟨h.lawful,h.excludes,transparent_withMainMsg.behavesAs s,transparent_withError.behavesAs s,
    fun _ E => (transparent_withEchoError E).behavesAs s,
    fun _ _ value => (transparent_withProp value).behavesAs s⟩

section Commitments

open RandomGeneration (CommitMsg)

abbrev CommitHash := HashInput RandomGeneration.Msg

abbrev CommitMain := MainRound CommitHash RandomGeneration.Msg (RoundInput CommitMsg)

abbrev CommitEcho := EchoRound CommitHash (RoundInput CommitMsg)

/-- The commitments of two parties as main messages with one more property, and their echoes
with the errors of the broadcast. -/
theorem commitments_wrapped :
    ∃ (s : RoundInput CommitMsg) (main : CommitMain) (echo : CommitEcho),
      RoundInput.reliableBroadcast 0 2 = .ok s ∧ newStores 0 2 s = .ok (main,echo) ∧
      Lawful (setProp (⟨main⟩ : WithMainMsg CommitMain) (⟨true⟩ : RequiresReliableBroadcast)) ∧
      Excludes (⟨main⟩ : WithMainMsg CommitMain) (Error.Either (fun _ => False) EchoError.Internal) ∧
      BehavesAs (WithEchoError.mk : CommitEcho → WithEchoError CommitEcho RoundInputError)
        id id (fun e => Error.echo (cast HasEchoError.error_eq e)) echo := by
  have hnew : ∃ (s : RoundInput CommitMsg) (main : CommitMain) (echo : CommitEcho),
      RoundInput.reliableBroadcast 0 2 = .ok s ∧ newStores 0 2 s = .ok (main,echo) :=
    ⟨_,_,_,rfl,rfl⟩
  obtain ⟨s,main,echo,hs,hstores⟩ := hnew
  have hmain : Nested (⟨main⟩ : WithMainMsg CommitMain)
      (Error.Either (fun _ => False) EchoError.Internal) :=
    .withMainMsg (.mainRound (.store s.lawful) hstores)
  refine ⟨s,main,echo,hs,hstores,?_,?_,?_⟩
  · exact (wrappers_lawful (.withProp (⟨true⟩ : RequiresReliableBroadcast) hmain)).1
  · exact (wrappers_lawful hmain).2.1
  · exact (wrappers_lawful (.echoRound hstores)).2.2.2.2.1 inferInstance RoundInputError

end Commitments
end EchoBroadcast
end RoundBased
