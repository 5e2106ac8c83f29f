import RoundBased.Feeding
import RoundBased.ProtocolMsg

/-! Stores of the messages received in a round, and the contract they obey. -/
namespace RoundBased
open Feeding

/-- Common information about a round. -/
class RoundInfo (S : Type) where
  Msg : Type
  Output : Type
  Error : Type

/-- Stores messages received at particular round. -/
class RoundStore (S : Type) extends RoundInfo S where
  addMessage : S → Incoming Msg → S × Except Error Unit
  wantsMore : S → Bool
  output : S → Except S Output
  /-- The property `RequiresReliableBroadcast`, if the store exposes it. -/
  requiresReliableBroadcast : S → Option Bool := fun _ => none

export RoundStore (addMessage wantsMore output requiresReliableBroadcast)

/-- Indicates whether the round requires messages to be reliably broadcasted. -/
structure RequiresReliableBroadcast where
  required : Bool
  deriving DecidableEq, Repr

/-- Downcast of a property of type `P` to the one that stores are asked for. -/
class Property (P : Type) where
  requiresReliableBroadcast : Option (P → Bool)

instance : Property RequiresReliableBroadcast := ⟨some RequiresReliableBroadcast.required⟩

/-- A store that exposes one more property. -/
structure WithProp (P S : Type) where
  prop : P
  store : S

variable {S : Type} [RoundStore S]

instance {P : Type} [Property P] : RoundStore (WithProp P S) where
  Msg := RoundInfo.Msg S
  Output := RoundInfo.Output S
  Error := RoundInfo.Error S
  addMessage self msg :=
    let r := addMessage self.store msg
    ({ self with store := r.1 },r.2)
  wantsMore self := wantsMore self.store
  output self := (output self.store).mapError fun store => ⟨self.prop,store⟩
  requiresReliableBroadcast self :=
    match Property.requiresReliableBroadcast (P := P) with
    | some read => some (read self.prop)
    | none => requiresReliableBroadcast self.store

/-- Exposes the property `P`, also when the store already provides one. -/
def setProp {P : Type} (store : S) (value : P) : WithProp P S := ⟨value,store⟩

/-- A store as a collector of messages. -/
@[simps] def store (S : Type) [RoundStore S] :
    Collector S (Incoming (RoundInfo.Msg S)) (RoundInfo.Error S) where
  wants := wantsMore
  add s msg :=
    match addMessage s msg with
    | (s',.ok ()) => .ok s'
    | (_,.error e) => .error e

/-- The contract of a store: once it wants no more messages, it outputs. -/
def Obeys (s : S) : Prop :=
  ∀ s', (store S).Reach s s' → wantsMore s' = false → ∃ out, output s' = .ok out

theorem Obeys.feed {s s' : S} (h : Obeys s) {msgs : List (Incoming (RoundInfo.Msg S))}
    (hf : (store S).feed s msgs = .ok s') (hw : wantsMore s' = false) :
    ∃ out, output s' = .ok out :=
  h s' (reach_feed hf) hw

/-- What a store fed with `msgs` has come to: the first error, or the output once no more
messages are wanted. -/
def verdict (s : S) (msgs : List (Incoming (RoundInfo.Msg S))) :
    Option (Except (RoundInfo.Error S) (RoundInfo.Output S)) :=
  match (store S).feed s msgs with
  | .error e => some (.error e)
  | .ok s' =>
    if wantsMore s' then none
    else
      match output s' with
      | .ok out => some (.ok out)
      | .error _ => none

theorem verdict_isSome_iff {s : S} (h : Obeys s) (msgs : List (Incoming (RoundInfo.Msg S))) :
    (verdict s msgs).isSome = true ↔ (store S).Stops s msgs := by
  unfold verdict
  cases hf : (store S).feed s msgs with
  | error e =>
    simp only [Option.isSome_some,true_iff]
    intro s' h'
    rw [hf] at h'
    cases h'
  | ok s' =>
    by_cases hw : wantsMore s' = true
    · simp only [hw,if_true,Option.isSome_none,Bool.false_eq_true,false_iff]
      exact not_stops_iff.mpr ⟨s',hf,hw⟩
    · rw [Bool.not_eq_true] at hw
      obtain ⟨out,ho⟩ := h.feed hf hw
      simp only [hw,Bool.false_eq_true,if_false,ho,Option.isSome_some,true_iff]
      intro t ht
      rw [hf] at ht
      cases ht
      exact hw

/-- A verdict stands, whatever is received later. -/
theorem verdict_append {s : S} {msgs : List (Incoming (RoundInfo.Msg S))}
    (h : (store S).Stops s msgs) (more : List (Incoming (RoundInfo.Msg S))) :
    verdict s (msgs ++ more) = verdict s msgs := by
  unfold verdict
  rw [h.feed_append]

/-- How a verdict is seen through a wrapper of the store. -/
def mapVerdict {E F O P : Type} (out : O → P) (err : E → F) : Except E O → Except F P
  | .ok o => .ok (out o)
  | .error e => .error (err e)

/-- Stores `S` behave like stores `T`, message by message. -/
structure Simulates {S T : Type} [RoundStore S] [RoundStore T] (R : S → T → Prop)
    (f : Incoming (RoundInfo.Msg S) → Incoming (RoundInfo.Msg T))
    (out : RoundInfo.Output T → RoundInfo.Output S) (err : RoundInfo.Error T → RoundInfo.Error S) :
    Prop where
  wants : ∀ s t, R s t → wantsMore s = wantsMore t
  add : ∀ s t x, R s t → wantsMore s = true →
    Corresponds R (fun e e' => e = err e') ((store S).add s x) ((store T).add t (f x))
  output : ∀ s t, R s t → (output s).toOption = (output t).toOption.map out

section Simulates

variable {T : Type} [RoundStore T] {R : S → T → Prop}
  {f : Incoming (RoundInfo.Msg S) → Incoming (RoundInfo.Msg T)}
  {out : RoundInfo.Output T → RoundInfo.Output S} {err : RoundInfo.Error T → RoundInfo.Error S}
  {s : S} {t : T}

/-- Stores that agree message by message come to the same verdict. -/
theorem Simulates.verdict (h : Simulates R f out err) (hR : R s t)
    (msgs : List (Incoming (RoundInfo.Msg S))) :
    verdict s msgs = (verdict t (msgs.map f)).map (mapVerdict out err) := by
  have hfeed : Corresponds R (fun e e' => e = err e') ((store S).feed s msgs)
      ((store T).feed t (msgs.map f)) := feed_simulates f h.wants h.add hR msgs
  unfold RoundBased.verdict
  cases hs : (store S).feed s msgs with
  | error e =>
    obtain ⟨e',ht,rfl⟩ := hfeed.of_error hs
    rw [ht]
    rfl
  | ok s' =>
    obtain ⟨t',ht,hR'⟩ := hfeed.of_ok hs
    have ho := h.output s' t' hR'
    simp only [ht,← h.wants s' t' hR']
    split
    · rfl
    · cases h1 : RoundStore.output s' <;> cases h2 : RoundStore.output t' <;>
        rw [h1,h2] at ho <;> cases ho
      · rfl
      · rfl

/-- A store that behaves like one that obeys the contract obeys it. -/
theorem Simulates.obeys (h : Simulates R f out err) (hR : R s t) (ht : Obeys t) : Obeys s := by
  intro s' hs hw
  have hreach : ∃ t', (store T).Reach t t' ∧ R s' t' := by
    clear hw
    induction hs with
    | refl => exact ⟨t,.refl,hR⟩
    | @add a b x _ hwa ha ih =>
      obtain ⟨t1,ht1,hR1⟩ := ih
      obtain ⟨t2,ht2,hR2⟩ := (h.add a t1 x hR1 hwa).of_ok ha
      have hw1 : (store T).wants t1 = true := (h.wants a t1 hR1).symm.trans hwa
      exact ⟨t2,.add ht1 hw1 ht2,hR2⟩
  obtain ⟨t',ht',hR'⟩ := hreach
  obtain ⟨o,ho⟩ := ht t' ht' ((h.wants s' t' hR').symm.trans hw)
  have hout := h.output s' t' hR'
  rw [ho] at hout
  cases hs' : RoundStore.output s' with
  | error e => rw [hs'] at hout; cases hout
  | ok o' => exact ⟨o',rfl⟩

end Simulates

end RoundBased
