import Mathlib.Data.Nat.Find
import RoundBased.RouterSafety

/-! The engine that carries out a protocol: a router connected to a stream of incoming and
a sink of outgoing messages. -/
namespace RoundBased
open Feeding RoundsRouter

variable {ι M : Type} {St : ι → Type} [∀ k, RoundStore (St k)]
  [ProtocolMsg M] [∀ k, RoundMsg M (RoundInfo.Msg (St k))] {IoErr : Type}

/-- `incomings` is what the stream still yields before it ends. `answers` are the results
of the next sends, which succeed once there are no more answers. -/
structure MpcParty (M : Type) (St : ι → Type) [∀ k, RoundStore (St k)] (IoErr : Type) where
  router : RoundsRouter M St
  incomings : List (Except IoErr (Incoming M))
  answers : List (Except IoErr Unit)
  sent : List (Outgoing M)

section

variable [TypeIds St]

/-- Checks if the round is completed. -/
def checkCompleted (router : RoundsRouter M St) {k : ι} (w : Round k) :
    Checked (RoundsRouter M St × Except (Round k) (RoundResult (St k) IoErr)) :=
  (router.completeRound w).map fun r =>
    (r.1,r.2.map (Except.mapError fun e => e.mapIoErr Empty.elim))

/-- The body of the loop of `complete`: routes one item of the stream. -/
def completeTurn (router : RoundsRouter M St) {k : ι} (w : Round k)
    (item : Except IoErr (Incoming M)) :
    Checked (RoundsRouter M St × Except (Round k) (RoundResult (St k) IoErr)) :=
  match item with
  | .error e => .ok (router,.ok (.error (.io e)))
  | .ok incoming =>
    match router.receivedMsg incoming with
    | .error p => .error p
    | .ok (router,.error e) => .ok (router,.ok (.error (.ofUnregisteredRound e)))
    | .ok (router,.ok ()) => checkCompleted router w

/-- Reads the stream until the round is completed. -/
def completeLoop (router : RoundsRouter M St) {k : ι} (w : Round k) :
    List (Except IoErr (Incoming M)) →
      Checked (RoundsRouter M St × List (Except IoErr (Incoming M)) ×
        RoundResult (St k) IoErr)
  | [] => .ok (router,[],.error .unexpectedEof)
  | item :: rest =>
    match completeTurn router w item with
    | .error p => .error p
    | .ok (router,.ok res) => .ok (router,rest,res)
    | .ok (router,.error w) => completeLoop router w rest

namespace MpcParty

def connected (incomings : List (Except IoErr (Incoming M)))
    (answers : List (Except IoErr Unit)) : MpcParty M St IoErr :=
  ⟨.new,incomings,answers,[]⟩

def addRound (self : MpcParty M St IoErr) (k : ι) (messageStore : St k) :
    Checked (MpcParty M St IoErr × Round k) :=
  (self.router.addRound k messageStore).map fun r => ({ self with router := r.1 },r.2)

def complete (self : MpcParty M St IoErr) {k : ι} (w : Round k) :
    Checked (MpcParty M St IoErr × RoundResult (St k) IoErr) :=
  match checkCompleted self.router w with
  | .error p => .error p
  | .ok (router,.ok res) => .ok ({ self with router := router },res)
  | .ok (router,.error w) =>
    (completeLoop router w self.incomings).map fun r =>
      ({ self with router := r.1, incomings := r.2.1 },r.2.2)

def send (self : MpcParty M St IoErr) (msg : Outgoing M) :
    MpcParty M St IoErr × Except IoErr Unit :=
  match self.answers with
  | .error e :: answers => ({ self with answers := answers },.error e)
  | .ok () :: answers => ({ self with answers := answers, sent := self.sent ++ [msg] },.ok ())
  | [] => ({ self with sent := self.sent ++ [msg] },.ok ())

/-- Registers the rounds one by one. -/
def addRounds (self : MpcParty M St IoErr) :
    List ((k : ι) × St k) → Checked (MpcParty M St IoErr)
  | [] => .ok self
  | r :: rs =>
    match self.addRound r.1 r.2 with
    | .error p => .error p
    | .ok (party,_) => party.addRounds rs

/-- Completes the rounds one by one, whatever the results are. -/
def completeAll (self : MpcParty M St IoErr) : List ι → Checked (MpcParty M St IoErr)
  | [] => .ok self
  | k :: ks =>
    match self.complete (⟨⟩ : Round k) with
    | .error p => .error p
    | .ok (party,_) => party.completeAll ks

end MpcParty
end

/-! What completing a round means, in terms of the whole stream. -/

/-- The messages of one round among the first `p` items of the stream. -/
def itemsOf (T : Type) [RoundMsg M T] (stream : List (Except IoErr (Incoming M))) (p : ℕ) :
    List (Incoming T) :=
  roundMsgs T ((stream.take p).filterMap Except.toOption)

/-- The item at position `q` fails whichever round is being completed. -/
def Interrupts {P : Type} (registered : UInt16 → Prop)
    (stream : List (Except IoErr (Incoming M))) (q : ℕ) (err : CompleteRoundError P IoErr) :
    Prop :=
  match stream[q]? with
  | none => err = .unexpectedEof
  | some (.error e) => err = .io e
  | some (.ok msg) =>
    ∃ n, round msg.msg = .ok n ∧ ¬ registered n ∧ err = .ofUnregisteredRound ⟨n,false⟩

/-- Reading from position `c` on completes a round with store `s` with `res` at position
`c'`. -/
structure Completes {S : Type} [RoundStore S] [RoundMsg M (RoundInfo.Msg S)]
    (registered : UInt16 → Prop) (stream : List (Except IoErr (Incoming M))) (s : S) (c : ℕ)
    (res : RoundResult S IoErr) (c' : ℕ) : Prop where
  done : ∀ p, (store S).Stops s (itemsOf (RoundInfo.Msg S) stream p) →
    (∀ p' < p, ¬ (store S).Stops s (itemsOf (RoundInfo.Msg S) stream p')) →
    (∀ q (err : CompleteRoundError (RoundInfo.Error S) IoErr), c ≤ q → q < p →
      ¬ Interrupts registered stream q err) →
    (∃ v, verdict s (itemsOf (RoundInfo.Msg S) stream p) = some v ∧
      res = v.mapError .processMsg) ∧ c' = max c p
  interrupted : ∀ q err, c ≤ q → Interrupts registered stream q err →
    (∀ q' (err' : CompleteRoundError (RoundInfo.Error S) IoErr), c ≤ q' → q' < q →
      ¬ Interrupts registered stream q' err') →
    (∀ p ≤ q, ¬ (store S).Stops s (itemsOf (RoundInfo.Msg S) stream p)) →
    res = .error err ∧ c' = min (q + 1) stream.length

section Positions

variable {S : Type} [RoundStore S] [RoundMsg M (RoundInfo.Msg S)]
  {stream : List (Except IoErr (Incoming M))} {s : S} {registered : UInt16 → Prop}
  {c p q : ℕ} {res : RoundResult S IoErr}

omit [ProtocolMsg M] in
theorem itemsOf_mono (T : Type) [RoundMsg M T] (stream : List (Except IoErr (Incoming M)))
    (h : p ≤ q) :
    ∃ more, itemsOf T stream q = itemsOf T stream p ++ more := by
  refine ⟨roundMsgs T (((stream.take q).drop p).filterMap Except.toOption),?_⟩
  unfold itemsOf
  rw [← roundMsgs_append,← List.filterMap_append]
  have htake : stream.take p = (stream.take q).take p := by
    rw [List.take_take,Nat.min_eq_left h]
  rw [htake,List.take_append_drop]

omit [ProtocolMsg M] in
theorem itemsOf_succ (T : Type) [RoundMsg M T] {item : Except IoErr (Incoming M)}
    (h : stream[c]? = some item) :
    itemsOf T stream (c + 1) = itemsOf T stream c ++ roundMsgs T item.toOption.toList := by
  unfold itemsOf
  rw [← roundMsgs_append,List.take_add_one,List.filterMap_append,h]
  cases item <;> rfl

omit [ProtocolMsg M] in
theorem stops_mono (hs : (store S).Stops s (itemsOf (RoundInfo.Msg S) stream p)) (h : p ≤ q) :
    (store S).Stops s (itemsOf (RoundInfo.Msg S) stream q) := by
  obtain ⟨more,he⟩ := itemsOf_mono (RoundInfo.Msg S) stream h
  rw [he]
  exact hs.append more

theorem interrupts_unique {P : Type} {e f : CompleteRoundError P IoErr}
    (he : Interrupts registered stream q e) (hf : Interrupts registered stream q f) :
    e = f := by
  unfold Interrupts at he hf
  split at he
  · simp_all
  · simp_all
  · rename_i hq
    rw [hq] at hf
    obtain ⟨n,hn,_,rfl⟩ := he
    obtain ⟨m,hm,_,rfl⟩ := hf
    rw [hn] at hm
    cases hm
    rfl

theorem completes_now {v : Except (RoundInfo.Error S) (RoundInfo.Output S)}
    (hs : (store S).Stops s (itemsOf (RoundInfo.Msg S) stream c))
    (hv : verdict s (itemsOf (RoundInfo.Msg S) stream c) = some v) :
    Completes registered stream s c (v.mapError .processMsg) c where
  done p hp hleast _ := by
    have hpc : p ≤ c := by
      by_contra hc
      exact hleast c (by omega) hs
    obtain ⟨more,he⟩ := itemsOf_mono (RoundInfo.Msg S) stream hpc
    rw [he,verdict_append hp] at hv
    exact ⟨⟨v,hv,rfl⟩,(Nat.max_eq_left hpc).symm⟩
  interrupted q err hq _ _ hnot := absurd hs (hnot c hq)

theorem completes_next {v : Except (RoundInfo.Error S) (RoundInfo.Output S)}
    (hnot : ¬ (store S).Stops s (itemsOf (RoundInfo.Msg S) stream c))
    (hint : ∀ err : CompleteRoundError (RoundInfo.Error S) IoErr,
      ¬ Interrupts registered stream c err)
    (hs : (store S).Stops s (itemsOf (RoundInfo.Msg S) stream (c + 1)))
    (hv : verdict s (itemsOf (RoundInfo.Msg S) stream (c + 1)) = some v) :
    Completes registered stream s c (v.mapError .processMsg) (c + 1) where
  done p hp hleast _ := by
    have hpc : c < p := by
      by_contra hc
      exact hnot (stops_mono hp (by omega))
    have hcp : p = c + 1 := by
      by_contra hne
      exact hleast (c + 1) (by omega) hs
    subst hcp
    exact ⟨⟨v,hv,rfl⟩,(Nat.max_eq_right (by omega)).symm⟩
  interrupted q err hq he _ hno := by
    have hne : q ≠ c := by
      rintro rfl
      exact hint err he
    exact absurd hs (hno (c + 1) (by omega))

theorem completes_interrupted {err : CompleteRoundError (RoundInfo.Error S) IoErr}
    (hc : c ≤ stream.length)
    (hnot : ¬ (store S).Stops s (itemsOf (RoundInfo.Msg S) stream c))
    (he : Interrupts registered stream c err) :
    Completes registered stream s c (.error err) (min (c + 1) stream.length) where
  done p hp _ hint := by
    have hpc : c < p := by
      by_contra hle
      exact hnot (stops_mono hp (by omega))
    exact absurd he (hint c err (Nat.le_refl _) hpc)
  interrupted q e hq hqe hbefore _ := by
    have hqc : q = c := by
      by_contra hne
      exact hbefore c err (Nat.le_refl _) (by omega) he
    subst hqc
    rw [interrupts_unique hqe he]
    exact ⟨rfl,rfl⟩

theorem Completes.step {c' : ℕ}
    (hnot : ¬ (store S).Stops s (itemsOf (RoundInfo.Msg S) stream c))
    (hint : ∀ err : CompleteRoundError (RoundInfo.Error S) IoErr,
      ¬ Interrupts registered stream c err)
    (h : Completes registered stream s (c + 1) res c') :
    Completes registered stream s c res c' where
  done p hp hleast hno := by
    have hpc : c < p := by
      by_contra hc
      exact hnot (stops_mono hp (by omega))
    obtain ⟨hv,hmax⟩ := h.done p hp hleast fun q err hq => hno q err (by omega)
    refine ⟨hv,?_⟩
    omega
  interrupted q err hq he hbefore hno := by
    have hne : q ≠ c := by
      rintro rfl
      exact hint err he
    exact h.interrupted q err (by omega) he (fun q' err' hq' => hbefore q' err' (by omega)) hno

/-- The result of a round whose store came to the verdict at the end of the stream. -/
def ofVerdict {P O : Type} : Option (Except P O) → Except (CompleteRoundError P IoErr) O
  | some v => v.mapError .processMsg
  | none => .error .unexpectedEof

theorem ofVerdict_error {P O : Type} {v : Option (Except P O)} (h : ¬ ∃ out, v = some (.ok out)) :
    ∃ err : CompleteRoundError P IoErr, ofVerdict v = .error err := by
  rcases v with _ | err | out
  · exact ⟨_,rfl⟩
  · exact ⟨_,rfl⟩
  · exact absurd ⟨out,rfl⟩ h

/-- When no item fails the whole stream decides. -/
theorem Completes.of_all {c' : ℕ} (h : Completes registered stream s c res c') (ho : Obeys s)
    (hc : c ≤ stream.length) (hint : ∀ q < stream.length,
      ∀ err : CompleteRoundError (RoundInfo.Error S) IoErr, ¬ Interrupts registered stream q err) :
    res = ofVerdict (verdict s (itemsOf (RoundInfo.Msg S) stream stream.length)) := by
  have hiff := verdict_isSome_iff ho (itemsOf (RoundInfo.Msg S) stream stream.length)
  by_cases hs : (store S).Stops s (itemsOf (RoundInfo.Msg S) stream stream.length)
  · have hex : ∃ p, (store S).Stops s (itemsOf (RoundInfo.Msg S) stream p) := ⟨_,hs⟩
    have hle : Nat.find hex ≤ stream.length := Nat.find_min' hex hs
    obtain ⟨⟨v,hv,hres⟩,_⟩ := h.done (Nat.find hex) (Nat.find_spec hex)
      (fun p' hp' => Nat.find_min hex hp') fun q err _ hq => hint q (by omega) err
    obtain ⟨more,he⟩ := itemsOf_mono (RoundInfo.Msg S) stream hle
    rw [he,verdict_append (Nat.find_spec hex),hv]
    exact hres
  · have heof : Interrupts registered stream stream.length
        (.unexpectedEof : CompleteRoundError (RoundInfo.Error S) IoErr) := by
      simp [Interrupts]
    have hres := (h.interrupted _ _ hc heof (fun q err _ hq => hint q hq err)
      fun p hp hp' => hs (stops_mono hp' hp)).1
    have hnone : verdict s (itemsOf (RoundInfo.Msg S) stream stream.length) = none := by
      rw [← Option.not_isSome_iff_eq_none,hiff]
      exact hs
    rw [hnone]
    exact hres

end Positions

/-! The engine does exactly that. -/

/-- The message is routed to the right round, whatever rounds are registered. -/
structure Routable (M : Type) {ι : Type} (St : ι → Type) [∀ k, RoundStore (St k)]
    [ProtocolMsg M] [∀ k, RoundMsg M (RoundInfo.Msg (St k))] (m : M) : Prop where
  round_ok : ∃ n, round m = .ok n
  wellRouted : ∀ k, WellRouted (RoundInfo.Msg (St k)) m

/-- The router has been given the first `c` items of the stream. -/
structure Reading (l : Ledger M St) (stream : List (Except IoErr (Incoming M))) (c : ℕ) :
    Prop where
  le : c ≤ stream.length
  routable : ∀ msg ∈ l.received, Routable M St msg.msg
  received : ∀ k, (l.registered (roundOf M St k)).isSome = true →
    roundMsgs (RoundInfo.Msg (St k)) l.received = itemsOf (RoundInfo.Msg (St k)) stream c

def Ledger.Registered (l : Ledger M St) (n : UInt16) : Prop := (l.registered n).isSome = true

section Engine

variable {l : Ledger M St} {stream : List (Except IoErr (Incoming M))} {c : ℕ} {k : ι}
  {s : St k}

theorem Reading.take (h : Reading l stream c) (n : UInt16) : Reading (l.take n) stream c :=
  ⟨h.le,h.routable,h.received⟩

theorem Reading.next_registered (h : Reading l stream c) {msg : Incoming M} {n : UInt16}
    (hget : stream[c]? = some (.ok msg)) (hlaw : Routable M St msg.msg)
    (hn : round msg.msg = .ok n) (hr : (l.registered n).isSome = true) :
    Reading (l.receive msg hn hr) stream (c + 1) := by
  have hlt := (List.getElem?_eq_some_iff.mp hget).1
  refine ⟨hlt,fun m hm => ?_,fun j hj => ?_⟩
  · rcases List.mem_append.mp hm with hm | hm
    · exact h.routable m hm
    · rw [List.mem_singleton.mp hm]
      exact hlaw
  rw [itemsOf_succ _ hget,← h.received j hj]
  exact roundMsgs_append _ _ _

theorem Reading.next_other (h : Reading l stream c) {item : Except IoErr (Incoming M)}
    (hget : stream[c]? = some item)
    (hr : ∀ msg, item = .ok msg → Routable M St msg.msg ∧
      ∃ n, round msg.msg = .ok n ∧ l.registered n = none) :
    Reading l stream (c + 1) := by
  have hlt := (List.getElem?_eq_some_iff.mp hget).1
  refine ⟨hlt,h.routable,fun j hj => ?_⟩
  rw [itemsOf_succ _ hget,← h.received j hj]
  cases item with
  | error e => simp [roundMsgs,Except.toOption]
  | ok msg =>
    obtain ⟨hlaw,n,hn,hnone⟩ := hr msg rfl
    have hiff := hlaw.wellRouted j
    unfold WellRouted at hiff
    cases hc : (fromProtocolMsg msg.msg : Except M (RoundInfo.Msg (St j))) with
    | error m => simp [roundMsgs,Except.toOption,Incoming.tryMap,hc]
    | ok t =>
      have hround := hiff.mp ⟨t,hc⟩
      rw [hn] at hround
      cases hround
      rw [hnone] at hj
      cases hj

/-- What a call of `complete` leaves behind. -/
structure After (l l' : Ledger M St) (n : UInt16) : Prop where
  registered : l'.registered = l.registered
  taken : ∀ m, m ≠ n → l'.taken m = l.taken m

variable [TypeIds St]

theorem checkCompleted_spec (IoErr : Type) (w : Round k)
    (hr : l.registered (roundOf M St k) = some ⟨k,s⟩)
    (ht : l.taken (roundOf M St k) = false) (ho : Obeys s)
    (hlaw : ∀ msg ∈ l.received, Routable M St msg.msg) :
    (checkCompleted l.router w : Checked (RoundsRouter M St ×
        Except (Round k) (RoundResult (St k) IoErr))) =
      match verdict s (roundMsgs (RoundInfo.Msg (St k)) l.received) with
      | none => .ok (l.router,.error w)
      | some v => .ok ((l.take (roundOf M St k)).router,.ok (v.mapError .processMsg)) := by
  unfold checkCompleted
  rw [l.completeRound_spec w hr ht,
    outcome_eq_verdict ho fun msg hmsg => (hlaw msg hmsg).wellRouted k]
  cases verdict s (roundMsgs (RoundInfo.Msg (St k)) l.received) with
  | none => rfl
  | some v => cases v <;> rfl

variable [∀ k, RefusesUnchanged M (RoundInfo.Msg (St k))]

/-- One turn of the loop: the round is completed or interrupted, or it goes on. -/
theorem completeTurn_spec (w : Round k) (h : Reading l stream c)
    (hr : l.registered (roundOf M St k) = some ⟨k,s⟩)
    (ht : l.taken (roundOf M St k) = false) (ho : Obeys s)
    (hnot : ¬ (store (St k)).Stops s (itemsOf (RoundInfo.Msg (St k)) stream c))
    {item : Except IoErr (Incoming M)} (hget : stream[c]? = some item)
    (hlaw : ∀ msg, item = .ok msg → Routable M St msg.msg) :
    ∃ l' r, completeTurn l.router w item = .ok (l'.router,r) ∧ Reading l' stream (c + 1) ∧
      After l l' (roundOf M St k) ∧
      ((∃ res, r = .ok res ∧ Completes l.Registered stream s c res (c + 1)) ∨
        ∃ w', r = .error w' ∧ l'.taken (roundOf M St k) = false ∧
          ¬ (store (St k)).Stops s (itemsOf (RoundInfo.Msg (St k)) stream (c + 1)) ∧
          ∀ err : CompleteRoundError (RoundInfo.Error (St k)) IoErr,
            ¬ Interrupts l.Registered stream c err) := by
  have hlt := (List.getElem?_eq_some_iff.mp hget).1
  have hmin : min (c + 1) stream.length = c + 1 := by omega
  have hsame : After l l (roundOf M St k) := ⟨rfl,fun _ _ => rfl⟩
  cases item with
  | error e =>
    have hio : Interrupts l.Registered stream c
        (.io e : CompleteRoundError (RoundInfo.Error (St k)) IoErr) := by
      simp [Interrupts,hget]
    have hnext : Reading l stream (c + 1) := h.next_other hget fun _ he => by cases he
    exact ⟨l,_,rfl,hnext,hsame,.inl ⟨_,rfl,hmin ▸ completes_interrupted h.le hnot hio⟩⟩
  | ok msg =>
    have hmsg := hlaw msg rfl
    obtain ⟨n,hn⟩ := hmsg.round_ok
    cases hreg : l.registered n with
    | none =>
      have hbad : Interrupts l.Registered stream c (.ofUnregisteredRound ⟨n,false⟩ :
          CompleteRoundError (RoundInfo.Error (St k)) IoErr) := by
        simp only [Interrupts,hget]
        exact ⟨n,hn,by simp [Ledger.Registered,hreg],rfl⟩
      have hnext : Reading l stream (c + 1) := by
        apply h.next_other hget
        intro m hm
        cases hm
        exact ⟨hmsg,n,hn,hreg⟩
      have hturn : completeTurn l.router w (.ok msg : Except IoErr (Incoming M)) =
          .ok (l.router,.ok (.error (.ofUnregisteredRound ⟨n,false⟩))) := by
        simp only [completeTurn,l.receivedMsg_unregistered hn hreg]
      exact ⟨l,_,hturn,hnext,hsame,
        .inl ⟨_,rfl,hmin ▸ completes_interrupted h.le hnot hbad⟩⟩
    | some reg =>
      have hsome : (l.registered n).isSome = true := by rw [hreg]; rfl
      have hint : ∀ err : CompleteRoundError (RoundInfo.Error (St k)) IoErr,
          ¬ Interrupts l.Registered stream c err := by
        intro err he
        simp only [Interrupts,hget] at he
        obtain ⟨m,hm,hnr,_⟩ := he
        rw [hn] at hm
        cases hm
        exact hnr hsome
      have hnext := h.next_registered hget hmsg hn hsome
      have hreceived := hnext.received k (Option.isSome_iff_exists.mpr ⟨_,hr⟩)
      have hturn : completeTurn l.router w (.ok msg : Except IoErr (Incoming M)) =
          checkCompleted (l.receive msg hn hsome).router w := by
        simp only [completeTurn,l.receivedMsg_spec hn hsome]
      rw [hturn,checkCompleted_spec (l := l.receive msg hn hsome) IoErr w hr ht ho
        hnext.routable,hreceived]
      have hiff := verdict_isSome_iff ho (itemsOf (RoundInfo.Msg (St k)) stream (c + 1))
      cases hv : verdict s (itemsOf (RoundInfo.Msg (St k)) stream (c + 1)) with
      | none =>
        rw [hv] at hiff
        have hnot' := fun hs => Bool.false_ne_true (hiff.mpr hs)
        exact ⟨_,_,rfl,hnext,⟨rfl,fun _ _ => rfl⟩,.inr ⟨w,rfl,ht,hnot',hint⟩⟩
      | some v =>
        rw [hv] at hiff
        have hdone := completes_next hnot hint (hiff.mp rfl) hv
        refine ⟨_,_,rfl,hnext.take _,⟨rfl,fun m hm => ?_⟩,.inl ⟨_,rfl,hdone⟩⟩
        simp [Ledger.take,Ledger.receive,Function.update_of_ne hm]

/-- Every message of the stream is routed to the right round. -/
def RoutableStream (M : Type) {ι : Type} (St : ι → Type) [∀ k, RoundStore (St k)]
    [ProtocolMsg M] [∀ k, RoundMsg M (RoundInfo.Msg (St k))]
    (stream : List (Except IoErr (Incoming M))) : Prop :=
  ∀ msg, .ok msg ∈ stream → Routable M St msg.msg

/-- The loop, by induction on what is left of the stream. -/
theorem completeLoop_spec (hlaw : RoutableStream M St stream) (w : Round k) (h : Reading l stream c)
    (hr : l.registered (roundOf M St k) = some ⟨k,s⟩)
    (ht : l.taken (roundOf M St k) = false) (ho : Obeys s)
    (hnot : ¬ (store (St k)).Stops s (itemsOf (RoundInfo.Msg (St k)) stream c)) :
    ∃ l' res c', completeLoop l.router w (stream.drop c) =
        .ok (l'.router,stream.drop c',res) ∧ Reading l' stream c' ∧
      Completes l.Registered stream s c res c' ∧ After l l' (roundOf M St k) := by
  induction hd : stream.drop c generalizing c l w with
  | nil =>
    have hlen : stream.length ≤ c := List.drop_eq_nil_iff.mp hd
    have heof : Interrupts l.Registered stream c
        (.unexpectedEof : CompleteRoundError (RoundInfo.Error (St k)) IoErr) := by
      simp [Interrupts,List.getElem?_eq_none hlen]
    have hmin : min (c + 1) stream.length = c := by have := h.le; omega
    have hcomp := completes_interrupted h.le hnot heof
    rw [hmin] at hcomp
    exact ⟨l,_,c,by rw [hd]; rfl,h,hcomp,⟨rfl,fun _ _ => rfl⟩⟩
  | cons item rest ih =>
    have hget : stream[c]? = some item := by
      rw [← List.head?_drop,hd]
      rfl
    have hrest : stream.drop (c + 1) = rest := by
      rw [← List.tail_drop,hd]
      rfl
    have hitem : ∀ msg, item = .ok msg → Routable M St msg.msg := by
      rintro msg rfl
      exact hlaw msg (List.mem_of_getElem? hget)
    obtain ⟨l1,r,hturn,hread,hafter,hr'⟩ := completeTurn_spec w h hr ht ho hnot hget hitem
    rcases hr' with ⟨res,rfl,hcomp⟩ | ⟨w',rfl,ht',hnot',hint⟩
    · refine ⟨l1,res,c + 1,?_,hread,hcomp,hafter⟩
      simp only [completeLoop,hturn,hrest]
    · have hr1 : l1.registered (roundOf M St k) = some ⟨k,s⟩ := by
        rw [hafter.registered,hr]
      obtain ⟨l2,res,c',hloop,hread',hcomp,hafter'⟩ := ih w' hread hr1 ht' hnot' hrest
      have hregd : l1.Registered = l.Registered := by
        unfold Ledger.Registered
        rw [hafter.registered]
      rw [hregd] at hcomp
      refine ⟨l2,res,c',?_,hread',hcomp.step hnot hint,?_,fun m hm => ?_⟩
      · simp only [completeLoop,hturn,hloop]
      · rw [hafter'.registered,hafter.registered]
      · rw [hafter'.taken m hm,hafter.taken m hm]

/-- The engine has read `c` items of the stream. -/
structure Connected (party : MpcParty M St IoErr) (l : Ledger M St)
    (stream : List (Except IoErr (Incoming M))) (c : ℕ) : Prop where
  router_eq : party.router = l.router
  incomings_eq : party.incomings = stream.drop c
  reading : Reading l stream c

theorem complete_spec (hlaw : RoutableStream M St stream) {party : MpcParty M St IoErr}
    (w : Round k) (h : Connected party l stream c) (hr : l.registered (roundOf M St k) = some ⟨k,s⟩)
    (ht : l.taken (roundOf M St k) = false) (ho : Obeys s) :
    ∃ party' l' res c', party.complete w = .ok (party',res) ∧
      Connected party' l' stream c' ∧ Completes l.Registered stream s c res c' ∧
      After l l' (roundOf M St k) := by
  obtain ⟨hp,hi,h⟩ := h
  have hcheck := checkCompleted_spec IoErr w hr ht ho h.routable
  rw [h.received k (Option.isSome_iff_exists.mpr ⟨_,hr⟩)] at hcheck
  have hiff := verdict_isSome_iff ho (itemsOf (RoundInfo.Msg (St k)) stream c)
  unfold MpcParty.complete
  rw [hp,hi]
  cases hv : verdict s (itemsOf (RoundInfo.Msg (St k)) stream c) with
  | none =>
    rw [hv] at hcheck hiff
    have hnot := fun hs => Bool.false_ne_true (hiff.mpr hs)
    obtain ⟨l',res,c',hloop,hread,hcomp,hafter⟩ :=
      completeLoop_spec hlaw w h hr ht ho hnot
    simp only [hcheck,hloop,Except.map]
    exact ⟨_,l',res,c',rfl,⟨rfl,rfl,hread⟩,hcomp,hafter⟩
  | some v =>
    rw [hv] at hcheck hiff
    simp only [hcheck]
    refine ⟨_,_,_,c,rfl,⟨rfl,rfl,h.take _⟩,completes_now (hiff.mp rfl) hv,rfl,fun m hm => ?_⟩
    simp [Ledger.take,Function.update_of_ne hm]

/-! A round that is not known to be claimable is completed without harm to the others. -/

omit [∀ k, RefusesUnchanged M (RoundInfo.Msg (St k))] in
theorem checkCompleted_keeps (IoErr : Type) (l : Ledger M St) (w : Round k) :
    ∃ l' r, (checkCompleted l.router w : Checked (RoundsRouter M St ×
        Except (Round k) (RoundResult (St k) IoErr))) = .ok (l'.router,r) ∧
      (l' = l ∨ l' = l.take (roundOf M St k)) := by
  obtain ⟨l',r,he,hl⟩ := l.completeRound_keeps w
  exact ⟨l',_,by rw [checkCompleted,he]; rfl,hl⟩

omit [TypeIds St] [∀ k, RefusesUnchanged M (RoundInfo.Msg (St k))] in
theorem Reading.of_taken (h : Reading l stream c) {l' : Ledger M St} {n : UInt16}
    (hl : l' = l ∨ l' = l.take n) : Reading l' stream c ∧ After l l' n := by
  rcases hl with rfl | rfl
  · exact ⟨h,rfl,fun _ _ => rfl⟩
  · exact ⟨h.take n,rfl,fun m hm => by simp [Ledger.take,Function.update_of_ne hm]⟩

theorem completeTurn_keeps (w : Round k) (h : Reading l stream c)
    {item : Except IoErr (Incoming M)} (hget : stream[c]? = some item)
    (hlaw : ∀ msg, item = .ok msg → Routable M St msg.msg) :
    ∃ l' r, completeTurn l.router w item = .ok (l'.router,r) ∧ Reading l' stream (c + 1) ∧
      After l l' (roundOf M St k) := by
  cases item with
  | error e => exact ⟨l,_,rfl,h.next_other hget fun _ he => (by cases he),rfl,fun _ _ => rfl⟩
  | ok msg =>
    have hmsg := hlaw msg rfl
    obtain ⟨n,hn⟩ := hmsg.round_ok
    cases hreg : l.registered n with
    | none =>
      have hnext : Reading l stream (c + 1) := by
        apply h.next_other hget
        intro m hm
        cases hm
        exact ⟨hmsg,n,hn,hreg⟩
      have hturn : completeTurn l.router w (.ok msg : Except IoErr (Incoming M)) =
          .ok (l.router,.ok (.error (.ofUnregisteredRound ⟨n,false⟩))) := by
        simp only [completeTurn,l.receivedMsg_unregistered hn hreg]
      exact ⟨l,_,hturn,hnext,rfl,fun _ _ => rfl⟩
    | some reg =>
      have hsome : (l.registered n).isSome = true := by rw [hreg]; rfl
      obtain ⟨l',r,hcheck,hl⟩ := checkCompleted_keeps IoErr (l.receive msg hn hsome) w
      obtain ⟨hnext,hafter⟩ := (h.next_registered hget hmsg hn hsome).of_taken hl
      refine ⟨l',r,?_,hnext,hafter.registered,hafter.taken⟩
      simp only [completeTurn,l.receivedMsg_spec hn hsome,hcheck]

theorem completeLoop_keeps (hlaw : RoutableStream M St stream) (w : Round k)
    (h : Reading l stream c) :
    ∃ l' res c', completeLoop l.router w (stream.drop c) =
        .ok (l'.router,stream.drop c',res) ∧ Reading l' stream c' ∧
      After l l' (roundOf M St k) := by
  induction hd : stream.drop c generalizing c l w with
  | nil => exact ⟨l,_,c,by rw [hd]; rfl,h,rfl,fun _ _ => rfl⟩
  | cons item rest ih =>
    have hget : stream[c]? = some item := by
      rw [← List.head?_drop,hd]
      rfl
    have hrest : stream.drop (c + 1) = rest := by
      rw [← List.tail_drop,hd]
      rfl
    obtain ⟨l1,r,hturn,hread,hafter⟩ := completeTurn_keeps w h hget fun msg he =>
      hlaw msg (he ▸ List.mem_of_getElem? hget)
    cases r with
    | ok res => exact ⟨l1,res,c + 1,by simp only [completeLoop,hturn,hrest],hread,hafter⟩
    | error w' =>
      obtain ⟨l2,res,c',hloop,hread',hafter'⟩ := ih w' hread hrest
      refine ⟨l2,res,c',by simp only [completeLoop,hturn,hloop],hread',?_,fun m hm => ?_⟩
      · rw [hafter'.registered,hafter.registered]
      · rw [hafter'.taken m hm,hafter.taken m hm]

/-- Completing any round leaves the other rounds as they are. -/
theorem complete_keeps (hlaw : RoutableStream M St stream) {party : MpcParty M St IoErr}
    (w : Round k) (h : Connected party l stream c) :
    ∃ party' l' res c', party.complete w = .ok (party',res) ∧
      Connected party' l' stream c' ∧ After l l' (roundOf M St k) := by
  obtain ⟨hp,hi,h⟩ := h
  obtain ⟨l1,r,hcheck,hl⟩ := checkCompleted_keeps IoErr l w
  obtain ⟨hread,hafter⟩ := h.of_taken hl
  unfold MpcParty.complete
  rw [hp,hi,hcheck]
  cases r with
  | ok res => exact ⟨_,l1,res,c,rfl,⟨rfl,rfl,hread⟩,hafter⟩
  | error w' =>
    obtain ⟨l2,res,c',hloop,hread',hafter'⟩ := completeLoop_keeps hlaw w' hread
    simp only [hloop,Except.map]
    refine ⟨_,l2,res,c',rfl,⟨rfl,rfl,hread'⟩,?_,fun m hm => ?_⟩
    · rw [hafter'.registered,hafter.registered]
    · rw [hafter'.taken m hm,hafter.taken m hm]

end Engine

theorem complete_sent [TypeIds St] {party party' : MpcParty M St IoErr} {k : ι} {w : Round k}
    {res : RoundResult (St k) IoErr} (h : party.complete w = .ok (party',res)) :
    party'.sent = party.sent ∧ party'.answers = party.answers := by
  unfold MpcParty.complete at h
  split at h
  · cases h
  · cases h
    exact ⟨rfl,rfl⟩
  · rename_i router w' _
    cases hl : completeLoop router w' party.incomings with
    | error p => rw [hl] at h; cases h
    | ok r =>
      rw [hl] at h
      cases h
      exact ⟨rfl,rfl⟩

/-- When no item fails, completing a round does what the whole stream decides. -/
theorem complete_of_all [TypeIds St] [∀ k, RefusesUnchanged M (RoundInfo.Msg (St k))]
    {stream : List (Except IoErr (Incoming M))} (hlaw : RoutableStream M St stream)
    {party : MpcParty M St IoErr} {l : Ledger M St} {c : ℕ} {k : ι} {s : St k}
    (h : Connected party l stream c) (hr : l.registered (roundOf M St k) = some ⟨k,s⟩)
    (ht : l.taken (roundOf M St k) = false) (ho : Obeys s)
    (hint : ∀ q < stream.length, ∀ err : CompleteRoundError (RoundInfo.Error (St k)) IoErr,
      ¬ Interrupts l.Registered stream q err) :
    ∃ party' l' c', party.complete (⟨⟩ : Round k) = .ok (party',
        ofVerdict (verdict s (itemsOf (RoundInfo.Msg (St k)) stream stream.length))) ∧
      Connected party' l' stream c' ∧ After l l' (roundOf M St k) ∧
      party'.sent = party.sent ∧ party'.answers = party.answers := by
  obtain ⟨party',l',res,c',hcomp,hconn,hres,hafter⟩ := complete_spec hlaw ⟨⟩ h hr ht ho
  obtain ⟨hsent,hans⟩ := complete_sent hcomp
  rw [hres.of_all ho h.reading.le hint] at hcomp
  exact ⟨party',l',c',hcomp,hconn,hafter,hsent,hans⟩

section Setup

/-- Rounds with distinct numbers are all registered. -/
theorem addRounds_spec {regs : List ((k : ι) × St k)} {party : MpcParty M St IoErr}
    {l : Ledger M St} (hp : party.router = l.router)
    (hnew : ∀ r ∈ regs, l.registered (roundOf M St r.1) = none)
    (hnd : (regs.map fun r => roundOf M St r.1).Nodup) :
    ∃ l' : Ledger M St, party.addRounds regs = .ok { party with router := l'.router } ∧
      l'.received = l.received ∧
      (∀ r ∈ regs, l'.registered (roundOf M St r.1) = some r ∧
        l'.taken (roundOf M St r.1) = false) ∧
      ∀ n, (∀ r ∈ regs, roundOf M St r.1 ≠ n) →
        l'.registered n = l.registered n ∧ l'.taken n = l.taken n := by
  induction regs generalizing party l with
  | nil =>
    refine ⟨l,?_,rfl,fun r hr => (by cases hr),fun n _ => ⟨rfl,rfl⟩⟩
    rw [← hp]
    rfl
  | cons r rs ih =>
    rw [List.map_cons,List.nodup_cons] at hnd
    have hr := hnew r (List.mem_cons_self ..)
    have hne : ∀ r' ∈ rs, roundOf M St r'.1 ≠ roundOf M St r.1 :=
      fun r' hr' he => hnd.1 (he ▸ List.mem_map_of_mem hr')
    have hnew' : ∀ r' ∈ rs, (l.register r.1 r.2 hr).registered (roundOf M St r'.1) = none := by
      intro r' hr'
      simp [Ledger.register,Function.update_of_ne (hne r' hr'),
        hnew r' (List.mem_cons_of_mem _ hr')]
    have hp' : ({ party with router := (l.register r.1 r.2 hr).router } :
        MpcParty M St IoErr).router = (l.register r.1 r.2 hr).router := rfl
    obtain ⟨l',hadd,hrecv,hin,hout⟩ := ih hp' hnew' hnd.2
    refine ⟨l',?_,hrecv,?_,fun n hn => ?_⟩
    · rw [← hadd]
      simp only [MpcParty.addRounds,MpcParty.addRound,hp,l.addRound_spec r.1 r.2 hr]
      rfl
    · intro r' hr'
      rcases List.mem_cons.mp hr' with rfl | hr'
      · obtain ⟨h1,h2⟩ := hout _ hne
        rw [h1,h2]
        simp [Ledger.register]
      · exact hin r' hr'
    · obtain ⟨h1,h2⟩ := hout n fun r' hr' => hn r' (List.mem_cons_of_mem _ hr')
      rw [h1,h2]
      have hnr := (hn r (List.mem_cons_self ..)).symm
      simp [Ledger.register,Function.update_of_ne hnr]

variable [TypeIds St] [∀ k, RefusesUnchanged M (RoundInfo.Msg (St k))]

/-- Completing other rounds first leaves a round claimable. -/
theorem completeAll_spec {stream : List (Except IoErr (Incoming M))}
    (hlaw : RoutableStream M St stream) {ks : List ι} {party : MpcParty M St IoErr} {l : Ledger M St} {c : ℕ} (h : Connected party l stream c)
    (hnd : (ks.map (roundOf M St)).Nodup) (hks : ∀ k ∈ ks, l.Claimable k) :
    ∃ party' l' c', party.completeAll ks = .ok party' ∧ Connected party' l' stream c' ∧
      l'.registered = l.registered ∧
      ∀ n, (∀ k ∈ ks, roundOf M St k ≠ n) → l'.taken n = l.taken n := by
  induction ks generalizing party l c with
  | nil => exact ⟨party,l,c,rfl,h,rfl,fun _ _ => rfl⟩
  | cons k ks ih =>
    rw [List.map_cons,List.nodup_cons] at hnd
    obtain ⟨s,hr,ht,ho⟩ := hks k (List.mem_cons_self ..)
    obtain ⟨party1,l1,res,c1,hcomplete,h1,_,hafter⟩ := complete_spec hlaw ⟨⟩ h hr ht ho
    have hks1 : ∀ j ∈ ks, l1.Claimable j := by
      intro j hj
      obtain ⟨t,hjr,hjt,hjo⟩ := hks j (List.mem_cons_of_mem _ hj)
      have hne : roundOf M St j ≠ roundOf M St k :=
        fun he => hnd.1 (he ▸ List.mem_map_of_mem hj)
      exact ⟨t,by rw [hafter.registered,hjr],by rw [hafter.taken _ hne,hjt],hjo⟩
    obtain ⟨party2,l2,c2,hall,h2,hreg,htaken⟩ := ih h1 hnd.2 hks1
    refine ⟨party2,l2,c2,?_,h2,hreg.trans hafter.registered,fun n hn => ?_⟩
    · simp only [MpcParty.completeAll,hcomplete]
      exact hall
    · rw [htaken n fun j hj => hn j (List.mem_cons_of_mem _ hj),
        hafter.taken n (hn k (List.mem_cons_self ..)).symm]

end Setup

/-- Reference semantics: whichever rounds were completed before, completing a round does
what `Completes` says about the stream. -/
theorem complete_semantics [TypeIds St] [LawfulProtocolMsg M]
    [∀ k, LawfulRoundMsg M (RoundInfo.Msg (St k))] (regs : List ((k : ι) × St k))
    (hregs : (regs.map fun r => roundOf M St r.1).Nodup) (hobeys : ∀ r ∈ regs, Obeys r.2)
    (stream : List (Except IoErr (Incoming M))) (answers : List (Except IoErr Unit))
    (ks : List ι) (r : (k : ι) × St k) (hr : r ∈ regs)
    (hks : ∀ k ∈ ks, ∃ r' ∈ regs, r'.1 = k)
    (hnd : ((r.1 :: ks).map (roundOf M St)).Nodup) :
    ∃ (party party' : MpcParty M St IoErr) (c c' : ℕ) (res : RoundResult (St r.1) IoErr),
      ((MpcParty.connected stream answers).addRounds regs).bind
        (fun party => party.completeAll ks) = .ok party ∧
      party.incomings = stream.drop c ∧ c ≤ stream.length ∧
      party.complete (⟨⟩ : Round r.1) = .ok (party',res) ∧
      party'.incomings = stream.drop c' ∧ c' ≤ stream.length ∧
      Completes (fun n => ∃ r' ∈ regs, roundOf M St r'.1 = n) stream r.2 c res c' := by
  have hlaw : RoutableStream M St stream :=
    fun msg _ => ⟨LawfulProtocolMsg.round_ok msg.msg,fun k => wellRouted _ msg.msg⟩
  have hempty : (MpcParty.connected stream answers : MpcParty M St IoErr).router =
      (Ledger.empty : Ledger M St).router := rfl
  obtain ⟨l,hadd,hrecv,hin,hout⟩ := addRounds_spec hempty (fun _ _ => rfl) hregs
  have hregd : l.Registered = fun n => ∃ r' ∈ regs, roundOf M St r'.1 = n := by
    funext n
    apply propext
    constructor
    · intro hn
      by_contra hc
      have hnone := (hout n fun r' hr' he => hc ⟨r',hr',he⟩).1
      rw [Ledger.Registered,hnone] at hn
      cases hn
    · rintro ⟨r',hr',rfl⟩
      rw [Ledger.Registered,(hin r' hr').1]
      rfl
  have hclaim : ∀ r' ∈ regs, l.Claimable r'.1 :=
    fun r' hr' => ⟨r'.2,(hin r' hr').1,(hin r' hr').2,hobeys r' hr'⟩
  have hconn : Connected (⟨l.router,stream,answers,[]⟩ : MpcParty M St IoErr) l stream 0 := by
    refine ⟨rfl,rfl,Nat.zero_le _,fun msg hmsg => ?_,fun k _ => ?_⟩
    · rw [hrecv] at hmsg
      cases hmsg
    · rw [hrecv]
      rfl
  rw [List.map_cons,List.nodup_cons] at hnd
  obtain ⟨party,l1,c,hall,h1,hreg1,htaken1⟩ := completeAll_spec hlaw hconn hnd.2 fun k hk => by
    obtain ⟨r',hr',rfl⟩ := hks k hk
    exact hclaim r' hr'
  have hreg : l1.registered (roundOf M St r.1) = some ⟨r.1,r.2⟩ := by
    rw [hreg1,(hin r hr).1]
  have htaken : l1.taken (roundOf M St r.1) = false := by
    have hne : ∀ k ∈ ks, roundOf M St k ≠ roundOf M St r.1 := by
      intro k hk he
      rw [← he] at hnd
      exact hnd.1 (List.mem_map_of_mem hk)
    rw [htaken1 _ hne,(hin r hr).2]
  obtain ⟨party',l2,res,c',hcomplete,h2,hcomp,_⟩ :=
    complete_spec hlaw ⟨⟩ h1 hreg htaken (hobeys r hr)
  have hregd1 : l1.Registered = fun n => ∃ r' ∈ regs, roundOf M St r'.1 = n := by
    rw [← hregd]
    unfold Ledger.Registered
    rw [hreg1]
  rw [hregd1] at hcomp
  refine ⟨party,party',c,c',res,?_,h1.incomings_eq,h1.reading.le,hcomplete,h2.incomings_eq,
    h2.reading.le,hcomp⟩
  rw [hadd]
  exact hall

open RandomGeneration in
/-- The decommitment overtakes the commitment, and round 2 is completed first. -/
theorem complete_semantics_random_generation :
    ∃ (s1 : Store .round1) (s2 : Store .round2) (stream : List (Except Unit (Incoming Msg)))
      (regs : List ((k : RoundKind) × Store k)) (party party' : MpcParty Msg Store Unit)
      (c c' : ℕ) (res : RoundResult (Store .round1) Unit),
      RoundInput.reliableBroadcast 0 2 = .ok s1 ∧ RoundInput.broadcast 0 2 = .ok s2 ∧
      stream = [.ok ⟨0,1,.broadcast false,.decommitMsg ⟨Vector.replicate 32 0⟩⟩,
        .ok ⟨1,1,.broadcast true,.commitMsg ⟨Vector.replicate 32 1⟩⟩] ∧
      regs = [⟨.round1,s1⟩,⟨.round2,s2⟩] ∧
      ((MpcParty.connected stream []).addRounds regs).bind
        (fun party => party.completeAll [.round2]) = .ok party ∧
      party.complete (⟨⟩ : Round RoundKind.round1) = .ok (party',res) ∧
      Completes (fun n => ∃ r' ∈ regs, roundOf Msg Store r'.1 = n) stream s1 c res c' := by
  obtain ⟨s1,h1⟩ : ∃ s : Store .round1, RoundInput.reliableBroadcast 0 2 = .ok s := ⟨_,rfl⟩
  obtain ⟨s2,h2⟩ : ∃ s : Store .round2, RoundInput.broadcast 0 2 = .ok s := ⟨_,rfl⟩
  let stream : List (Except Unit (Incoming Msg)) :=
    [.ok ⟨0,1,.broadcast false,.decommitMsg ⟨Vector.replicate 32 0⟩⟩,
      .ok ⟨1,1,.broadcast true,.commitMsg ⟨Vector.replicate 32 1⟩⟩]
  let regs : List ((k : RoundKind) × Store k) := [⟨.round1,s1⟩,⟨.round2,s2⟩]
  have hks : ∀ k ∈ [RoundKind.round2], ∃ r' ∈ regs, r'.1 = k := by
    intro k hk
    exact ⟨⟨.round2,s2⟩,by simp [regs],(List.mem_singleton.mp hk).symm⟩
  obtain ⟨party,party',c,c',res,hall,_,_,hcomplete,_,_,hcomp⟩ :=
    complete_semantics (M := Msg) regs (show [(0 : UInt16),1].Nodup by decide)
      (fun r _ => RoundInput.obeys r.2) stream [] [.round2] ⟨.round1,s1⟩
      (List.mem_cons_self ..) hks (show [(0 : UInt16),1].Nodup by decide)
  exact ⟨s1,s2,stream,regs,party,party',c,c',res,h1,h2,rfl,rfl,hall,hcomplete,hcomp⟩

end RoundBased
