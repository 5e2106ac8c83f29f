import Mathlib.Data.List.Perm.Basic
import RoundBased.SimulationIndexes
import RoundBased.StateMachine

/-! What the simulation delivers: every party gets one copy of each message that is meant for it, in
the order in which they were sent. -/
namespace RoundBased
open Transition

variable {P O M : Type}

def SimEvent.pos : SimEvent O M → ℕ
  | .received pos _ _ => pos
  | .proceeded pos _ _ => pos

def SimEvent.msg? : SimEvent O M → Option (Incoming M)
  | .received _ _ msg => some msg
  | _ => none

def SimEvent.send? : SimEvent O M → Option (UInt16 × Outgoing M)
  | .proceeded _ i (.sendMsg msg) => some (i,msg)
  | _ => none

namespace Simulation

/-- The calls of one party. -/
def callsOf (es : List (Option (SimEvent O M))) (p : ℕ) : List (SimEvent O M) :=
  (es.filterMap id).filter fun e => e.pos = p

/-- The messages passed to one party. -/
def receivedBy (es : List (Option (SimEvent O M))) (p : ℕ) : List (Incoming M) :=
  (callsOf es p).filterMap SimEvent.msg?

/-- The messages that were sent, with the indexes of their senders. -/
def sendsOf (es : List (Option (SimEvent O M))) : List (UInt16 × Outgoing M) :=
  (es.filterMap id).filterMap SimEvent.send?

/-- What is due to one party. -/
def dueTo (es : List (Option (SimEvent O M))) (p : ℕ) : List (UInt16 × MessageType × M) :=
  (sendsOf es).flatMap fun x => copies x.1 x.2 p

/-- How many messages are delivered to `n` parties. -/
def deliveries (n : ℕ) (es : List (Option (SimEvent O M))) : ℕ :=
  ((sendsOf es).map fun x => ((List.range n).flatMap (copies x.1 x.2)).length).sum

/-- The messages passed to one party and those in its queue. -/
def given (es : List (Option (SimEvent O M))) (s : Simulation P O M) (p : ℕ) : List (Incoming M) :=
  receivedBy es p ++ s.messagesQueue.queue.getD p []

/-- Exactly one copy of every message has been given to the parties, under an id of its own. -/
structure Delivers (n : ℕ) (es : List (Option (SimEvent O M))) (s : Simulation P O M) : Prop where
  content : ∀ p < n, (given es s p).map Incoming.content = dueTo es p
  ids : deliveries n es < 2 ^ 64 → s.messagesQueue.nextId.toNat = deliveries n es ∧
    ((List.range n).flatMap fun p => (given es s p).map fun m => m.id.toNat).Perm
      (List.range (deliveries n es))

section Snoc

variable {es : List (Option (SimEvent O M))}

theorem callsOf_none (p : ℕ) : callsOf (es ++ [none]) p = callsOf es p := by
  simp [callsOf]

theorem callsOf_some (ev : SimEvent O M) (p : ℕ) :
    callsOf (es ++ [some ev]) p = callsOf es p ++ if ev.pos = p then [ev] else [] := by
  by_cases h : ev.pos = p <;> simp [callsOf,h]

theorem receivedBy_none (p : ℕ) : receivedBy (es ++ [none]) p = receivedBy es p := by
  rw [receivedBy,callsOf_none,receivedBy]

theorem receivedBy_received (pos p : ℕ) (i : UInt16) (msg : Incoming M) :
    receivedBy (es ++ [some (.received pos i msg)]) p =
      receivedBy es p ++ if pos = p then [msg] else [] := by
  by_cases h : pos = p <;> simp [receivedBy,callsOf_some,SimEvent.pos,SimEvent.msg?,h]

theorem receivedBy_proceeded (pos p : ℕ) (i : UInt16) (res : ProceedResult O M) :
    receivedBy (es ++ [some (.proceeded pos i res)]) p = receivedBy es p := by
  by_cases h : pos = p <;> simp [receivedBy,callsOf_some,SimEvent.pos,SimEvent.msg?,h]

theorem sendsOf_snoc {e : Option (SimEvent O M)} (h : e.bind SimEvent.send? = none) :
    sendsOf (es ++ [e]) = sendsOf es := by
  cases e with
  | none => simp [sendsOf]
  | some ev =>
    have hev : ev.send? = none := h
    simp [sendsOf,hev]

theorem sendsOf_send (pos : ℕ) (i : UInt16) (msg : Outgoing M) :
    sendsOf (es ++ [some (.proceeded pos i (.sendMsg msg))]) = sendsOf es ++ [(i,msg)] := by
  simp [sendsOf,SimEvent.send?]

end Snoc

theorem Delivers.keep {n : ℕ} {es : List (Option (SimEvent O M))} {s s' : Simulation P O M}
    {e : Option (SimEvent O M)} (h : Delivers n es s) (he : e.bind SimEvent.send? = none)
    (hid : s'.messagesQueue.nextId = s.messagesQueue.nextId)
    (hg : ∀ p, given (es ++ [e]) s' p = given es s p) : Delivers n (es ++ [e]) s' := by
  have hsends : sendsOf (es ++ [e]) = sendsOf es := sendsOf_snoc he
  refine ⟨fun p hp => ?_,fun hd => ?_⟩
  · rw [hg,h.content p hp,dueTo,dueTo,hsends]
  · rw [deliveries,hsends] at hd ⊢
    rw [hid]
    simp only [hg]
    exact h.ids hd

theorem flatMap_getD {A B : Type} (f : A → B) (xss : List (List A)) :
    (List.range xss.length).flatMap (fun p => (xss.getD p []).map f) = xss.flatten.map f := by
  induction xss with
  | nil => rfl
  | cons xs xss ih =>
    rw [List.length_cons,List.range_succ_eq_map,List.flatMap_cons,List.flatMap_map,
      List.flatten_cons,List.map_append]
    simpa using ih

theorem Delivers.send {n pos : ℕ} {es : List (Option (SimEvent O M))} {s s' : Simulation P O M}
    {i : UInt16} {msg : Outgoing M} (h : Delivers n es s) (hn : s.messagesQueue.queue.length = n)
    {adds : List (List (Incoming M))} (ha : Appends (copies i msg) s.messagesQueue.nextId.toNat
      s'.messagesQueue.nextId.toNat s.messagesQueue.queue s'.messagesQueue.queue adds) :
    Delivers n (es ++ [some (.proceeded pos i (.sendMsg msg))]) s' := by
  have hlen : adds.length = n := ha.length.trans hn
  have hg : ∀ p < n, given (es ++ [some (.proceeded pos i (.sendMsg msg))]) s' p =
      given es s p ++ adds.getD p [] := by
    intro p hp
    have hq : p < s.messagesQueue.queue.length := hn ▸ hp
    have hadds : p < adds.length := hlen ▸ hp
    rw [given,given,receivedBy_proceeded,ha.queues_eq,List.append_assoc]
    congr 1
    rw [List.getD_eq_getElem?_getD,List.getElem?_zipWith,List.getD_eq_getElem?_getD,
      List.getD_eq_getElem?_getD,List.getElem?_eq_getElem hq,List.getElem?_eq_getElem hadds]
    rfl
  have hmap : ∀ p < n, (adds.getD p []).map Incoming.content = copies i msg p := by
    intro p hp
    have hadds : p < adds.length := hlen ▸ hp
    rw [List.getD_eq_getElem?_getD,List.getElem?_eq_getElem hadds]
    exact ha.content_eq p hadds
  have hcount : deliveries n (es ++ [some (.proceeded pos i (.sendMsg msg))]) =
      deliveries n es + adds.flatten.length := by
    have hall : (List.range n).flatMap (copies i msg) = adds.flatten.map Incoming.content := by
      rw [← flatMap_getD,hlen]
      exact List.flatMap_congr fun p hp => (hmap p (List.mem_range.mp hp)).symm
    rw [deliveries,sendsOf_send,List.map_append,List.sum_append,deliveries,List.map_singleton,
      List.sum_singleton,hall,List.length_map]
  refine ⟨fun p hp => ?_,fun hd => ?_⟩
  · rw [hg p hp,List.map_append,h.content p hp,hmap p hp,dueTo,dueTo,sendsOf_send,
      List.flatMap_append,List.flatMap_singleton]
  · rw [hcount] at hd ⊢
    obtain ⟨hid,hperm⟩ := h.ids (by omega)
    obtain ⟨hids,hid'⟩ := ha.ids (by omega)
    refine ⟨hid'.trans (by rw [hid]),?_⟩
    have hsplit : ((List.range n).flatMap fun p => (given (es ++
        [some (.proceeded pos i (.sendMsg msg))]) s' p).map fun m => m.id.toNat) =
        (List.range n).flatMap fun p => ((given es s p).map fun m => m.id.toNat) ++
          (adds.getD p []).map fun m => m.id.toNat :=
      List.flatMap_congr fun p hp => by rw [hg p (List.mem_range.mp hp),List.map_append]
    have hnew : ((List.range n).flatMap fun p => (adds.getD p []).map fun m => m.id.toNat) =
        List.range' (deliveries n es) adds.flatten.length := by
      rw [← hlen,flatMap_getD,hids,hid,hlen]
    have hrange : List.range (deliveries n es + adds.flatten.length) =
        List.range (deliveries n es) ++ List.range' (deliveries n es) adds.flatten.length := by
      rw [List.range_eq_range',List.range_eq_range',← List.range'_append_1,Nat.zero_add]
    rw [hsplit,hrange,← hnew]
    exact (List.flatMap_append_perm _ _ _).symm.trans (hperm.append_right _)

/-- What the calls of the parties tell about their states. -/
structure Called (n : ℕ) (es : List (Option (SimEvent O M))) (s : Simulation P O M) : Prop where
  waiting : ∀ p < n, ∀ party, s.parties[p]? = some (.active party true) →
    ∃ i, (callsOf es p).getLast? = some (.proceeded p i .needsOneMoreMessage)
  finished : ∀ p < n, ∀ out, s.parties[p]? = some (.finished out) →
    ∃ i, (callsOf es p).getLast? = some (.proceeded p i (.output out))
  running : ∀ iter i pos, s.phase = .proceed iter i pos → ∀ party w,
    s.parties[pos]? = some (.active party w) → w = false
  received : ∀ before pos i msg after, es = before ++ some (.received pos i msg) :: after →
    ∃ j, (callsOf before pos).getLast? = some (.proceeded pos j .needsOneMoreMessage)

theorem received_snoc {es : List (Option (SimEvent O M))} {e : Option (SimEvent O M)}
    (h : ∀ before pos i msg after, es = before ++ some (.received pos i msg) :: after →
      ∃ j, (callsOf before pos).getLast? = some (.proceeded pos j .needsOneMoreMessage))
    (he : ∀ pos i msg, e = some (.received pos i msg) →
      ∃ j, (callsOf es pos).getLast? = some (.proceeded pos j .needsOneMoreMessage))
    (before : List (Option (SimEvent O M))) (pos : ℕ) (i : UInt16) (msg : Incoming M)
    (after : List (Option (SimEvent O M)))
    (hsplit : es ++ [e] = before ++ some (.received pos i msg) :: after) :
    ∃ j, (callsOf before pos).getLast? = some (.proceeded pos j .needsOneMoreMessage) := by
  rcases List.eq_nil_or_concat after with rfl | ⟨after,last,rfl⟩
  · obtain ⟨rfl,hlast⟩ := List.append_inj' hsplit rfl
    exact he pos i msg (List.cons.inj hlast).1
  · have hassoc : before ++ some (.received pos i msg) :: after.concat last =
        (before ++ some (.received pos i msg) :: after) ++ [last] := by simp
    rw [hassoc] at hsplit
    exact h before pos i msg after (List.append_inj' hsplit rfl).1

theorem Called.silent {n : ℕ} {es : List (Option (SimEvent O M))} {s s' : Simulation P O M}
    (h : Called n es s) (hp : s'.parties = s.parties)
    (hphase : ∀ iter i pos, s'.phase = .proceed iter i pos → ∀ party w,
      s.parties[pos]? = some (.active party w) → w = false) : Called n (es ++ [none]) s' := by
  refine ⟨fun p hlt party hparty => ?_,fun p hlt out hparty => ?_,fun iter i pos hpos => ?_,
    received_snoc h.received fun pos i msg he => by cases he⟩
  · rw [hp] at hparty
    rw [callsOf_none]
    exact h.waiting p hlt party hparty
  · rw [hp] at hparty
    rw [callsOf_none]
    exact h.finished p hlt out hparty
  · rw [hp]
    exact hphase iter i pos hpos

theorem Called.call {n pos : ℕ} {es : List (Option (SimEvent O M))} {s s' : Simulation P O M}
    {ev : SimEvent O M} {q : Party P O} (h : Called n es s) (hev : ev.pos = pos)
    (hp : s'.parties = s.parties.set pos q)
    (hwait : ∀ party, q = .active party true → ∃ i, ev = .proceeded pos i .needsOneMoreMessage)
    (hfin : ∀ out, q = .finished out → ∃ i, ev = .proceeded pos i (.output out))
    (hphase : ∀ iter i pos', s'.phase = .proceed iter i pos' → pos' = pos ∧
      ∀ party w, q = .active party w → w = false)
    (hreceived : ∀ i msg, ev = .received pos i msg →
      ∃ j, (callsOf es pos).getLast? = some (.proceeded pos j .needsOneMoreMessage)) :
    Called n (es ++ [some ev]) s' := by
  have hself : ∀ r, s'.parties[pos]? = some r → r = q := by
    intro r hr
    rw [hp,List.getElem?_set,if_pos rfl] at hr
    split at hr
    · exact (Option.some.inj hr).symm
    · cases hr
  have hother : ∀ p, p ≠ pos → s'.parties[p]? = s.parties[p]? ∧
      callsOf (es ++ [some ev]) p = callsOf es p := by
    intro p hne
    refine ⟨by rw [hp,List.getElem?_set_ne (Ne.symm hne)],?_⟩
    rw [callsOf_some,hev,if_neg (Ne.symm hne),List.append_nil]
  have hlast : (callsOf (es ++ [some ev]) pos).getLast? = some ev := by
    rw [callsOf_some,if_pos hev,List.getLast?_append]
    rfl
  refine ⟨fun p hlt party hparty => ?_,fun p hlt out hparty => ?_,
    fun iter i pos' hpos party w hparty => ?_,received_snoc h.received ?_⟩
  · by_cases hpos : p = pos
    · subst hpos
      obtain ⟨i,rfl⟩ := hwait party (hself _ hparty).symm
      exact ⟨i,hlast⟩
    · obtain ⟨hget,hcalls⟩ := hother p hpos
      rw [hget] at hparty
      rw [hcalls]
      exact h.waiting p hlt party hparty
  · by_cases hpos : p = pos
    · subst hpos
      obtain ⟨i,rfl⟩ := hfin out (hself _ hparty).symm
      exact ⟨i,hlast⟩
    · obtain ⟨hget,hcalls⟩ := hother p hpos
      rw [hget] at hparty
      rw [hcalls]
      exact h.finished p hlt out hparty
  · obtain ⟨rfl,hw⟩ := hphase iter i pos' hpos
    exact hw party w (hself _ hparty).symm
  · intro pos' i msg he
    have hev' : ev = .received pos' i msg := Option.some.inj he
    have hpos : pos' = pos := by rw [← hev,hev',SimEvent.pos]
    subst hpos
    exact hreceived i msg hev'

theorem Stepped.called [Build] {n : ℕ} {machine : StateMachine P O M} {s s' : Simulation P O M}
    {e : Option (SimEvent O M)} {es : List (Option (SimEvent O M))} (hwf : WellFormed n s)
    (h : Called n es s) (hs : Stepped machine s e s') : Called n (es ++ [e]) s' := by
  have hplaced := hwf.placed
  cases hs with
  | pass => exact h.silent rfl fun _ _ _ hp => by cases hp
  | passOver => exact h.silent rfl fun _ _ _ hp => by cases hp
  | party => exact h.silent rfl fun _ _ _ hp => by cases hp
  | blocked => exact h.silent rfl fun _ _ _ hp => by cases hp
  | inactive => exact h.silent rfl fun _ _ _ hp => by cases hp
  | resumes hp hparty =>
    refine h.silent rfl fun _ _ _ hp party w hw => ?_
    cases hp
    rw [hparty] at hw
    cases hw
    rfl
  | receives hp hparty hq hm =>
    rw [hp] at hplaced
    refine h.call rfl rfl (fun _ hq => by cases hq) (fun _ hq => by cases hq) ?_
      fun _ _ _ => h.waiting _ hplaced.2.1 _ hparty
    intro _ _ _ hp
    cases hp
    exact ⟨rfl,fun _ _ hq => by cases hq; rfl⟩
  | sends hp hparty hm hq =>
    have hw := h.running _ _ _ hp _ _ hparty
    subst hw
    exact h.call rfl rfl (fun _ hq => by cases hq) (fun _ hq => by cases hq)
      (fun _ _ _ hp => by cases hp) fun _ _ he => by cases he
  | waits hp hparty hm =>
    exact h.call rfl rfl (fun _ _ => ⟨_,rfl⟩) (fun _ hq => by cases hq)
      (fun _ _ _ hp => by cases hp) fun _ _ he => by cases he
  | outputs hp hparty hm =>
    exact h.call rfl rfl (fun _ hq => by cases hq) (fun _ hq => by cases hq; exact ⟨_,rfl⟩)
      (fun _ _ _ hp => by cases hp) fun _ _ he => by cases he
  | yields hp hparty hm =>
    have hw := h.running _ _ _ hp _ _ hparty
    subst hw
    exact h.call rfl rfl (fun _ hq => by cases hq) (fun _ hq => by cases hq)
      (fun _ _ _ hp => by cases hp) fun _ _ he => by cases he

theorem Stepped.delivers [Build] {n : ℕ} (hn : n ≤ 65535) {machine : StateMachine P O M}
    {s s' : Simulation P O M} {e : Option (SimEvent O M)} {es : List (Option (SimEvent O M))}
    (hwf : WellFormed n s) (h : Delivers n es s) (hs : Stepped machine s e s') :
    Delivers n (es ++ [e]) s' := by
  have hplaced := hwf.placed
  have hsilent : ∀ p, given (es ++ [none]) s p = given es s p := by
    intro p
    rw [given,receivedBy_none,given]
  cases hs with
  | pass => exact h.keep rfl rfl hsilent
  | passOver => exact h.keep rfl rfl hsilent
  | party => exact h.keep rfl rfl hsilent
  | blocked => exact h.keep rfl rfl hsilent
  | inactive => exact h.keep rfl rfl hsilent
  | resumes => exact h.keep rfl rfl hsilent
  | @receives _ i pos _ _ _ msg hp hparty hq hm =>
    rw [hp] at hplaced
    obtain ⟨rest,hget,rfl⟩ := recvNextMsg_some hq
    rw [hplaced.1] at hget
    have hlt := (List.getElem?_eq_some_iff.mp hget).1
    refine h.keep rfl rfl fun p => ?_
    rw [given,given,receivedBy_received,hplaced.1]
    -- the first message of the queue is now the last one received
    by_cases hpos : pos = p
    · subst hpos
      simp only [if_true,List.getD_eq_getElem?_getD,List.getElem?_set_self hlt,hget,
        Option.getD_some,List.append_assoc,List.singleton_append]
    · simp only [hpos,if_false,List.append_nil,List.getD_eq_getElem?_getD,
        List.getElem?_set_ne hpos]
  | sends hp hparty hm hq =>
    obtain ⟨adds,ha⟩ := MessagesQueue.sendMessage_ok hq (by rw [hwf.queues]; exact hn)
    exact h.send hwf.queues ha
  | waits =>
    refine h.keep rfl rfl fun p => ?_
    rw [given,receivedBy_proceeded]
    rfl
  | outputs =>
    refine h.keep rfl rfl fun p => ?_
    rw [given,receivedBy_proceeded]
    rfl
  | yields =>
    refine h.keep rfl rfl fun p => ?_
    rw [given,receivedBy_proceeded]
    rfl

/-- A machine that takes a message whenever it has asked for one, as long as it is in a good state. -/
structure Takes (machine : StateMachine P O M) (Good Ready : P → Prop) : Prop where
  proceed : ∀ party party' res, Good party → machine.proceed party = some (party',res) →
    Good party' ∧ (res = .needsOneMoreMessage → Ready party')
  receivedMsg : ∀ party msg, Ready party →
    ∃ party', machine.receivedMsg party msg = (party',.ok ()) ∧ Good party'

/-- The party at the position is in a good state, and ready if it waits. -/
def InGoodState (Good Ready : P → Prop) (pos : ℕ) (s : Simulation P O M) : Prop :=
  ∀ party w, s.parties[pos]? = some (.active party w) → Good party ∧ (w = true → Ready party)

theorem Stepped.good [Build] {machine : StateMachine P O M} {Good Ready : P → Prop}
    (ht : Takes machine Good Ready) {n p : ℕ} {es : List (Option (SimEvent O M))}
    {s s' : Simulation P O M} {e : Option (SimEvent O M)} (hc : Called n es s)
    (h : InGoodState Good Ready p s) (hs : Stepped machine s e s') : InGoodState Good Ready p s' := by
  have hset : ∀ {pos q} {t : Simulation P O M}, t.parties = s.parties.set pos q →
      (pos = p → ∀ party w, q = .active party w → Good party ∧ (w = true → Ready party)) →
      InGoodState Good Ready p t := by
    intro pos q t hparties hq party w hparty
    rw [hparties,List.getElem?_set] at hparty
    split at hparty
    · rename_i hpos
      split at hparty
      · exact hq hpos party w (Option.some.inj hparty)
      · cases hparty
    · exact h party w hparty
  cases hs with
  | pass => exact h
  | passOver => exact h
  | party => exact h
  | blocked => exact h
  | inactive => exact h
  | resumes => exact h
  | receives hp hparty hq hm =>
    refine hset rfl fun hpos party w hw => ?_
    subst hpos
    obtain ⟨party',htaken,hgood⟩ := ht.receivedMsg _ _ ((h _ _ hparty).2 rfl)
    rw [hm] at htaken
    cases htaken
    cases hw
    exact ⟨hgood,fun hf => by cases hf⟩
  | sends hp hparty hm hq =>
    have hfalse := hc.running _ _ _ hp _ _ hparty
    subst hfalse
    refine hset rfl fun hpos party w hw => ?_
    subst hpos
    cases hw
    exact ⟨(ht.proceed _ _ _ (h _ _ hparty).1 hm).1,fun hf => by cases hf⟩
  | waits hp hparty hm =>
    refine hset rfl fun hpos party w hw => ?_
    subst hpos
    cases hw
    obtain ⟨hgood,hready⟩ := ht.proceed _ _ _ (h _ _ hparty).1 hm
    exact ⟨hgood,fun _ => hready rfl⟩
  | outputs => exact hset rfl fun _ _ _ hw => by cases hw
  | yields hp hparty hm =>
    have hfalse := hc.running _ _ _ hp _ _ hparty
    subst hfalse
    refine hset rfl fun hpos party w hw => ?_
    subst hpos
    cases hw
    exact ⟨(ht.proceed _ _ _ (h _ _ hparty).1 hm).1,fun hf => by cases hf⟩

/-- The party is one that `wrapProtocol` has built: it polls a protocol. -/
def WrapsProtocol [Build] (machine : StateMachine P O M) (party : P) : Prop :=
  ∃ (S : Type) (protocol : S → Resume S M O) (start : S) (f : StateMachineImpl S M → P),
    party = f (wrapProtocol start) ∧
    (∀ st r, machine.proceed (f st) = some r → ∃ fuel st' es,
      st.proceed protocol fuel = some (.ok (st',r.2,es)) ∧ r.1 = f st') ∧
    ∀ st msg, machine.receivedMsg (f st) msg = (f (st.receivedMsg msg).1,(st.receivedMsg msg).2)

/-- A machine that polls a protocol, as long as the fuel is enough for a poll. -/
def wrapped [Build] {S : Type} (protocol : S → Resume S M O) (fuel : ℕ) :
    StateMachine (StateMachineImpl S M) O M where
  proceed st :=
    match st.proceed protocol fuel with
    | some (.ok (st,res,_)) => some (st,res)
    | _ => none
  receivedMsg := StateMachineImpl.receivedMsg

theorem wrapped_wraps [Build] {S : Type} (protocol : S → Resume S M O) (fuel : ℕ) (start : S) :
    WrapsProtocol (wrapped protocol fuel) (wrapProtocol start) := by
  refine ⟨S,protocol,start,id,rfl,fun st r hr => ?_,fun st msg => rfl⟩
  simp only [wrapped,id] at hr
  split at hr
  · rename_i st' res es hproceed
    cases hr
    exact ⟨fuel,st',es,hproceed,rfl⟩
  · cases hr

/-- A party built by `wrapProtocol` takes every message it has asked for. -/
theorem WrapsProtocol.takes [Build] {machine : StateMachine P O M} {party : P}
    (h : WrapsProtocol machine party) :
    ∃ Good Ready : P → Prop, Good party ∧ Takes machine Good Ready := by
  obtain ⟨S,protocol,start,f,rfl,hproceed,hreceived⟩ := h
  let Good : P → Prop := fun p => ∃ st log, p = f st ∧
    Follows protocol start log st.future st.sharedState ∧ Quiet st.future st.sharedState
  let Ready : P → Prop := fun p => ∃ st log, p = f st ∧
    Follows protocol start log st.future st.sharedState ∧ Quiet st.future st.sharedState ∧
    ∀ msg, (st.receivedMsg msg).2 = .ok ()
  refine ⟨Good,Ready,⟨_,_,rfl,follows_wrapProtocol protocol start⟩,?_,?_⟩
  · rintro _ party' res ⟨st,log,rfl,hf,hq⟩ hp
    obtain ⟨fuel,st',es,hst,hparty'⟩ := hproceed _ _ hp
    rcases proceed_cases fuel hf hq with ⟨hnone,_⟩ | ⟨st'',res',es',hsome,hf',hq',ha⟩
    · rw [hnone] at hst
      cases hst
    · rw [hst] at hsome
      cases hsome
      exact ⟨⟨st',_,hparty',hf',hq'⟩,fun hres => ⟨st',_,hparty',hf',hq',(ha.requested hres).2.2⟩⟩
  · rintro _ msg ⟨st,log,rfl,hf,hq,hok⟩
    rcases receivedMsg_cases hf hq msg with ⟨_,hf',hq'⟩ | hsame
    · exact ⟨f (st.receivedMsg msg).1,by rw [hreceived,hok msg],_,_,rfl,hf',hq'⟩
    · have hmsg := hok msg
      rw [hsame] at hmsg
      cases hmsg

theorem delivers_start (parties : List P) :
    Delivers parties.length [] (start parties : Simulation P O M) := by
  have hgiven : ∀ p, given [] (start parties : Simulation P O M) p = [] := by
    intro p
    simp [given,receivedBy,callsOf,start,MessagesQueue.new,List.getD_eq_getElem?_getD,
      List.getElem?_replicate]
    split <;> rfl
  refine ⟨fun p _ => ?_,fun _ => ⟨rfl,?_⟩⟩
  · rw [hgiven]
    rfl
  · simp only [hgiven]
    simp [deliveries,sendsOf]

theorem called_start (parties : List P) :
    Called parties.length [] (start parties : Simulation P O M) := by
  refine ⟨fun p _ party hp => ?_,fun p _ out hp => ?_,fun _ _ _ hp => (by cases hp),?_⟩
  · simp [start] at hp
  · simp [start] at hp
  · intro before pos i msg after he
    cases before <;> cases he

theorem run_delivers [Build] {machine : StateMachine P O M} {parties : List P}
    (hn : parties.length ≤ 65535) {es : List (Option (SimEvent O M))} {s : Simulation P O M}
    (hrun : Run (running machine parties) (start parties) es s) :
    Delivers parties.length es s ∧ Called parties.length es s := by
  apply hrun.invariant (P := fun es s => Delivers parties.length es s ∧ Called parties.length es s)
  · exact ⟨delivers_start parties,called_start parties⟩
  · rintro es s e s' hrun ⟨hd,hc⟩ hs
    have hwf := (run_wellFormed hn hrun).1
    have hstep := stepped_of_step hs
    exact ⟨hstep.delivers hn hwf hd,hstep.called hwf hc⟩

/-- The run of a party that takes what it asks for never fails to save a message. -/
theorem takes_messages [Build] {machine : StateMachine P O M} {parties : List P}
    (hn : parties.length ≤ 65535) {es : List (Option (SimEvent O M))} {s : Simulation P O M}
    (hrun : Run (running machine parties) (start parties) es s) {pos : ℕ} {party : P}
    (hparty : parties[pos]? = some party) {Good Ready : P → Prop} (hgood : Good party)
    (ht : Takes machine Good Ready) : InGoodState Good Ready pos s := by
  apply hrun.invariant (P := fun _ s => InGoodState Good Ready pos s)
  · intro party' w hp
    simp only [start,List.getElem?_map,hparty,Option.map_some,Option.some.injEq,
      Party.active.injEq] at hp
    obtain ⟨rfl,rfl⟩ := hp
    exact ⟨hgood,fun hf => by cases hf⟩
  · intro es s e s' hrun h hs
    exact (stepped_of_step hs).good ht (run_delivers hn hrun).2 h

theorem collect_ok {parties : List (Party P O)} {outs : List O}
    (h : collect parties = .returned (.ok outs)) : parties = outs.map .finished := by
  induction parties generalizing outs with
  | nil => cases h; rfl
  | cons party parties ih =>
    cases party with
    | active party w => cases h
    | finished out =>
      simp only [collect] at h
      split at h
      · rename_i outs' hrest
        cases h
        rw [ih hrest,List.map_cons]
      · rename_i hnot
        exact absurd h (hnot outs)

/-- A message is only not saved by the party that is at its turn and waits. -/
theorem saveIncomingMsg_of_stopped [Build] {machine : StateMachine P O M} {n : ℕ}
    {s : Simulation P O M} (hwf : WellFormed n s)
    (h : Stopped machine s (.returned (.error .saveIncomingMsg))) :
    ∃ iter i pos party party' queue msg msg', s.phase = .thisParty iter i pos ∧
      s.parties[pos]? = some (.active party true) ∧
      s.messagesQueue.recvNextMsg i = .ok (queue,some msg) ∧
      machine.receivedMsg party msg = (party',.error msg') := by
  generalize ho : Outcome.returned (.error .saveIncomingMsg) = o at h
  cases h with
  | done hp hleft =>
    rw [hwf.left] at hleft
    obtain ⟨outs,houts,_⟩ := collect_finished (Nat.eq_zero_of_not_pos hleft)
    rw [houts] at ho
    cases ho
  | refused hp hparty hq hm => exact ⟨_,_,_,_,_,_,_,_,hp,hparty,hq,hm⟩
  | unknown hp hparty hm hq =>
    cases ho
    obtain ⟨_,_,he⟩ := MessagesQueue.sendMessage_error hq
    cases he
  | counter => cases ho
  | index => cases ho
  | send => cases ho
  | left => cases ho
  | failed => cases ho

theorem ok_of_stopped [Build] {machine : StateMachine P O M} {s : Simulation P O M} {outs : List O}
    (h : Stopped machine s (.returned (.ok outs))) :
    collect s.parties = .returned (.ok outs) := by
  generalize ho : Outcome.returned (.ok outs) = o at h
  cases h with
  | done => rfl
  | unknown => cases ho
  | refused => cases ho
  | counter => cases ho
  | index => cases ho
  | send => cases ho
  | left => cases ho
  | failed => cases ho

/-- At every point of a run every party has been given exactly one copy of each message that is
meant for it, in order, and under its own id. -/
theorem delivers_exactly_once [Build] (machine : StateMachine P O M) {parties : List P}
    (hn : parties.length < 65535) {es : List (Option (SimEvent O M))} {s : Simulation P O M}
    (hrun : Run (running machine parties) (start parties) es s) :
    Delivers parties.length es s ∧ (∀ e ∈ es, ∀ ev ∈ e, ev.InPlace) ∧
    Called parties.length es s ∧
    (s.step machine = some (.stops (.returned (.error .saveIncomingMsg))) →
      ∃ iter i pos party, s.phase = .thisParty iter i pos ∧ parties[pos]? = some party ∧
        (∃ j, (callsOf es pos).getLast? = some (.proceeded pos j .needsOneMoreMessage)) ∧
        ¬ WrapsProtocol machine party) ∧
    ∀ outs, s.step machine = some (.stops (.returned (.ok outs))) →
      outs.length = parties.length ∧ ∀ p < parties.length, ∃ out i, outs[p]? = some out ∧
        (callsOf es p).getLast? = some (.proceeded p i (.output out)) := by
  obtain ⟨hd,hc⟩ := run_delivers (Nat.le_of_lt hn) hrun
  obtain ⟨hwf,hplace⟩ := run_wellFormed (Nat.le_of_lt hn) hrun
  refine ⟨hd,hplace,hc,fun hstop => ?_,fun outs hstop => ?_⟩
  · obtain ⟨iter,i,pos,party,party',queue,msg,msg',hp,hparty,hq,hm⟩ :=
      saveIncomingMsg_of_stopped hwf (stopped_of_step hstop)
    have hplaced := hwf.placed
    rw [hp] at hplaced
    have hlt : pos < parties.length := hplaced.2.1
    have hget := List.getElem?_eq_getElem hlt
    refine ⟨iter,i,pos,parties[pos],hp,hget,hc.waiting pos hlt party hparty,fun hwraps => ?_⟩
    obtain ⟨Good,Ready,hgood,ht⟩ := hwraps.takes
    have hready := (takes_messages (Nat.le_of_lt hn) hrun hget hgood ht _ _ hparty).2 rfl
    obtain ⟨party'',htaken,_⟩ := ht.receivedMsg _ msg hready
    rw [hm] at htaken
    cases htaken
  · have hmap := collect_ok (ok_of_stopped (stopped_of_step hstop))
    have hlen : outs.length = parties.length := by
      rw [← hwf.parties,hmap,List.length_map]
    refine ⟨hlen,fun p hp => ?_⟩
    have hlt : p < outs.length := hlen ▸ hp
    have hout : outs[p]? = some outs[p] := List.getElem?_eq_getElem hlt
    have hparty : s.parties[p]? = some (.finished outs[p]) := by
      rw [hmap,List.getElem?_map,hout]
      rfl
    obtain ⟨i,hlast⟩ := hc.finished p hp _ hparty
    exact ⟨outs[p],i,hout,hlast⟩

/-- A party that broadcasts, and one that waits for a message. -/
def greeting : Option Bool → Resume (Option Bool) ℕ Unit
  | some true => .call (.send (.allParties 7)) fun _ => none
  | some false => .call .next fun _ => none
  | none => .ret ()

theorem delivers_greeting :
    letI : Build := .debug
    ∃ (es : List (Option (SimEvent Unit ℕ)))
      (s : Simulation (StateMachineImpl (Option Bool) ℕ) Unit ℕ),
      Run (running (wrapped greeting 3) ([some true,some false].map wrapProtocol))
        (start ([some true,some false].map wrapProtocol)) es s ∧
      receivedBy es 1 = [⟨0,0,.broadcast false,7⟩] ∧ Delivers 2 es s ∧
      s.step (wrapped greeting 3) ≠ some (.stops (.returned (.error .saveIncomingMsg))) := by
  let _ : Build := .debug
  have hrun := run_trace (wrapped greeting 3) ([some true,some false].map wrapProtocol) 12
    (start ([some true,some false].map wrapProtocol))
  obtain ⟨hdelivers,_,_,hrefused,_⟩ := delivers_exactly_once _ (by decide) hrun
  refine ⟨_,_,hrun,by decide,hdelivers,fun hstop => ?_⟩
  obtain ⟨_,_,_,party,_,hparty,_,hwraps⟩ := hrefused hstop
  obtain ⟨b,_,rfl⟩ := List.mem_map.mp (List.mem_of_getElem? hparty)
  exact hwraps (wrapped_wraps greeting 3 b)

end Simulation
end RoundBased
