import RoundBased.OutputOrigin

/-! A network in which some parties are corrupted. Channels are authenticated: a message that is
received in the name of an honest party was handed by it to its channel. Whatever else is received,
how often and in which order, is up to the corrupted parties. -/
namespace RoundBased
open Interaction RoundsRouter Transition

variable {ι M A : Type} {St : ι → Type} [∀ k, RoundStore (St k)] {IoErr : Type}

/-- The message an operation hands to the channel, even if sending it fails. -/
def offeredBy : NodeEvent St IoErr M → Option (Outgoing M)
  | ⟨.send msg,_⟩ => some msg
  | ⟨.enqueue msg,_⟩ => some msg
  | _ => none

namespace Node

/-- The messages the party has handed to its channels. -/
def offered (self : Node St IoErr M A) : List (Outgoing M) := self.history.filterMap offeredBy

/-- An operation fails: a message cannot be sent, or the stream yields an error or ends. -/
inductive Fails (self : Node St IoErr M A) : Node St IoErr M A → Prop
  | send {msg : Outgoing M} {cont : Except IoErr Unit → NodeProg St IoErr M A} (err : IoErr) :
      self.activity = .running (.call (.send msg) cont) →
      Fails self (self.answer (.send msg) cont (.error err))
  | enqueue {msg : Outgoing M} {cont : Except IoErr Unit → NodeProg St IoErr M A} (err : IoErr) :
      self.activity = .running (.call (.enqueue msg) cont) →
      Fails self (self.answer (.enqueue msg) cont (.error err))
  | flush {cont : Except IoErr Unit → NodeProg St IoErr M A} (err : IoErr) :
      self.activity = .running (.call .flush cont) →
      Fails self (self.answer .flush cont (.error err))
  | io {k : ι} {cont : RoundResult (St k) IoErr → NodeProg St IoErr M A} (err : IoErr) :
      self.activity = .reading k cont →
      Fails self (self.answer (.complete k) cont (.error (.io err)))
  | eof {k : ι} {cont : RoundResult (St k) IoErr → NodeProg St IoErr M A} :
      self.activity = .reading k cont →
      Fails self (self.answer (.complete k) cont (.error .unexpectedEof))

variable {self node : Node St IoErr M A}

theorem fails_cases [∀ k, RoundMsg M (RoundInfo.Msg (St k))] (h : self.Fails node) :
    ∃ c cont ans, self.activity.prog = .call c cont ∧ node = self.answer c cont ans ∧
      returnedRound (⟨c,ans⟩ : NodeEvent St IoErr M) = none := by
  cases h with
  | send err ha => exact ⟨_,_,_,by rw [ha]; rfl,rfl,rfl⟩
  | enqueue err ha => exact ⟨_,_,_,by rw [ha]; rfl,rfl,rfl⟩
  | flush err ha => exact ⟨_,_,_,by rw [ha]; rfl,rfl,rfl⟩
  | io err ha => exact ⟨_,_,_,by rw [ha]; rfl,rfl,rfl⟩
  | eof ha => exact ⟨_,_,_,by rw [ha]; rfl,rfl,rfl⟩

theorem Advances.offered (h : self.Advances node) : ∃ more, node.offered = self.offered ++ more := by
  cases h with
  | waits hhistory _ => exact ⟨[],by rw [Node.offered,hhistory,List.append_nil]; rfl⟩
  | answered ans _ hhistory _ =>
    exact ⟨_,by rw [Node.offered,hhistory,List.filterMap_append]; rfl⟩

end Node

inductive CorruptedEvent (M : Type)
  | acts (p : PartyIndex)
  | fails (p : PartyIndex)
  | delivers (p : PartyIndex) (incoming : Incoming M)

/-- The message can be received by `p`: its sender is corrupted, or has handed it to the channel. -/
def Authentic (honest : PartyIndex → Prop) (nodes : PartyIndex → Node St IoErr M A) (p : PartyIndex)
    (incoming : Incoming M) : Prop :=
  honest incoming.sender →
    (incoming.msgType,incoming.msg) ∈ addressed p (nodes incoming.sender).offered

theorem Authentic.update {honest : PartyIndex → Prop} {nodes : PartyIndex → Node St IoErr M A}
    {p q : PartyIndex} {incoming : Incoming M} (h : Authentic honest nodes p incoming) {node : Node St IoErr M A}
    (ha : (nodes q).Advances node) :
    Authentic honest (Function.update nodes q node) p incoming := by
  intro hs
  by_cases he : incoming.sender = q
  · obtain ⟨more,hmore⟩ := ha.offered
    have hmem := h hs
    rw [he] at hmem
    rw [he,Function.update_self,hmore,addressed_append]
    exact List.mem_append_left _ hmem
  · rw [Function.update_of_ne he]
    exact h hs

variable [ProtocolMsg M] [∀ k, RoundMsg M (RoundInfo.Msg (St k))] [TypeIds St]

/-- An honest party makes a call, fails in it, or reads an authentic message. -/
def corruptedNetwork (honest : PartyIndex → Prop) (start : PartyIndex → Node St IoErr M A) :
    System (PartyIndex → Node St IoErr M A) (CorruptedEvent M) where
  init := start
  step nodes e nodes' :=
    match e with
    | .acts p => honest p ∧ ∃ node out, (nodes p).act = some (.ok (node,out)) ∧
      nodes' = Function.update nodes p node
    | .fails p => honest p ∧ ∃ node, (nodes p).Fails node ∧ nodes' = Function.update nodes p node
    | .delivers p incoming => honest p ∧ Authentic honest nodes p incoming ∧
      ∃ node, (nodes p).read incoming = some (.ok node) ∧ nodes' = Function.update nodes p node

section Execution

variable [DecidableEq M] {honest : PartyIndex → Prop} [DecidablePred honest]

/-- Carries out the events of the honest parties, as long as they are possible. The error of an
operation that fails is not determined by the event. -/
def execHonest (honest : PartyIndex → Prop) [DecidablePred honest]
    (nodes : PartyIndex → Node St IoErr M A) :
    List (CorruptedEvent M) → Option (PartyIndex → Node St IoErr M A)
  | [] => some nodes
  | .acts p :: es =>
    if honest p then
      match (nodes p).act with
      | some (.ok (node,_)) => execHonest honest (Function.update nodes p node) es
      | _ => none
    else none
  | .delivers p incoming :: es =>
    if honest p ∧ (honest incoming.sender →
        (incoming.msgType,incoming.msg) ∈ addressed p (nodes incoming.sender).offered) then
      match (nodes p).read incoming with
      | some (.ok node) => execHonest honest (Function.update nodes p node) es
      | _ => none
    else none
  | .fails _ :: _ => none

theorem execHonest_reachable {start nodes nodes' : PartyIndex → Node St IoErr M A}
    {es : List (CorruptedEvent M)} (h : execHonest honest nodes es = some nodes')
    (hr : (corruptedNetwork honest start).Reachable nodes) :
    (corruptedNetwork honest start).Reachable nodes' := by
  induction es generalizing nodes with
  | nil => cases h; exact hr
  | cons e es ih =>
    cases e with
    | acts p =>
      simp only [execHonest] at h
      split at h
      · rename_i hp
        split at h
        · rename_i node out hact
          exact ih h (hr.next (l := .acts p) ⟨hp,node,out,hact,rfl⟩)
        · cases h
      · cases h
    | delivers p incoming =>
      simp only [execHonest] at h
      split at h
      · rename_i hp
        split at h
        · rename_i node hread
          exact ih h (hr.next (l := .delivers p incoming) ⟨hp.1,hp.2,node,hread,rfl⟩)
        · cases h
      · cases h
    | fails p => cases h

end Execution

section Runs

variable {honest : PartyIndex → Prop} {start nodes nodes' : PartyIndex → Node St IoErr M A}
  {init : PartyIndex → UInt16 → Option ((k : ι) × St k)}
  {prog : PartyIndex → NodeProg St IoErr M A}

/-- What the step of a party comes to. -/
structure Moves (honest : PartyIndex → Prop) (nodes : PartyIndex → Node St IoErr M A)
    (p : PartyIndex) (node : Node St IoErr M A) : Prop where
  advances : (nodes p).Advances node
  explained : ∀ init, (nodes p).Explained init → node.Explained init
  received : ∀ incoming ∈ node.received,
    incoming ∈ (nodes p).received ∨ Authentic honest nodes p incoming

theorem step_moves {e : CorruptedEvent M} (h : (corruptedNetwork honest start).step nodes e nodes') :
    ∃ p node, honest p ∧ Moves honest nodes p node ∧ nodes' = Function.update nodes p node := by
  cases e with
  | acts p =>
    obtain ⟨hp,node,out,hact,rfl⟩ := h
    refine ⟨p,node,hp,⟨Node.act_advances hact,fun init h => h.act hact,fun x hx => .inl ?_⟩,rfl⟩
    rwa [← (Node.act_received hact).1]
  | fails p =>
    obtain ⟨hp,node,hfails,rfl⟩ := h
    obtain ⟨c,cont,ans,hprog,rfl,hans⟩ := Node.fails_cases hfails
    exact ⟨p,_,hp,⟨.answered ans hprog rfl rfl,fun init h => h.answer cont hans,
      fun x hx => .inl hx⟩,rfl⟩
  | delivers p incoming =>
    obtain ⟨hp,hauthentic,node,hread,rfl⟩ := h
    refine ⟨p,node,hp,⟨Node.read_advances hread,fun init h => h.read hread,fun x hx => ?_⟩,rfl⟩
    rw [(Node.read_received hread).1] at hx
    rcases List.mem_append.mp hx with hx | hx
    · exact .inl hx
    · rw [List.mem_singleton.mp hx]
      exact .inr hauthentic

/-- A party has run its program, over rounds that started with the stores `init`, and has received
authentic messages only. -/
structure Faithful (honest : PartyIndex → Prop) (init : UInt16 → Option ((k : ι) × St k))
    (prog : NodeProg St IoErr M A) (nodes : PartyIndex → Node St IoErr M A) (p : PartyIndex) :
    Prop where
  runs : (nodes p).Runs prog
  explained : (nodes p).Explained init
  authentic : ∀ incoming ∈ (nodes p).received, Authentic honest nodes p incoming

/-- In every reachable state all honest parties are faithful, whatever the corrupted ones do. -/
theorem faithful_of_reachable
    (hstart : ∀ p, honest p → ∃ l : Ledger M St, l.received = [] ∧ l.registered = init p ∧
      start p = Node.start l.router (prog p))
    (h : (corruptedNetwork honest start).Reachable nodes) :
    ∀ p, honest p → Faithful honest (init p) (prog p) nodes p := by
  apply h.invariant (P := fun nodes => ∀ p, honest p → Faithful honest (init p) (prog p) nodes p)
  · intro p hp
    obtain ⟨l,hreceived,hinit,hnode⟩ := hstart p hp
    refine ⟨?_,?_,fun x hx => ?_⟩
    · show (start p).Runs (prog p)
      rw [hnode]
      exact .refl
    · show (start p).Explained (init p)
      rw [hnode,← hinit]
      exact .start hreceived (prog p)
    · have hnone : x ∈ (start p).received := hx
      rw [hnode] at hnone
      cases hnone
  · intro nodes e nodes' ih hstep p hp
    obtain ⟨q,node,_,hmoves,rfl⟩ := step_moves hstep
    have hold := ih p hp
    by_cases he : p = q
    · subst he
      refine ⟨?_,?_,fun x hx => ?_⟩
      · rw [Function.update_self]
        exact hold.runs.advances hmoves.advances
      · rw [Function.update_self]
        exact hmoves.explained _ hold.explained
      · rw [Function.update_self] at hx
        rcases hmoves.received x hx with hx | hx
        · exact (hold.authentic x hx).update hmoves.advances
        · exact hx.update hmoves.advances
    · refine ⟨?_,?_,fun x hx => ?_⟩
      · rw [Function.update_of_ne he]
        exact hold.runs
      · rw [Function.update_of_ne he]
        exact hold.explained
      · rw [Function.update_of_ne he] at hx
        exact (hold.authentic x hx).update hmoves.advances

end Runs

end RoundBased
