import RoundBased.EchoBroadcast

/-! A party in a network. It runs a program over the operations of its engine and, while it
completes a round, takes the messages of the others one at a time. -/
namespace RoundBased
open Interaction RoundsRouter

/-- What the operations of a party return. -/
abbrev PartyAnswer {ι : Type} (St : ι → Type) [∀ k, RoundStore (St k)] (IoErr M : Type) :
    Call ι M → Type :=
  Answer (fun k => RoundResult (St k) IoErr) IoErr

/-- A program of a party. -/
abbrev NodeProg {ι : Type} (St : ι → Type) [∀ k, RoundStore (St k)] (IoErr M A : Type) : Type :=
  Prog (Call ι M) (PartyAnswer St IoErr M) Panic A

/-- An operation of a party and what it returned. -/
abbrev NodeEvent {ι : Type} (St : ι → Type) [∀ k, RoundStore (St k)] (IoErr M : Type) : Type :=
  Event (Call ι M) (PartyAnswer St IoErr M)

/-- A party is about to run its program, or it waits for messages to complete a round. -/
inductive Activity {ι : Type} (St : ι → Type) [∀ k, RoundStore (St k)] (IoErr M A : Type)
  | running (prog : NodeProg St IoErr M A)
  | reading (k : ι) (cont : RoundResult (St k) IoErr → NodeProg St IoErr M A)

/-- A party with what it has read and done so far. -/
structure Node {ι : Type} (St : ι → Type) [∀ k, RoundStore (St k)] (IoErr M A : Type) where
  router : RoundsRouter M St
  activity : Activity St IoErr M A
  received : List (Incoming M)
  history : List (NodeEvent St IoErr M)

variable {ι M A : Type} {St : ι → Type} [∀ k, RoundStore (St k)] {IoErr : Type}

/-- What is left of the program. -/
def Activity.prog : Activity St IoErr M A → NodeProg St IoErr M A
  | .running p => p
  | .reading k cont => .call (.complete k) cont

/-- The message an operation has sent. -/
def sentBy : NodeEvent St IoErr M → Option (Outgoing M)
  | ⟨.send msg,.ok ()⟩ => some msg
  | ⟨.enqueue msg,.ok ()⟩ => some msg
  | _ => none

namespace Node

def start (router : RoundsRouter M St) (prog : NodeProg St IoErr M A) : Node St IoErr M A :=
  ⟨router,.running prog,[],[]⟩

/-- The messages the party has sent. -/
def sent (self : Node St IoErr M A) : List (Outgoing M) := self.history.filterMap sentBy

def answer (self : Node St IoErr M A) (c : Call ι M)
    (k : PartyAnswer St IoErr M c → NodeProg St IoErr M A) (ans : PartyAnswer St IoErr M c) :
    Node St IoErr M A :=
  { self with activity := .running (k ans), history := self.history ++ [⟨c,ans⟩] }

variable [ProtocolMsg M] [∀ k, RoundMsg M (RoundInfo.Msg (St k))] [TypeIds St]

/-- The round is completed, or the party goes on reading. -/
def settle (self : Node St IoErr M A) (k : ι)
    (cont : RoundResult (St k) IoErr → NodeProg St IoErr M A)
    (r : RoundsRouter M St × Except (Round k) (RoundResult (St k) IoErr)) : Node St IoErr M A :=
  match r with
  | (router,.ok res) => ({ self with router := router }).answer (.complete k) cont res
  | (router,.error _) => { self with router := router, activity := .reading k cont }

/-- Makes a call, and tells which messages it sends. -/
def call (self : Node St IoErr M A) : (c : Call ι M) →
    (PartyAnswer St IoErr M c → NodeProg St IoErr M A) →
      Checked (Node St IoErr M A × List (Outgoing M))
  | .complete k,cont =>
    (checkCompleted self.router (⟨⟩ : Round k)).map fun r => (self.settle k cont r,[])
  | .send msg,cont => .ok (self.answer (.send msg) cont (.ok ()),[msg])
  | .enqueue msg,cont => .ok (self.answer (.enqueue msg) cont (.ok ()),[msg])
  | .flush,cont => .ok (self.answer .flush cont (.ok ()),[])
  | .yieldNow,cont => .ok (self.answer .yieldNow cont (),[])

/-- Runs the program up to the answer of its next call. -/
def act (self : Node St IoErr M A) : Option (Checked (Node St IoErr M A × List (Outgoing M))) :=
  match self.activity with
  | .running (.call c cont) => some (self.call c cont)
  | _ => none

/-- Takes a message, if the party waits for one. -/
def read (self : Node St IoErr M A) (incoming : Incoming M) :
    Option (Checked (Node St IoErr M A)) :=
  match self.activity with
  | .reading k cont =>
    some ((completeTurn self.router (⟨⟩ : Round k) (.ok incoming)).map fun r =>
      ({ self with received := self.received ++ [incoming] }).settle k cont r)
  | _ => none

omit [ProtocolMsg M] in
/-- A call is answered, or the party starts reading. -/
theorem act_cases {self node : Node St IoErr M A} {out : List (Outgoing M)}
    (h : self.act = some (.ok (node,out))) : ∃ c cont, self.activity = .running (.call c cont) ∧
      self.call c cont = .ok (node,out) := by
  unfold act at h
  split at h
  · rename_i c cont ha
    exact ⟨c,cont,ha,Option.some.inj h⟩
  · cases h

theorem read_cases {self node : Node St IoErr M A} {incoming : Incoming M}
    (h : self.read incoming = some (.ok node)) : ∃ k cont r, self.activity = .reading k cont ∧
      completeTurn self.router (⟨⟩ : Round k) (.ok incoming) = .ok r ∧
      node = ({ self with received := self.received ++ [incoming] }).settle k cont r := by
  unfold read at h
  split at h
  · rename_i k cont ha
    have hturn := Option.some.inj h
    cases hr : (completeTurn self.router (⟨⟩ : Round k) (.ok incoming) :
        Checked (RoundsRouter M St × Except (Round k) (RoundResult (St k) IoErr))) with
    | error p => rw [hr] at hturn; cases hturn
    | ok r =>
      rw [hr] at hturn
      exact ⟨k,cont,r,ha,hr,(Except.ok.inj hturn).symm⟩
  · cases h

omit [ProtocolMsg M] [∀ k, RoundMsg M (RoundInfo.Msg (St k))] [TypeIds St] in
theorem settle_received (self : Node St IoErr M A) (k : ι)
    (cont : RoundResult (St k) IoErr → NodeProg St IoErr M A)
    (r : RoundsRouter M St × Except (Round k) (RoundResult (St k) IoErr)) :
    (self.settle k cont r).received = self.received := by
  obtain ⟨router,res | res⟩ := r <;> rfl

omit [ProtocolMsg M] [∀ k, RoundMsg M (RoundInfo.Msg (St k))] [TypeIds St] in
theorem settle_sent (self : Node St IoErr M A) (k : ι)
    (cont : RoundResult (St k) IoErr → NodeProg St IoErr M A)
    (r : RoundsRouter M St × Except (Round k) (RoundResult (St k) IoErr)) :
    (self.settle k cont r).sent = self.sent := by
  obtain ⟨router,res | res⟩ := r
  · rfl
  · simp [settle,answer,sent,sentBy]

omit [ProtocolMsg M] in
theorem act_received {self node : Node St IoErr M A} {out : List (Outgoing M)}
    (h : self.act = some (.ok (node,out))) :
    node.received = self.received ∧ node.sent = self.sent ++ out := by
  obtain ⟨c,cont,_,hcall⟩ := act_cases h
  cases c with
  | complete k =>
    simp only [call] at hcall
    cases hr : (checkCompleted self.router (⟨⟩ : Round k) :
        Checked (RoundsRouter M St × Except (Round k) (RoundResult (St k) IoErr))) with
    | error p => rw [hr] at hcall; cases hcall
    | ok r =>
      rw [hr] at hcall
      cases hcall
      exact ⟨settle_received ..,(settle_sent ..).trans (List.append_nil _).symm⟩
  | send msg => cases hcall; exact ⟨rfl,by simp [sent,answer,sentBy]⟩
  | enqueue msg => cases hcall; exact ⟨rfl,by simp [sent,answer,sentBy]⟩
  | flush => cases hcall; exact ⟨rfl,by simp [sent,answer,sentBy]⟩
  | yieldNow => cases hcall; exact ⟨rfl,by simp [sent,answer,sentBy]⟩

theorem read_received {self node : Node St IoErr M A} {incoming : Incoming M}
    (h : self.read incoming = some (.ok node)) :
    node.received = self.received ++ [incoming] ∧ node.sent = self.sent := by
  obtain ⟨k,cont,r,_,_,rfl⟩ := read_cases h
  exact ⟨settle_received ..,settle_sent ..⟩

/-- The party has run this program so far. -/
def Runs (prog : NodeProg St IoErr M A) (self : Node St IoErr M A) : Prop :=
  Steps prog self.history self.activity.prog

/-- The party has come no further, or the call it was about to make was answered. -/
inductive Advances (self node : Node St IoErr M A) : Prop
  | waits : node.history = self.history → node.activity.prog = self.activity.prog →
      Advances self node
  | answered {c : Call ι M} {cont : PartyAnswer St IoErr M c → NodeProg St IoErr M A}
      (ans : PartyAnswer St IoErr M c) : self.activity.prog = .call c cont →
      node.history = self.history ++ [⟨c,ans⟩] → node.activity.prog = cont ans →
      Advances self node

variable {prog : NodeProg St IoErr M A} {self node : Node St IoErr M A}

omit [ProtocolMsg M] [∀ k, RoundMsg M (RoundInfo.Msg (St k))] [TypeIds St] in
theorem Runs.advances (h : Runs prog self) (ha : Advances self node) : Runs prog node := by
  unfold Runs at h ⊢
  cases ha with
  | waits hhistory hprog => rwa [hhistory,hprog]
  | answered ans hcall hhistory hprog =>
    rw [hcall] at h
    rw [hhistory,hprog]
    exact h.snoc ans

omit [ProtocolMsg M] [∀ k, RoundMsg M (RoundInfo.Msg (St k))] [TypeIds St] in
theorem settle_advances {k : ι} {cont : RoundResult (St k) IoErr → NodeProg St IoErr M A}
    (h : self.activity.prog = .call (.complete k) cont) (received : List (Incoming M))
    (r : RoundsRouter M St × Except (Round k) (RoundResult (St k) IoErr)) :
    Advances self (({ self with received := received }).settle k cont r) := by
  obtain ⟨router,res | res⟩ := r
  · exact .waits rfl h.symm
  · exact .answered (c := .complete k) res h rfl rfl

omit [ProtocolMsg M] in
theorem act_advances {out : List (Outgoing M)} (h : self.act = some (.ok (node,out))) :
    Advances self node := by
  obtain ⟨c,cont,hact,hcall⟩ := act_cases h
  have hprog : self.activity.prog = .call c cont := by rw [hact]; rfl
  cases c with
  | complete k =>
    simp only [call] at hcall
    cases hr : (checkCompleted self.router (⟨⟩ : Round k) :
        Checked (RoundsRouter M St × Except (Round k) (RoundResult (St k) IoErr))) with
    | error p => rw [hr] at hcall; cases hcall
    | ok r =>
      rw [hr] at hcall
      cases hcall
      exact settle_advances hprog self.received r
  | send msg => cases hcall; exact .answered _ hprog rfl rfl
  | enqueue msg => cases hcall; exact .answered _ hprog rfl rfl
  | flush => cases hcall; exact .answered _ hprog rfl rfl
  | yieldNow => cases hcall; exact .answered _ hprog rfl rfl

theorem read_advances {incoming : Incoming M} (h : self.read incoming = some (.ok node)) :
    Advances self node := by
  obtain ⟨k,cont,r,hact,_,rfl⟩ := read_cases h
  exact settle_advances (by rw [hact]; rfl) _ r

/-- Reads messages one after the other. -/
inductive Reads : Node St IoErr M A → List (Incoming M) → Node St IoErr M A → Prop
  | refl {self : Node St IoErr M A} : Reads self [] self
  | cons {self mid node : Node St IoErr M A} {msg : Incoming M} {msgs : List (Incoming M)} :
      self.read msg = some (.ok mid) → Reads mid msgs node → Reads self (msg :: msgs) node

/-- Reading message by message is the loop of `complete`, which does not wait for messages
but ends with the stream. -/
theorem reads_of_completeLoop {k : ι} {cont : RoundResult (St k) IoErr → NodeProg St IoErr M A}
    {msgs : List (Incoming M)} {router : RoundsRouter M St}
    {rest : List (Except IoErr (Incoming M))} {res : RoundResult (St k) IoErr} {w : Round k}
    (ha : self.activity = .reading k cont)
    (h : completeLoop self.router w (msgs.map .ok) = .ok (router,rest,res)) :
    (∃ used left, msgs = used ++ left ∧ rest = left.map .ok ∧ ∃ node, Reads self used node ∧
      node.router = router ∧ node.activity = .running (cont res) ∧
      node.history = self.history ++ [⟨.complete k,res⟩]) ∨
    (rest = [] ∧ res = .error .unexpectedEof ∧ ∃ node, Reads self msgs node ∧
      node.router = router ∧ node.activity = .reading k cont) := by
  induction msgs generalizing self w with
  | nil =>
    cases h
    exact .inr ⟨rfl,rfl,self,.refl,rfl,ha⟩
  | cons msg msgs ih =>
    simp only [List.map_cons,completeLoop] at h
    cases hturn : (completeTurn self.router w (.ok msg) :
        Checked (RoundsRouter M St × Except (Round k) (RoundResult (St k) IoErr))) with
    | error p => rw [hturn] at h; cases h
    | ok r =>
      have hread : self.read msg = some (.ok
          (({ self with received := self.received ++ [msg] }).settle k cont r)) := by
        unfold read
        rw [ha]
        exact congrArg (fun r => some (Except.map _ r)) hturn
      rw [hturn] at h
      obtain ⟨router1,w1 | res1⟩ := r
      · let mid : Node St IoErr M A :=
          ({ self with received := self.received ++ [msg] }).settle k cont (router1,.error w1)
        have hmid : mid.activity = .reading k cont := rfl
        rcases ih hmid h with ⟨used,left,rfl,hrest,node,hreads,hnode⟩ | ⟨hrest,hres,node,hreads,hnode⟩
        · exact .inl ⟨msg :: used,left,rfl,hrest,node,.cons hread hreads,hnode⟩
        · exact .inr ⟨hrest,hres,node,.cons hread hreads,hnode⟩
      · cases h
        exact .inl ⟨[msg],msgs,rfl,rfl,_,.cons hread .refl,rfl,rfl,rfl⟩

/-- A node gets from the same messages what its party gets from its stream: the same answer with
the same router, or it waits where the stream ends. -/
theorem completes_as_party {k : ι} {cont : RoundResult (St k) IoErr → NodeProg St IoErr M A}
    {party party' : MpcParty M St IoErr} {w : Round k} {msgs : List (Incoming M)}
    {res : RoundResult (St k) IoErr} (ha : self.activity = .running (.call (.complete k) cont))
    (hrouter : party.router = self.router) (hmsgs : party.incomings = msgs.map .ok)
    (h : party.complete w = .ok (party',res)) :
    ∃ mid, self.act = some (.ok (mid,[])) ∧
      ((∃ used left, msgs = used ++ left ∧ party'.incomings = left.map .ok ∧ ∃ node,
        Reads mid used node ∧ node.router = party'.router ∧ node.activity = .running (cont res) ∧
        node.history = self.history ++ [⟨.complete k,res⟩]) ∨
      (party'.incomings = [] ∧ res = .error .unexpectedEof ∧ ∃ node, Reads mid msgs node ∧
        node.router = party'.router ∧ node.activity = .reading k cont)) := by
  have hact : self.act = some ((checkCompleted self.router w).map fun r =>
      (self.settle k cont r,[])) := by
    unfold act
    rw [ha]
    rfl
  simp only [MpcParty.complete,hrouter,hmsgs] at h
  cases hcheck : (checkCompleted self.router w : Checked (RoundsRouter M St ×
      Except (Round k) (RoundResult (St k) IoErr))) with
  | error p => rw [hcheck] at h; cases h
  | ok r =>
    rw [hcheck] at hact h
    refine ⟨_,hact,?_⟩
    obtain ⟨router,w' | res'⟩ := r
    · -- the loop starts where the node starts to read
      cases hloop : completeLoop router w' (msgs.map .ok : List (Except IoErr (Incoming M))) with
      | error p => simp only [hloop] at h; cases h
      | ok r =>
        simp only [hloop] at h
        cases h
        have hreading : (self.settle k cont (router,.error w')).activity = .reading k cont := rfl
        exact reads_of_completeLoop hreading hloop
    · cases h
      exact .inl ⟨[],msgs,rfl,rfl,_,.refl,rfl,rfl,rfl⟩

end Node
end RoundBased
