import Mathlib.Logic.Relation
import RoundBased.Network
import RoundBased.StateMachine

/-! The protocol of a party as the state machine polls it: what the engine does between the futures
of its delivery and of its runtime. -/
namespace RoundBased
open Interaction RoundsRouter

variable {ι M A : Type} {St : ι → Type} [∀ k, RoundStore (St k)]

/-- What the sink has answered. -/
def Reply.result : Reply M → Except DeliveryErr Unit
  | .sent res => res
  | _ => .ok ()

/-- What the stream has yielded. -/
def Reply.item : Reply M → Option (Except DeliveryErr (Incoming M))
  | .received item => item
  | _ => none

/-- A party between two futures. -/
structure PartyTask {ι : Type} (St : ι → Type) [∀ k, RoundStore (St k)] (M A : Type) where
  router : RoundsRouter M St
  activity : Activity St DeliveryErr M A

def Node.task (node : Node St DeliveryErr M A) : PartyTask St M A := ⟨node.router,node.activity⟩

variable [ProtocolMsg M] [∀ k, RoundMsg M (RoundInfo.Msg (St k))] [TypeIds St]

namespace PartyTask

/-- The body of the loop of `complete`. -/
def turn (router : RoundsRouter M St) (k : ι)
    (cont : RoundResult (St k) DeliveryErr → NodeProg St DeliveryErr M A) :
    Option (Except DeliveryErr (Incoming M)) → PartyTask St M A
  | none => ⟨router,.running (cont (.error .unexpectedEof))⟩
  | some item =>
    match completeTurn router (⟨⟩ : Round k) item with
    | .error p => ⟨router,.running (.throw p)⟩
    | .ok (router,.ok res) => ⟨router,.running (cont res)⟩
    | .ok (router,.error _) => ⟨router,.reading k cont⟩

/-- Runs the program up to the next future it awaits. -/
def runProg : NodeProg St DeliveryErr M A → RoundsRouter M St →
    Resume (PartyTask St M A) M (Except Panic A)
  | .ret a,_ => .ret (.ok a)
  | .throw p,_ => .ret (.error p)
  | .call (.send msg) cont,router =>
    .call (.send msg) fun reply => ⟨router,.running (cont reply.result)⟩
  | .call (.enqueue msg) cont,router =>
    .call (.feed msg) fun reply => ⟨router,.running (cont reply.result)⟩
  | .call .flush cont,router => .call .flush fun reply => ⟨router,.running (cont reply.result)⟩
  | .call .yieldNow cont,router => .call .yieldNow fun _ => ⟨router,.running (cont ())⟩
  | .call (.complete k) cont,router =>
    match checkCompleted router (⟨⟩ : Round k) with
    | .error p => .ret (.error p)
    | .ok (router,.ok res) => runProg (cont res) router
    | .ok (router,.error _) => .call .next fun reply => turn router k cont reply.item

/-- The protocol of a party. -/
def resume : PartyTask St M A → Resume (PartyTask St M A) M (Except Panic A)
  | ⟨router,.running prog⟩ => runProg prog router
  | ⟨router,.reading k cont⟩ => .call .next fun reply => turn router k cont reply.item

end PartyTask

/-! What the party does is what the node does that runs the same program. -/

/-- The party is about to make this call of its futures. -/
inductive Node.Makes (node : Node St DeliveryErr M A) :
    PartyCall M → (Reply M → PartyTask St M A) → Prop
  | send {msg : Outgoing M} {cont : Except DeliveryErr Unit → NodeProg St DeliveryErr M A} :
      node.activity = .running (.call (.send msg) cont) →
      Makes node (.send msg) fun reply => ⟨node.router,.running (cont reply.result)⟩
  | feed {msg : Outgoing M} {cont : Except DeliveryErr Unit → NodeProg St DeliveryErr M A} :
      node.activity = .running (.call (.enqueue msg) cont) →
      Makes node (.feed msg) fun reply => ⟨node.router,.running (cont reply.result)⟩
  | flush {cont : Except DeliveryErr Unit → NodeProg St DeliveryErr M A} :
      node.activity = .running (.call .flush cont) →
      Makes node .flush fun reply => ⟨node.router,.running (cont reply.result)⟩
  | yieldNow {cont : Unit → NodeProg St DeliveryErr M A} :
      node.activity = .running (.call .yieldNow cont) →
      Makes node .yieldNow fun _ => ⟨node.router,.running (cont ())⟩
  | next {k : ι} {cont : RoundResult (St k) DeliveryErr → NodeProg St DeliveryErr M A} :
      node.activity = .reading k cont →
      Makes node .next fun reply => PartyTask.turn node.router k cont reply.item

/-- The node stands where the protocol does. -/
inductive Node.Shows (node : Node St DeliveryErr M A) :
    ProtocolFuture (PartyTask St M A) M → Prop
  | running : Shows node (.running node.task)
  | awaiting {c : PartyCall M} {k : Reply M → PartyTask St M A} :
      node.Makes c k → Shows node (.awaiting c.future k)
  -- the message that is flushed was sent before
  | flushing {k : Reply M → PartyTask St M A} : k (.sent (.ok ())) = node.task →
      Shows node (.awaiting (.send none) k)
  | yielded {k : Reply M → PartyTask St M A} :
      node.Makes .yieldNow k → Shows node (.awaiting (.yieldNow ⟨true⟩) k)

omit [ProtocolMsg M] in
theorem PartyCall.future_injective {c c' : PartyCall M} (h : c.future = c'.future) : c = c' := by
  cases c <;> cases c' <;> cases h <;> rfl

theorem Node.Shows.makes {node : Node St DeliveryErr M A} {c : PartyCall M}
    {k : Reply M → PartyTask St M A} (h : node.Shows (.awaiting c.future k)) : node.Makes c k := by
  generalize ht : ProtocolFuture.awaiting c.future k = t at h
  cases h with
  | running => cases ht
  | awaiting hmakes =>
    injection ht with hc hk
    obtain rfl := PartyCall.future_injective hc
    subst hk
    exact hmakes
  | flushing =>
    injection ht with hc
    cases c <;> cases hc
  | yielded =>
    injection ht with hc
    cases c <;> cases hc

/-- The program or the next operation panics. -/
def Node.Panics (node : Node St DeliveryErr M A) (p : Panic) : Prop :=
  node.activity = .running (.throw p) ∨ node.act = some (.error p)

/-- A round is looked at whether it is completed already. -/
def Node.Checks (self node : Node St DeliveryErr M A) : Prop :=
  ∃ j cont r, self.activity = .running (.call (.complete j) cont) ∧
    checkCompleted self.router (⟨⟩ : Round j) = .ok r ∧ node = self.settle j cont r

omit [ProtocolMsg M] in
theorem Node.act_complete {self : Node St DeliveryErr M A} {j : ι}
    {cont : RoundResult (St j) DeliveryErr → NodeProg St DeliveryErr M A}
    (h : self.activity = .running (.call (.complete j) cont)) : self.act =
      some ((checkCompleted self.router (⟨⟩ : Round j)).map fun r => (self.settle j cont r,[])) := by
  rw [Node.act,h]
  rfl

omit [ProtocolMsg M] in
theorem Node.Checks.act {self node : Node St DeliveryErr M A} (h : self.Checks node) :
    self.act = some (.ok (node,[])) := by
  obtain ⟨j,cont,r,hact,hcheck,rfl⟩ := h
  rw [Node.act_complete hact,hcheck]
  rfl

/-- Rounds that are completed already are completed without waiting. -/
def Node.Settles (self node : Node St DeliveryErr M A) : Prop :=
  Relation.ReflTransGen Node.Checks self node

section Shows

variable {self node : Node St DeliveryErr M A}

/-- What the protocol does next, the node does once it has settled. -/
inductive Node.Resumes (self : Node St DeliveryErr M A) :
    Resume (PartyTask St M A) M (Except Panic A) → Prop
  | returns {node : Node St DeliveryErr M A} {a : A} : self.Settles node →
      node.activity = .running (.ret a) → Resumes self (.ret (.ok a))
  | panics {node : Node St DeliveryErr M A} {p : Panic} : self.Settles node →
      node.Panics p → Resumes self (.ret (.error p))
  | calls {node : Node St DeliveryErr M A} {c : PartyCall M} {k : Reply M → PartyTask St M A} :
      self.Settles node → node.Makes c k → Resumes self (.call c k)

theorem Node.Resumes.after {node : Node St DeliveryErr M A}
    {r : Resume (PartyTask St M A) M (Except Panic A)} (hs : self.Settles node)
    (h : node.Resumes r) : self.Resumes r := by
  cases h with
  | returns hnode hact => exact .returns (hs.trans hnode) hact
  | panics hnode hp => exact .panics (hs.trans hnode) hp
  | calls hnode hm => exact .calls (hs.trans hnode) hm

/-- Runs the program, by induction on it. -/
theorem resumes_runProg (prog : NodeProg St DeliveryErr M A) (h : self.activity = .running prog) :
    self.Resumes (PartyTask.runProg prog self.router) := by
  induction prog generalizing self with
  | ret a => exact .returns .refl h
  | throw p => exact .panics .refl (.inl h)
  | call c cont ih =>
    cases c with
    | send msg => exact .calls .refl (.send h)
    | enqueue msg => exact .calls .refl (.feed h)
    | flush => exact .calls .refl (.flush h)
    | yieldNow => exact .calls .refl (.yieldNow h)
    | complete j =>
      simp only [PartyTask.runProg]
      cases hcheck : (checkCompleted self.router (⟨⟩ : Round j) : Checked (RoundsRouter M St ×
          Except (Round j) (RoundResult (St j) DeliveryErr))) with
      | error p =>
        have hact : self.act = some (.error p) := by
          rw [Node.act_complete h,hcheck]
          rfl
        exact .panics .refl (.inr hact)
      | ok r =>
        have hsettles : self.Settles (self.settle j cont r) := .single ⟨j,cont,r,h,hcheck,rfl⟩
        obtain ⟨router,w | res⟩ := r
        · exact .calls hsettles (.next rfl)
        · -- the round is completed, and the program goes on with its output
          have hrun : (self.settle j cont (router,.ok res)).activity = .running (cont res) := rfl
          exact (ih res hrun).after hsettles

theorem resumes_resume (self : Node St DeliveryErr M A) : self.Resumes self.task.resume := by
  cases hact : self.activity with
  | running prog =>
    have hresume : self.task.resume = PartyTask.runProg prog self.router := by
      simp only [Node.task,hact,PartyTask.resume]
    rw [hresume]
    exact resumes_runProg prog hact
  | reading k cont =>
    have hresume : self.task.resume =
        .call .next fun reply => PartyTask.turn self.router k cont reply.item := by
      simp only [Node.task,hact,PartyTask.resume]
    rw [hresume]
    exact .calls .refl (.next hact)

end Shows

end RoundBased
