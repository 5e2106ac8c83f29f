import RoundBased.Counters
import RoundBased.SharedState

/-! The synchronous simulation: the parties are run one after the other, each as far as it gets,
with a queue of messages for every party. -/
namespace RoundBased
open Transition Iteration

/-- What the calls of a state machine do in a state. A call of `proceed` that never returns has no
result. -/
structure StateMachine (P O M : Type) where
  proceed : P → Option (P × ProceedResult O M)
  receivedMsg : P → Incoming M → P × Except (Incoming M) Unit

inductive Party (P O : Type)
  | active (party : P) (wantsOneMoreMsg : Bool)
  | finished (out : O)
  deriving DecidableEq, Repr

/-- Error indicating that simulation failed. -/
inductive SimError
  | saveIncomingMsg
  | executionError (err : ExecutionError)
  | unknownRecipient (sender recipient : UInt16)
  deriving DecidableEq, Repr

variable {P O M : Type}

structure MessagesQueue (M : Type) where
  queue : List (List (Incoming M))
  nextId : UInt64

namespace MessagesQueue

def new (n : ℕ) : MessagesQueue M := ⟨List.replicate n [],0⟩

/-- The loop over the queues, zipped with their indexes and, but for that of the sender, with the
ids. An iterator on the left of a zip is polled first. -/
def pushAll [Build] (sender : UInt16) (reliable : Bool) (msg : M) :
    UInt16 → UInt64 → List (List (Incoming M)) → Checked (List (List (Incoming M)) × UInt64)
  | start,ids,[] => do
    let _after ← U16.add start 1
    return ([],ids)
  | start,ids,queue :: queues => do
    let after ← U16.add start 1
    if start = sender then
      let (queues,ids) ← pushAll sender reliable msg after ids queues
      return (queue :: queues,ids)
    else
      let nextIds ← U64.add ids 1
      let (queues,ids') ← pushAll sender reliable msg after nextIds queues
      return ((queue ++ [⟨ids,sender,.broadcast reliable,msg⟩]) :: queues,ids')

def sendMessage [Build] (self : MessagesQueue M) (sender : UInt16) (msg : Outgoing M) :
    Checked (MessagesQueue M × Except SimError Unit) :=
  match msg.recipient with
  | .allParties reliable => do
    let (queue,msgIds) ← pushAll sender reliable msg.msg 0 self.nextId self.queue
    -- `msg_ids.next()` also computes the id after the one it returns
    let _after ← U64.add msgIds 1
    return (⟨queue,msgIds⟩,.ok ())
  | .oneParty destination => do
    let nextId ← U64.add self.nextId 1
    match self.queue[destination.toNat]? with
    | none => return (⟨self.queue,nextId⟩,.error (.unknownRecipient sender destination))
    | some queue =>
      let queue := queue ++ [⟨self.nextId,sender,.p2p,msg.msg⟩]
      return (⟨self.queue.set destination.toNat queue,nextId⟩,.ok ())

def recvNextMsg (self : MessagesQueue M) (recipient : UInt16) :
    Checked (MessagesQueue M × Option (Incoming M)) :=
  match self.queue[recipient.toNat]? with
  | none => .error .indexOutOfBounds
  | some [] => .ok (self,none)
  | some (msg :: queue) =>
    .ok ({ self with queue := self.queue.set recipient.toNat queue },some msg)

end MessagesQueue

/-- The iterator over the parties with their indexes. It has positions for the parties. -/
abbrev PartyIter := UInt16 × List ℕ

/-- Where the run stands: before the next pass over the parties, before the next party, at the
start of the loop for a party, or before a call of its `proceed`. -/
inductive Phase
  | pass
  | nextParty (iter : PartyIter)
  | thisParty (iter : PartyIter) (i : UInt16) (pos : ℕ)
  | proceed (iter : PartyIter) (i : UInt16) (pos : ℕ)
  deriving DecidableEq, Repr

structure Simulation (P O M : Type) where
  parties : List (Party P O)
  messagesQueue : MessagesQueue M
  partiesLeft : ℕ
  phase : Phase

/-- A call of the party at the position, that is run under the index. -/
inductive SimEvent (O M : Type)
  | received (pos : ℕ) (i : UInt16) (msg : Incoming M)
  | proceeded (pos : ℕ) (i : UInt16) (res : ProceedResult O M)
  deriving DecidableEq, Repr

/-- How a run ends. -/
inductive Outcome (O : Type)
  | returned (res : Except SimError (List O))
  | panicked (p : Panic)
  deriving DecidableEq, Repr

inductive Next (P O M : Type)
  | goesOn (s : Simulation P O M) (e : Option (SimEvent O M))
  | stops (o : Outcome O)

namespace Simulation

/-- The simulation of these parties, when `run` is called. -/
def start (parties : List P) : Simulation P O M where
  parties := parties.map fun party => .active party false
  messagesQueue := .new parties.length
  partiesLeft := parties.length
  phase := .pass

/-- The parties that `init` returns for the indexes below `n`. -/
def fromFn (n : UInt16) (init : UInt16 → P) : Simulation P O M :=
  start ((U16.count 0 n.toNat).map init)

/-- The outputs of the parties, which are all finished. -/
def collect : List (Party P O) → Outcome O
  | [] => .returned (.ok [])
  | .active _ _ :: _ => .panicked .unreachable
  | .finished out :: parties =>
    match collect parties with
    | .returned (.ok outs) => .returned (.ok (out :: outs))
    | o => o

/-- The party at the position is now in this state. -/
def setParty (s : Simulation P O M) (pos : ℕ) (party : Party P O) : Simulation P O M :=
  { s with parties := s.parties.set pos party }

/-- The party gets the message. -/
def deliver (machine : StateMachine P O M) (s : Simulation P O M) (iter : PartyIter) (i : UInt16)
    (pos : ℕ) (party : P) (msg : Incoming M) : Next P O M :=
  match machine.receivedMsg party msg with
  | (party,.ok ()) =>
    .goesOn { s.setParty pos (.active party false) with phase := .proceed iter i pos }
      (some (.received pos i msg))
  | (_,.error _) => .stops (.returned (.error .saveIncomingMsg))

/-- What is done with the result of `proceed`, which left the party in this state. -/
def handle [Build] (s : Simulation P O M) (iter : PartyIter) (i : UInt16) (pos : ℕ) (party : P)
    (wantsOneMoreMsg : Bool) (res : ProceedResult O M) : Next P O M :=
  let e := some (.proceeded pos i res)
  match res with
  | .sendMsg msg =>
    match s.messagesQueue.sendMessage i msg with
    | .error p => .stops (.panicked p)
    | .ok (_,.error err) => .stops (.returned (.error err))
    | .ok (queue,.ok ()) => .goesOn { s.setParty pos (.active party wantsOneMoreMsg) with
        messagesQueue := queue, phase := .thisParty iter i pos } e
  | .needsOneMoreMessage =>
    .goesOn { s.setParty pos (.active party true) with phase := .thisParty iter i pos } e
  | .output out =>
    match Usize.sub s.partiesLeft 1 with
    | .error p => .stops (.panicked p)
    | .ok left => .goesOn { s.setParty pos (.finished out) with
        partiesLeft := left, phase := .nextParty iter } e
  | .yielded => .goesOn { s.setParty pos (.active party wantsOneMoreMsg) with
      phase := .thisParty iter i pos } e
  | .error err => .stops (.returned (.error (.executionError err)))

/-- One step of `run`. -/
def step [Build] (machine : StateMachine P O M) (s : Simulation P O M) : Option (Next P O M) :=
  match s.phase with
  | .pass =>
    if 0 < s.partiesLeft then
      some (.goesOn { s with phase := .nextParty (0,List.range s.parties.length) } none)
    else some (.stops (collect s.parties))
  | .nextParty iter =>
    match zip U16.nextFrom list iter with
    | .error p => some (.stops (.panicked p))
    | .ok (_,none) => some (.goesOn { s with phase := .pass } none)
    | .ok (iter,some (i,pos)) => some (.goesOn { s with phase := .thisParty iter i pos } none)
  | .thisParty iter i pos =>
    match s.parties[pos]? with
    | some (.active party true) =>
      match s.messagesQueue.recvNextMsg i with
      | .error p => some (.stops (.panicked p))
      | .ok (queue,some msg) =>
        some (deliver machine { s with messagesQueue := queue } iter i pos party msg)
      | .ok (_,none) => some (.goesOn { s with phase := .nextParty iter } none)
    | some (.active _ false) => some (.goesOn { s with phase := .proceed iter i pos } none)
    | _ => some (.goesOn { s with phase := .nextParty iter } none)
  | .proceed iter i pos =>
    match s.parties[pos]? with
    | some (.active party wantsOneMoreMsg) =>
      (machine.proceed party).map fun r => handle s iter i pos r.1 wantsOneMoreMsg r.2
    -- the party is active, as it was when its loop was entered
    | _ => some (.goesOn { s with phase := .nextParty iter } none)

/-- Carries out the simulation, for so many steps at most. -/
def run [Build] (machine : StateMachine P O M) : ℕ → Simulation P O M → Option (Outcome O)
  | 0,_ => none
  | fuel + 1,s =>
    match s.step machine with
    | none => none
    | some (.goesOn s' _) => run machine fuel s'
    | some (.stops o) => some o

/-- The first steps of a run: the calls of the parties, and where it stands then. -/
def trace [Build] (machine : StateMachine P O M) :
    ℕ → Simulation P O M → List (Option (SimEvent O M)) × Simulation P O M
  | 0,s => ([],s)
  | k + 1,s =>
    match s.step machine with
    | some (.goesOn s' e) =>
      let r := trace machine k s'
      (e :: r.1,r.2)
    | _ => ([],s)

/-- The steps of a run, with the calls of the parties. -/
def running [Build] (machine : StateMachine P O M) (parties : List P) :
    System (Simulation P O M) (Option (SimEvent O M)) where
  init := start parties
  step s e s' := s.step machine = some (.goesOn s' e)

theorem run_trace [Build] (machine : StateMachine P O M) (parties : List P) (k : ℕ)
    (s : Simulation P O M) :
    Run (running machine parties) s (trace machine k s).1 (trace machine k s).2 := by
  induction k generalizing s with
  | zero => exact .refl
  | succ k ih =>
    unfold trace
    split
    · rename_i s' e hs
      have hfirst : Run (running machine parties) s [e] s' := Run.snoc .refl hs
      exact hfirst.append (ih s')
    · exact .refl

end Simulation
end RoundBased
