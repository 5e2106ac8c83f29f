import RoundBased.EchoRouting
import RoundBased.EchoTraces

/-! The engine over a party that is connected to a stream of messages. -/
namespace RoundBased
open Interaction RoundsRouter

namespace MpcParty

variable {ι M : Type} {St : ι → Type} [∀ k, RoundStore (St k)]
  [∀ k, RoundMsg M (RoundInfo.Msg (St k))] {IoErr : Type}

/-- A message that is fed counts as sent. -/
def feed (self : MpcParty M St IoErr) (msg : Outgoing M) :
    MpcParty M St IoErr × Except IoErr Unit :=
  self.send msg

def flush (self : MpcParty M St IoErr) : MpcParty M St IoErr × Except IoErr Unit :=
  match self.answers with
  | .error e :: answers => ({ self with answers := answers },.error e)
  | .ok () :: answers => ({ self with answers := answers },.ok ())
  | [] => (self,.ok ())

/-- How the party carries out the operations. -/
def handle [ProtocolMsg M] [TypeIds St] : (c : Call ι M) → MpcParty M St IoErr →
    Checked (MpcParty M St IoErr × Answer (fun k => RoundResult (St k) IoErr) IoErr c)
  | .complete k,self => self.complete (⟨⟩ : Round k)
  | .send msg,self => .ok (self.send msg)
  | .enqueue msg,self => .ok (self.feed msg)
  | .flush,self => .ok self.flush
  | .yieldNow,self => .ok (self,())

omit [∀ k, RoundMsg M (RoundInfo.Msg (St k))] in
theorem send_of_no_answers {self : MpcParty M St IoErr} (h : self.answers = [])
    (msg : Outgoing M) : self.send msg = ({ self with sent := self.sent ++ [msg] },.ok ()) := by
  simp only [send,h]

omit [∀ k, RoundMsg M (RoundInfo.Msg (St k))] in
theorem flush_of_no_answers {self : MpcParty M St IoErr} (h : self.answers = []) :
    self.flush = (self,.ok ()) := by
  simp only [flush,h]

end MpcParty

namespace EchoBroadcast
open WithEchoBroadcast

variable {ι H M : Type} {St : ι → Type} [∀ k, RoundStore (St k)]
  [∀ k, RoundMsg M (RoundInfo.Msg (St k))] {IoErr : Type}

/-- Errors of completing a round of the party. -/
abbrev PartyErr (IoErr E : Type) : Type := RoundBased.CompleteRoundError E IoErr

/-- The engine and its party. -/
structure EchoParty (H M : Type) {ι : Type} (St : ι → Type) [∀ k, RoundStore (St k)]
    [∀ k, RoundMsg M (RoundInfo.Msg (St k))] (IoErr : Type) where
  engine : WithEchoBroadcast M
  party : MpcParty (Msg H M) (SubStore H M St) IoErr

namespace EchoParty

variable [Build] [ProtocolMsg M] [Digest H M] [DecidableEq H] [TypeIds (SubStore H M St)]

def serve (self : EchoParty H M St IoErr) (d : Call (Round ι) M) :
    Checked (EchoParty H M St IoErr ×
      Answer (Res (PartyErr IoErr) IoErr St) (Error IoErr) d) :=
  let prog : PartyProg (PartyErr IoErr) IoErr H M St _ := self.engine.serve d
  (prog.run MpcParty.handle self.party).map fun r => (⟨r.2.1,r.1⟩,r.2.2)

theorem serve_of_run {self : EchoParty H M St IoErr} {d : Call (Round ι) M}
    {prog : PartyProg (PartyErr IoErr) IoErr H M St (WithEchoBroadcast M ×
      Answer (Res (PartyErr IoErr) IoErr St) (Error IoErr) d)}
    {party : MpcParty (Msg H M) (SubStore H M St) IoErr} {e : WithEchoBroadcast M}
    {res : Answer (Res (PartyErr IoErr) IoErr St) (Error IoErr) d}
    (hp : self.engine.serve d = prog)
    (h : prog.run MpcParty.handle self.party = .ok (party,(e,res))) :
    self.serve d = .ok (⟨e,party⟩,res) := by
  subst hp
  simp only [serve,h]
  rfl

/-- Serves the operations one by one, whatever the results are. -/
def serveAll (self : EchoParty H M St IoErr) :
    List (Call (Round ι) M) → Checked (EchoParty H M St IoErr)
  | [] => .ok self
  | d :: ds =>
    match self.serve d with
    | .error p => .error p
    | .ok (self,_) => self.serveAll ds

end EchoParty
/-! The rounds of the party after registration. -/
section Setup

variable [Build] [ProtocolMsg M]

/-- The sub-rounds that a round of the engine was registered as. -/
structure Registers (i n : UInt16) (l : Ledger (Msg H M) (SubStore H M St))
    (reg : (k : ι) × St k) : Prop where
  reliable : requiresReliableBroadcast reg.2 = some true → ∃ main echo,
    newStores i n reg.2 = .ok (main,echo) ∧
    l.registered (roundOf (Msg H M) (SubStore H M St) (.main reg.1)) =
      some ⟨.main reg.1,(⟨main⟩ : WithMainMsg (MainRound H M (St reg.1)))⟩ ∧
    l.registered (roundOf (Msg H M) (SubStore H M St) (.echo reg.1)) =
      some ⟨.echo reg.1,(⟨echo⟩ : WithEchoError (EchoRound H (St reg.1)) _)⟩
  plain : requiresReliableBroadcast reg.2 ≠ some true →
    l.registered (roundOf (Msg H M) (SubStore H M St) (.plain reg.1)) =
      some ⟨.plain reg.1,(⟨⟨reg.2⟩⟩ : WithError (WithMainMsg (St reg.1)))⟩

variable {l l' l'' : Ledger (Msg H M) (SubStore H M St)} {i n : UInt16} {reg : (k : ι) × St k}

theorem Registers.extends (h : Registers i n l reg) (he : l.Extends l') :
    Registers i n l' reg where
  reliable hr := by
    obtain ⟨main,echo,hnew,hm,hecho⟩ := h.reliable hr
    exact ⟨main,echo,hnew,he.registered _ _ hm,he.registered _ _ hecho⟩
  plain hr := he.registered _ _ (h.plain hr)

theorem Registers.isSome (h : Registers i n l reg) :
    (l.registered (2 * roundOf M St reg.1)).isSome = true := by
  by_cases hr : requiresReliableBroadcast reg.2 = some true
  · obtain ⟨main,echo,_,hm,_⟩ := h.reliable hr
    exact Option.isSome_of_eq_some hm
  · exact Option.isSome_of_eq_some (h.plain hr)

theorem addRound_registers {e e' : WithEchoBroadcast M} {k : ι} {s : St k}
    {router : RoundsRouter (Msg H M) (SubStore H M St)} {w : Round ι}
    (h : e.addRound l.router k s = .ok (e',router,w)) :
    ∃ l', router = l'.router ∧ l.Extends l' ∧ Registers e.i e.n l' ⟨k,s⟩ ∧
      l.registered (2 * roundOf M St k) = none ∧ e'.i = e.i ∧ e'.n = e.n := by
  unfold WithEchoBroadcast.addRound at h
  split at h
  · rename_i hrel
    obtain ⟨⟨main,echo⟩,hnew,h⟩ := Checked.bind_eq_ok.mp h
    obtain ⟨⟨router1,w1⟩,h1,h⟩ := Checked.bind_eq_ok.mp h
    obtain ⟨⟨router2,w2⟩,h2,h⟩ := Checked.bind_eq_ok.mp h
    cases h
    obtain ⟨hfree1,rfl⟩ := l.addRound_ok h1
    obtain ⟨hfree2,rfl⟩ := (l.register _ _ hfree1).addRound_ok h2
    let echoStore : SubStore H M St (.echo k) :=
      (⟨echo⟩ : WithEchoError (EchoRound H (St k)) (RoundInfo.Error (St k)))
    have hext := Ledger.extends_register (s := echoStore) hfree2
    refine ⟨_,rfl,(Ledger.extends_register hfree1).trans hext,⟨fun _ => ?_,?_⟩,hfree1,rfl,rfl⟩
    · exact ⟨main,echo,hnew,hext.registered _ _ (Ledger.registered_register hfree1),
        Ledger.registered_register hfree2⟩
    · exact fun hnot => absurd hrel hnot
  · rename_i hrel
    obtain ⟨⟨router1,w1⟩,h1,h⟩ := Checked.bind_eq_ok.mp h
    cases h
    obtain ⟨hfree1,rfl⟩ := l.addRound_ok h1
    refine ⟨_,rfl,Ledger.extends_register hfree1,⟨fun hr => absurd hr hrel,fun _ => ?_⟩,hfree1,
      rfl,rfl⟩
    exact Ledger.registered_register hfree1

theorem addRounds_registers {e e' : WithEchoBroadcast M} {regs : List ((k : ι) × St k)}
    {router : RoundsRouter (Msg H M) (SubStore H M St)}
    (h : e.addRounds l.router regs = .ok (e',router)) :
    ∃ l', router = l'.router ∧ l.Extends l' ∧ (∀ reg ∈ regs, Registers e.i e.n l' reg) ∧
      e'.i = e.i ∧ e'.n = e.n := by
  induction regs generalizing e l with
  | nil =>
    cases h
    exact ⟨l,rfl,.refl,fun _ hr => (by cases hr),rfl,rfl⟩
  | cons reg regs ih =>
    obtain ⟨⟨e1,router1,w⟩,hadd,h⟩ := Checked.bind_eq_ok.mp h
    obtain ⟨l1,rfl,hext,hreg,_,hi,hn⟩ := addRound_registers hadd
    obtain ⟨l2,rfl,hext',hregs,hi',hn'⟩ := ih h
    refine ⟨l2,rfl,hext.trans hext',fun r hr => ?_,hi'.trans hi,hn'.trans hn⟩
    rcases List.mem_cons.mp hr with rfl | hr
    · exact hreg.extends hext'
    · have hreg' := hregs r hr
      rwa [hi,hn] at hreg'

theorem addRounds_fresh {e e' : WithEchoBroadcast M} {regs : List ((k : ι) × St k)}
    {router : RoundsRouter (Msg H M) (SubStore H M St)}
    (h : e.addRounds l.router regs = .ok (e',router)) :
    (∀ reg ∈ regs, l.registered (2 * roundOf M St reg.1) = none) ∧
      (regs.map fun reg => roundOf M St reg.1).Nodup := by
  induction regs generalizing e l with
  | nil => exact ⟨fun _ hr => (by cases hr),List.nodup_nil⟩
  | cons reg regs ih =>
    obtain ⟨⟨e1,router1,w⟩,hadd,h⟩ := Checked.bind_eq_ok.mp h
    obtain ⟨l1,rfl,hext,hreg,hfree,_⟩ := addRound_registers hadd
    obtain ⟨hrest,hnodup⟩ := ih h
    refine ⟨fun r hr => ?_,List.nodup_cons.mpr ⟨fun hmem => ?_,hnodup⟩⟩
    · rcases List.mem_cons.mp hr with rfl | hr
      · exact hfree
      · by_contra hc
        obtain ⟨b,hb⟩ := Option.ne_none_iff_exists'.mp hc
        have hb' := hext.registered _ _ hb
        rw [hrest r hr] at hb'
        cases hb'
    · obtain ⟨r,hr,he⟩ := List.mem_map.mp hmem
      have hnone : l1.registered (2 * roundOf M St reg.1) = none := by
        have hround : roundOf M St r.1 = roundOf M St reg.1 := he
        rw [← hround]
        exact hrest r hr
      have hsome : (l1.registered (2 * roundOf M St reg.1)).isSome = true := hreg.isSome
      rw [hnone] at hsome
      cases hsome

end Setup

/-! What operations on other rounds leave of a reliable round. -/
section Others

variable [ProtocolMsg M]

/-- The messages of main round `r` that were sent, or the echoes. -/
def sentIn (echo : Bool) (r : UInt16) (sent : List (Outgoing (Msg H M))) :
    List (Outgoing (Msg H M)) :=
  sent.filter fun o => decide (o.msg.kind = (echo,.ok r))

/-- The call has nothing to do with round `k`. -/
def Spares (H M : Type) {ι : Type} (St : ι → Type) [∀ k, RoundStore (St k)]
    [∀ k, RoundMsg M (RoundInfo.Msg (St k))] [ProtocolMsg M] (k : ι) :
    Call (Sub ι) (Msg H M) → Prop
  | .complete s => roundOf (Msg H M) (SubStore H M St) s ≠
      roundOf (Msg H M) (SubStore H M St) (.main k) ∧
    roundOf (Msg H M) (SubStore H M St) s ≠ roundOf (Msg H M) (SubStore H M St) (.echo k)
  | .send o => ∀ echo, o.msg.kind ≠ (echo,.ok (roundOf M St k))
  | .enqueue o => ∀ echo, o.msg.kind ≠ (echo,.ok (roundOf M St k))
  | _ => True

theorem sentIn_snoc (echo : Bool) (r : UInt16) (sent : List (Outgoing (Msg H M)))
    (o : Outgoing (Msg H M)) :
    sentIn echo r (sent ++ [o]) =
      if o.msg.kind = (echo,.ok r) then sentIn echo r sent ++ [o] else sentIn echo r sent := by
  simp only [sentIn,List.filter_append,List.filter_cons,List.filter_nil,decide_eq_true_eq]
  split
  · rfl
  · exact List.append_nil _

variable [Build]

/-- The party can still complete both sub-rounds of `k`. -/
structure PartyPending (k : ι) (stream : List (Except IoErr (Incoming (Msg H M))))
    (l0 : Ledger (Msg H M) (SubStore H M St)) (mains : List (Outgoing (Msg H M)))
    (party : MpcParty (Msg H M) (SubStore H M St) IoErr) : Prop where
  connected : ∃ l c, Connected party l stream c ∧ l.registered = l0.registered ∧
    l.taken (roundOf (Msg H M) (SubStore H M St) (.main k)) = false ∧
    l.taken (roundOf (Msg H M) (SubStore H M St) (.echo k)) = false
  answers : party.answers = []
  mains : sentIn false (roundOf M St k) party.sent = mains
  echoes : sentIn true (roundOf M St k) party.sent = []

variable {k : ι} {stream : List (Except IoErr (Incoming (Msg H M)))}
  {l0 : Ledger (Msg H M) (SubStore H M St)} {mains : List (Outgoing (Msg H M))}
  {party : MpcParty (Msg H M) (SubStore H M St) IoErr}

theorem PartyPending.send (h : PartyPending k stream l0 mains party) {o : Outgoing (Msg H M)}
    (ho : ∀ echo, o.msg.kind ≠ (echo,.ok (roundOf M St k))) :
    ∃ party', party.send o = (party',.ok ()) ∧ PartyPending k stream l0 mains party' := by
  obtain ⟨l,c,hc,hl⟩ := h.connected
  refine ⟨_,MpcParty.send_of_no_answers h.answers o,⟨l,c,⟨?_,?_,hc.reading⟩,hl⟩,h.answers,?_,?_⟩
  · exact hc.router_eq
  · exact hc.incomings_eq
  · rw [sentIn_snoc,if_neg (ho _)]
    exact h.mains
  · rw [sentIn_snoc,if_neg (ho _)]
    exact h.echoes

variable [TypeIds (SubStore H M St)] [∀ k, ShortRoundMsg M (RoundInfo.Msg (St k))]

theorem PartyPending.handle (hlaw : RoutableStream (Msg H M) (SubStore H M St) stream)
    {c : Call (Sub ι) (Msg H M)} (hc : Spares H M St k c)
    (h : PartyPending k stream l0 mains party) :
    ∃ party' r, party.handle c = .ok (party',r) ∧ PartyPending k stream l0 mains party' := by
  cases c with
  | complete s =>
    obtain ⟨l,p,hconn,hreg,hm,he⟩ := h.connected
    obtain ⟨party',l',res,p',hcomp,hconn',hafter⟩ := complete_keeps hlaw ⟨⟩ hconn
    obtain ⟨hsent,hans⟩ := complete_sent hcomp
    refine ⟨party',res,hcomp,⟨l',p',hconn',hafter.registered.trans hreg,?_,?_⟩,?_,?_,?_⟩
    · rw [hafter.taken _ hc.1.symm,hm]
    · rw [hafter.taken _ hc.2.symm,he]
    · rw [hans,h.answers]
    · rw [hsent,h.mains]
    · rw [hsent,h.echoes]
  | send o =>
    obtain ⟨party',hs,hp⟩ := h.send hc
    exact ⟨party',.ok (),congrArg _ hs,hp⟩
  | enqueue o =>
    obtain ⟨party',hs,hp⟩ := h.send hc
    exact ⟨party',.ok (),congrArg _ hs,hp⟩
  | flush => exact ⟨party,.ok (),congrArg _ (MpcParty.flush_of_no_answers h.answers),h⟩
  | yieldNow => exact ⟨party,(),rfl,h⟩

omit [Build] [TypeIds (SubStore H M St)] in
theorem spares_complete {j : ι} (h : roundOf M St j ≠ roundOf M St k) :
    Spares H M St k (.complete (.plain j)) ∧
    Spares H M St k (.complete (.main j)) ∧
    Spares H M St k (.complete (.echo j)) := by
  have hj := ShortRoundMsg.round_lt (M := M) (T := RoundInfo.Msg (St j))
  have hk := ShortRoundMsg.round_lt (M := M) (T := RoundInfo.Msg (St k))
  have hmain : (2 * roundOf M St j) ≠ 2 * roundOf M St k := fun he => h (two_mul_inj hj hk he)
  have hecho : (2 * roundOf M St j + 1) ≠ 2 * roundOf M St k + 1 :=
    fun he => h (two_mul_add_one_inj hj hk he)
  exact ⟨⟨hmain,two_mul_ne_add_one hj hk⟩,⟨hmain,two_mul_ne_add_one hj hk⟩,
    ⟨fun he => two_mul_ne_add_one hk hj he.symm,hecho⟩⟩

variable [Digest H M] [DecidableEq H]

omit [Build] [TypeIds (SubStore H M St)] in
/-- Completing another round makes calls that spare the round, and keeps its message. -/
theorem complete_within {e : WithEchoBroadcast M} {w : Round ι}
    (h : roundOf M St w.kind ≠ roundOf M St k) :
    ((e.complete w : PartyProg (PartyErr IoErr) IoErr H M St _)).Within (Spares H M St k)
      fun r => r.1.sentReliableMsgs (roundOf M St k) = e.sentReliableMsgs (roundOf M St k) := by
  cases w with
  | unmodified j =>
    refine .call (spares_complete h).1 fun ans => ?_
    cases ans <;> exact .ret rfl
  | withReliabilityCheck j =>
    have hremove : (e.remove (roundOf M St j)).sentReliableMsgs (roundOf M St k) =
        e.sentReliableMsgs (roundOf M St k) := Function.update_of_ne h.symm ..
    have hsend : ∀ hash : H, Spares H M St k
        (.send (.allParties (.echo (roundOf M St j) hash))) := by
      intro hash echo he
      exact h (Except.ok.inj (congrArg Prod.snd he))
    refine .call (spares_complete h).2.1 fun ans => ?_
    cases ans with
    | error err => exact .ret rfl
    | ok needs =>
      simp only [afterMainRound]
      split
      · exact .ret hremove
      · split
        · exact .ret hremove
        · refine .call (hsend _) fun ans => ?_
          cases ans with
          | error err => exact .ret hremove
          | ok u =>
            refine .call (spares_complete h).2.2 fun ans => ?_
            cases ans with
            | error err => exact .ret hremove
            | ok echoes =>
              simp only [afterEchoRound]
              split <;> exact .ret hremove

/-- Round `k` can be completed, and `own` was sent in it. -/
structure Pending (k : ι) (stream : List (Except IoErr (Incoming (Msg H M))))
    (l0 : Ledger (Msg H M) (SubStore H M St)) (own : Option M)
    (s : EchoParty H M St IoErr) : Prop where
  party : PartyPending k stream l0 (own.toList.map fun m => .allParties (.main m)) s.party
  slot : s.engine.sentReliableMsgs (roundOf M St k) = some own

variable [ShortProtocolMsg M] {own : Option M} {s : EchoParty H M St IoErr}

omit [∀ k, RoundStore (St k)] [∀ k, RoundMsg M (RoundInfo.Msg (St k))] [Build]
  [TypeIds (SubStore H M St)] [∀ k, ShortRoundMsg M (RoundInfo.Msg (St k))] [Digest H M]
  [DecidableEq H] in
theorem onSend_total (e : WithEchoBroadcast M) (outgoing : Outgoing M) :
    ∃ e' res, e.onSend outgoing = .ok (e',res) := by
  obtain ⟨n,hn,_⟩ := ShortProtocolMsg.round_lt outgoing.msg
  exact ⟨_,_,by rw [onSend,hn]; rfl⟩

omit [TypeIds (SubStore H M St)] [∀ k, ShortRoundMsg M (RoundInfo.Msg (St k))] [Digest H M]
  [DecidableEq H] [ShortProtocolMsg M] in
theorem Pending.handOver (h : Pending k stream l0 own s) {outgoing o : Outgoing M}
    {e' : WithEchoBroadcast M} (hon : s.engine.onSend outgoing = .ok (e',.ok o)) :
    ∃ party' own', s.party.send (o.map .main) = (party',.ok ()) ∧
      Pending k stream l0 own' (⟨e',party'⟩ : EchoParty H M St IoErr) := by
  obtain ⟨r,hr,⟨err,he,_⟩ | ⟨hs,hrel,rfl,ho⟩ | ⟨hs,rfl,ho⟩⟩ := onSend_cases hon
  · cases he
  · cases ho
    by_cases hk : r = roundOf M St k
    · subst hk
      have hown : own = none := by
        rw [h.slot] at hs
        exact Option.some.inj hs
      subst hown
      obtain ⟨l,c,hc,hl⟩ := h.party.connected
      refine ⟨_,some outgoing.msg,MpcParty.send_of_no_answers h.party.answers _,
        ⟨⟨l,c,⟨hc.router_eq,hc.incomings_eq,hc.reading⟩,hl⟩,h.party.answers,?_,?_⟩,
        Function.update_self ..⟩
      · rw [sentIn_snoc,if_pos (by simp [Msg.kind,hr]),h.party.mains]
        rfl
      · rw [sentIn_snoc,if_neg (by simp [Msg.kind])]
        exact h.party.echoes
    · obtain ⟨party',hsend,hp⟩ := h.party.send (o := (⟨.allParties false,.main outgoing.msg⟩)) (by
        intro echo he
        rw [Msg.kind,hr] at he
        exact hk (Except.ok.inj (congrArg Prod.snd he)))
      exact ⟨party',own,hsend,hp,(Function.update_of_ne (Ne.symm hk) ..).trans h.slot⟩
  · cases ho
    have hk : r ≠ roundOf M St k := by
      rintro rfl
      rw [h.slot] at hs
      cases hs
    obtain ⟨party',hsend,hp⟩ := h.party.send (o := (⟨outgoing.recipient,.main outgoing.msg⟩)) (by
      intro echo he
      rw [Msg.kind,hr] at he
      exact hk (Except.ok.inj (congrArg Prod.snd he)))
    exact ⟨party',own,hsend,hp,h.slot⟩

/-- The operation completes no round with the number of `k`. -/
def Elsewhere (M : Type) {ι : Type} (St : ι → Type) [∀ k, RoundStore (St k)]
    [∀ k, RoundMsg M (RoundInfo.Msg (St k))] (k : ι) : Call (Round ι) M → Prop
  | .complete w => roundOf M St w.kind ≠ roundOf M St k
  | _ => True

theorem Pending.serve (hlaw : RoutableStream (Msg H M) (SubStore H M St) stream)
    (h : Pending k stream l0 own s) {d : Call (Round ι) M} (hd : Elsewhere M St k d) :
    ∃ s' res own', s.serve d = .ok (s',res) ∧ Pending k stream l0 own' s' := by
  have hrefused : ∀ {outgoing e' err}, s.engine.onSend outgoing = .ok (e',.error err) →
      e' = s.engine := by
    intro outgoing e' err hon
    obtain ⟨_,_,⟨_,_,he⟩ | ⟨_,_,_,he⟩ | ⟨_,_,he⟩⟩ := onSend_cases hon
    · exact he
    · cases he
    · cases he
  cases d with
  | complete w =>
    obtain ⟨party',⟨e',res⟩,hrun,hp,hslot⟩ := (complete_within hd).run
      (fun c party hc hp => hp.handle hlaw hc) h.party
    exact ⟨_,res,own,EchoParty.serve_of_run rfl hrun,hp,hslot.trans h.slot⟩
  | send outgoing =>
    obtain ⟨e',res,hon⟩ := onSend_total s.engine outgoing
    cases res with
    | error err =>
      obtain rfl := hrefused hon
      exact ⟨s,_,own,EchoParty.serve_of_run (serve_refused hon).1 rfl,h⟩
    | ok o =>
      obtain ⟨party',own',hsend,hp⟩ := h.handOver hon
      have hcall : MpcParty.handle (.send (o.map .main)) s.party = .ok (party',.ok ()) :=
        congrArg _ hsend
      exact ⟨_,_,own',EchoParty.serve_of_run (serve_handedOver hon).1 (Prog.run_call hcall _),hp⟩
  | enqueue outgoing =>
    obtain ⟨e',res,hon⟩ := onSend_total s.engine outgoing
    cases res with
    | error err =>
      obtain rfl := hrefused hon
      exact ⟨s,_,own,EchoParty.serve_of_run (serve_refused hon).2 rfl,h⟩
    | ok o =>
      obtain ⟨party',own',hsend,hp⟩ := h.handOver hon
      have hcall : MpcParty.handle (.enqueue (o.map .main)) s.party = .ok (party',.ok ()) :=
        congrArg _ hsend
      exact ⟨_,_,own',EchoParty.serve_of_run (serve_handedOver hon).2 (Prog.run_call hcall _),hp⟩
  | flush =>
    have hcall : MpcParty.handle .flush s.party = .ok (s.party,.ok ()) :=
      congrArg _ (MpcParty.flush_of_no_answers h.party.answers)
    exact ⟨s,.ok (),own,EchoParty.serve_of_run rfl (Prog.run_call hcall _),h⟩
  | yieldNow => exact ⟨s,(),own,EchoParty.serve_of_run rfl rfl,h⟩

end Others

end EchoBroadcast
end RoundBased
