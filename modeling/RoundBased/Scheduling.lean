import RoundBased.SharedState

/-! The scheduling discipline of the shared state. The delivery and any number of
`YieldNow` futures are polled in any order, the executor acts at any moment, and at most
one task is ever scheduled. -/
namespace RoundBased

variable {M : Type}

/-- The shared state and the `YieldNow` futures created on it, polled or abandoned. -/
structure Polled (M : Type) where
  shared : SharedState M
  futures : ℕ → YieldNow

def Polled.new : Polled M := ⟨SharedState.new,fun _ => ⟨false⟩⟩

/-- What the protocol can do with the delivery and the runtime it was given. -/
inductive PollOp (M : Type)
  | pollNext | pollReady | startSend (msg : Outgoing M) | pollFlush | pollYield (id : ℕ)

/-- What the executor can do at any moment, the three checks of `proceed` one by one. -/
inductive ExecutorOp (M : Type)
  | takesOutgoingMsg | wantsMoreMessages | readsAndResetsYieldedFlag
  | receivedMsg (msg : Incoming M)

def Poll.isPending {α : Type} : Poll α → Bool
  | .ready _ => false
  | .pending => true

/-- The flag tells whether the operation was a poll that returned pending. -/
def PollOp.exec : PollOp M → Polled M → Polled M × Bool
  | .pollNext, st => let r := st.shared.pollNext; ({ st with shared := r.1 },r.2.isPending)
  | .pollReady, st => let r := st.shared.pollReady; ({ st with shared := r.1 },r.2.isPending)
  | .startSend msg, st => ({ st with shared := (st.shared.startSend msg).1 },false)
  | .pollFlush, st => let r := st.shared.pollFlush; ({ st with shared := r.1 },r.2.isPending)
  | .pollYield id, st =>
    let r := (st.futures id).poll st.shared
    (⟨r.2.1,Function.update st.futures id r.1⟩,r.2.2.isPending)

def ExecutorOp.exec [Build] : ExecutorOp M → SharedState M → Checked (SharedState M)
  | .takesOutgoingMsg, s => s.executorTakesOutgoingMsg.map Prod.fst
  | .wantsMoreMessages, s => .ok s
  | .readsAndResetsYieldedFlag, s => .ok s.executorReadsAndResetsYieldedFlag.1
  | .receivedMsg msg, s => .ok (s.executorReceivedMsg msg).1

abbrev PolledOp (M : Type) := PollOp M ⊕ ExecutorOp M

def PolledOp.exec [Build] : PolledOp M → Polled M → Checked (Polled M)
  | .inl op, st => .ok (op.exec st).1
  | .inr op, st => (op.exec st.shared).map fun s => { st with shared := s }

def execAll [Build] : List (PolledOp M) → Polled M → Checked (Polled M)
  | [], st => .ok st
  | op :: ops, st => (PolledOp.exec op st).bind (execAll ops)

/-- One poll of the protocol future; the flag tells whether anything was polled to
pending during it. -/
def pollAll : List (PollOp M) → Polled M → Polled M × Bool
  | [], st => (st,false)
  | op :: ops, st =>
    let r := op.exec st
    let t := pollAll ops r.1
    (t.1,r.2 || t.2)

/-- The tasks that can be scheduled, one for each flag. -/
inductive Task
  | recv | send | yield
  deriving DecidableEq, Repr

def SharedState.scheduled (s : SharedState M) : Task → Bool
  | .recv => s.wantsRecvMsg
  | .send => s.wantsSendMsg
  | .yield => s.yielded

/-- The invariant of the shared state. -/
structure Scheduling (s : SharedState M) : Prop where
  unique : ∀ t u, s.scheduled t = true → s.scheduled u = true → t = u
  send_full : s.wantsSendMsg = true → s.outgoingMsg.isSome = true
  recv_empty : s.wantsRecvMsg = true → s.incomingMsg = none

theorem scheduling_new : Scheduling (SharedState.new : SharedState M) where
  unique t u ht := by cases t <;> simp [SharedState.new,SharedState.scheduled] at ht
  send_full h := by simp [SharedState.new] at h
  recv_empty _ := rfl

theorem CanSchedule.not_scheduled (g : CanSchedule M) (t : Task) :
    g.state.scheduled t = false := by
  cases t
  · exact g.recv_unset
  · exact g.send_unset
  · exact g.yielded_unset

/-- A guard is only handed out for the very state it was asked of. -/
theorem canSchedule_ready {s : SharedState M} {g : CanSchedule M}
    (h : s.canSchedule = .ready g) : g.state = s := by
  unfold SharedState.canSchedule at h
  split at h
  · cases h; rfl
  · cases h

theorem canSchedule_pending {s : SharedState M} (h : s.canSchedule = .pending) :
    ∃ t, s.scheduled t = true := by
  unfold SharedState.canSchedule at h
  split at h
  · cases h
  · rename_i hn
    by_contra hc
    push Not at hc
    have hrecv := hc .recv
    have hsend := hc .send
    have hyield := hc .yield
    simp only [SharedState.scheduled,ne_eq,Bool.not_eq_true] at hrecv hsend hyield
    exact hn ⟨hrecv,hsend,hyield⟩

theorem canSchedule_of_free {s : SharedState M} (h : ∀ t, s.scheduled t = false) :
    ∃ g, s.canSchedule = .ready g :=
  ⟨_,dif_pos ⟨h .recv,h .send,h .yield⟩⟩

theorem CanSchedule.flushes_spec (g : CanSchedule M) (hi : Scheduling g.state) :
    Scheduling g.protocolFlushesOutgoingMsg.1 ∧
    (g.protocolFlushesOutgoingMsg.2.isPending = true →
      g.protocolFlushesOutgoingMsg.1.scheduled .send = true) := by
  unfold protocolFlushesOutgoingMsg
  split
  · rename_i hfull
    refine ⟨⟨?_,fun _ => hfull,fun h => hi.recv_empty h⟩,fun _ => rfl⟩
    intro t u ht hu
    cases t <;> cases u <;>
      simp_all [SharedState.scheduled,g.recv_unset,g.yielded_unset]
  · exact ⟨hi,fun h => by simp [Poll.isPending] at h⟩

theorem CanSchedule.needsOneMoreMsg_spec (g : CanSchedule M) (hi : Scheduling g.state) :
    Scheduling g.protocolNeedsOneMoreMsg.1 ∧
    (g.protocolNeedsOneMoreMsg.2.isPending = true →
      g.protocolNeedsOneMoreMsg.1.scheduled .recv = true) := by
  unfold protocolNeedsOneMoreMsg
  split
  · exact ⟨⟨hi.unique,hi.send_full,fun _ => rfl⟩,fun h => by simp [Poll.isPending] at h⟩
  · rename_i hempty
    refine ⟨⟨?_,hi.send_full,fun _ => hempty⟩,fun _ => rfl⟩
    intro t u ht hu
    cases t <;> cases u <;> simp_all [SharedState.scheduled,g.send_unset,g.yielded_unset]

theorem CanSchedule.yields_spec (g : CanSchedule M) (hi : Scheduling g.state) :
    Scheduling g.protocolYields ∧ g.protocolYields.scheduled .yield = true := by
  refine ⟨⟨?_,hi.send_full,hi.recv_empty⟩,rfl⟩
  intro t u ht hu
  cases t <;> cases u <;>
    simp_all [SharedState.scheduled,protocolYields,g.recv_unset,g.send_unset]

@[simp] theorem isPending_map {α β : Type} (f : α → β) (p : Poll α) :
    (p.map f).isPending = p.isPending := by
  cases p <;> rfl

/-- What a poll promises: the invariant, and a task for every `Pending`. -/
structure Kept (s : SharedState M) (isPending : Bool) : Prop where
  inv : Scheduling s
  task : isPending = true → ∃ t, s.scheduled t = true

theorem kept_pending {s : SharedState M} (hi : Scheduling s) (h : s.canSchedule = .pending) :
    Kept s true :=
  ⟨hi,fun _ => canSchedule_pending h⟩

theorem pollNext_spec {s : SharedState M} (hi : Scheduling s) :
    Kept s.pollNext.1 s.pollNext.2.isPending := by
  unfold SharedState.pollNext
  split
  · rename_i h; exact kept_pending hi h
  · rename_i g h
    obtain ⟨h1,h2⟩ := g.needsOneMoreMsg_spec (canSchedule_ready h ▸ hi)
    exact ⟨h1,fun hp => ⟨.recv,h2 (by simpa using hp)⟩⟩

theorem pollReady_spec {s : SharedState M} (hi : Scheduling s) :
    Kept s.pollReady.1 s.pollReady.2.isPending := by
  unfold SharedState.pollReady
  split
  · rename_i h; exact kept_pending hi h
  · rename_i g h
    obtain ⟨h1,h2⟩ := g.flushes_spec (canSchedule_ready h ▸ hi)
    exact ⟨h1,fun hp => ⟨.send,h2 (by simpa using hp)⟩⟩

theorem pollFlush_spec {s : SharedState M} (hi : Scheduling s) :
    Kept s.pollFlush.1 s.pollFlush.2.isPending :=
  pollReady_spec hi

theorem startSend_spec {s : SharedState M} (msg : Outgoing M) (hi : Scheduling s) :
    Scheduling (s.startSend msg).1 := by
  unfold SharedState.startSend SharedState.protocolSavesMsgToBeSent
  split
  · exact hi
  · exact ⟨hi.unique,fun _ => rfl,hi.recv_empty⟩

theorem YieldNow.poll_spec (f : YieldNow) {s : SharedState M} (hi : Scheduling s) :
    Kept (f.poll s).2.1 (f.poll s).2.2.isPending := by
  unfold YieldNow.poll
  split
  · exact ⟨hi,fun h => by simp [Poll.isPending] at h⟩
  · split
    · rename_i h; exact kept_pending hi h
    · rename_i g h
      obtain ⟨h1,h2⟩ := g.yields_spec (canSchedule_ready h ▸ hi)
      exact ⟨h1,fun _ => ⟨.yield,h2⟩⟩

/-- Each protocol operation keeps the invariant, and one that returns pending leaves a
task scheduled. -/
theorem PollOp.exec_spec (op : PollOp M) (st : Polled M) (hi : Scheduling st.shared) :
    Kept (op.exec st).1.shared (op.exec st).2 := by
  cases op with
  | pollNext => exact pollNext_spec hi
  | pollReady => exact pollReady_spec hi
  | startSend msg => exact ⟨startSend_spec msg hi,fun h => by simp [exec] at h⟩
  | pollFlush => exact pollFlush_spec hi
  | pollYield id => exact (st.futures id).poll_spec hi

theorem PollOp.exec_scheduled (op : PollOp M) (st : Polled M) {t : Task}
    (h : st.shared.scheduled t = true) : (op.exec st).1.shared.scheduled t = true := by
  have hbusy : st.shared.canSchedule = .pending := by
    cases hc : st.shared.canSchedule with
    | pending => rfl
    | ready g => have := g.not_scheduled t; rw [canSchedule_ready hc,h] at this; cases this
  cases op with
  | pollNext => simpa [exec,SharedState.pollNext,hbusy] using h
  | pollReady => simpa [exec,SharedState.pollReady,hbusy] using h
  | startSend msg =>
    simp only [exec,SharedState.startSend,SharedState.protocolSavesMsgToBeSent]
    split <;> cases t <;> exact h
  | pollFlush => simpa [exec,SharedState.pollFlush,hbusy] using h
  | pollYield id =>
    simp only [exec,YieldNow.poll,hbusy]
    split <;> exact h

/-- Resetting flags and emptying the outgoing slot together keeps the invariant. -/
theorem Scheduling.takesOutgoingMsg [Build] {s : SharedState M} (hi : Scheduling s) :
    ∃ s' msg, s.executorTakesOutgoingMsg = .ok (s',msg) ∧ Scheduling s' ∧
      (s.wantsSendMsg = true → msg = s.outgoingMsg ∧ ∀ t, s'.scheduled t = false) ∧
      (s.wantsSendMsg = false → s' = s ∧ msg = none) := by
  unfold SharedState.executorTakesOutgoingMsg
  by_cases hw : s.wantsSendMsg = true
  · have hfull := hi.send_full hw
    have hassert : (Build.debugAssertions && s.outgoingMsg.isNone) = false := by
      cases hm : s.outgoingMsg with
      | none => simp [hm] at hfull
      | some m => simp
    have hr : s.wantsRecvMsg = false := by
      by_contra hr
      cases hi.unique .send .recv hw (by simpa [SharedState.scheduled] using hr)
    have hy : s.yielded = false := by
      by_contra hy
      cases hi.unique .send .yield hw (by simpa [SharedState.scheduled] using hy)
    have hfree : ∀ t, ({ s with wantsSendMsg := false, outgoingMsg := none } :
        SharedState M).scheduled t = false := by
      intro t
      cases t
      · exact hr
      · rfl
      · exact hy
    refine ⟨_,_,by simp only [hw,if_true,hassert]; rfl,?_,fun _ => ⟨rfl,hfree⟩,
      fun h => by simp [hw] at h⟩
    refine ⟨fun t u ht => ?_,fun h => ?_,fun h => hi.recv_empty h⟩
    · rw [hfree t] at ht; cases ht
    · cases h
  · refine ⟨s,none,if_neg hw,hi,fun h => absurd h hw,fun _ => ⟨rfl,rfl⟩⟩

theorem Scheduling.readsAndResetsYieldedFlag {s : SharedState M} (hi : Scheduling s) :
    Scheduling s.executorReadsAndResetsYieldedFlag.1 := by
  refine ⟨fun t u ht hu => ?_,hi.send_full,hi.recv_empty⟩
  cases t <;> cases u <;>
    first
    | rfl
    | exact hi.unique _ _ ht hu
    | simp [SharedState.executorReadsAndResetsYieldedFlag,SharedState.scheduled] at ht hu

theorem Scheduling.receivedMsg {s : SharedState M} (hi : Scheduling s) (msg : Incoming M) :
    Scheduling (s.executorReceivedMsg msg).1 := by
  unfold SharedState.executorReceivedMsg
  split
  · exact hi
  · refine ⟨fun t u ht hu => ?_,hi.send_full,fun h => by cases h⟩
    cases t <;> cases u <;>
      first
      | rfl
      | exact hi.unique _ _ ht hu
      | simp [SharedState.scheduled] at ht hu

theorem ExecutorOp.exec_spec [Build] (op : ExecutorOp M) {s : SharedState M}
    (hi : Scheduling s) : ∃ s', op.exec s = .ok s' ∧ Scheduling s' := by
  cases op with
  | takesOutgoingMsg =>
    obtain ⟨s',msg,h,hs,_⟩ := hi.takesOutgoingMsg
    exact ⟨s',by simp [exec,h,Except.map],hs⟩
  | wantsMoreMessages => exact ⟨s,rfl,hi⟩
  | readsAndResetsYieldedFlag => exact ⟨_,rfl,hi.readsAndResetsYieldedFlag⟩
  | receivedMsg msg => exact ⟨_,rfl,hi.receivedMsg msg⟩

/-- Any operations in any order: the assertion never fires and the invariant stays. -/
theorem execAll_spec [Build] (ops : List (PolledOp M)) {st : Polled M}
    (hi : Scheduling st.shared) : ∃ st', execAll ops st = .ok st' ∧ Scheduling st'.shared := by
  induction ops generalizing st with
  | nil => exact ⟨st,rfl,hi⟩
  | cons op ops ih =>
    cases op with
    | inl op => exact ih (op.exec_spec st hi).inv
    | inr op =>
      obtain ⟨s',h,hs⟩ := op.exec_spec hi
      have hnext : Scheduling ({ st with shared := s' } : Polled M).shared := hs
      obtain ⟨st',h',hs'⟩ := ih hnext
      exact ⟨st',by simpa [execAll,PolledOp.exec,h,Except.map,Except.bind] using h',hs'⟩

/-- A task scheduled during a poll of the protocol is still scheduled at its end. -/
theorem pollAll_spec (ops : List (PollOp M)) {st : Polled M} (hi : Scheduling st.shared) :
    Kept (pollAll ops st).1.shared (pollAll ops st).2 ∧
    ∀ t, st.shared.scheduled t = true → (pollAll ops st).1.shared.scheduled t = true := by
  induction ops generalizing st with
  | nil => exact ⟨⟨hi,fun h => by simp [pollAll] at h⟩,fun t h => h⟩
  | cons op ops ih =>
    have hop := op.exec_spec st hi
    obtain ⟨hall,hkeep⟩ := ih hop.inv
    refine ⟨⟨hall.inv,fun h => ?_⟩,fun t h => hkeep t (op.exec_scheduled st h)⟩
    rcases (Bool.or_eq_true _ _).mp h with h1 | h1
    · obtain ⟨t,ht⟩ := hop.task h1
      exact ⟨t,hkeep t ht⟩
    · exact hall.task h1

/-- The answer `proceed` gives to each scheduled task. -/
def SharedState.answer (s : SharedState M) {O : Type} : Task → Option (ProceedResult O M)
  | .recv => some .needsOneMoreMessage
  | .send => s.outgoingMsg.map .sendMsg
  | .yield => some .yielded

/-- `proceed` answers the unique scheduled task and, unless it waits for a message,
leaves nothing scheduled. -/
theorem Scheduling.proceedPending [Build] {O : Type} {s : SharedState M}
    (hi : Scheduling s) :
    ∃ (s' : SharedState M) (res : ProceedResult O M),
      s.proceedPending = .ok (s',res) ∧ Scheduling s' ∧
      (∀ t, s.scheduled t = true → s.answer t = some res) ∧
      (res ≠ .needsOneMoreMessage → ∀ t, s'.scheduled t = false) := by
  obtain ⟨s1,msg,h1,hi1,hsend,hnot⟩ := hi.takesOutgoingMsg
  by_cases hw : s.wantsSendMsg = true
  · obtain ⟨rfl,hfree⟩ := hsend hw
    obtain ⟨m,hm⟩ := Option.isSome_iff_exists.mp (hi.send_full hw)
    refine ⟨s1,.sendMsg m,by simp [SharedState.proceedPending,h1,hm],hi1,fun t ht => ?_,
      fun _ => hfree⟩
    cases hi.unique t .send ht hw
    simp [SharedState.answer,hm]
  · rw [Bool.not_eq_true] at hw
    obtain ⟨rfl,rfl⟩ := hnot hw
    by_cases hr : s1.wantsRecvMsg = true
    · refine ⟨s1,.needsOneMoreMessage,?_,hi,fun t ht => ?_,fun h => absurd rfl h⟩
      · simp [SharedState.proceedPending,h1,SharedState.protocolWantsMoreMessages,hr]
      · cases hi.unique t .recv ht hr; rfl
    · rw [Bool.not_eq_true] at hr
      have hfree : ∀ t, s1.executorReadsAndResetsYieldedFlag.1.scheduled t = false := by
        intro t; cases t
        · exact hr
        · exact hw
        · rfl
      cases hy : s1.yielded with
      | true =>
        refine ⟨_,.yielded,?_,hi.readsAndResetsYieldedFlag,fun t ht => ?_,fun _ => hfree⟩
        · simp [SharedState.proceedPending,h1,SharedState.protocolWantsMoreMessages,hr,
            SharedState.executorReadsAndResetsYieldedFlag,hy]
        · cases hi.unique t .yield ht hy; rfl
      | false =>
        refine ⟨_,.error .pollingUnknownFuture,?_,hi.readsAndResetsYieldedFlag,fun t ht => ?_,
          fun _ => hfree⟩
        · simp [SharedState.proceedPending,h1,SharedState.protocolWantsMoreMessages,hr,
            SharedState.executorReadsAndResetsYieldedFlag,hy]
        · cases t <;> simp_all [SharedState.scheduled]

/-- The discipline over whole histories. `polls` is the next poll of the protocol future:
if anything was polled to pending during it, `proceed` answers the unique task. -/
theorem scheduling_discipline [Build] (O : Type) (ops : List (PolledOp M)) :
    ∃ st, execAll ops Polled.new = .ok st ∧ Scheduling st.shared ∧
      (∀ op : PollOp M, (op.exec st).2 = true →
        ∃ t, (op.exec st).1.shared.scheduled t = true) ∧
      ∀ polls : List (PollOp M), ∃ s' res,
        (pollAll polls st).1.shared.proceedPending (O := O) = .ok (s',res) ∧
        ((pollAll polls st).2 = true →
          ∃! t, (pollAll polls st).1.shared.scheduled t = true ∧
            (pollAll polls st).1.shared.answer t = some res) ∧
        ((∃ msg, res = .sendMsg msg) ∨ res = .yielded →
          (∀ t, s'.scheduled t = false) ∧ ∃ g, s'.canSchedule = .ready g) := by
  have hnew : Scheduling (Polled.new : Polled M).shared := scheduling_new
  obtain ⟨st,hst,hi⟩ := execAll_spec ops hnew
  refine ⟨st,hst,hi,fun op => (op.exec_spec st hi).task,fun polls => ?_⟩
  obtain ⟨hall,_⟩ := pollAll_spec polls hi
  obtain ⟨s',res,hp,_,hanswer,hfree⟩ := hall.inv.proceedPending (O := O)
  refine ⟨s',res,hp,fun h => ?_,fun h => ?_⟩
  · obtain ⟨t,ht⟩ := hall.task h
    exact ⟨t,⟨ht,hanswer t ht⟩,fun u hu => hall.inv.unique u t hu.1 ht⟩
  · have hne : res ≠ .needsOneMoreMessage := by
      rintro rfl
      rcases h with ⟨msg,h⟩ | h <;> cases h
    exact ⟨hfree hne,canSchedule_of_free (hfree hne)⟩

end RoundBased
