import RoundBased.ReceivedMap
import RoundBased.Router

/-! Messages of the local party itself, as they come back from a network that loops
broadcasts. -/
namespace RoundBased
namespace RoundInput

variable {M : Type} {i n : UInt16} {t : MessageType} {s : RoundInput M}

/-- The messages with what was returned for them. -/
def results (self : RoundInput M) :
    List (Incoming M) → List (Incoming M × Except RoundInputError Unit)
  | [] => []
  | msg :: msgs => (msg,(self.addMessage msg).2) :: (self.addMessage msg).1.results msgs

/-- Nothing that other parties sent is treated differently because of the messages of party
`i` in between. These are ignored, also by the router while the round is in progress. -/
structure IgnoresOwn (s : RoundInput M) (i : UInt16) (msgs : List (Incoming M)) : Prop where
  answers : (s.results msgs).filter (fun r => r.1.sender ≠ i) =
    s.results (msgs.filter fun msg => msg.sender ≠ i)
  wantsMore : (s.addAll msgs).wantsMore = (s.addAll (msgs.filter fun msg => msg.sender ≠ i)).wantsMore
  output : (s.addAll msgs).output = (s.addAll (msgs.filter fun msg => msg.sender ≠ i)).output
  ignored : ∀ before msg after, msgs = before ++ msg :: after → msg.sender = i →
    (s.addAll before).addMessage msg = (s.addAll before,.ok ())
  routed : ∀ before msg after, msgs = before ++ msg :: after → msg.sender = i →
    ∀ (P : Type) [ProtocolMsg P] [RoundMsg P (RoundInfo.Msg (RoundInput M))]
      (incoming : Incoming P), incoming.tryMap fromProtocolMsg = .ok msg →
      (s.addAll before).wantsMore = true →
      (ProcessRoundMessageImpl.inProgress (s.addAll before)).processMessage incoming =
        .ok (.inProgress (s.addAll before))

theorem addMessage_params (s : RoundInput M) (msg : Incoming M) :
    (s.addMessage msg).1.i = s.i ∧ (s.addMessage msg).1.n = s.n ∧
      (s.addMessage msg).1.expectedMsgType = s.expectedMsgType := by
  rcases addMessage_cases s msg with ⟨_,ha⟩ | ⟨_,⟨_,ha⟩ | ⟨_,_,ha⟩ | ⟨_,_,_,_,ha⟩ |
    ⟨_,_,s',ha,_,hparams⟩⟩
  · rw [ha]; exact ⟨rfl,rfl,rfl⟩
  · rw [ha]; exact ⟨rfl,rfl,rfl⟩
  · rw [ha]; exact ⟨rfl,rfl,rfl⟩
  · rw [ha]; exact ⟨rfl,rfl,rfl⟩
  · rw [ha]; exact hparams

theorem addAll_params (s : RoundInput M) (msgs : List (Incoming M)) :
    (s.addAll msgs).i = s.i ∧ (s.addAll msgs).n = s.n ∧
      (s.addAll msgs).expectedMsgType = s.expectedMsgType := by
  induction msgs using List.reverseRecOn with
  | nil => exact ⟨rfl,rfl,rfl⟩
  | append_singleton msgs msg ih =>
    obtain ⟨hi,hn,ht⟩ := addMessage_params (s.addAll msgs) msg
    rw [addAll_snoc]
    exact ⟨hi.trans ih.1,hn.trans ih.2.1,ht.trans ih.2.2⟩

/-- Own messages of the expected type may be left out, all or some of them. -/
theorem results_filter (keep : Incoming M → Bool) {msgs : List (Incoming M)}
    (h : ∀ msg ∈ msgs, keep msg = false →
      msg.sender = s.i ∧ isExpectedType s.expectedMsgType msg.msgType = true) :
    (s.results msgs).filter (fun r => keep r.1) = s.results (msgs.filter keep) ∧
    s.addAll msgs = s.addAll (msgs.filter keep) ∧
    ∀ r ∈ s.results msgs, keep r.1 = false → r.2 = .ok () := by
  induction msgs generalizing s with
  | nil => exact ⟨rfl,rfl,fun r hr => (by cases hr)⟩
  | cons msg msgs ih =>
    cases hk : keep msg with
    | false =>
      obtain ⟨hown,ht⟩ := h msg (List.mem_cons_self ..) hk
      have hsame := addMessage_own ht hown
      obtain ⟨hresults,hstate,hok⟩ := ih fun m hm => h m (List.mem_cons_of_mem _ hm)
      rw [List.filter_cons_of_neg (by simp [hk]),results,hsame]
      refine ⟨?_,?_,?_⟩
      · rw [List.filter_cons_of_neg (by simp [hk])]
        exact hresults
      · simp only [addAll,List.foldl_cons,hsame] at hstate ⊢
        exact hstate
      · intro r hr hkr
        rcases List.mem_cons.mp hr with rfl | hr
        · rfl
        · exact hok r hr hkr
    | true =>
      obtain ⟨hi,_,ht⟩ := addMessage_params s msg
      have hrest : ∀ m ∈ msgs, keep m = false → m.sender = (s.addMessage msg).1.i ∧
          isExpectedType (s.addMessage msg).1.expectedMsgType m.msgType = true := by
        rw [hi,ht]
        exact fun m hm => h m (List.mem_cons_of_mem _ hm)
      obtain ⟨hresults,hstate,hok⟩ := ih hrest
      rw [List.filter_cons_of_pos hk,results,results]
      refine ⟨?_,?_,?_⟩
      · rw [List.filter_cons_of_pos (by simp [hk]),hresults]
      · simp only [addAll,List.foldl_cons] at hstate ⊢
        exact hstate
      · intro r hr hkr
        rcases List.mem_cons.mp hr with rfl | hr
        · rw [hk] at hkr
          cases hkr
        · exact hok r hr hkr

/-- A round input ignores own messages exactly when they are of the type it expects. -/
theorem ignores_own_iff {s0 : RoundInput M} (h0 : new i n t = .ok s0) (msgs : List (Incoming M)) :
    IgnoresOwn s0 i msgs ↔
      ∀ msg ∈ msgs, msg.sender = i → isExpectedType t msg.msgType = true := by
  obtain ⟨rfl,_,rfl,_⟩ := represents_new h0
  constructor
  · intro h msg hmem hown
    obtain ⟨before,after,rfl⟩ := List.append_of_mem hmem
    have hok := h.ignored before msg after rfl hown
    obtain ⟨_,_,ht⟩ := addAll_params s0 before
    by_contra hne
    rw [Bool.not_eq_true,← ht] at hne
    rw [addMessage_mismatched hne] at hok
    cases hok
  · intro h
    have hignored : ∀ before msg after, msgs = before ++ msg :: after → msg.sender = s0.i →
        (s0.addAll before).addMessage msg = (s0.addAll before,.ok ()) := by
      rintro before msg after rfl hown
      obtain ⟨hi,_,ht⟩ := addAll_params s0 before
      exact addMessage_own (by rw [ht]; exact h msg (by simp) hown) (hown.trans hi.symm)
    obtain ⟨hresults,hstate,_⟩ := results_filter
      (fun msg => decide (msg.sender ≠ s0.i)) fun msg hmem hkeep =>
        have hown : msg.sender = s0.i := by simpa using hkeep
        ⟨hown,h msg hmem hown⟩
    refine ⟨hresults,by rw [hstate],by rw [hstate],hignored,?_⟩
    intro before msg after hsplit hown P _ _ incoming hconv hw
    have hadd : RoundStore.addMessage (s0.addAll before) msg = (s0.addAll before,.ok ()) :=
      hignored before msg after hsplit hown
    have hw' : RoundStore.wantsMore (s0.addAll before) = true := hw
    simp [ProcessRoundMessageImpl.processMessage,ProcessRoundMessageImpl.addToStore,hconv,hadd,
      Except.map,Except.mapError,hw']

/-- The own broadcast comes back while messages sent to one party are collected. -/
theorem looped_broadcast_refused :
    ∃ s0 : RoundInput Unit, p2p 0 2 = .ok s0 ∧
      s0.addMessage ⟨0,0,.broadcast false,()⟩ =
        (s0,.error (.mismatchedMessageType 0 .p2p (.broadcast false))) ∧
      ¬ IgnoresOwn s0 0 [⟨0,0,.broadcast false,()⟩] := by
  obtain ⟨s0,h0⟩ : ∃ s0 : RoundInput Unit, p2p 0 2 = .ok s0 := ⟨_,rfl⟩
  have herr : s0.addMessage ⟨0,0,.broadcast false,()⟩ =
      (s0,.error (.mismatchedMessageType 0 .p2p (.broadcast false))) := by
    cases h0
    rfl
  refine ⟨s0,h0,herr,fun h => ?_⟩
  have hok := h.ignored [] ⟨0,0,.broadcast false,()⟩ [] rfl rfl
  rw [addAll_nil,herr] at hok
  cases hok

theorem ignores_own_broadcast :
    ∃ s0 : RoundInput Unit, broadcast 0 2 = .ok s0 ∧
      IgnoresOwn s0 0 [⟨0,0,.broadcast true,()⟩,⟨1,1,.broadcast false,()⟩,⟨2,0,.broadcast false,()⟩] := by
  obtain ⟨s0,h0⟩ : ∃ s0 : RoundInput Unit, broadcast 0 2 = .ok s0 := ⟨_,rfl⟩
  exact ⟨s0,h0,(ignores_own_iff h0 _).mpr (by decide)⟩

end RoundInput
end RoundBased
