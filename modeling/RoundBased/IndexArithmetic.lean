import RoundBased.RoundViews

/-! The index arithmetic of the round store, with every operation on machine integers checked. -/
namespace RoundBased
open Iteration

variable {M : Type} {i n : UInt16} {t : MessageType}

/-- Position of the sender in the list of the parties other than `i`. -/
def slotIndexChecked [Build] (i sender : PartyIndex) : Checked ℕ :=
  if sender < i then .ok sender.toNat else (U16.sub sender 1).map UInt16.toNat

/-- The subtraction is only made for senders above `i`. -/
theorem slotIndexChecked_eq [Build] {i j : PartyIndex} (h : j ≠ i) :
    slotIndexChecked i j = .ok (slotIndex i j) := by
  unfold slotIndexChecked slotIndex
  by_cases hlt : j < i
  · rw [if_pos hlt,if_pos hlt]
  · rw [if_neg hlt,if_neg hlt]
    have hle : (1 : UInt16) ≤ j := by
      rw [UInt16.lt_iff_toNat_lt] at hlt
      rw [UInt16.le_iff_toNat_le]
      have hne : j.toNat ≠ i.toNat := fun he => h (UInt16.toNat_inj.mp he)
      change 1 ≤ j.toNat
      omega
    rw [U16.sub_of_le hle]
    rfl

namespace RoundInput

/-- `new`, with the lengths of the vectors and the counter computed by checked arithmetic. -/
def newChecked [Build] (i : PartyIndex) (n : UInt16) (msgType : MessageType) :
    Checked (RoundInput M) :=
  if 2 ≤ n.toNat ∧ i.toNat < n.toNat then do
    let _idsLength ← Usize.sub n.toNat 1
    let _messagesLength ← Usize.sub n.toNat 1
    let _leftMessages ← U16.sub n 1
    new i n msgType
  else .error .assertion

/-- `addMessage`, with the index and the counter computed by checked arithmetic. -/
def addMessageChecked [Build] (self : RoundInput M) (msg : Incoming M) :
    Checked (RoundInput M × Except RoundInputError Unit) :=
  if !self.isExpectedTypeOfMsg msg.msgType then
    .ok (self,.error (.mismatchedMessageType msg.id self.expectedMsgType msg.msgType))
  else if msg.sender = self.i then .ok (self,.ok ())
  else do
    let index ← slotIndexChecked self.i msg.sender
    match h : self.messages[index]? with
    | some none =>
      -- this is the counter that `occupy` stores
      let _leftMessages ← U16.sub self.leftMessages 1
      return (self.occupy index msg.id msg.msg h,.ok ())
    | some (some _) => return (self,.error (.attemptToOverwriteReceivedMsg
        (self.messagesIds.getD index 0,msg.id) msg.sender))
    | none => return (self,.error (.senderIndexOutOfRange msg.id msg.sender self.n))

def addAllChecked [Build] : RoundInput M → List (Incoming M) → Checked (RoundInput M)
  | self,[] => .ok self
  | self,msg :: msgs => do
    let (self',_) ← self.addMessageChecked msg
    addAllChecked self' msgs

section Checked

variable [Build]

/-- `n` is at least 2, so nothing overflows. -/
theorem newChecked_eq (i n : UInt16) (t : MessageType) :
    (newChecked i n t : Checked (RoundInput M)) = new i n t := by
  unfold newChecked
  by_cases h : 2 ≤ n.toNat ∧ i.toNat < n.toNat
  · have hone : (1 : UInt16) ≤ n := by
      rw [UInt16.le_iff_toNat_le]
      exact Nat.le_trans (by decide) h.1
    rw [if_pos h,Usize.sub_of_le (by omega),U16.sub_of_le hone]
    rfl
  · rw [if_neg h,new,dif_neg h]

omit [Build] in
/-- A vacant slot is still counted, so the counter is positive. -/
theorem one_le_leftMessages {s : RoundInput M} {index : ℕ} (h : s.messages[index]? = some none) :
    (1 : UInt16) ≤ s.leftMessages := by
  have hpos : 0 < s.messages.countP Option.isNone :=
    List.countP_pos_iff.mpr ⟨none,List.mem_of_getElem? h,rfl⟩
  rw [UInt16.le_iff_toNat_le,s.left_eq]
  exact hpos

theorem addMessageChecked_eq (s : RoundInput M) (msg : Incoming M) :
    s.addMessageChecked msg = .ok (s.addMessage msg) := by
  unfold addMessageChecked addMessage
  by_cases ht : (!s.isExpectedTypeOfMsg msg.msgType) = true
  · rw [if_pos ht,if_pos ht]
  rw [if_neg ht,if_neg ht]
  by_cases hi : msg.sender = s.i
  · rw [if_pos hi,if_pos hi]
  rw [if_neg hi,if_neg hi,slotIndexChecked_eq hi]
  simp only [bind,Except.bind,pure,Except.pure]
  split
  · rename_i h
    have hsub := U16.sub_of_le (one_le_leftMessages h)
    grind
  · grind
  · grind

theorem addAllChecked_eq (s : RoundInput M) (msgs : List (Incoming M)) :
    s.addAllChecked msgs = .ok (s.addAll msgs) := by
  induction msgs generalizing s with
  | nil => rfl
  | cons msg msgs ih =>
    simp only [addAllChecked,addMessageChecked_eq,bind,Except.bind,ih]
    rfl

/-- Nothing panics while the store is made and filled, and while the indexed iterators over its
output are driven to the end. -/
def NoOverflow (i n : UInt16) (t : MessageType) (msgs : List (Incoming M)) : Prop :=
  ∃ s0 s : RoundInput M, newChecked i n t = .ok s0 ∧ s0.addAllChecked msgs = .ok s ∧
    ∀ out, s.output = .ok out →
      (∃ it xs, out.intoIterIndexed = .ok it ∧ it.Yields xs) ∧
      ∃ it xs, out.iterIndexed = .ok it ∧ it.Yields xs

/-- Nothing comes from some other party. -/
def Incomplete (i n : UInt16) (t : MessageType) (msgs : List (Incoming M)) : Prop :=
  ∃ j, Others i n j ∧ ∀ msg ∈ msgs, msg.sender = j → isExpectedType t msg.msgType = false

omit [Build] in
theorem incomplete_iff {s0 : RoundInput M} (h0 : new i n t = .ok s0) {msgs : List (Incoming M)} :
    Incomplete i n t msgs ↔ (s0.addAll msgs).wantsMore = true := by
  obtain ⟨hi,hn,_,hmap⟩ := represents_addAll h0 msgs
  have hmore := wantsMore_eq_false_iff_map (s0.addAll msgs)
  rw [hi,hn,hmap] at hmore
  rw [← Bool.not_eq_false,hmore,Incomplete]
  have hnone : ∀ j, Others i n j → (firstAccepted i n t msgs j = none ↔
      ∀ msg ∈ msgs, msg.sender = j → isExpectedType t msg.msgType = false) := by
    intro j hj
    simp only [firstAccepted,hj,if_true,Option.map_eq_none_iff,List.find?_eq_none,Bool.and_eq_true,
      decide_eq_true_eq]
    refine forall₂_congr fun msg _ => ?_
    cases isExpectedType t msg.msgType <;> simp
  constructor
  · rintro ⟨j,hj,h⟩ hall
    exact hall j hj ((hnone j hj).mpr h)
  · intro h
    by_contra hc
    exact h fun j hj he => hc ⟨j,hj,(hnone j hj).mp he⟩

omit [Build] in
theorem new_ok (hn : 2 ≤ n.toNat) (hi : i.toNat < n.toNat) (t : MessageType) :
    ∃ s0 : RoundInput M, new i n t = .ok s0 := ⟨_,dif_pos ⟨hn,hi⟩⟩

/-- With 65535 parties the counter of a complete round is at the top when it is polled once more. -/
theorem overflows_at_top (hb : Build.overflowChecks = true) (hn : n.toNat = 65535)
    {msgs : List (Incoming M)} (hall : ¬ Incomplete i n t msgs) : ¬ NoOverflow i n t msgs := by
  rintro ⟨s0,s,h0,hs,hout⟩
  rw [newChecked_eq] at h0
  rw [addAllChecked_eq] at hs
  cases hs
  rw [incomplete_iff h0,Bool.not_eq_true] at hall
  obtain ⟨out,ho,_⟩ := output_spec hall
  obtain ⟨⟨it,xs,hit,hyields⟩,_⟩ := hout out ho
  obtain ⟨hoi,hin,f,hids,hmsgs,_⟩ := output_accepted h0 ho
  obtain ⟨it',m,hit',hsteps,_,hlast⟩ := RoundMsgs.steps_intoIterIndexed hoi hin hids hmsgs
  rw [hit] at hit'
  cases hit'
  exact hsteps.not_yields (hlast hn hb) xs hyields

/-- No index arithmetic overflows, unless there are 65535 parties and the round is complete. -/
theorem no_overflow_iff (hb : Build.overflowChecks = true) (hn : 2 ≤ n.toNat)
    (hi : i.toNat < n.toNat) (msgs : List (Incoming M)) :
    NoOverflow i n t msgs ↔ n.toNat < 65535 ∨ Incomplete i n t msgs := by
  have htop := n.toNat_lt
  constructor
  · intro h
    by_contra hc
    rw [not_or] at hc
    exact overflows_at_top hb (by omega) hc.2 h
  · intro h
    obtain ⟨s0,h0⟩ := new_ok (M := M) hn hi t
    refine ⟨s0,s0.addAll msgs,by rw [newChecked_eq,h0],addAllChecked_eq s0 msgs,fun out ho => ?_⟩
    rcases h with hlt | hinc
    · obtain ⟨hoi,hin,f,hids,hmsgs,_⟩ := output_accepted h0 ho
      obtain ⟨it,m,hit,hsteps,hlast,_⟩ := RoundMsgs.steps_intoIterIndexed hoi hin hids hmsgs
      obtain ⟨m',hnone⟩ := hlast hlt
      exact ⟨⟨it,_,hit,m,m',hsteps,hnone⟩,it,_,hit,m,m',hsteps,hnone⟩
    · rw [incomplete_iff h0] at hinc
      rw [output_of_wantsMore hinc] at ho
      cases ho

end Checked

/-- One message from each of the others. -/
def fullRound (i n : UInt16) : List (Incoming Unit) :=
  (othersOf i n).map fun j => ⟨0,j,.p2p,()⟩

theorem fullRound_complete (hi : i.toNat < n.toNat) : ¬ Incomplete i n .p2p (fullRound i n) := by
  rintro ⟨j,hj,h⟩
  have hmem : (⟨0,j,.p2p,()⟩ : Incoming Unit) ∈ fullRound i n :=
    List.mem_map.mpr ⟨j,(mem_othersOf hi).mpr hj,rfl⟩
  have hfalse := h _ hmem rfl
  cases hfalse

theorem full_round_overflows :
    letI : Build := .debug
    ¬ NoOverflow 0 65535 .p2p (fullRound 0 65535) :=
  letI : Build := .debug
  overflows_at_top rfl rfl (fullRound_complete (by decide))

theorem no_overflow_three :
    letI : Build := .debug
    NoOverflow 1 3 .p2p (fullRound 1 3) :=
  letI : Build := .debug
  (no_overflow_iff rfl (by decide) (by decide) (fullRound 1 3)).mpr (.inl (by decide))

end RoundInput
end RoundBased
