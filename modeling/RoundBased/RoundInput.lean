import RoundBased.Gathering
import RoundBased.RoundStore

/-! The simple store: waits for one message from every other party. -/
namespace RoundBased
open Feeding Gathering

/-- Simple implementation of a store, with its slots in ascending order of the sender. -/
structure RoundInput (M : Type) where
  i : PartyIndex
  n : UInt16
  messagesIds : List MsgId
  messages : List (Option M)
  leftMessages : UInt16
  expectedMsgType : MessageType
  two_le : 2 ≤ n.toNat
  i_lt : i.toNat < n.toNat
  ids_length : messagesIds.length = n.toNat - 1
  messages_length : messages.length = n.toNat - 1
  left_eq : leftMessages.toNat = messages.countP Option.isNone

/-- List of received messages. -/
structure RoundMsgs (M : Type) where
  i : PartyIndex
  ids : List MsgId
  messages : List M
  deriving DecidableEq, Repr

inductive RoundInputError
  | attemptToOverwriteReceivedMsg (msgsIds : MsgId × MsgId) (sender : PartyIndex)
  | senderIndexOutOfRange (msgId : MsgId) (sender : PartyIndex) (n : UInt16)
  | mismatchedMessageType (msgId : MsgId) (expected actual : MessageType)
  deriving DecidableEq, Repr

variable {M : Type}

/-- Position of the sender in the list of the parties other than `i`. -/
def slotIndex (i sender : PartyIndex) : ℕ :=
  (if sender < i then sender else sender - 1).toNat

theorem slotIndex_eq {i sender : PartyIndex} (h : sender ≠ i) :
    slotIndex i sender =
      if sender.toNat < i.toNat then sender.toNat else sender.toNat - 1 := by
  simp only [slotIndex,UInt16.lt_iff_toNat_lt]
  split
  · rfl
  · rename_i hlt
    have hne : sender.toNat ≠ i.toNat := fun he => h (UInt16.toNat_inj.mp he)
    rw [UInt16.toNat_sub_of_le]
    · rfl
    · rw [UInt16.le_iff_toNat_le]
      have h1 : (1 : UInt16).toNat = 1 := rfl
      omega

theorem slotIndex_inj {i j k : PartyIndex} (hj : j ≠ i) (hk : k ≠ i)
    (h : slotIndex i j = slotIndex i k) : j = k := by
  have hji : j.toNat ≠ i.toNat := fun he => hj (UInt16.toNat_inj.mp he)
  have hki : k.toNat ≠ i.toNat := fun he => hk (UInt16.toNat_inj.mp he)
  rw [slotIndex_eq hj,slotIndex_eq hk] at h
  apply UInt16.toNat_inj.mp
  split at h <;> split at h <;> omega

theorem slotIndex_lt_iff {i n j : PartyIndex} (hi : i.toNat < n.toNat) (hj : j ≠ i) :
    slotIndex i j < n.toNat - 1 ↔ j < n := by
  have hji : j.toNat ≠ i.toNat := fun he => hj (UInt16.toNat_inj.mp he)
  rw [slotIndex_eq hj,UInt16.lt_iff_toNat_lt]
  split <;> omega

theorem exists_slotIndex {i n : PartyIndex} (hi : i.toNat < n.toNat) {x : ℕ}
    (hx : x < n.toNat - 1) : ∃ j, j < n ∧ j ≠ i ∧ slotIndex i j = x := by
  have hn := n.toNat_lt
  have hto : ∀ y, y < n.toNat → (UInt16.ofNat y).toNat = y := by
    intro y hy
    rw [UInt16.toNat_ofNat']
    omega
  have hlt : ∀ y, y < n.toNat → UInt16.ofNat y < n := by
    intro y hy
    rw [UInt16.lt_iff_toNat_lt,hto y hy]
    exact hy
  have hne : ∀ y, y < n.toNat → y ≠ i.toNat → UInt16.ofNat y ≠ i := by
    rintro y hy h rfl
    exact h (hto y hy).symm
  by_cases hxi : x < i.toNat
  · have hy : x < n.toNat := by omega
    refine ⟨UInt16.ofNat x,hlt x hy,hne x hy (by omega),?_⟩
    rw [slotIndex_eq (hne x hy (by omega)),hto x hy,if_pos hxi]
  · have hy : x + 1 < n.toNat := by omega
    refine ⟨UInt16.ofNat (x + 1),hlt _ hy,hne _ hy (by omega),?_⟩
    rw [slotIndex_eq (hne _ hy (by omega)),hto _ hy]
    split <;> omega

namespace RoundInput

/-- Panics if `n` is less than 2 or `i` is not in the range. -/
def new (i : PartyIndex) (n : UInt16) (msgType : MessageType) : Checked (RoundInput M) :=
  if h : 2 ≤ n.toNat ∧ i.toNat < n.toNat then
    .ok {
      i, n
      messagesIds := List.replicate (n.toNat - 1) 0
      messages := List.replicate (n.toNat - 1) none
      leftMessages := n - 1
      expectedMsgType := msgType
      two_le := h.1
      i_lt := h.2
      ids_length := List.length_replicate
      messages_length := List.length_replicate
      left_eq := by
        have h1 : (1 : UInt16) ≤ n := by
          rw [UInt16.le_iff_toNat_le]
          exact Nat.le_trans (by decide) h.1
        rw [UInt16.toNat_sub_of_le _ _ h1]
        simp [List.countP_replicate] }
  else .error .assertion

def broadcast (i : PartyIndex) (n : UInt16) : Checked (RoundInput M) :=
  new i n (.broadcast false)

def reliableBroadcast (i : PartyIndex) (n : UInt16) : Checked (RoundInput M) :=
  new i n (.broadcast true)

def p2p (i : PartyIndex) (n : UInt16) : Checked (RoundInput M) := new i n .p2p

end RoundInput

/-- A message of type `actual` is fine where `expected` is expected. -/
def isExpectedType (expected actual : MessageType) : Bool :=
  match expected,actual with
  | .p2p,.p2p => true
  | .broadcast false,.broadcast _ => true
  | .broadcast true,.broadcast true => true
  | _,_ => false

namespace RoundInput

def isExpectedTypeOfMsg (self : RoundInput M) (actual : MessageType) : Bool :=
  isExpectedType self.expectedMsgType actual

/-- Fills a vacant slot. -/
def occupy (self : RoundInput M) (index : ℕ) (id : MsgId) (msg : M)
    (h : self.messages[index]? = some none) : RoundInput M where
  i := self.i
  n := self.n
  messagesIds := self.messagesIds.set index id
  messages := self.messages.set index (some msg)
  leftMessages := self.leftMessages - 1
  expectedMsgType := self.expectedMsgType
  two_le := self.two_le
  i_lt := self.i_lt
  ids_length := by rw [List.length_set]; exact self.ids_length
  messages_length := by rw [List.length_set]; exact self.messages_length
  left_eq := by
    obtain ⟨hlt,hget⟩ := List.getElem?_eq_some_iff.mp h
    have hpos : 0 < self.messages.countP Option.isNone :=
      List.countP_pos_iff.mpr ⟨none,List.mem_of_getElem? h,rfl⟩
    have hleft := self.left_eq
    have h1 : (1 : UInt16) ≤ self.leftMessages := by
      rw [UInt16.le_iff_toNat_le]
      change 1 ≤ self.leftMessages.toNat
      omega
    rw [UInt16.toNat_sub_of_le _ _ h1,List.countP_set hlt]
    change self.leftMessages.toNat - 1 = _
    simp [hget,hleft]

def addMessage (self : RoundInput M) (msg : Incoming M) :
    RoundInput M × Except RoundInputError Unit :=
  if !self.isExpectedTypeOfMsg msg.msgType then
    (self,.error (.mismatchedMessageType msg.id self.expectedMsgType msg.msgType))
  -- own messages are ignored
  else if msg.sender = self.i then (self,.ok ())
  else
    let index := slotIndex self.i msg.sender
    match h : self.messages[index]? with
    | some none => (self.occupy index msg.id msg.msg h,.ok ())
    | some (some _) => (self,.error (.attemptToOverwriteReceivedMsg
        (self.messagesIds.getD index 0,msg.id) msg.sender))
    | none => (self,.error (.senderIndexOutOfRange msg.id msg.sender self.n))

def wantsMore (self : RoundInput M) : Bool := 0 < self.leftMessages

def output (self : RoundInput M) : Except (RoundInput M) (RoundMsgs M) :=
  if 0 < self.leftMessages then .error self
  else .ok ⟨self.i,self.messagesIds,self.messages.filterMap id⟩

instance : RoundStore (RoundInput M) where
  Msg := M
  Output := RoundMsgs M
  Error := RoundInputError
  addMessage := addMessage
  wantsMore := wantsMore
  output := output
  requiresReliableBroadcast self := some (self.expectedMsgType = .broadcast true)

end RoundInput

namespace RoundMsgs

def intoVecWithoutMe (self : RoundMsgs M) : List M := self.messages

def intoVecIncludingMe (self : RoundMsgs M) (myMsg : M) : List M :=
  self.messages.insertIdx self.i.toNat myMsg

/-- The message received from party `sender`. -/
def get (self : RoundMsgs M) (sender : PartyIndex) : Option M :=
  self.messages[slotIndex self.i sender]?

end RoundMsgs

/-! A round input gathers one message from each of the others. -/

/-- The parties a round input waits for. -/
def Others (i n j : PartyIndex) : Prop := j < n ∧ j ≠ i

/-- How a round input reads a message. -/
def asItem (i : PartyIndex) (expected : MessageType) (msg : Incoming M) :
    Item PartyIndex M :=
  if !isExpectedType expected msg.msgType then .refused
  else if msg.sender = i then .ignored
  else .item msg.sender msg.msg

namespace RoundInput

/-- The message received from party `sender`, if there was one. -/
def get (self : RoundInput M) (sender : PartyIndex) : Option M :=
  (self.messages[slotIndex self.i sender]?).join

theorem wantsMore_eq_false_iff (self : RoundInput M) :
    self.wantsMore = false ↔ ∀ j, Others self.i self.n j → (self.get j).isSome = true := by
  have hleft : self.wantsMore = false ↔ self.messages.countP Option.isNone = 0 := by
    rw [← self.left_eq]
    simp only [wantsMore,decide_eq_false_iff_not,UInt16.lt_iff_toNat_lt]
    change ¬ 0 < self.leftMessages.toNat ↔ self.leftMessages.toNat = 0
    omega
  rw [hleft,List.countP_eq_zero]
  constructor
  · rintro h j ⟨hj,hji⟩
    have hlt : slotIndex self.i j < self.messages.length := by
      rw [self.messages_length]
      exact (slotIndex_lt_iff self.i_lt hji).mpr hj
    have hnone := h _ (List.getElem_mem hlt)
    simp only [get,List.getElem?_eq_getElem hlt,Option.join_some]
    cases hm : self.messages[slotIndex self.i j] with
    | none => simp [hm] at hnone
    | some m => rfl
  · intro h m hm hnone
    obtain ⟨x,hx,rfl⟩ := List.getElem_of_mem hm
    obtain ⟨j,hj,hji,rfl⟩ := exists_slotIndex self.i_lt (self.messages_length ▸ hx)
    have hsome := h j ⟨hj,hji⟩
    simp only [get,List.getElem?_eq_getElem hx,Option.join_some] at hsome
    rw [Option.isNone_iff_eq_none.mp hnone] at hsome
    cases hsome

theorem get_occupy {self : RoundInput M} {j k : PartyIndex} {id : MsgId} {msg : M}
    (h : self.messages[slotIndex self.i j]? = some none) (hj : j ≠ self.i)
    (hk : k ≠ self.i) :
    (self.occupy (slotIndex self.i j) id msg h).get k =
      if k = j then some msg else self.get k := by
  have hlt := (List.getElem?_eq_some_iff.mp h).1
  by_cases hkj : k = j
  · subst hkj
    simp [get,occupy,hlt]
  · have hne : slotIndex self.i j ≠ slotIndex self.i k :=
      fun he => hkj (slotIndex_inj hj hk he).symm
    simp [get,occupy,hkj,hne]

theorem getElem?_slot {self : RoundInput M} {j : PartyIndex} (hj : j ≠ self.i) :
    self.messages[slotIndex self.i j]? =
      if j < self.n then some (self.get j) else none := by
  have hlt := slotIndex_lt_iff self.i_lt hj
  rw [← self.messages_length] at hlt
  by_cases hn : j < self.n
  · rw [if_pos hn]
    simp [get,List.getElem?_eq_getElem (hlt.mpr hn)]
  · rw [if_neg hn,List.getElem?_eq_none_iff]
    exact Nat.le_of_not_lt fun h => hn (hlt.mp h)

/-- The round input of party `i` holds exactly what was gathered. -/
structure Holds (i n : PartyIndex) (t : MessageType) (s : RoundInput M)
    (acc : PartyIndex → Option M) : Prop where
  i_eq : s.i = i
  n_eq : s.n = n
  type_eq : s.expectedMsgType = t
  get_eq : ∀ j, Others i n j → s.get j = acc j

variable {i n : PartyIndex} {t : MessageType}

theorem lt_of_new {s : RoundInput M} (h : new i n t = .ok s) : i < n := by
  unfold new at h
  split at h
  · rename_i hin
    exact UInt16.lt_iff_toNat_lt.mpr hin.2
  · cases h

theorem requiresReliable_new {reliable : Bool} {s : RoundInput M}
    (h : new i n (.broadcast reliable) = .ok s) :
    requiresReliableBroadcast s = some reliable := by
  unfold new at h
  split at h
  · cases h
    cases reliable <;> rfl
  · cases h

theorem holds_new {s : RoundInput M} (h : new i n t = .ok s) :
    Holds i n t s fun _ => none := by
  unfold new at h
  split at h
  · cases h
    refine ⟨rfl,rfl,rfl,fun j hj => ?_⟩
    simp only [get,List.getElem?_replicate]
    split <;> rfl
  · cases h

theorem Holds.wants {s : RoundInput M} {acc : PartyIndex → Option M}
    (h : Holds i n t s acc) :
    wantsMore s = (gather (Others i n) (Others i n)).wants acc := by
  obtain ⟨rfl,rfl,rfl,hget⟩ := h
  rw [Bool.eq_iff_iff,← not_iff_not,Bool.not_eq_true,Bool.not_eq_true,
    wantsMore_eq_false_iff,gather_wants_false]
  constructor
  · intro h j hj; rw [← hget j hj]; exact h j hj
  · intro h j hj; rw [hget j hj]; exact h j hj

theorem addMessage_vacant {s : RoundInput M} {msg : Incoming M}
    (ht : isExpectedType s.expectedMsgType msg.msgType = true) (hi : msg.sender ≠ s.i)
    (h : s.messages[slotIndex s.i msg.sender]? = some none) :
    s.addMessage msg = (s.occupy (slotIndex s.i msg.sender) msg.id msg.msg h,.ok ()) := by
  simp only [addMessage,isExpectedTypeOfMsg,ht,hi,Bool.not_true,Bool.false_eq_true,if_false]
  split <;> simp_all

theorem addMessage_filled {s : RoundInput M} {msg : Incoming M}
    (ht : isExpectedType s.expectedMsgType msg.msgType = true) (hi : msg.sender ≠ s.i)
    (h : s.messages[slotIndex s.i msg.sender]? ≠ some none) :
    ∃ e, s.addMessage msg = (s,.error e) := by
  simp only [addMessage,isExpectedTypeOfMsg,ht,hi,Bool.not_true,Bool.false_eq_true,if_false]
  split
  · contradiction
  · exact ⟨_,rfl⟩
  · exact ⟨_,rfl⟩

theorem Holds.add {s : RoundInput M} {acc : PartyIndex → Option M}
    (h : Holds i n t s acc) (msg : Incoming M) :
    Corresponds (Holds i n t) (fun _ _ => True) ((store (RoundInput M)).add s msg)
      ((gather (Others i n) (Others i n)).add acc (asItem i t msg)) := by
  obtain ⟨rfl,rfl,rfl,hget⟩ := h
  by_cases ht : isExpectedType s.expectedMsgType msg.msgType = true
  swap
  · rw [Bool.not_eq_true] at ht
    simp only [store_add,RoundStore.addMessage,addMessage,isExpectedTypeOfMsg,asItem,ht]
    exact .error trivial
  by_cases hi : msg.sender = s.i
  · simp only [store_add,RoundStore.addMessage,addMessage,isExpectedTypeOfMsg,asItem,ht,hi]
    exact .ok ⟨rfl,rfl,rfl,hget⟩
  have hslot := getElem?_slot hi
  have hitem : asItem s.i s.expectedMsgType msg = .item msg.sender msg.msg := by
    simp [asItem,ht,hi]
  rw [hitem]
  by_cases hfree : Others s.i s.n msg.sender ∧ acc msg.sender = none
  · have hvac : s.messages[slotIndex s.i msg.sender]? = some none := by
      rw [hslot,if_pos hfree.1.1,hget _ hfree.1,hfree.2]
    simp only [store_add,RoundStore.addMessage,addMessage_vacant ht hi hvac,gather,hfree,
      and_self,if_true]
    refine .ok ⟨rfl,rfl,rfl,fun j hj => ?_⟩
    rw [get_occupy hvac hi hj.2]
    by_cases hjs : j = msg.sender
    · rw [if_pos hjs,hjs,Function.update_self]
    · rw [if_neg hjs,Function.update_of_ne hjs]
      exact hget j hj
  · have hfull : s.messages[slotIndex s.i msg.sender]? ≠ some none := by
      intro hc
      rw [hslot] at hc
      split at hc
      · rename_i hn
        have ho : Others s.i s.n msg.sender := ⟨hn,hi⟩
        exact hfree ⟨ho,(hget _ ho).symm.trans (Option.some.inj hc)⟩
      · cases hc
    obtain ⟨e,he⟩ := addMessage_filled ht hi hfull
    simp only [store_add,RoundStore.addMessage,he,gather,hfree,if_false]
    exact .error trivial

/-- Feeding a round input is gathering from the others. -/
theorem feed_gather {s : RoundInput M} (hs : new i n t = .ok s) (msgs : List (Incoming M)) :
    Corresponds (Holds i n t) (fun _ _ => True) ((store (RoundInput M)).feed s msgs)
      ((gather (Others i n) (Others i n)).feed (fun _ => none) (msgs.map (asItem i t))) := by
  apply feed_simulates
  · intro a acc h; exact h.wants
  · intro a acc msg h _; exact h.add msg
  · exact holds_new hs

theorem map_some_filterMap {l : List (Option M)} (h : ∀ m ∈ l, m.isSome = true) :
    (l.filterMap id).map some = l := by
  induction l with
  | nil => rfl
  | cons m l ih =>
    obtain ⟨v,rfl⟩ := Option.isSome_iff_exists.mp (h m (List.mem_cons_self ..))
    have htail := ih fun m hm => h m (List.mem_cons_of_mem _ hm)
    simpa using htail

/-- The output lists the messages of all the others. -/
theorem output_spec {s : RoundInput M} (hw : s.wantsMore = false) :
    ∃ out, s.output = .ok out ∧ out.i = s.i ∧ out.messages.length = s.n.toNat - 1 ∧
      ∀ j, Others s.i s.n j → out.get j = s.get j := by
  have hleft : ¬ 0 < s.leftMessages := by simpa [wantsMore] using hw
  rw [wantsMore_eq_false_iff] at hw
  have hall : ∀ m ∈ s.messages, m.isSome = true := by
    intro m hm
    obtain ⟨x,hx,rfl⟩ := List.getElem_of_mem hm
    obtain ⟨j,hj,hji,rfl⟩ := exists_slotIndex s.i_lt (s.messages_length ▸ hx)
    simpa [get,List.getElem?_eq_getElem hx] using hw j ⟨hj,hji⟩
  have hsome := map_some_filterMap hall
  refine ⟨_,if_neg hleft,rfl,?_,fun j hj => ?_⟩
  · rw [← s.messages_length,← congrArg List.length hsome,List.length_map]
  · have hget := congrArg (fun l : List (Option M) => l[slotIndex s.i j]?.join) hsome
    simp only [List.getElem?_map] at hget
    simp only [RoundMsgs.get,get,← hget]
    cases (s.messages.filterMap id)[slotIndex s.i j]? <;> rfl

/-- The output lists what was gathered from the others. -/
structure Releases (i n : PartyIndex) (out : RoundMsgs M) (acc : PartyIndex → Option M) :
    Prop where
  i_eq : out.i = i
  length : out.messages.length = n.toNat - 1
  get : ∀ j, Others i n j → out.get j = acc j
  complete : ∀ j, Others i n j → (acc j).isSome = true

theorem Holds.releases {s : RoundInput M} {acc : PartyIndex → Option M}
    (h : Holds i n t s acc) (hw : s.wantsMore = false) :
    ∃ out, s.output = .ok out ∧ Releases i n out acc := by
  obtain ⟨out,hout,hi,hlen,hget⟩ := output_spec hw
  have hcomplete := (wantsMore_eq_false_iff s).mp hw
  rw [h.i_eq,h.n_eq] at hget hcomplete
  refine ⟨out,hout,hi.trans h.i_eq,by rw [hlen,h.n_eq],fun j hj => ?_,fun j hj => ?_⟩
  · rw [hget j hj,h.get_eq j hj]
  · rw [← h.get_eq j hj]
    exact hcomplete j hj

/-- The verdict of a round input, by what is gathered from its messages. -/
theorem verdict_gather {s : RoundInput M} (hs : new i n t = .ok s)
    (msgs : List (Incoming M)) :
    match (gather (Others i n) (Others i n)).feed (fun _ => none)
      (msgs.map (asItem i t)) with
    | .error _ => ∃ e, verdict s msgs = some (.error e)
    | .ok acc =>
      if (gather (Others i n) (Others i n)).wants acc then verdict s msgs = none
      else ∃ out, verdict s msgs = some (.ok out) ∧ Releases i n out acc := by
  have hfeed := (feed_gather hs msgs).symm
  unfold verdict
  cases hg : (gather (Others i n) (Others i n)).feed (fun _ => none)
      (msgs.map (asItem i t)) with
  | error e =>
    obtain ⟨e',he,_⟩ := hfeed.of_error hg
    simp only [he]
    exact ⟨e',rfl⟩
  | ok acc =>
    obtain ⟨s',hf,hold⟩ := hfeed.of_ok hg
    simp only [hf,← hold.wants]
    by_cases hw : s'.wantsMore = true
    · have hw' : RoundStore.wantsMore s' = true := hw
      simp only [hw,hw',if_true]
    · rw [Bool.not_eq_true] at hw
      obtain ⟨out,hout,hrel⟩ := hold.releases hw
      have hw' : RoundStore.wantsMore s' = false := hw
      have hout' : RoundStore.output s' = .ok out := hout
      simp only [hw,hw',hout',Bool.false_eq_true,if_false]
      exact ⟨out,rfl,hrel⟩

theorem obeys (s : RoundInput M) : Obeys s := by
  intro s' _ hw
  obtain ⟨out,ho,_⟩ := output_spec hw
  exact ⟨out,ho⟩

end RoundInput
end RoundBased
