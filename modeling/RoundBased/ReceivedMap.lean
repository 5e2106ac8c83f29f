import RoundBased.RoundInput

/-! A round input stands for a partial map from senders to the messages accepted from them. -/
namespace RoundBased

variable {M : Type} {i n : UInt16} {t : MessageType}

instance (i n j : PartyIndex) : Decidable (Others i n j) :=
  inferInstanceAs (Decidable (j < n ∧ j ≠ i))

/-- The parties other than `i`, in ascending order. -/
def othersOf (i n : UInt16) : List PartyIndex :=
  (List.range i.toNat ++ List.range' (i.toNat + 1) (n.toNat - 1 - i.toNat)).map UInt16.ofNat

theorem length_othersOf (hi : i.toNat < n.toNat) : (othersOf i n).length = n.toNat - 1 := by
  simp only [othersOf,List.length_map,List.length_append,List.length_range,List.length_range']
  omega

theorem othersOf_slotIndex (hi : i.toNat < n.toNat) {j : PartyIndex} (hj : Others i n j) :
    (othersOf i n)[slotIndex i j]? = some j := by
  have hne : j.toNat ≠ i.toNat := fun he => hj.2 (UInt16.toNat_inj.mp he)
  have hlt : j.toNat < n.toNat := UInt16.lt_iff_toNat_lt.mp hj.1
  rw [othersOf,List.getElem?_map,slotIndex_eq hj.2]
  by_cases hji : j.toNat < i.toNat
  · rw [if_pos hji,List.getElem?_append_left (by simpa using hji)]
    simp [List.getElem?_range hji]
  · have hle : i.toNat ≤ j.toNat - 1 := by omega
    rw [if_neg hji,List.getElem?_append_right (by simpa using hle),List.length_range,
      List.getElem?_range' (by omega)]
    have hnat : i.toNat + 1 + 1 * (j.toNat - 1 - i.toNat) = j.toNat := by omega
    simp only [hnat,Option.map_some,UInt16.ofNat_toNat]

/-- A list of the right length that has the value of each party at its slot. -/
theorem eq_map_othersOf {A : Type} {xs : List A} {f : PartyIndex → A} (hi : i.toNat < n.toNat)
    (hlen : xs.length = n.toNat - 1)
    (h : ∀ j, Others i n j → xs[slotIndex i j]? = some (f j)) : xs = (othersOf i n).map f := by
  apply List.ext_getElem?
  intro x
  by_cases hx : x < n.toNat - 1
  · obtain ⟨j,hj,hji,rfl⟩ := exists_slotIndex hi hx
    rw [h j ⟨hj,hji⟩,List.getElem?_map,othersOf_slotIndex hi ⟨hj,hji⟩]
    rfl
  · rw [List.getElem?_eq_none (by omega),
      List.getElem?_eq_none (by rw [List.length_map,length_othersOf hi]; omega)]

theorem mem_othersOf (hi : i.toNat < n.toNat) {j : PartyIndex} :
    j ∈ othersOf i n ↔ Others i n j := by
  constructor
  · intro h
    obtain ⟨x,hx,rfl⟩ := List.getElem_of_mem h
    rw [length_othersOf hi] at hx
    obtain ⟨k,hk,hki,he⟩ := exists_slotIndex hi hx
    have hget := othersOf_slotIndex hi ⟨hk,hki⟩
    rw [he,List.getElem?_eq_getElem (by rwa [length_othersOf hi])] at hget
    rw [Option.some.inj hget]
    exact ⟨hk,hki⟩
  · intro h
    exact List.mem_of_getElem? (othersOf_slotIndex hi h)

/-- What is accepted from each sender: the first message of the expected type. -/
def firstAccepted (i n : UInt16) (t : MessageType) (msgs : List (Incoming M)) (j : PartyIndex) :
    Option (MsgId × M) :=
  if Others i n j then
    (msgs.find? fun msg => isExpectedType t msg.msgType && msg.sender = j).map fun msg =>
      (msg.id,msg.msg)
  else none

/-- A message that is not accepted, or that is not the first of its sender, changes nothing. -/
theorem firstAccepted_snoc_same {msgs : List (Incoming M)} {msg : Incoming M}
    (h : isExpectedType t msg.msgType = true → Others i n msg.sender →
      firstAccepted i n t msgs msg.sender ≠ none) :
    firstAccepted i n t (msgs ++ [msg]) = firstAccepted i n t msgs := by
  funext j
  by_cases hj : Others i n j
  · simp only [firstAccepted,hj,if_true,List.find?_append] at h ⊢
    cases hfind : msgs.find? fun m => isExpectedType t m.msgType && m.sender = j with
    | some m => simp
    | none =>
      by_cases hm : isExpectedType t msg.msgType = true ∧ msg.sender = j
      · obtain ⟨ht,rfl⟩ := hm
        exact absurd (by simp [hj,hfind]) (h ht hj)
      · simp [hm]
  · simp [firstAccepted,hj]

theorem firstAccepted_snoc_new {msgs : List (Incoming M)} {msg : Incoming M}
    (ht : isExpectedType t msg.msgType = true) (hj : Others i n msg.sender)
    (h : firstAccepted i n t msgs msg.sender = none) :
    firstAccepted i n t (msgs ++ [msg]) =
      Function.update (firstAccepted i n t msgs) msg.sender (some (msg.id,msg.msg)) := by
  funext j
  by_cases hje : j = msg.sender
  · subst hje
    simp only [firstAccepted,hj,if_true,Option.map_eq_none_iff] at h
    rw [Function.update_self]
    simp only [firstAccepted,hj,if_true,List.find?_append,h]
    simp [ht]
  · rw [Function.update_of_ne hje]
    simp [firstAccepted,List.find?_append,Ne.symm hje]

namespace RoundInput

/-- Adds the messages one by one, whatever is returned. -/
def addAll (self : RoundInput M) (msgs : List (Incoming M)) : RoundInput M :=
  msgs.foldl (fun s msg => (s.addMessage msg).1) self

@[simp] theorem addAll_nil (s : RoundInput M) : s.addAll [] = s := rfl

theorem addAll_snoc (s : RoundInput M) (msgs : List (Incoming M)) (msg : Incoming M) :
    s.addAll (msgs ++ [msg]) = ((s.addAll msgs).addMessage msg).1 := by
  simp [addAll]

/-- The map a round input stands for. -/
def toMap (self : RoundInput M) (j : PartyIndex) : Option (MsgId × M) :=
  if Others self.i self.n j then
    (self.get j).map fun msg => (self.messagesIds.getD (slotIndex self.i j) 0,msg)
  else none

theorem toMap_ne_none {s : RoundInput M} {j : PartyIndex} (h : s.toMap j ≠ none) :
    Others s.i s.n j := by
  by_contra hj
  exact h (if_neg hj)

theorem toMap_eq_none_iff {s : RoundInput M} {j : PartyIndex} (hj : Others s.i s.n j) :
    s.toMap j = none ↔ s.get j = none := by
  simp [toMap,hj]

theorem toMap_occupy {s : RoundInput M} {j : PartyIndex} {id : MsgId} {msg : M}
    (h : s.messages[slotIndex s.i j]? = some none) (hj : Others s.i s.n j) :
    (s.occupy (slotIndex s.i j) id msg h).toMap = Function.update s.toMap j (some (id,msg)) := by
  funext k
  have hlt : slotIndex s.i j < s.messagesIds.length := by
    rw [s.ids_length]
    exact (slotIndex_lt_iff s.i_lt hj.2).mpr hj.1
  by_cases hk : Others s.i s.n k
  · have hget : (s.occupy (slotIndex s.i j) id msg h).get k = if k = j then some msg else s.get k :=
      get_occupy h hj.2 hk.2
    have hk' : Others (s.occupy (slotIndex s.i j) id msg h).i
        (s.occupy (slotIndex s.i j) id msg h).n k := hk
    rw [toMap,if_pos hk',hget]
    by_cases hkj : k = j
    · subst hkj
      rw [Function.update_self]
      simp [occupy,hlt]
    · have hne : slotIndex s.i j ≠ slotIndex s.i k :=
        fun he => hkj (slotIndex_inj hj.2 hk.2 he).symm
      rw [Function.update_of_ne hkj,if_neg hkj,toMap,if_pos hk]
      simp [occupy,hne]
  · have hkj : k ≠ j := by
      rintro rfl
      exact hk hj
    rw [Function.update_of_ne hkj,toMap,toMap,if_neg hk]
    exact if_neg hk

/-- What adding a message comes to, by the map the round input stands for. -/
structure Answers (s : RoundInput M) (i n : UInt16) (t : MessageType) (msg : Incoming M) : Prop where
  mismatched : isExpectedType t msg.msgType = false ↔
    s.addMessage msg = (s,.error (.mismatchedMessageType msg.id t msg.msgType))
  own : isExpectedType t msg.msgType = true →
    (msg.sender = i ↔ s.addMessage msg = (s,.ok ()))
  outOfRange : isExpectedType t msg.msgType = true → msg.sender ≠ i →
    (n ≤ msg.sender ↔ s.addMessage msg = (s,.error (.senderIndexOutOfRange msg.id msg.sender n)))
  overwrites : isExpectedType t msg.msgType = true → Others i n msg.sender →
    ∀ id, (s.toMap msg.sender).map Prod.fst = some id ↔
      s.addMessage msg = (s,.error (.attemptToOverwriteReceivedMsg (id,msg.id) msg.sender))
  extends_map : isExpectedType t msg.msgType = true → Others i n msg.sender →
    (s.toMap msg.sender = none ↔ ∃ s', s.addMessage msg = (s',.ok ()) ∧
      s'.toMap = Function.update s.toMap msg.sender (some (msg.id,msg.msg)))

variable {s : RoundInput M} {msg : Incoming M}

theorem addMessage_mismatched (h : isExpectedType s.expectedMsgType msg.msgType = false) :
    s.addMessage msg =
      (s,.error (.mismatchedMessageType msg.id s.expectedMsgType msg.msgType)) := by
  simp [addMessage,isExpectedTypeOfMsg,h]

theorem addMessage_own (h : isExpectedType s.expectedMsgType msg.msgType = true)
    (hi : msg.sender = s.i) : s.addMessage msg = (s,.ok ()) := by
  simp [addMessage,isExpectedTypeOfMsg,h,hi]

theorem addMessage_outOfRange (h : isExpectedType s.expectedMsgType msg.msgType = true)
    (hi : msg.sender ≠ s.i) (hn : ¬ msg.sender < s.n) :
    s.addMessage msg = (s,.error (.senderIndexOutOfRange msg.id msg.sender s.n)) := by
  have hslot : s.messages[slotIndex s.i msg.sender]? = none := by
    rw [getElem?_slot hi,if_neg hn]
  simp only [addMessage,isExpectedTypeOfMsg,h,hi,Bool.not_true,Bool.false_eq_true,if_false]
  split <;> simp_all

theorem addMessage_overwrites (h : isExpectedType s.expectedMsgType msg.msgType = true)
    (hj : Others s.i s.n msg.sender) {id : MsgId} {m : M}
    (hm : s.toMap msg.sender = some (id,m)) :
    s.addMessage msg = (s,.error (.attemptToOverwriteReceivedMsg (id,msg.id) msg.sender)) := by
  simp only [toMap,hj,if_true,Option.map_eq_some_iff,Prod.mk.injEq] at hm
  obtain ⟨v,hget,hid,rfl⟩ := hm
  have hslot : s.messages[slotIndex s.i msg.sender]? = some (some v) := by
    rw [getElem?_slot hj.2,if_pos hj.1,hget]
  simp only [addMessage,isExpectedTypeOfMsg,h,hj.2,Bool.not_true,Bool.false_eq_true,if_false]
  split <;> simp_all

theorem addMessage_extends (h : isExpectedType s.expectedMsgType msg.msgType = true)
    (hj : Others s.i s.n msg.sender) (hm : s.toMap msg.sender = none) :
    ∃ s', s.addMessage msg = (s',.ok ()) ∧
      s'.toMap = Function.update s.toMap msg.sender (some (msg.id,msg.msg)) ∧
      s'.i = s.i ∧ s'.n = s.n ∧ s'.expectedMsgType = s.expectedMsgType := by
  have hslot : s.messages[slotIndex s.i msg.sender]? = some none := by
    rw [getElem?_slot hj.2,if_pos hj.1,(toMap_eq_none_iff hj).mp hm]
  exact ⟨_,addMessage_vacant h hj.2 hslot,toMap_occupy hslot hj,rfl,rfl,rfl⟩

/-- All that adding a message can do. -/
theorem addMessage_cases (s : RoundInput M) (msg : Incoming M) :
    (isExpectedType s.expectedMsgType msg.msgType = false ∧ s.addMessage msg =
      (s,.error (.mismatchedMessageType msg.id s.expectedMsgType msg.msgType))) ∨
    isExpectedType s.expectedMsgType msg.msgType = true ∧
      ((msg.sender = s.i ∧ s.addMessage msg = (s,.ok ())) ∨
      (msg.sender ≠ s.i ∧ s.n ≤ msg.sender ∧
        s.addMessage msg = (s,.error (.senderIndexOutOfRange msg.id msg.sender s.n))) ∨
      (Others s.i s.n msg.sender ∧ ∃ id m, s.toMap msg.sender = some (id,m) ∧ s.addMessage msg =
        (s,.error (.attemptToOverwriteReceivedMsg (id,msg.id) msg.sender))) ∨
      (Others s.i s.n msg.sender ∧ s.toMap msg.sender = none ∧ ∃ s', s.addMessage msg = (s',.ok ()) ∧
        s'.toMap = Function.update s.toMap msg.sender (some (msg.id,msg.msg)) ∧
        s'.i = s.i ∧ s'.n = s.n ∧ s'.expectedMsgType = s.expectedMsgType)) := by
  cases ht : isExpectedType s.expectedMsgType msg.msgType with
  | false => exact .inl ⟨rfl,addMessage_mismatched ht⟩
  | true =>
    refine .inr ⟨rfl,?_⟩
    by_cases hi : msg.sender = s.i
    · exact .inl ⟨hi,addMessage_own ht hi⟩
    by_cases hn : msg.sender < s.n
    · cases hm : s.toMap msg.sender with
      | some v => exact .inr (.inr (.inl ⟨⟨hn,hi⟩,v.1,v.2,rfl,addMessage_overwrites ht ⟨hn,hi⟩ hm⟩))
      | none => exact .inr (.inr (.inr ⟨⟨hn,hi⟩,rfl,addMessage_extends ht ⟨hn,hi⟩ hm⟩))
    · exact .inr (.inl ⟨hi,UInt16.not_lt.mp hn,addMessage_outOfRange ht hi hn⟩)

theorem addMessage_error {s' : RoundInput M} {e : RoundInputError}
    (h : s.addMessage msg = (s',.error e)) : s' = s := by
  rcases addMessage_cases s msg with ⟨_,ha⟩ | ⟨_,⟨_,ha⟩ | ⟨_,_,ha⟩ | ⟨_,_,_,_,ha⟩ | ⟨_,_,t,ha,_⟩⟩
  all_goals rw [h] at ha; cases ha
  all_goals rfl

/-- The five answers exclude each other, so each tells the case. -/
theorem answers (hi : s.i = i) (hn : s.n = n) (ht : s.expectedMsgType = t) :
    Answers s i n t msg := by
  subst hi hn ht
  rcases addMessage_cases s msg with ⟨ht,ha⟩ | ⟨ht,⟨hi,ha⟩ | ⟨hi,hn,ha⟩ | ⟨hj,id,m,hm,ha⟩ |
    ⟨hj,hm,s',ha,hmap,_⟩⟩
  · refine ⟨by simp [ht,ha],?_,?_,?_,?_⟩ <;> intro h <;> rw [ht] at h <;> cases h
  · refine ⟨by simp [ht,ha],fun _ => by simp [hi,ha],fun _ h => absurd hi h,
      fun _ h => absurd hi h.2,fun _ h => absurd hi h.2⟩
  · have hlt : ¬ msg.sender < s.n := UInt16.not_lt.mpr hn
    refine ⟨by simp [ht,ha],fun _ => by simp [hi,ha],fun _ _ => by simp [hn,ha],
      fun _ h => absurd h.1 hlt,fun _ h => absurd h.1 hlt⟩
  · have hlt : ¬ s.n ≤ msg.sender := UInt16.not_le.mpr hj.1
    refine ⟨by simp [ht,ha],fun _ => by simp [hj.2,ha],fun _ _ => by simp [hlt,ha],
      fun _ _ id' => by simp [hm,ha],fun _ _ => by simp [hm,ha]⟩
  · have hlt : ¬ s.n ≤ msg.sender := UInt16.not_le.mpr hj.1
    have hne : s' ≠ s := by
      rintro rfl
      rw [hmap,Function.update_self] at hm
      cases hm
    refine ⟨by simp [ht,ha],fun _ => by simp [hj.2,ha,hne],fun _ _ => by simp [hlt,ha],
      fun _ _ id' => by simp [hm,ha],fun _ _ => ⟨fun _ => ⟨s',ha,hmap⟩,fun _ => hm⟩⟩

/-- The store of party `i` stands for the map. -/
structure Represents (i n : UInt16) (t : MessageType) (s : RoundInput M)
    (map : PartyIndex → Option (MsgId × M)) : Prop where
  i_eq : s.i = i
  n_eq : s.n = n
  type_eq : s.expectedMsgType = t
  map_eq : s.toMap = map

theorem represents_new (h : new i n t = .ok s) : Represents i n t s fun _ => none := by
  have hold := holds_new h
  refine ⟨hold.i_eq,hold.n_eq,hold.type_eq,?_⟩
  funext j
  by_cases hj : Others s.i s.n j
  · rw [toMap_eq_none_iff hj]
    rw [hold.i_eq,hold.n_eq] at hj
    exact hold.get_eq j hj
  · exact if_neg hj

theorem Represents.add {msgs : List (Incoming M)}
    (h : Represents i n t s (firstAccepted i n t msgs)) (msg : Incoming M) :
    Represents i n t (s.addMessage msg).1 (firstAccepted i n t (msgs ++ [msg])) := by
  obtain ⟨rfl,rfl,rfl,hmap⟩ := h
  have hsame : (isExpectedType s.expectedMsgType msg.msgType = true → Others s.i s.n msg.sender →
      s.toMap msg.sender ≠ none) → Represents s.i s.n s.expectedMsgType s
        (firstAccepted s.i s.n s.expectedMsgType (msgs ++ [msg])) := by
    intro hold
    refine ⟨rfl,rfl,rfl,?_⟩
    rw [hmap] at hold ⊢
    exact (firstAccepted_snoc_same hold).symm
  rcases addMessage_cases s msg with ⟨ht,ha⟩ | ⟨ht,⟨hi,ha⟩ | ⟨hi,hn,ha⟩ | ⟨hj,id,m,hm,ha⟩ |
    ⟨hj,hm,s',ha,hmap',hparams⟩⟩
  · rw [ha]
    exact hsame fun h => by rw [ht] at h; cases h
  · rw [ha]
    exact hsame fun _ hj => absurd hi hj.2
  · rw [ha]
    exact hsame fun _ hj => absurd hj.1 (UInt16.not_lt.mpr hn)
  · rw [ha]
    exact hsame fun _ _ => by rw [hm]; exact Option.some_ne_none _
  · rw [ha]
    refine ⟨hparams.1,hparams.2.1,hparams.2.2,?_⟩
    rw [hmap',hmap]
    exact (firstAccepted_snoc_new ht hj (by rw [← hmap]; exact hm)).symm

/-- After any messages, good and bad ones, the store stands for the first accepted ones. -/
theorem represents_addAll {s : RoundInput M} (h : new i n t = .ok s) (msgs : List (Incoming M)) :
    Represents i n t (s.addAll msgs) (firstAccepted i n t msgs) := by
  induction msgs using List.reverseRecOn with
  | nil =>
    have hnone : firstAccepted i n t ([] : List (Incoming M)) = fun _ => none := by
      funext j
      simp [firstAccepted]
    rw [hnone]
    exact represents_new h
  | append_singleton msgs msg ih =>
    rw [addAll_snoc]
    exact ih.add msg

theorem wantsMore_eq_false_iff_map (s : RoundInput M) :
    s.wantsMore = false ↔ ∀ j, Others s.i s.n j → s.toMap j ≠ none := by
  rw [wantsMore_eq_false_iff]
  apply forall_congr'
  intro j
  apply forall_congr'
  intro hj
  rw [Option.isSome_iff_ne_none,ne_eq,ne_eq,toMap_eq_none_iff hj]

/-- The output lists the ids and the bodies of the map, in ascending order of the senders. -/
structure Lists (i n : UInt16) (out : RoundMsgs M) (map : PartyIndex → Option (MsgId × M)) :
    Prop where
  i_eq : out.i = i
  ids : out.ids.map some = (othersOf i n).map fun j => (map j).map Prod.fst
  messages : out.messages.map some = (othersOf i n).map fun j => (map j).map Prod.snd

theorem output_lists {s : RoundInput M} (hw : s.wantsMore = false) :
    ∃ out, s.output = .ok out ∧ Lists s.i s.n out s.toMap := by
  obtain ⟨out,hout,hi,hlen,hget⟩ := output_spec hw
  have htotal := (wantsMore_eq_false_iff s).mp hw
  have hids : out.ids = s.messagesIds := by
    unfold output at hout
    split at hout <;> cases hout
    rfl
  refine ⟨out,hout,hi,eq_map_othersOf s.i_lt ?_ fun j hj => ?_,
    eq_map_othersOf s.i_lt ?_ fun j hj => ?_⟩
  · rw [hids,List.length_map,s.ids_length]
  · have hlt : slotIndex s.i j < s.messagesIds.length := by
      rw [s.ids_length]
      exact (slotIndex_lt_iff s.i_lt hj.2).mpr hj.1
    obtain ⟨m,hm⟩ := Option.isSome_iff_exists.mp (htotal j hj)
    simp [hids,toMap,hj,hm,hlt]
  · rw [List.length_map,hlen]
  · obtain ⟨m,hm⟩ := Option.isSome_iff_exists.mp (htotal j hj)
    have hout' := hget j hj
    simp only [RoundMsgs.get,hi,hm] at hout'
    simp [toMap,hj,hm,hout']

theorem output_of_wantsMore {s : RoundInput M} (hw : s.wantsMore = true) : s.output = .error s := by
  have hleft : 0 < s.leftMessages := by simpa [wantsMore] using hw
  exact if_pos hleft

/-- The store refines a partial map from the other parties to messages: after any sequence of
messages it stands for the first accepted ones, it answers by that map, and it is complete and
outputs exactly when the map is total. -/
theorem refines_map {s0 : RoundInput M} (h0 : new i n t = .ok s0) (msgs : List (Incoming M)) :
    Represents i n t (s0.addAll msgs) (firstAccepted i n t msgs) ∧
    (∀ j, firstAccepted i n t msgs j ≠ none → Others i n j) ∧
    (∀ msg, Answers (s0.addAll msgs) i n t msg ∧
      ∀ s' e, (s0.addAll msgs).addMessage msg = (s',.error e) → s' = s0.addAll msgs) ∧
    ((s0.addAll msgs).wantsMore = false ↔ ∀ j, Others i n j → firstAccepted i n t msgs j ≠ none) ∧
    ((s0.addAll msgs).wantsMore = true → (s0.addAll msgs).output = .error (s0.addAll msgs)) ∧
    ((s0.addAll msgs).wantsMore = false → ∃ out, (s0.addAll msgs).output = .ok out ∧
      Lists i n out (firstAccepted i n t msgs)) := by
  have hrep := represents_addAll h0 msgs
  have hi := hrep.i_eq
  have hn := hrep.n_eq
  have hmap := hrep.map_eq
  have hmore := wantsMore_eq_false_iff_map (s0.addAll msgs)
  rw [hi,hn,hmap] at hmore
  refine ⟨hrep,fun j hj => ?_,fun msg => ⟨answers hi hn hrep.type_eq,fun s' e => addMessage_error⟩,hmore,
    output_of_wantsMore,fun hw => ?_⟩
  · rw [← hmap] at hj
    have hother := toMap_ne_none hj
    rwa [hi,hn] at hother
  · obtain ⟨out,hout,hlists⟩ := output_lists hw
    rw [hi,hn,hmap] at hlists
    exact ⟨out,hout,hlists⟩

theorem refines_map_broadcast :
    ∃ s0 : RoundInput Bool, broadcast 1 3 = .ok s0 ∧
      let msgs : List (Incoming Bool) := [⟨7,0,.broadcast true,true⟩,⟨8,0,.broadcast false,false⟩,
        ⟨9,2,.p2p,false⟩,⟨10,2,.broadcast false,false⟩]
      ∃ out, (s0.addAll msgs).output = .ok out ∧
        Lists 1 3 out (firstAccepted 1 3 (.broadcast false) msgs) := by
  obtain ⟨s0,h0⟩ : ∃ s0 : RoundInput Bool, broadcast 1 3 = .ok s0 := ⟨_,rfl⟩
  refine ⟨s0,h0,?_⟩
  intro msgs
  obtain ⟨_,_,_,hmore,_,hout⟩ := refines_map h0 msgs
  refine hout (hmore.mpr fun j hj => ?_)
  have hmem : j ∈ othersOf 1 3 := (mem_othersOf (by decide)).mpr hj
  have hothers : othersOf 1 3 = [0,2] := by decide
  rw [hothers,List.mem_cons,List.mem_singleton] at hmem
  rcases hmem with rfl | rfl <;> decide

end RoundInput
end RoundBased
