import RoundBased.EchoRounds

/-! What it takes to collect a message from each of the others, in terms of the messages. -/
namespace RoundBased
open Feeding Gathering

variable {T : Type}

/-- The message of the first of `msgs` that `j` sent. -/
def firstOf (msgs : List (Incoming T)) (j : PartyIndex) : Option T :=
  (msgs.find? fun msg => msg.sender = j).map Incoming.msg

/-- The first messages, `collected`, are of the expected type and from different parties,
and everyone but party `i` of `n` is among these. -/
structure Collects (i n : UInt16) (expected : MessageType → Bool)
    (msgs collected : List (Incoming T)) : Prop where
  isPrefix : collected <+: msgs
  typed : ∀ msg ∈ collected, expected msg.msgType = true
  inRange : ∀ msg ∈ collected, msg.sender < n
  nodup : (collected.map Incoming.sender).Nodup
  complete : ∀ j, Others i n j → j ∈ collected.map Incoming.sender

section FirstOf

variable {p : List (Incoming T)} {j : PartyIndex} {m : T}

theorem firstOf_mem (h : firstOf p j = some m) : ∃ msg ∈ p, msg.sender = j ∧ msg.msg = m := by
  obtain ⟨msg,hfind,rfl⟩ := Option.map_eq_some_iff.mp h
  exact ⟨msg,List.mem_of_find?_eq_some hfind,by simpa using List.find?_some hfind,rfl⟩

theorem firstOf_of_mem (h : (p.map Incoming.sender).Nodup) {msg : Incoming T} (hmsg : msg ∈ p) :
    firstOf p msg.sender = some msg.msg := by
  induction p with
  | nil => cases hmsg
  | cons x p ih =>
    rw [List.map_cons,List.nodup_cons] at h
    rcases List.mem_cons.mp hmsg with rfl | hmem
    · simp [firstOf]
    · have hne : x.sender ≠ msg.sender := fun he => h.1 (he ▸ List.mem_map_of_mem hmem)
      have hrest := ih h.2 hmem
      simpa [firstOf,hne] using hrest

end FirstOf

/-- The message as an item, refused if it is not of the expected type. -/
def toItem (expected : MessageType → Bool) (msg : Incoming T) : Item PartyIndex T :=
  if expected msg.msgType then .item msg.sender msg.msg else .refused

section Items

variable {expected : MessageType → Bool} {p : List (Incoming T)} {allowed : PartyIndex → Prop}

theorem keys_toItem (h : ∀ msg ∈ p, expected msg.msgType = true) :
    keys (p.map (toItem expected)) = p.map Incoming.sender := by
  induction p with
  | nil => rfl
  | cons msg p ih =>
    have hmsg := h msg (List.mem_cons_self ..)
    have hrest := ih fun m hm => h m (List.mem_cons_of_mem _ hm)
    simp only [keys] at hrest ⊢
    simp [toItem,hmsg,Item.key,hrest]

theorem lookup_toItem (h : ∀ msg ∈ p, expected msg.msgType = true) (j : PartyIndex) :
    lookup (p.map (toItem expected)) j = firstOf p j := by
  induction p with
  | nil => rfl
  | cons msg p ih =>
    have hmsg := h msg (List.mem_cons_self ..)
    have hrest := ih fun m hm => h m (List.mem_cons_of_mem _ hm)
    simp only [lookup,firstOf] at hrest ⊢
    by_cases hj : msg.sender = j
    · simp [toItem,hmsg,Item.valueAt,hj]
    · simp [toItem,hmsg,Item.valueAt,hj,hrest]

theorem clean_toItem : Clean allowed (p.map (toItem expected)) ↔
    (∀ msg ∈ p, expected msg.msgType = true) ∧ (∀ msg ∈ p, allowed msg.sender) ∧
      (p.map Incoming.sender).Nodup := by
  constructor
  · intro h
    have htyped : ∀ msg ∈ p, expected msg.msgType = true := by
      intro msg hmsg
      by_contra hc
      exact h.not_refused _ (List.mem_map_of_mem hmsg) (by simp [toItem,hc])
    have hallowed := h.allowed
    have hnodup := h.nodup
    rw [keys_toItem htyped] at hallowed hnodup
    exact ⟨htyped,fun msg hmsg => hallowed _ (List.mem_map_of_mem hmsg),hnodup⟩
  · rintro ⟨htyped,hallowed,hnodup⟩
    refine ⟨fun x hx => ?_,fun k hk => ?_,by rwa [keys_toItem htyped]⟩
    · obtain ⟨msg,hmsg,rfl⟩ := List.mem_map.mp hx
      simp [toItem,htyped msg hmsg]
    · rw [keys_toItem htyped] at hk
      obtain ⟨msg,hmsg,rfl⟩ := List.mem_map.mp hk
      exact hallowed msg hmsg

end Items

variable {i n : UInt16} {expected : MessageType → Bool} {msgs p : List (Incoming T)}

theorem Collects.gather (allowed : PartyIndex → Prop) (h : Collects i n expected msgs p)
    (ha : ∀ msg ∈ p, allowed msg.sender) :
    ∃ acc, (gather allowed (Others i n)).feed (fun _ => none) (msgs.map (toItem expected)) = .ok acc ∧
      (Gathering.gather allowed (Others i n)).wants acc = false ∧
      ∀ j, Others i n j → acc j = firstOf p j := by
  have hclean : Clean allowed (p.map (toItem expected)) :=
    clean_toItem.mpr ⟨h.typed,ha,h.nodup⟩
  refine gather_complete_iff.mpr ⟨p.map (toItem expected),h.isPrefix.map _,hclean,?_,?_⟩
  · intro j hj
    rw [keys_toItem h.typed]
    exact h.complete j hj
  · exact fun j _ => (lookup_toItem h.typed j).symm

theorem exists_collects {allowed : PartyIndex → Prop} (ha : ∀ j, allowed j → j < n)
    {acc : PartyIndex → Option T}
    (hf : (gather allowed (Others i n)).feed (fun _ => none) (msgs.map (toItem expected)) = .ok acc)
    (hw : (gather allowed (Others i n)).wants acc = false) :
    ∃ p, Collects i n expected msgs p := by
  obtain ⟨q,hq,hclean,hall,_⟩ := gather_complete_iff.mp ⟨acc,hf,hw,fun _ _ => rfl⟩
  obtain ⟨p,hp,rfl⟩ := List.prefix_map_iff.mp hq
  obtain ⟨htyped,hallowed,hnodup⟩ := clean_toItem.mp hclean
  refine ⟨p,hp,htyped,fun msg hmsg => ha _ (hallowed msg hmsg),hnodup,fun j hj => ?_⟩
  rw [← keys_toItem htyped]
  exact hall j hj

theorem mem_messages_iff (hi : i < n) {out : RoundMsgs T} (hout : out.i = i)
    (hlen : out.messages.length = n.toNat - 1) {m : T} :
    m ∈ out.messages ↔ ∃ j, Others i n j ∧ out.get j = some m := by
  have hin : i.toNat < n.toNat := UInt16.lt_iff_toNat_lt.mp hi
  constructor
  · intro hm
    obtain ⟨x,hx,rfl⟩ := List.getElem_of_mem hm
    obtain ⟨j,hj,hji,rfl⟩ := exists_slotIndex hin (hlen ▸ hx)
    exact ⟨j,⟨hj,hji⟩,by rw [RoundMsgs.get,hout,List.getElem?_eq_getElem]⟩
  · rintro ⟨j,_,hj⟩
    exact List.mem_of_getElem? hj

namespace RoundInput

/-- A round input outputs exactly when messages of the others are collected. -/
theorem verdict_collects {t : MessageType} {s : RoundInput T} (hs : new i n t = .ok s)
    (hown : ∀ msg ∈ msgs, msg.sender ≠ i) :
    ((∃ out, verdict s msgs = some (.ok out)) ↔
      ∃ p, Collects i n (isExpectedType t) msgs p) ∧
    ∀ out p, verdict s msgs = some (.ok out) → Collects i n (isExpectedType t) msgs p →
      out.i = i ∧ out.messages.length = n.toNat - 1 ∧
        ∀ j, Others i n j → out.get j = firstOf p j := by
  have hitems : msgs.map (asItem i t) = msgs.map (toItem (isExpectedType t)) := by
    apply List.map_congr_left
    intro msg hmsg
    by_cases ht : isExpectedType t msg.msgType = true
    · simp [asItem,toItem,ht,hown msg hmsg]
    · simp [asItem,toItem,ht]
  have hv := verdict_gather hs msgs
  rw [hitems] at hv
  have hmem : ∀ p, p <+: msgs → ∀ msg ∈ p, msg.sender < n → Others i n msg.sender :=
    fun p hp msg hmsg hn => ⟨hn,hown msg (hp.subset hmsg)⟩
  refine ⟨⟨?_,?_⟩,fun out p hout hp => ?_⟩
  · rintro ⟨out,hout⟩
    cases hf : (gather (Others i n) (Others i n)).feed (fun _ => none)
        (msgs.map (toItem (isExpectedType t))) with
    | error e =>
      simp only [hf] at hv
      obtain ⟨e',he⟩ := hv
      rw [hout] at he
      cases he
    | ok acc =>
      simp only [hf] at hv
      by_cases hw : (gather (Others i n) (Others i n)).wants acc = true
      · rw [if_pos hw,hout] at hv
        cases hv
      · rw [Bool.not_eq_true] at hw
        exact exists_collects (fun j hj => hj.1) hf hw
  · rintro ⟨p,hp⟩
    obtain ⟨acc,hf,hw,_⟩ := hp.gather _ fun msg hmsg => hmem p hp.isPrefix msg hmsg (hp.inRange msg hmsg)
    simp only [hf,hw,Bool.false_eq_true,if_false] at hv
    obtain ⟨out,hout,_⟩ := hv
    exact ⟨out,hout⟩
  · obtain ⟨acc,hf,hw,hacc⟩ := hp.gather _ fun msg hmsg => hmem p hp.isPrefix msg hmsg (hp.inRange msg hmsg)
    simp only [hf,hw,Bool.false_eq_true,if_false] at hv
    obtain ⟨out',hout',hrel⟩ := hv
    rw [hout] at hout'
    cases hout'
    exact ⟨hrel.i_eq,hrel.length,fun j hj => (hrel.get j hj).trans (hacc j hj)⟩

end RoundInput

namespace EchoBroadcast

variable {H M : Type} [RoundMsg M T]

/-- The messages of all `n` parties by index, the own one and those of the others. -/
def hashedMsgs (M : Type) [RoundMsg M T] (i n : UInt16) (own : Option T)
    (others : PartyIndex → Option T) : List (Option M) :=
  (List.range n.toNat).map fun j =>
    (if j = i.toNat then own else others (UInt16.ofNat j)).map toProtocolMsg

/-- The hash of the messages of all parties. -/
def hashOf (H M : Type) [RoundMsg M T] [Digest H M] (i n : UInt16) (own : Option T)
    (others : PartyIndex → Option T) : H :=
  Digest.hash (⟨TAG,hashedMsgs M i n own others,RoundMsg.ROUND M T,n⟩ : HashInput M)

theorem hashedMsgs_congr {own : Option T} {f g : PartyIndex → Option T}
    (h : ∀ j, Others i n j → f j = g j) : hashedMsgs M i n own f = hashedMsgs M i n own g := by
  apply List.map_congr_left
  intro j hj
  by_cases hji : j = i.toNat
  · simp [hji]
  · have hlt : j < n.toNat := List.mem_range.mp hj
    have hnat : (UInt16.ofNat j).toNat = j :=
      UInt16.toNat_ofNat_of_lt' (Nat.lt_trans hlt n.toNat_lt)
    have hother : Others i n (UInt16.ofNat j) := by
      refine ⟨UInt16.lt_iff_toNat_lt.mpr (by rw [hnat]; exact hlt),fun he => hji ?_⟩
      rw [← he,hnat]
    simp only [hji,if_false,h _ hother]

theorem set_recorded {recorded : List (Option M)} {acc : PartyIndex → Option T}
    (h : Records M n recorded acc) (own : Option T) :
    recorded.set i.toNat (own.map toProtocolMsg) = hashedMsgs M i n own acc := by
  apply List.ext_getElem?
  intro j
  by_cases hlt : j < n.toNat
  · have hnat : (UInt16.ofNat j).toNat = j :=
      UInt16.toNat_ofNat_of_lt' (Nat.lt_trans hlt n.toNat_lt)
    have hget := h.get (UInt16.ofNat j) (UInt16.lt_iff_toNat_lt.mpr (by rw [hnat]; exact hlt))
    rw [hnat] at hget
    by_cases hji : j = i.toNat
    · subst hji
      simp [hashedMsgs,h.length,hlt]
    · rw [List.getElem?_set_ne (Ne.symm hji),hget]
      simp [hashedMsgs,hlt,hji]
  · rw [List.getElem?_eq_none (by rw [List.length_set,h.length]; omega)]
    simp [hashedMsgs,hlt]

variable [ProtocolMsg M] [LawfulRoundMsg M T] {main : MainRound H M (RoundInput T)}

/-- A main round outputs exactly when messages of the others are collected. -/
theorem main_collects (hi : i < n) (h : HoldsMain i n main fun _ => none)
    (msgs : List (Incoming (RoundInfo.Msg (RoundInput T)))) :
    ((∃ needs, verdict main msgs = some (.ok needs)) ↔
      ∃ p, Collects i n (fun _ => true) msgs p) ∧
    ∀ needs p, verdict main msgs = some (.ok needs) → Collects i n (fun _ => true) msgs p →
      needs.params = ⟨i,n⟩ ∧ needs.receivedMsgs.length = n.toNat ∧
      (∀ own : Option T, needs.receivedMsgs.set i.toNat (own.map toProtocolMsg) =
        hashedMsgs M i n own (firstOf p)) ∧
      needs.mainRoundOutput.i = i ∧ needs.mainRoundOutput.messages.length = n.toNat - 1 ∧
      ∀ j, Others i n j → needs.mainRoundOutput.get j = firstOf p j := by
  have hitems : msgs.map asMainItem = msgs.map (toItem fun _ => true) :=
    List.map_congr_left fun _ _ => rfl
  have hv := verdict_main hi h msgs
  rw [hitems] at hv
  refine ⟨⟨fun ⟨needs,hneeds⟩ => ?_,fun ⟨p,hp⟩ => ?_⟩,fun needs p hneeds hp => ?_⟩
  · cases hf : (gather (fun j => j < n) (Others i n)).feed (fun _ => none)
        (msgs.map (toItem fun _ => true)) with
    | error e =>
      simp only [hf] at hv
      obtain ⟨e',he⟩ := hv
      rw [hneeds] at he
      cases he
    | ok acc =>
      simp only [hf] at hv
      by_cases hw : (gather (fun j => j < n) (Others i n)).wants acc = true
      · rw [if_pos hw,hneeds] at hv
        cases hv
      · rw [Bool.not_eq_true] at hw
        exact exists_collects (fun j hj => hj) hf hw
  · obtain ⟨acc,hf,hw,_⟩ := hp.gather (fun j => j < n) hp.inRange
    simp only [hf,hw,Bool.false_eq_true,if_false] at hv
    obtain ⟨needs,hneeds,_⟩ := hv
    exact ⟨needs,hneeds⟩
  · obtain ⟨acc,hf,hw,hacc⟩ := hp.gather (fun j => j < n) hp.inRange
    simp only [hf,hw,Bool.false_eq_true,if_false] at hv
    obtain ⟨needs',hneeds',hparams,hrec,hrel⟩ := hv
    rw [hneeds] at hneeds'
    cases hneeds'
    refine ⟨hparams,hrec.length,fun own => ?_,hrel.i_eq,hrel.length,fun j hj => ?_⟩
    · rw [set_recorded hrec own,hashedMsgs_congr hacc]
    · exact (hrel.get j hj).trans (hacc j hj)

omit [ProtocolMsg M] [LawfulRoundMsg M T] in
/-- The hash is that of the messages collected and the own one. -/
theorem withMyMsg_spec [Digest H M] (hi : i < n) {needs : NeedsOwnMsg H M (RoundInput T)}
    (hp : needs.params = ⟨i,n⟩) (hlen : needs.receivedMsgs.length = n.toNat) {own : Option T}
    {others : PartyIndex → Option T} (hset : needs.receivedMsgs.set i.toNat
      (own.map toProtocolMsg) = hashedMsgs M i n own others) :
    needs.withMyMsg own = .ok (⟨hashOf H M i n own others,needs.mainRoundOutput⟩,
      hashOf H M i n own others) := by
  have hlt : needs.params.i.toNat < needs.receivedMsgs.length := by
    rw [hp,hlen]
    exact UInt16.lt_iff_toNat_lt.mp hi
  have hset' : needs.receivedMsgs.set needs.params.i.toNat
      (Option.map (toProtocolMsg (M := M)) own) = hashedMsgs M i n own others := by
    rw [hp]
    exact hset
  have hn : needs.params.n = n := by rw [hp]
  simp only [NeedsOwnMsg.withMyMsg,hlt,if_true,hset',hn]
  rfl

end EchoBroadcast
end RoundBased
