import RoundBased.Counters
import RoundBased.ReceivedMap

/-! The views of a completed round: vectors and iterators over the received messages. -/
namespace RoundBased
open Iteration

variable {M : Type} {i n : UInt16} {t : MessageType}

/-- Returns the items of `inner`, with `item` after the first `offset` ones. -/
structure InsertsAfter (S A : Type) where
  offset : ℕ
  inner : S
  item : Option A

def InsertsAfter.next {E S A : Type} (inner : Next E S A) : Next E (InsertsAfter S A) A := fun it =>
  if it.offset = 0 then
    match it.item with
    | some x => .ok ({ it with item := none },some x)
    | none =>
      match inner it.inner with
      | .error e => .error e
      | .ok (s,x) => .ok ({ it with inner := s },x)
  else
    match inner it.inner with
    | .error e => .error e
    | .ok (s,x) => .ok ({ it with offset := it.offset - 1, inner := s },x)

namespace RoundMsgs

def iter (self : RoundMsgs M) : Iter Panic (List M) M := .ofList self.messages

def iterIncludingMe (self : RoundMsgs M) (myMsg : M) :=
  ((self.iter.take self.i.toNat).chain (.once myMsg)).chain (self.iter.skip self.i.toNat)

def intoIterIncludingMe (self : RoundMsgs M) (myMsg : M) :
    Iter Panic (InsertsAfter (List M) M) M :=
  ⟨InsertsAfter.next list,⟨self.i.toNat,self.messages,some myMsg⟩⟩

/-- Iterator over messages with sender indexes. -/
def intoIterIndexed [Build] (self : RoundMsgs M) := do
  let after ← U16.add self.i 1
  let partiesIndexes := (U16.range 0 self.i).chain (U16.rangeFrom after)
  return ((partiesIndexes.zip (.ofList self.ids)).zip (.ofList self.messages)).map
    fun ((partyInd,msgId),msg) => (partyInd,msgId,msg)

/-- The same over references to the messages. -/
def iterIndexed [Build] (self : RoundMsgs M) := self.intoIterIndexed

end RoundMsgs

section InsertsAfter

variable {E S A : Type} {inner : Next E S A} {s : S} {xs : List A}

theorem InsertsAfter.steps {s' : S} (h : Steps inner s xs s') :
    Steps (InsertsAfter.next inner) ⟨0,s,none⟩ xs ⟨0,s',none⟩ := by
  induction h with
  | nil => exact .nil
  | cons hx _ ih => exact .cons (by simp [InsertsAfter.next,hx]) ih

theorem InsertsAfter.yields (h : Yields inner s xs) (offset : ℕ) (x : A) :
    Yields (InsertsAfter.next inner) ⟨offset,s,some x⟩ (xs.insertIdx offset x) := by
  induction offset generalizing s xs with
  | zero =>
    obtain ⟨m,s',hsteps,hnone⟩ := h
    refine .cons (m := ⟨0,s,none⟩) rfl ⟨⟨0,m,none⟩,⟨0,s',none⟩,steps hsteps,?_⟩
    simp [InsertsAfter.next,hnone]
  | succ offset ih =>
    cases xs with
    | nil =>
      obtain ⟨s',hnone⟩ := yields_nil_iff.mp h
      have hnext : InsertsAfter.next inner ⟨offset + 1,s,some x⟩ =
          .ok (⟨offset,s',some x⟩,none) := by
        simp [InsertsAfter.next,hnone]
      exact .nil hnext
    | cons y ys =>
      obtain ⟨m,hy,htail⟩ := yields_cons_iff.mp h
      have hnext : InsertsAfter.next inner ⟨offset + 1,s,some x⟩ =
          .ok (⟨offset,m,some x⟩,some y) := by
        simp [InsertsAfter.next,hy]
      exact .cons hnext (ih htail)

end InsertsAfter

/-- The parties other than `i` in ascending order, as the two ranges have them. -/
theorem othersOf_eq_count (i n : UInt16) :
    othersOf i n = U16.count 0 i.toNat ++ U16.count (i.toNat + 1) (n.toNat - 1 - i.toNat) := by
  simp only [othersOf,U16.count,List.map_append,List.range_eq_range']

theorem othersOf_ascending (hi : i.toNat < n.toNat) : (othersOf i n).Pairwise (· < ·) := by
  have htop := n.toNat_lt
  rw [othersOf,List.pairwise_map,List.pairwise_append]
  have hof : ∀ a b, a < b → b < n.toNat → UInt16.ofNat a < UInt16.ofNat b := by
    intro a b hab hb
    rw [UInt16.lt_iff_toNat_lt,UInt16.toNat_ofNat',UInt16.toNat_ofNat']
    omega
  refine ⟨?_,?_,fun a ha b hb => ?_⟩
  · refine List.Pairwise.imp_of_mem ?_ List.pairwise_lt_range
    intro a b _ hb hab
    rw [List.mem_range] at hb
    exact hof a b hab (by omega)
  · refine List.Pairwise.imp_of_mem ?_ List.pairwise_lt_range'
    intro a b _ hb hab
    rw [List.mem_range'_1] at hb
    exact hof a b hab (by omega)
  · rw [List.mem_range] at ha
    rw [List.mem_range'_1] at hb
    exact hof a b (by omega) (by omega)

namespace RoundMsgs

theorem iter_yields (self : RoundMsgs M) : self.iter.Yields self.messages :=
  yields_list self.messages

theorem insertIdx_eq_append {A : Type} {xs : List A} {k : ℕ} (x : A) (h : k ≤ xs.length) :
    xs.insertIdx k x = (xs.take k ++ [x]) ++ xs.drop k := by
  induction k generalizing xs with
  | zero => rfl
  | succ k ih =>
    cases xs with
    | nil => cases h
    | cons y ys => simp [ih (Nat.le_of_succ_le_succ h)]

theorem iterIncludingMe_yields (self : RoundMsgs M) (myMsg : M)
    (hi : self.i.toNat ≤ self.messages.length) :
    (self.iterIncludingMe myMsg).Yields (self.intoVecIncludingMe myMsg) := by
  rw [intoVecIncludingMe,insertIdx_eq_append myMsg hi]
  exact ((self.iter_yields.take _).chain (yields_once myMsg)).chain (self.iter_yields.skip _)

theorem intoIterIncludingMe_yields (self : RoundMsgs M) (myMsg : M) :
    (self.intoIterIncludingMe myMsg).Yields (self.intoVecIncludingMe myMsg) :=
  InsertsAfter.yields self.iter_yields self.i.toNat myMsg

/-- The indexes of the others come first. After them the next number is polled. -/
theorem steps_partiesIndexes [Build] (hi : i.toNat < n.toNat) {after : UInt16}
    (ha : after.toNat = i.toNat + 1) :
    let idx := (U16.range 0 i).chain (U16.rangeFrom after)
    ∃ st, Steps idx.next idx.state (othersOf i n) st ∧
      idx.next st = chain U16.nextInRange U16.nextFrom (none,n) := by
  intro idx
  have hfirst : Steps idx.next idx.state (U16.count 0 i.toNat) (some (i,i),after) :=
    (U16.steps_range (a := 0) (Nat.zero_add _)).chain_left
  have hdone : idx.next (some (i,i),after) = idx.next (none,after) :=
    chain_of_done (U16.range_done i)
  rw [othersOf_eq_count]
  cases hk : n.toNat - 1 - i.toNat with
  | zero =>
    have hn : after = n := UInt16.toNat_inj.mp (by omega)
    have hnone : U16.count (i.toNat + 1) 0 = [] := rfl
    rw [hnone,List.append_nil,← hn]
    exact ⟨_,hfirst,hdone⟩
  | succ k =>
    have hrest : Steps idx.next (none,after) (U16.count (i.toNat + 1) (k + 1)) (none,n) := by
      rw [← ha]
      exact (U16.steps_rangeFrom (by omega)).chain_right
    rw [← ha,U16.count_succ] at hrest ⊢
    exact ⟨_,hfirst.append (hrest.congr hdone),rfl⟩

section Indexed

variable [Build] {out : RoundMsgs M} {idOf : PartyIndex → MsgId} {body : PartyIndex → M}

/-- The indexed iterator returns all the messages. What comes then is decided by the counter. -/
theorem steps_intoIterIndexed (hi : out.i = i) (hin : i.toNat < n.toNat)
    (hids : out.ids = (othersOf i n).map idOf) (hmsgs : out.messages = (othersOf i n).map body) :
    ∃ it m, out.intoIterIndexed = .ok it ∧
      Steps it.next it.state ((othersOf i n).map fun j => (j,idOf j,body j)) m ∧
      (n.toNat < 65535 → ∃ m', it.next m = .ok (m',none)) ∧
      (n.toNat = 65535 → Build.overflowChecks = true → it.next m = .error .overflow) := by
  subst hi
  have htop := n.toNat_lt
  have hlt : out.i.toNat < 65535 := by omega
  obtain ⟨st,hsteps,hlast⟩ := steps_partiesIndexes hin (U16.toNat_add_one hlt)
  have hone : U16.add out.i 1 = .ok (out.i + 1) := U16.add_one hlt
  have hidsteps : Steps (list : Next Panic _ _) out.ids ((othersOf out.i n).map idOf) [] := by
    rw [hids]
    simpa using steps_list (E := Panic) ((othersOf out.i n).map idOf) []
  have hmsgsteps : Steps (list : Next Panic _ _) out.messages ((othersOf out.i n).map body) [] := by
    rw [hmsgs]
    simpa using steps_list (E := Panic) ((othersOf out.i n).map body) []
  have hpairs := hsteps.zip hidsteps (by rw [List.length_map])
  have htriples := (hpairs.zip hmsgsteps (by simp)).map
    fun ((partyInd,msgId),msg) => (partyInd,msgId,msg)
  have hitems : (((othersOf out.i n).zip ((othersOf out.i n).map idOf)).zip ((othersOf out.i n).map body)).map
      (fun ((partyInd,msgId),msg) => (partyInd,msgId,msg)) =
      (othersOf out.i n).map fun j => (j,idOf j,body j) := by
    generalize othersOf out.i n = js
    induction js with
    | nil => rfl
    | cons j js ih => simpa using ih
  rw [hitems] at htriples
  refine ⟨⟨_,_⟩,_,?_,htriples,fun hn => ?_,fun hn hb => ?_⟩
  · rw [intoIterIndexed,hone]
    rfl
  · have hpoll : chain U16.nextInRange U16.nextFrom (none,n) = .ok ((none,n + 1),some n) := by
      simp only [chain,U16.nextFrom_of_lt hn]
    have hzip := zip_of_left_done (b := (list : Next Panic (List M) M)) (t := [])
      (zip_of_done (hlast.trans hpoll) (show (list : Next Panic _ MsgId) [] = .ok ([],none) from rfl))
    exact ⟨_,map_of_done _ hzip⟩
  · have hpoll : chain U16.nextInRange U16.nextFrom (none,n) = .error .overflow := by
      simp only [chain,U16.nextFrom_top hb hn]
    exact map_of_error _ (zip_of_error (zip_of_error (hlast.trans hpoll)))

end Indexed
end RoundMsgs

namespace RoundInput

/-- The store returned Ok for this message of party `j`. -/
def AcceptedFrom (s0 : RoundInput M) (msgs : List (Incoming M)) (j : PartyIndex)
    (msg : Incoming M) : Prop :=
  ∃ before after, msgs = before ++ msg :: after ∧ msg.sender = j ∧
    ((s0.addAll before).addMessage msg).2 = .ok ()

/-- The message accepted from another party is the first one of the expected type. -/
theorem acceptedFrom_iff {s0 : RoundInput M} (h0 : new i n t = .ok s0) {msgs : List (Incoming M)}
    {j : PartyIndex} (hj : Others i n j) {v : MsgId × M} :
    firstAccepted i n t msgs j = some v ↔
      ∃ msg, AcceptedFrom s0 msgs j msg ∧ (msg.id,msg.msg) = v := by
  have hfree : ∀ before : List (Incoming M), firstAccepted i n t before j = none ↔
      (before.find? fun m => isExpectedType t m.msgType && m.sender = j) = none := by
    intro before
    simp only [firstAccepted,hj,if_true,Option.map_eq_none_iff]
  have hok : ∀ before (msg : Incoming M), msg.sender = j →
      (((s0.addAll before).addMessage msg).2 = .ok () ↔
        isExpectedType t msg.msgType = true ∧ firstAccepted i n t before j = none) := by
    rintro before msg rfl
    obtain ⟨hi,hn,ht,hmap⟩ := represents_addAll h0 before
    rw [← hi,← hn] at hj
    rw [← hmap,← ht]
    rcases addMessage_cases (s0.addAll before) msg with ⟨ht,ha⟩ | ⟨ht,⟨hown,ha⟩ | ⟨_,hn,ha⟩ |
      ⟨_,id,m,hm,ha⟩ | ⟨_,hm,s',ha,_⟩⟩
    · simp [ha,ht]
    · exact absurd hown hj.2
    · exact absurd hj.1 (UInt16.not_lt.mpr hn)
    · simp [ha,hm]
    · simp [ha,hm,ht]
  constructor
  · intro h
    simp only [firstAccepted,hj,if_true,Option.map_eq_some_iff] at h
    obtain ⟨msg,hfind,hv⟩ := h
    obtain ⟨hp,before,after,hsplit,hnot⟩ := List.find?_eq_some_iff_append.mp hfind
    rw [Bool.and_eq_true,decide_eq_true_eq] at hp
    refine ⟨msg,⟨before,after,hsplit,hp.2,(hok before msg hp.2).mpr ⟨hp.1,?_⟩⟩,hv⟩
    rw [hfree,List.find?_eq_none]
    intro m hm hp
    have hfalse := hnot m hm
    rw [hp] at hfalse
    cases hfalse
  · rintro ⟨msg,⟨before,after,rfl,hsender,hacc⟩,rfl⟩
    obtain ⟨ht,hnone⟩ := (hok before msg hsender).mp hacc
    rw [hfree] at hnone
    simp [firstAccepted,hj,List.find?_append,hnone,ht,hsender]

theorem eq_map_of_map_some {A : Type} {xs : List A} {js : List PartyIndex}
    {g : PartyIndex → Option A} {f : PartyIndex → A} (h : xs.map some = js.map g)
    (hf : ∀ j ∈ js, g j = some (f j)) : xs = js.map f := by
  rw [List.map_congr_left hf] at h
  apply (List.map_inj_right fun _ _ => Option.some.inj).mp
  rw [h,List.map_map]
  rfl

/-- The output of the store: the parts of what was accepted, by ascending index. -/
theorem output_accepted {s0 : RoundInput M} (h0 : new i n t = .ok s0) {msgs : List (Incoming M)}
    {out : RoundMsgs M} (hout : (s0.addAll msgs).output = .ok out) :
    out.i = i ∧ i.toNat < n.toNat ∧ ∃ f : PartyIndex → MsgId × M,
      out.ids = (othersOf i n).map (fun j => (f j).1) ∧
      out.messages = (othersOf i n).map (fun j => (f j).2) ∧
      ∀ j, Others i n j → firstAccepted i n t msgs j = some (f j) := by
  obtain ⟨hi,hn,ht,hmap⟩ := represents_addAll h0 msgs
  have hw : (s0.addAll msgs).wantsMore = false := by
    by_contra hc
    rw [Bool.not_eq_false] at hc
    rw [output_of_wantsMore hc] at hout
    cases hout
  have htotal := (wantsMore_eq_false_iff_map _).mp hw
  obtain ⟨out',hout',hlists⟩ := output_lists hw
  rw [hout] at hout'
  cases hout'
  have hin := (s0.addAll msgs).i_lt
  have htwo := (s0.addAll msgs).two_le
  rw [hi,hn] at hlists hin htotal
  rw [hn] at htwo
  rw [hmap] at hlists htotal
  obtain ⟨other,ho,hoi,_⟩ := exists_slotIndex hin (x := 0) (by omega)
  obtain ⟨v,_⟩ := Option.ne_none_iff_exists'.mp (htotal other ⟨ho,hoi⟩)
  have hf : ∀ j ∈ othersOf i n, firstAccepted i n t msgs j =
      some ((firstAccepted i n t msgs j).getD v) := by
    intro j hj
    obtain ⟨w,hw⟩ := Option.ne_none_iff_exists'.mp (htotal j ((mem_othersOf hin).mp hj))
    rw [hw]
    rfl
  refine ⟨hlists.i_eq,hin,fun j => (firstAccepted i n t msgs j).getD v,
    eq_map_of_map_some hlists.ids fun j hj => by rw [hf j hj]; rfl,
    eq_map_of_map_some hlists.messages fun j hj => by rw [hf j hj]; rfl,fun j hj =>
      hf j ((mem_othersOf hin).mpr hj)⟩

/-- The views over the received messages, where `f` has the id and the body of the message of each
other party and `x` is the own message. -/
structure Views [Build] (i n : UInt16) (f : PartyIndex → MsgId × M) (x : M) (out : RoundMsgs M)
    (all : List M) (js : List PartyIndex) : Prop where
  length : all.length = n.toNat
  own : all[i.toNat]? = some x
  body : ∀ j, Others i n j → all[j.toNat]? = some (f j).2
  intoVecIncludingMe : out.intoVecIncludingMe x = all
  iterIncludingMe : (out.iterIncludingMe x).Yields all
  intoIterIncludingMe : (out.intoIterIncludingMe x).Yields all
  intoVecWithoutMe : out.intoVecWithoutMe = all.eraseIdx i.toNat
  iter : out.iter.Yields (all.eraseIdx i.toNat)
  ascending : js.Pairwise (· < ·)
  others : ∀ j, j ∈ js ↔ Others i n j
  intoIterIndexed : ∃ it, out.intoIterIndexed = .ok it ∧
    it.Yields (js.map fun j => (j,(f j).1,(f j).2))
  iterIndexed : ∃ it, out.iterIndexed = .ok it ∧ it.Yields (js.map fun j => (j,(f j).1,(f j).2))

theorem views_output [Build] {out : RoundMsgs M} {f : PartyIndex → MsgId × M} (hi : out.i = i)
    (hin : i.toNat < n.toNat) (hn : n.toNat < 65535)
    (hids : out.ids = (othersOf i n).map fun j => (f j).1)
    (hmsgs : out.messages = (othersOf i n).map fun j => (f j).2) (x : M) :
    Views i n f x out (out.intoVecIncludingMe x) (othersOf i n) := by
  subst hi
  have hlen : out.messages.length = n.toNat - 1 := by
    rw [hmsgs,List.length_map,length_othersOf hin]
  have hle : out.i.toNat ≤ out.messages.length := by omega
  have hwithout : out.messages = (out.intoVecIncludingMe x).eraseIdx out.i.toNat :=
    (List.eraseIdx_insertIdx_self x).symm
  obtain ⟨it,m,hit,hsteps,hlast,_⟩ := RoundMsgs.steps_intoIterIndexed rfl hin hids hmsgs
  obtain ⟨m',hnone⟩ := hlast hn
  have hidx : ∃ it, out.intoIterIndexed = .ok it ∧
      it.Yields ((othersOf out.i n).map fun j => (j,(f j).1,(f j).2)) :=
    ⟨it,hit,m,m',hsteps,hnone⟩
  refine ⟨?_,?_,fun j hj => ?_,rfl,out.iterIncludingMe_yields x hle,
    out.intoIterIncludingMe_yields x,hwithout,hwithout ▸ out.iter_yields,othersOf_ascending hin,
    fun j => mem_othersOf hin,hidx,hidx⟩
  · rw [RoundMsgs.intoVecIncludingMe,List.length_insertIdx_of_le_length hle,hlen]
    omega
  · rw [RoundMsgs.intoVecIncludingMe,List.getElem?_insertIdx_self,if_pos hle]
  · have hne : j.toNat ≠ out.i.toNat := fun he => hj.2 (UInt16.toNat_inj.mp he)
    have hslot : out.messages[slotIndex out.i j]? = some (f j).2 := by
      rw [hmsgs,List.getElem?_map,othersOf_slotIndex hin hj]
      rfl
    rw [slotIndex_eq hj.2] at hslot
    rw [RoundMsgs.intoVecIncludingMe]
    by_cases hji : j.toNat < out.i.toNat
    · rwa [List.getElem?_insertIdx_of_lt hji,← if_pos hji (t := j.toNat) (e := j.toNat - 1)]
    · rwa [List.getElem?_insertIdx_of_gt (by omega),← if_neg hji (t := j.toNat) (e := j.toNat - 1)]

/-- All views of a completed round agree on what was accepted from whom. -/
theorem views_agree [Build] {s0 : RoundInput M} (h0 : new i n t = .ok s0) (hn : n.toNat < 65535)
    {msgs : List (Incoming M)} {out : RoundMsgs M} (hout : (s0.addAll msgs).output = .ok out)
    (x : M) :
    ∃ f all js, Views i n f x out all js ∧ ∀ j, Others i n j →
      (∃ msg, AcceptedFrom s0 msgs j msg) ∧
      ∀ msg, AcceptedFrom s0 msgs j msg → f j = (msg.id,msg.msg) := by
  obtain ⟨hi,hin,f,hids,hmsgs,hf⟩ := output_accepted h0 hout
  refine ⟨f,_,_,views_output hi hin hn hids hmsgs x,fun j hj => ⟨?_,fun msg hmsg => ?_⟩⟩
  · obtain ⟨msg,hmsg,_⟩ := (acceptedFrom_iff h0 hj).mp (hf j hj)
    exact ⟨msg,hmsg⟩
  · have hfirst := (acceptedFrom_iff h0 hj).mpr ⟨msg,hmsg,rfl⟩
    rw [hf j hj] at hfirst
    exact Option.some.inj hfirst

theorem views_agree_p2p :
    letI : Build := .debug
    ∃ (s0 : RoundInput Bool) (out : RoundMsgs Bool), p2p 1 3 = .ok s0 ∧
      let msgs : List (Incoming Bool) := [⟨7,2,.p2p,true⟩,⟨8,1,.p2p,true⟩,⟨9,0,.p2p,false⟩]
      (s0.addAll msgs).output = .ok out ∧ ∃ f all js, Views 1 3 f true out all js ∧
        ∀ j, Others 1 3 j → (∃ msg, AcceptedFrom s0 msgs j msg) ∧
          ∀ msg, AcceptedFrom s0 msgs j msg → f j = (msg.id,msg.msg) := by
  let _ : Build := .debug
  obtain ⟨s0,h0⟩ : ∃ s0 : RoundInput Bool, p2p 1 3 = .ok s0 := ⟨_,rfl⟩
  refine ⟨s0,⟨1,[9,7],[false,true]⟩,h0,?_⟩
  intro msgs
  have hout : (s0.addAll msgs).output = .ok ⟨1,[9,7],[false,true]⟩ := by
    cases h0
    rfl
  exact ⟨hout,views_agree h0 (by decide) hout true⟩

end RoundInput
end RoundBased
