import RoundBased.Simulation

/-! What the operations on the queues of the simulation come to. -/
namespace RoundBased

variable {M : Type}

/-- All of a message but its id. -/
def Incoming.content (msg : Incoming M) : UInt16 × MessageType × M :=
  (msg.sender,msg.msgType,msg.msg)

/-- What a send brings to the party at the position: a broadcast goes to all but its sender. -/
def copies (sender : UInt16) (msg : Outgoing M) (pos : ℕ) : List (UInt16 × MessageType × M) :=
  match msg.recipient with
  | .allParties reliable =>
    if pos = sender.toNat then [] else [(sender,.broadcast reliable,msg.msg)]
  | .oneParty destination =>
    if pos = destination.toNat then [(sender,.p2p,msg.msg)] else []

/-- The ids a send takes from the range of the ids of `n` parties. -/
def idsTaken (n : ℕ) (msg : Outgoing M) : ℕ :=
  match msg.recipient with
  | .allParties _ => n
  | .oneParty _ => 1

/-- Messages are appended to the queues, with consecutive ids from `id` on. -/
structure Appends (content : ℕ → List (UInt16 × MessageType × M)) (id id' : ℕ)
    (queues queues' adds : List (List (Incoming M))) : Prop where
  length : adds.length = queues.length
  queues_eq : queues' = List.zipWith (· ++ ·) queues adds
  content_eq : ∀ k (hk : k < adds.length), adds[k].map Incoming.content = content k
  ids : id + adds.flatten.length < 2 ^ 64 →
    adds.flatten.map (fun m => m.id.toNat) = List.range' id adds.flatten.length ∧
    id' = id + adds.flatten.length

theorem U64.toNat_add_one {a : UInt64} (h : a.toNat + 1 < 2 ^ 64) : (a + 1).toNat = a.toNat + 1 := by
  rw [UInt64.toNat_add,Nat.mod_eq_of_lt]
  · rfl
  · exact h

theorem U64.add_one_ok [Build] {a b : UInt64} (h : U64.add a 1 = .ok b) : b = a + 1 := by
  unfold U64.add at h
  split at h
  · cases h
    rfl
  · split at h
    · cases h
    · cases h
      rfl

/-- Counting on only fails at the top of a counter that is checked. -/
theorem U64.add_one [Build] {a : UInt64} (h : Build.overflowChecks = true → a.toNat + 1 < 2 ^ 64) :
    U64.add a 1 = .ok (a + 1) := by
  by_cases ha : a.toNat + (1 : UInt64).toNat < 2 ^ 64
  · exact if_pos ha
  · have hb : ¬ Build.overflowChecks = true := fun hb => ha (h hb)
    rw [U64.add,if_neg ha,if_neg hb]

theorem U64.add_one_top [Build] (hb : Build.overflowChecks = true) {a : UInt64}
    (h : 2 ^ 64 ≤ a.toNat + 1) : U64.add a 1 = .error .overflow := by
  have hnot : ¬ a.toNat + (1 : UInt64).toNat < 2 ^ 64 := Nat.not_lt.mpr h
  rw [U64.add,if_neg hnot,if_pos hb]

theorem U16.add_one_total [Build] {a : UInt16}
    (h : Build.overflowChecks = true → a.toNat < 65535) : U16.add a 1 = .ok (a + 1) := by
  by_cases ha : a.toNat < 65535
  · exact U16.add_one ha
  · have hb : ¬ Build.overflowChecks = true := fun hb => ha (h hb)
    have hnot : ¬ a.toNat + (1 : UInt16).toNat < 65536 := fun hc => ha (Nat.lt_of_succ_lt_succ hc)
    rw [U16.add,if_neg hnot,if_neg hb]

theorem U16.add_one_ok [Build] {a b : UInt16} (h : U16.add a 1 = .ok b) : b = a + 1 := by
  unfold U16.add at h
  split at h
  · cases h
    rfl
  · split at h
    · cases h
    · cases h
      rfl

namespace MessagesQueue

variable [Build] {sender : UInt16} {reliable : Bool} {msg : M}

/-- What the loop pushes to the queues from `start` on. -/
theorem pushAll_ok {queues queues' : List (List (Incoming M))} {start : UInt16} {ids ids' : UInt64}
    (h : pushAll sender reliable msg start ids queues = .ok (queues',ids'))
    (hn : start.toNat + queues.length ≤ 65535) :
    ∃ adds, Appends (fun k => copies sender ⟨.allParties reliable,msg⟩ (start.toNat + k))
      ids.toNat ids'.toNat queues queues' adds := by
  induction queues generalizing start ids queues' with
  | nil =>
    obtain ⟨_,_,h⟩ := Checked.bind_eq_ok.mp h
    cases h
    exact ⟨[],rfl,rfl,fun k hk => (by cases hk),fun _ => ⟨rfl,rfl⟩⟩
  | cons queue queues ih =>
    obtain ⟨after,hafter,h⟩ := Checked.bind_eq_ok.mp h
    rw [U16.add_one_ok hafter] at h
    rw [List.length_cons] at hn
    have hone : (start + 1).toNat = start.toNat + 1 := U16.toNat_add_one (by omega)
    have hn' : (start + 1).toNat + queues.length ≤ 65535 := by omega
    by_cases hs : start = sender
    · rw [if_pos hs] at h
      obtain ⟨⟨qs,ids''⟩,hrest,h⟩ := Checked.bind_eq_ok.mp h
      cases h
      obtain ⟨adds,ha⟩ := ih hrest hn'
      refine ⟨[] :: adds,by simp [ha.length],by simp [ha.queues_eq],fun k hk => ?_,ha.ids⟩
      cases k with
      | zero => simp [copies,hs]
      | succ k =>
        have hk' := ha.content_eq k (Nat.lt_of_succ_lt_succ hk)
        rw [hone] at hk'
        rw [List.getElem_cons_succ,hk',Nat.add_assoc,Nat.add_comm 1 k]
    · rw [if_neg hs] at h
      obtain ⟨nextIds,hnext,h⟩ := Checked.bind_eq_ok.mp h
      obtain ⟨⟨qs,ids''⟩,hrest,h⟩ := Checked.bind_eq_ok.mp h
      cases h
      obtain ⟨adds,ha⟩ := ih hrest hn'
      rw [U64.add_one_ok hnext] at ha
      refine ⟨[⟨ids,sender,.broadcast reliable,msg⟩] :: adds,by simp [ha.length],
        by simp [ha.queues_eq],fun k hk => ?_,fun hids => ?_⟩
      · cases k with
        | zero =>
          have hne : start.toNat ≠ sender.toNat := fun he => hs (UInt16.toNat_inj.mp he)
          simp [copies,hne,Incoming.content]
        | succ k =>
          have hk' := ha.content_eq k (Nat.lt_of_succ_lt_succ hk)
          rw [hone] at hk'
          rw [List.getElem_cons_succ,hk',Nat.add_assoc,Nat.add_comm 1 k]
      · rw [List.flatten_cons,List.length_append,List.length_singleton] at hids ⊢
        have hid : (ids + 1).toNat = ids.toNat + 1 := U64.toNat_add_one (by omega)
        rw [hid] at ha
        obtain ⟨hmap,hlast⟩ := ha.ids (by omega)
        refine ⟨?_,by omega⟩
        rw [List.map_append,hmap,Nat.add_comm 1,List.range'_succ]
        rfl

/-- Only the queue at `d` gets something. -/
def only {A : Type} (n d : ℕ) (m : A) : List (List A) := (List.replicate n []).set d [m]

omit [Build] in
theorem flatten_only {A : Type} {n d : ℕ} (hd : d < n) (m : A) : (only n d m).flatten = [m] := by
  have hnil : ∀ k, (List.replicate k ([] : List A)).flatten = [] := by simp
  induction n generalizing d with
  | zero => cases hd
  | succ n ih =>
    cases d with
    | zero =>
      have hset : only (n + 1) 0 m = [m] :: List.replicate n [] := rfl
      rw [hset,List.flatten_cons,hnil,List.append_nil]
    | succ d =>
      have hset : only (n + 1) (d + 1) m = [] :: only n d m := rfl
      rw [hset,List.flatten_cons,List.nil_append]
      exact ih (Nat.lt_of_succ_lt_succ hd)

omit [Build] in
theorem zipWith_only {A : Type} {qs : List (List A)} {d : ℕ} {q : List A} (h : qs[d]? = some q)
    (m : A) : List.zipWith (· ++ ·) qs (only qs.length d m) = qs.set d (q ++ [m]) := by
  induction qs generalizing d with
  | nil => cases h
  | cons q' qs ih =>
    cases d with
    | zero =>
      cases h
      have hset : only (qs.length + 1) 0 m = [m] :: List.replicate qs.length [] := rfl
      rw [List.length_cons,hset,List.zipWith_cons_cons,List.set_cons_zero]
      congr 1
      clear ih hset
      induction qs with
      | nil => rfl
      | cons q qs ih => simp [List.replicate_succ,ih]
    | succ d =>
      have hset : only (qs.length + 1) (d + 1) m = [] :: only qs.length d m := rfl
      rw [List.length_cons,hset,List.zipWith_cons_cons,List.set_cons_succ,List.append_nil,
        ih h]

theorem sendMessage_ok {self self' : MessagesQueue M} {msg : Outgoing M}
    (h : self.sendMessage sender msg = .ok (self',.ok ())) (hn : self.queue.length ≤ 65535) :
    ∃ adds, Appends (copies sender msg) self.nextId.toNat self'.nextId.toNat self.queue
      self'.queue adds := by
  obtain ⟨recipient,m⟩ := msg
  cases recipient with
  | allParties reliable =>
    obtain ⟨⟨queue,ids⟩,hpush,h⟩ := Checked.bind_eq_ok.mp h
    obtain ⟨_,_,h⟩ := Checked.bind_eq_ok.mp h
    cases h
    obtain ⟨adds,ha⟩ := pushAll_ok hpush (by rw [show (0 : UInt16).toNat = 0 from rfl]; omega)
    exact ⟨adds,ha.length,ha.queues_eq,fun k hk => by simpa using ha.content_eq k hk,ha.ids⟩
  | oneParty destination =>
    obtain ⟨next,hnext,h⟩ := Checked.bind_eq_ok.mp h
    cases hq : self.queue[destination.toNat]? with
    | none => rw [hq] at h; cases h
    | some queue =>
      rw [hq] at h
      cases h
      have hlt := (List.getElem?_eq_some_iff.mp hq).1
      let sent : Incoming M := ⟨self.nextId,sender,.p2p,m⟩
      have hflat := flatten_only hlt sent
      refine ⟨only self.queue.length destination.toNat sent,by simp [only],(zipWith_only hq sent).symm,
        fun k hk => ?_,fun hids => ?_⟩
      · by_cases hkd : k = destination.toNat
        · subst hkd
          simp [only,copies,sent,Incoming.content]
        · have hne : destination.toNat ≠ k := fun he => hkd he.symm
          simp [only,copies,hkd,hne]
      · rw [hflat] at hids ⊢
        rw [U64.add_one_ok hnext]
        exact ⟨rfl,U64.toNat_add_one hids⟩

theorem pushAll_length {queues queues' : List (List (Incoming M))} {start : UInt16}
    {ids ids' : UInt64} (h : pushAll sender reliable msg start ids queues = .ok (queues',ids')) :
    queues'.length = queues.length := by
  induction queues generalizing start ids queues' with
  | nil =>
    obtain ⟨_,_,h⟩ := Checked.bind_eq_ok.mp h
    cases h
    rfl
  | cons queue queues ih =>
    obtain ⟨after,_,h⟩ := Checked.bind_eq_ok.mp h
    by_cases hs : start = sender
    · rw [if_pos hs] at h
      obtain ⟨⟨qs,ids''⟩,hrest,h⟩ := Checked.bind_eq_ok.mp h
      cases h
      rw [List.length_cons,List.length_cons,ih hrest]
    · rw [if_neg hs] at h
      obtain ⟨nextIds,_,h⟩ := Checked.bind_eq_ok.mp h
      obtain ⟨⟨qs,ids''⟩,hrest,h⟩ := Checked.bind_eq_ok.mp h
      cases h
      rw [List.length_cons,List.length_cons,ih hrest]

theorem sendMessage_length {self self' : MessagesQueue M} {msg : Outgoing M}
    {res : Except SimError Unit} (h : self.sendMessage sender msg = .ok (self',res)) :
    self'.queue.length = self.queue.length := by
  obtain ⟨recipient,m⟩ := msg
  cases recipient with
  | allParties reliable =>
    obtain ⟨⟨queue,ids⟩,hpush,h⟩ := Checked.bind_eq_ok.mp h
    obtain ⟨_,_,h⟩ := Checked.bind_eq_ok.mp h
    cases h
    exact pushAll_length hpush
  | oneParty destination =>
    obtain ⟨next,_,h⟩ := Checked.bind_eq_ok.mp h
    cases hq : self.queue[destination.toNat]? with
    | none =>
      rw [hq] at h
      cases h
      rfl
    | some queue =>
      rw [hq] at h
      cases h
      exact List.length_set

/-- A send is only refused if there is no party with the index. -/
theorem sendMessage_error {self self' : MessagesQueue M} {msg : Outgoing M} {err : SimError}
    (h : self.sendMessage sender msg = .ok (self',.error err)) :
    ∃ recipient, self.queue[recipient.toNat]? = none ∧ err = .unknownRecipient sender recipient := by
  obtain ⟨recipient,m⟩ := msg
  cases recipient with
  | allParties reliable =>
    obtain ⟨⟨queue,ids⟩,_,h⟩ := Checked.bind_eq_ok.mp h
    obtain ⟨_,_,h⟩ := Checked.bind_eq_ok.mp h
    cases h
  | oneParty destination =>
    obtain ⟨next,_,h⟩ := Checked.bind_eq_ok.mp h
    cases hq : self.queue[destination.toNat]? with
    | none =>
      rw [hq] at h
      cases h
      exact ⟨destination,hq,rfl⟩
    | some queue =>
      rw [hq] at h
      cases h

/-- How many of the queues from `start` on are not that of the sender. -/
def pushes (sender start len : ℕ) : ℕ :=
  if start ≤ sender ∧ sender < start + len then len - 1 else len

omit [Build] in
theorem pushes_sender (start len : ℕ) : pushes start start (len + 1) = pushes start (start + 1) len := by
  have h1 : start ≤ start ∧ start < start + (len + 1) := by omega
  have h2 : ¬ (start + 1 ≤ start ∧ start < start + 1 + len) := by omega
  rw [pushes,pushes,if_pos h1,if_neg h2]
  rfl

omit [Build] in
theorem pushes_other {sender start len : ℕ} (h : start ≠ sender) :
    pushes sender start (len + 1) = pushes sender (start + 1) len + 1 := by
  unfold pushes
  split <;> split <;> omega

/-- The loop ends, unless a checked counter is at its top. -/
theorem pushAll_total {start : UInt16} {ids : UInt64} {queues : List (List (Incoming M))}
    (hc : Build.overflowChecks = true → start.toNat + queues.length < 65535 ∧
      ids.toNat + pushes sender.toNat start.toNat queues.length < 2 ^ 64) :
    ∃ queues' ids', pushAll sender reliable msg start ids queues = .ok (queues',ids') ∧
      (Build.overflowChecks = true →
        ids'.toNat = ids.toNat + pushes sender.toNat start.toNat queues.length) := by
  induction queues generalizing start ids with
  | nil =>
    have hadd : U16.add start 1 = .ok (start + 1) := U16.add_one_total fun hb => (hc hb).1
    refine ⟨[],ids,by rw [pushAll,hadd]; rfl,fun _ => ?_⟩
    simp [pushes]
  | cons queue queues ih =>
    have hadd : U16.add start 1 = .ok (start + 1) :=
      U16.add_one_total fun hb => by have h := (hc hb).1; omega
    rw [List.length_cons] at hc ⊢
    have hone : Build.overflowChecks = true → (start + 1).toNat = start.toNat + 1 :=
      fun hb => U16.toNat_add_one (by have h := hc hb; omega)
    by_cases hs : start = sender
    · subst hs
      rw [pushes_sender] at hc ⊢
      have hc' : Build.overflowChecks = true → (start + 1).toNat + queues.length < 65535 ∧
          ids.toNat + pushes start.toNat (start + 1).toNat queues.length < 2 ^ 64 := by
        intro hb
        rw [hone hb]
        exact ⟨by have h := hc hb; omega,(hc hb).2⟩
      obtain ⟨qs,ids',hpush,hids⟩ := ih hc'
      refine ⟨queue :: qs,ids',?_,fun hb => ?_⟩
      · rw [pushAll,hadd]
        simp only [if_true,bind,Except.bind,hpush]
        rfl
      · rw [hids hb,hone hb]
    · have hne : start.toNat ≠ sender.toNat := fun he => hs (UInt16.toNat_inj.mp he)
      rw [pushes_other hne] at hc ⊢
      have hidone : Build.overflowChecks = true → (ids + 1).toNat = ids.toNat + 1 :=
        fun hb => U64.toNat_add_one (by have h := hc hb; omega)
      have hc' : Build.overflowChecks = true → (start + 1).toNat + queues.length < 65535 ∧
          (ids + 1).toNat + pushes sender.toNat (start + 1).toNat queues.length < 2 ^ 64 := by
        intro hb
        rw [hone hb,hidone hb]
        have h := hc hb
        omega
      obtain ⟨qs,ids',hpush,hids⟩ := ih hc'
      have hnext : U64.add ids 1 = .ok (ids + 1) :=
        U64.add_one fun hb => by have h := hc hb; omega
      refine ⟨(queue ++ [⟨ids,sender,.broadcast reliable,msg⟩]) :: qs,ids',?_,fun hb => ?_⟩
      · rw [pushAll,hadd]
        simp only [hs,if_false,bind,Except.bind,hpush,hnext]
        rfl
      · rw [hids hb,hone hb,hidone hb]
        omega

/-- With 65535 queues the index is polled at its top, with too many messages the id is. -/
theorem pushAll_overflows (hb : Build.overflowChecks = true) {start : UInt16} {ids : UInt64}
    {queues : List (List (Incoming M))}
    (h : 65535 ≤ start.toNat + queues.length ∨
      2 ^ 64 ≤ ids.toNat + pushes sender.toNat start.toNat queues.length) :
    pushAll sender reliable msg start ids queues = .error .overflow := by
  induction queues generalizing start ids with
  | nil =>
    have htop := start.toNat_lt
    have hids := ids.toNat_lt
    have hnone : pushes sender.toNat start.toNat 0 = 0 := by simp [pushes]
    rw [List.length_nil,hnone] at h
    have hadd := U16.add_one_top hb (show start.toNat = 65535 by omega)
    rw [pushAll,hadd]
    rfl
  | cons queue queues ih =>
    rw [List.length_cons] at h
    rw [pushAll]
    by_cases htop : start.toNat = 65535
    · rw [U16.add_one_top hb htop]
      rfl
    have hlt : start.toNat < 65535 := by
      have h := start.toNat_lt
      omega
    have hone := U16.toNat_add_one hlt
    rw [U16.add_one hlt]
    by_cases hs : start = sender
    · subst hs
      rw [pushes_sender] at h
      have hrest : pushAll start reliable msg (start + 1) ids queues = .error .overflow :=
        ih (by rw [hone]; omega)
      simp only [if_true,bind,Except.bind,hrest]
    · have hne : start.toNat ≠ sender.toNat := fun he => hs (UInt16.toNat_inj.mp he)
      rw [pushes_other hne] at h
      by_cases hidtop : 2 ^ 64 ≤ ids.toNat + 1
      · simp only [hs,if_false,bind,Except.bind,U64.add_one_top hb hidtop]
      · have hidone : (ids + 1).toNat = ids.toNat + 1 := U64.toNat_add_one (by omega)
        have hrest : pushAll sender reliable msg (start + 1) (ids + 1) queues = .error .overflow :=
          ih (by rw [hone,hidone]; omega)
        have hnext : U64.add ids 1 = .ok (ids + 1) := U64.add_one fun _ => by omega
        simp only [hs,if_false,bind,Except.bind,hnext,hrest]

omit [Build] in
theorem pushes_all {n : ℕ} (h : sender.toNat < n) : pushes sender.toNat 0 n + 1 = n := by
  rw [pushes,if_pos ⟨Nat.zero_le _,by omega⟩]
  omega

theorem pushAll_first {self : MessagesQueue M} (sender : UInt16) (reliable : Bool) (m : M)
    (hc : Build.overflowChecks = true →
      self.queue.length < 65535 ∧
      self.nextId.toNat + pushes sender.toNat 0 self.queue.length < 2 ^ 64) :
    ∃ queue ids, pushAll sender reliable m 0 self.nextId self.queue = .ok (queue,ids) ∧
      (Build.overflowChecks = true →
        ids.toNat = self.nextId.toNat + pushes sender.toNat 0 self.queue.length) := by
  apply pushAll_total
  intro hb
  have hzero : (0 : UInt16).toNat = 0 := rfl
  rw [hzero,Nat.zero_add]
  exact hc hb

/-- A send of a party ends, unless a checked counter is at its top. -/
theorem sendMessage_total {self : MessagesQueue M} {msg : Outgoing M}
    (hs : sender.toNat < self.queue.length)
    (hc : Build.overflowChecks = true → (self.queue.length < 65535 ∨ msg.recipient.isP2p = true) ∧
      self.nextId.toNat + idsTaken self.queue.length msg < 2 ^ 64) :
    ∃ r, self.sendMessage sender msg = .ok r := by
  obtain ⟨recipient,m⟩ := msg
  cases recipient with
  | allParties reliable =>
    have hpushes := pushes_all hs
    have hroom : Build.overflowChecks = true → self.queue.length < 65535 ∧
        self.nextId.toNat + self.queue.length < 2 ^ 64 := by
      intro hb
      obtain ⟨hn | hp,hids⟩ := hc hb
      · exact ⟨hn,hids⟩
      · cases hp
    obtain ⟨queue,ids,hpush,hids⟩ := pushAll_first sender reliable m fun hb =>
      ⟨(hroom hb).1,by have h := hroom hb; omega⟩
    have hnext : U64.add ids 1 = .ok (ids + 1) := by
      refine U64.add_one fun hb => ?_
      rw [hids hb]
      have h := hroom hb
      omega
    exact ⟨(⟨queue,ids⟩,.ok ()),by simp only [sendMessage,hpush,hnext,bind,Except.bind]; rfl⟩
  | oneParty destination =>
    have hnext : U64.add self.nextId 1 = .ok (self.nextId + 1) := U64.add_one fun hb => (hc hb).2
    simp only [sendMessage,hnext,bind,Except.bind]
    split
    · exact ⟨_,rfl⟩
    · exact ⟨_,rfl⟩

theorem sendMessage_exhausted (hb : Build.overflowChecks = true) {self : MessagesQueue M}
    {msg : Outgoing M} (hs : sender.toNat < self.queue.length)
    (h : 2 ^ 64 ≤ self.nextId.toNat + idsTaken self.queue.length msg) :
    self.sendMessage sender msg = .error .overflow := by
  obtain ⟨recipient,m⟩ := msg
  cases recipient with
  | allParties reliable =>
    have hpushes := pushes_all hs
    change 2 ^ 64 ≤ self.nextId.toNat + self.queue.length at h
    by_cases hroom : self.queue.length < 65535 ∧
        self.nextId.toNat + pushes sender.toNat 0 self.queue.length < 2 ^ 64
    · obtain ⟨queue,ids,hpush,hids⟩ := pushAll_first sender reliable m fun _ => hroom
      have hnext : U64.add ids 1 = .error .overflow := by
        refine U64.add_one_top hb ?_
        rw [hids hb]
        omega
      simp only [sendMessage,hpush,hnext,bind,Except.bind]
    · have hpush : pushAll sender reliable m 0 self.nextId self.queue = .error .overflow := by
        refine pushAll_overflows hb ?_
        have hzero : (0 : UInt16).toNat = 0 := rfl
        rw [hzero]
        omega
      simp only [sendMessage,hpush,bind,Except.bind]
  | oneParty destination =>
    have hnext : U64.add self.nextId 1 = .error .overflow := U64.add_one_top hb h
    simp only [sendMessage,hnext,bind,Except.bind]

/-- A broadcast among 65535 parties or more polls the index at its top. -/
theorem sendMessage_top (hb : Build.overflowChecks = true) {self : MessagesQueue M}
    {msg : Outgoing M} (hn : 65535 ≤ self.queue.length) (hp : msg.recipient.isP2p = false) :
    self.sendMessage sender msg = .error .overflow := by
  obtain ⟨recipient,m⟩ := msg
  cases recipient with
  | allParties reliable =>
    have hpush : pushAll sender reliable m 0 self.nextId self.queue = .error .overflow :=
      pushAll_overflows hb (.inl (Nat.le_add_left_of_le hn))
    simp only [sendMessage,hpush,bind,Except.bind]
  | oneParty destination => cases hp

end MessagesQueue
end RoundBased
