import RoundBased.ProtocolMsg

/-! Messages of a protocol with echo broadcast rounds: the messages of main round `r` have
number `2 * r` and their echoes `2 * r + 1`. -/
namespace RoundBased
namespace EchoBroadcast

/-- Message of the protocol with echo broadcast rounds. -/
inductive Msg (H M : Type)
  | echo (round : UInt16) (hash : H)
  | main (msg : M)
  deriving DecidableEq, Repr

/-- Sub-message of an echo round, `R` is the message of its main round. -/
structure EchoMsg (H R : Type) where
  hash : H
  deriving DecidableEq, Repr

/-- Sub-message of a main round. -/
structure Main (R : Type) where
  msg : R
  deriving DecidableEq, Repr

variable {H M T : Type}

instance [Build] [ProtocolMsg M] : ProtocolMsg (Msg H M) where
  round
    | .echo r _ => (U16.mul 2 r).bind fun x => U16.add x 1
    | .main m => (round m).bind fun n => U16.mul 2 n

/-- The compiler refuses round numbers for which the constant overflows. -/
instance [RoundMsg M T] : RoundMsg (Msg H M) (EchoMsg H T) where
  ROUND := 2 * RoundMsg.ROUND M T + 1
  toProtocolMsg msg := .echo (RoundMsg.ROUND M T) msg.hash
  fromProtocolMsg
    | .echo r hash =>
      if r = RoundMsg.ROUND M T then .ok ⟨hash⟩ else .error (.echo r hash)
    | .main m => .error (.main m)

instance [RoundMsg M T] : RoundMsg (Msg H M) (Main T) where
  ROUND := 2 * RoundMsg.ROUND M T
  toProtocolMsg msg := .main (toProtocolMsg msg.msg)
  fromProtocolMsg
    | .main m =>
      match (fromProtocolMsg m : Except M T) with
      | .ok t => .ok ⟨t⟩
      | .error m => .error (.main m)
    | .echo r hash => .error (.echo r hash)

/-- Round numbers leave room for the echoes. -/
class ShortRoundMsg (M T : Type) [ProtocolMsg M] [RoundMsg M T] : Prop
    extends LawfulRoundMsg M T where
  round_lt : (RoundMsg.ROUND M T).toNat < 32768

class ShortProtocolMsg (M : Type) [ProtocolMsg M] : Prop where
  round_lt : ∀ m : M, ∃ n, round m = .ok n ∧ n.toNat < 32768

instance [ProtocolMsg M] [ShortProtocolMsg M] : LawfulProtocolMsg M where
  round_ok m := by
    obtain ⟨n,hn,_⟩ := ShortProtocolMsg.round_lt m
    exact ⟨n,hn⟩

/-- The round number of the message is representable. -/
def Msg.Fits : Msg H M → Prop
  | .echo r _ => r.toNat < 32768
  | .main _ => True

/-- The number of the main round that the message belongs to leaves room for the echoes. -/
def Msg.Short [ProtocolMsg M] : Msg H M → Prop
  | .echo r _ => r.toNat < 32768
  | .main m => ∃ n, round m = .ok n ∧ n.toNat < 32768

theorem Msg.Fits.short [ProtocolMsg M] [ShortProtocolMsg M] {m : Msg H M} (h : m.Fits) :
    m.Short := by
  cases m with
  | echo r hash => exact h
  | main m => exact ShortProtocolMsg.round_lt m

section

variable [ProtocolMsg M] [RoundMsg M T]

instance : RefusesUnchanged (Msg H M) (EchoMsg H T) where
  from_error m m' h := by
    cases m with
    | main m => cases h; rfl
    | echo r hash =>
      simp only [fromProtocolMsg] at h
      split at h <;> cases h
      rfl

instance [RefusesUnchanged M T] : RefusesUnchanged (Msg H M) (Main T) where
  from_error m m' h := by
    cases m with
    | echo r hash => cases h; rfl
    | main m =>
      simp only [fromProtocolMsg] at h
      split at h
      · cases h
      · rename_i m1 hm
        cases h
        rw [RefusesUnchanged.from_error _ _ hm]

omit [ProtocolMsg M] in
theorem from_to_echo (t : EchoMsg H T) : fromProtocolMsg (toProtocolMsg t : Msg H M) = .ok t := by
  simp [fromProtocolMsg,toProtocolMsg]

theorem from_to_main [LawfulRoundMsg M T] (t : Main T) :
    fromProtocolMsg (toProtocolMsg t : Msg H M) = .ok t := by
  have h := LawfulRoundMsg.from_to (M := M) t.msg
  simp [fromProtocolMsg,toProtocolMsg] at h ⊢
  simp [h]

end

/-! Arithmetic of the two encodings. -/
section

variable {r s : UInt16}

theorem toNat_two_mul (h : r.toNat < 32768) : (2 * r).toNat = 2 * r.toNat := by
  rw [UInt16.toNat_mul]
  change 2 * r.toNat % 65536 = 2 * r.toNat
  omega

theorem toNat_two_mul_add_one (h : r.toNat < 32768) :
    (2 * r + 1).toNat = 2 * r.toNat + 1 := by
  rw [UInt16.toNat_add,toNat_two_mul h]
  change (2 * r.toNat + 1) % 65536 = 2 * r.toNat + 1
  omega

theorem two_mul_inj (hr : r.toNat < 32768) (hs : s.toNat < 32768) (h : 2 * r = 2 * s) :
    r = s := by
  have hnat := congrArg UInt16.toNat h
  rw [toNat_two_mul hr,toNat_two_mul hs] at hnat
  exact UInt16.toNat_inj.mp (by omega)

theorem two_mul_add_one_inj (hr : r.toNat < 32768) (hs : s.toNat < 32768)
    (h : 2 * r + 1 = 2 * s + 1) : r = s := by
  have hnat := congrArg UInt16.toNat h
  rw [toNat_two_mul_add_one hr,toNat_two_mul_add_one hs] at hnat
  exact UInt16.toNat_inj.mp (by omega)

theorem two_mul_ne_add_one (hr : r.toNat < 32768) (hs : s.toNat < 32768) :
    2 * r ≠ 2 * s + 1 := by
  intro h
  have hnat := congrArg UInt16.toNat h
  rw [toNat_two_mul hr,toNat_two_mul_add_one hs] at hnat
  omega

end

section

variable [Build] [ProtocolMsg M]

theorem round_echo {r : UInt16} (hash : H) (h : r.toNat < 32768) :
    round (.echo r hash : Msg H M) = .ok (2 * r + 1) := by
  have h2 : (2 : UInt16).toNat = 2 := rfl
  have h1 : (1 : UInt16).toNat = 1 := rfl
  have hmul : U16.mul 2 r = .ok (2 * r) := U16.mul_of_lt (by rw [h2]; omega)
  have hadd : U16.add (2 * r) 1 = .ok (2 * r + 1) :=
    U16.add_of_lt (by rw [toNat_two_mul h]; omega)
  change (U16.mul 2 r).bind _ = _
  rw [hmul]
  exact hadd

theorem round_main {m : M} {n : UInt16} (hn : round m = .ok n) (h : n.toNat < 32768) :
    round (.main m : Msg H M) = .ok (2 * n) := by
  have h2 : (2 : UInt16).toNat = 2 := rfl
  have hmul : U16.mul 2 n = .ok (2 * n) := U16.mul_of_lt (by rw [h2]; omega)
  change (round m).bind _ = _
  rw [hn]
  exact hmul

theorem round_ok_of_short {m : Msg H M} (h : m.Short) : ∃ n, round m = .ok n := by
  cases m with
  | echo r hash => exact ⟨_,round_echo hash h⟩
  | main m =>
    obtain ⟨n,hn,hlt⟩ := h
    exact ⟨_,round_main hn hlt⟩

variable [RoundMsg M T] [ShortRoundMsg M T]

theorem wellRouted_echo {m : Msg H M} (h : m.Short) : WellRouted (EchoMsg H T) m := by
  have hT := ShortRoundMsg.round_lt (M := M) (T := T)
  cases m with
  | echo r hash =>
    unfold WellRouted
    rw [round_echo hash h]
    constructor
    · rintro ⟨t,ht⟩
      simp only [fromProtocolMsg] at ht
      split at ht
      · rename_i he; rw [he]; rfl
      · cases ht
    · intro he
      have hr : r = RoundMsg.ROUND M T := two_mul_add_one_inj h hT (Except.ok.inj he)
      exact ⟨⟨hash⟩,if_pos hr⟩
  | main m =>
    obtain ⟨n,hn,hlt⟩ := h
    unfold WellRouted
    rw [round_main hn hlt]
    constructor
    · rintro ⟨t,ht⟩
      cases ht
    · intro he
      exact absurd (Except.ok.inj he) (two_mul_ne_add_one hlt hT)

theorem wellRouted_main {m : Msg H M} (h : m.Short) : WellRouted (Main T) m := by
  have hT := ShortRoundMsg.round_lt (M := M) (T := T)
  cases m with
  | echo r hash =>
    unfold WellRouted
    rw [round_echo hash h]
    constructor
    · rintro ⟨t,ht⟩
      cases ht
    · intro he
      exact absurd (Except.ok.inj he).symm (two_mul_ne_add_one hT h)
  | main m =>
    obtain ⟨n,hn,hlt⟩ := h
    have hiff := wellRouted T m
    unfold WellRouted at hiff ⊢
    rw [round_main hn hlt]
    rw [hn] at hiff
    constructor
    · rintro ⟨t,ht⟩
      simp only [fromProtocolMsg] at ht
      split at ht
      · rename_i t' ht'
        have he := hiff.mp ⟨t',ht'⟩
        rw [Except.ok.inj he]
        rfl
      · cases ht
    · intro he
      have hr : n = RoundMsg.ROUND M T := two_mul_inj hlt hT (Except.ok.inj he)
      obtain ⟨t,ht⟩ := hiff.mpr (congrArg _ hr)
      exact ⟨⟨t⟩,by simp only [fromProtocolMsg,ht]⟩

end
end EchoBroadcast
end RoundBased
