import RoundBased.ProtocolMsg

/-! The derive macro of protocol messages: two generators number the variants of an enum, one for
the round of a value, the other for the message type of each round. -/
namespace RoundBased
namespace Derive

variable {Ident Ty : Type}

inductive Fields (Ident Ty : Type)
  | unit
  | named (fields : List (Ident × Ty))
  | unnamed (fields : List Ty)
  deriving DecidableEq, Repr

structure Variant (Ident Ty : Type) where
  ident : Ident
  fields : Fields Ident Ty
  deriving DecidableEq, Repr

/-- What the macro is applied to. -/
inductive Data (Ident Ty : Type)
  | enum (variants : List (Variant Ident Ty))
  | struct
  | union
  deriving DecidableEq, Repr

/-- The value of an arm of the generated `match`. -/
inductive ArmValue
  | number (i : UInt16)
  | compileError (msg : String)
  deriving DecidableEq, Repr

/-- An arm, whose pattern matches the values of the variant. -/
structure Arm (Ident : Type) where
  variant : Ident
  value : ArmValue
  deriving DecidableEq, Repr

/-- The generated implementation of `RoundMsg` for the message type. -/
structure RoundMsgImpl (Ident Ty : Type) where
  msgType : Ty
  ROUND : UInt16
  variant : Ident
  deriving DecidableEq, Repr

inductive Output (Ident Ty : Type)
  | compileError (msg : String)
  | impls (matchVariants : List (Arm Ident)) (roundMsgs : List (RoundMsgImpl Ident Ty))
  deriving DecidableEq, Repr

/-- The numbers from `start` on, zipped with a list. The number after a number is computed before
the list is asked. -/
def zipFrom [Build] {A : Type} : UInt16 → List A → Checked (List (UInt16 × A))
  | start,[] => do
    let _after ← U16.add start 1
    return []
  | start,a :: as => do
    let after ← U16.add start 1
    let rest ← zipFrom after as
    return (start,a) :: rest

def matchVariant : UInt16 × Variant Ident Ty → Arm Ident
  | (i,variant) =>
    match variant.fields with
    | .unit => ⟨variant.ident,.compileError "unit variants are not allowed in ProtocolMsg"⟩
    | .named _ => ⟨variant.ident,.compileError "named variants are not allowed in ProtocolMsg"⟩
    | .unnamed fields =>
      if fields.length = 1 then ⟨variant.ident,.number i⟩
      else ⟨variant.ident,.compileError
        "this variant must contain exactly one field to be valid ProtocolMsg"⟩

def roundMethod [Build] (variants : List (Variant Ident Ty)) : Checked (List (Arm Ident)) :=
  (zipFrom 0 variants).map (List.map matchVariant)

/-- Nothing is generated unless the variant has one field without a name. -/
def roundMsgImpl : UInt16 × Variant Ident Ty → Option (RoundMsgImpl Ident Ty)
  | (i,variant) =>
    match variant.fields with
    | .unnamed [msgType] => some ⟨msgType,i,variant.ident⟩
    | _ => none

def roundMsgs [Build] (variants : List (Variant Ident Ty)) :
    Checked (List (RoundMsgImpl Ident Ty)) :=
  (zipFrom 0 variants).map (List.filterMap roundMsgImpl)

/-- An empty enum has no arms. -/
def roundMethodImpl [Build] (variants : List (Variant Ident Ty)) : Checked (List (Arm Ident)) :=
  if variants.isEmpty then .ok [] else roundMethod variants

def protocolMsg [Build] : Data Ident Ty → Checked (Output Ident Ty)
  | .enum variants => do
    let matchVariants ← roundMethodImpl variants
    let impls ← roundMsgs variants
    return .impls matchVariants impls
  | .struct => .ok (.compileError "only enum may implement ProtocolMsg")
  | .union => .ok (.compileError "only enum may implement ProtocolMsg")

/-- Nothing in the output stops the compiler. -/
def Output.Compiles : Output Ident Ty → Prop
  | .compileError _ => False
  | .impls matchVariants _ => ∀ arm ∈ matchVariants, ∀ msg, arm.value ≠ .compileError msg

/-- The variant has exactly one field, without a name. -/
def Variant.Single (variant : Variant Ident Ty) : Prop :=
  ∃ msgType, variant.fields = .unnamed [msgType]

theorem matchVariant_variant (x : UInt16 × Variant Ident Ty) :
    (matchVariant x).variant = x.2.ident := by
  obtain ⟨i,ident,fields⟩ := x
  cases fields with
  | unit => rfl
  | named _ => rfl
  | unnamed fields =>
    simp only [matchVariant]
    split <;> rfl

theorem matchVariant_single {x : UInt16 × Variant Ident Ty} (h : x.2.Single) :
    (matchVariant x).value = .number x.1 := by
  obtain ⟨i,ident,fields⟩ := x
  obtain ⟨msgType,hfields⟩ := h
  simp only at hfields
  subst hfields
  rfl

theorem matchVariant_not_single {x : UInt16 × Variant Ident Ty} (h : ¬ x.2.Single) :
    ∃ msg, (matchVariant x).value = .compileError msg := by
  obtain ⟨i,ident,fields⟩ := x
  cases fields with
  | unit => exact ⟨_,rfl⟩
  | named _ => exact ⟨_,rfl⟩
  | unnamed fields =>
    have hlen : ¬ fields.length = 1 := by
      intro hlen
      obtain ⟨msgType,hfields⟩ := List.length_eq_one_iff.mp hlen
      exact h ⟨msgType,congrArg Fields.unnamed hfields⟩
    simp only [matchVariant,if_neg hlen]
    exact ⟨_,rfl⟩

/-! The numbers are those of the positions. -/
section Numbers

variable [Build]

theorem zipFrom_spec {A : Type} (start : UInt16) {as : List A}
    (h : start.toNat + as.length < 65535) :
    ∃ numbered, zipFrom start as = .ok numbered ∧ numbered.map Prod.snd = as ∧
      numbered.Pairwise (fun x y => x.1.toNat < y.1.toNat) ∧
      ∀ x ∈ numbered, start.toNat ≤ x.1.toNat := by
  induction as generalizing start with
  | nil =>
    have hadd : U16.add start 1 = .ok (start + 1) := by
      apply U16.add_of_lt
      change start.toNat + 1 < 65536
      simp only [List.length_nil] at h
      omega
    refine ⟨[],?_,rfl,.nil,fun x hx => (by cases hx)⟩
    rw [zipFrom,hadd]
    rfl
  | cons a as ih =>
    rw [List.length_cons] at h
    have hadd : U16.add start 1 = .ok (start + 1) := by
      apply U16.add_of_lt
      change start.toNat + 1 < 65536
      omega
    have hone : (start + 1).toNat = start.toNat + 1 := by
      rw [UInt16.toNat_add]
      change (start.toNat + 1) % 65536 = start.toNat + 1
      omega
    obtain ⟨rest,hrest,hsnd,hpair,hle⟩ := ih (start + 1) (by omega)
    refine ⟨(start,a) :: rest,?_,by rw [List.map_cons,hsnd],?_,?_⟩
    · rw [zipFrom,hadd]
      simp only [bind,Except.bind,hrest]
      rfl
    · refine .cons (fun x hx => ?_) hpair
      have hx' := hle x hx
      change start.toNat < x.1.toNat
      omega
    · intro x hx
      rcases List.mem_cons.mp hx with rfl | hx
      · exact Nat.le_refl _
      · have hx' := hle x hx
        omega

/-- Both generators use the same numbers, one for each variant. -/
theorem protocolMsg_enum {variants : List (Variant Ident Ty)} (h : variants.length < 65535) :
    ∃ numbered, zipFrom 0 variants = .ok numbered ∧ numbered.map Prod.snd = variants ∧
      (numbered.map Prod.fst).Nodup ∧ protocolMsg (.enum variants) =
        .ok (.impls (numbered.map matchVariant) (numbered.filterMap roundMsgImpl)) := by
  have hroom : (0 : UInt16).toNat + variants.length < 65535 := by
    change 0 + variants.length < 65535
    rwa [Nat.zero_add]
  obtain ⟨numbered,hzip,hsnd,hpair,_⟩ := zipFrom_spec 0 hroom
  have hmethod : roundMethodImpl variants = .ok (numbered.map matchVariant) := by
    cases variants with
    | nil =>
      rw [List.map_eq_nil_iff.mp hsnd]
      rfl
    | cons variant variants =>
      simp only [roundMethodImpl,List.isEmpty_cons,Bool.false_eq_true,if_false,roundMethod,hzip]
      rfl
  refine ⟨numbered,hzip,hsnd,List.pairwise_map.mpr (hpair.imp fun {x y} hlt he => ?_),?_⟩
  · rw [he] at hlt
    exact Nat.lt_irrefl _ hlt
  · simp only [protocolMsg,hmethod,roundMsgs,hzip]
    rfl

/-- The macro accepts the enums whose variants all have exactly one field, without a name. -/
theorem compiles_iff {variants : List (Variant Ident Ty)} (h : variants.length < 65535) :
    (∃ out, protocolMsg (.enum variants) = .ok out ∧ out.Compiles) ↔
      ∀ variant ∈ variants, variant.Single := by
  obtain ⟨numbered,_,hsnd,_,hout⟩ := protocolMsg_enum h
  rw [hout]
  constructor
  · rintro ⟨out,heq,hcompiles⟩ variant hmem
    cases heq
    rw [← hsnd] at hmem
    obtain ⟨x,hx,rfl⟩ := List.mem_map.mp hmem
    by_contra hnot
    obtain ⟨msg,hmsg⟩ := matchVariant_not_single hnot
    exact hcompiles _ (List.mem_map_of_mem hx) msg hmsg
  · intro hsingle
    refine ⟨_,rfl,fun arm harm msg hmsg => ?_⟩
    obtain ⟨x,hx,rfl⟩ := List.mem_map.mp harm
    have hx' : x.2.Single := hsingle _ (hsnd ▸ List.mem_map_of_mem hx)
    rw [matchVariant_single hx'] at hmsg
    cases hmsg

end Numbers

/-- The messages of random generation are numbered from 0. -/
example :
    letI : Build := .debug
    protocolMsg (.enum [⟨"CommitMsg",.unnamed ["CommitMsg"]⟩,
      ⟨"DecommitMsg",.unnamed ["DecommitMsg"]⟩]) =
    .ok (.impls [⟨"CommitMsg",.number 0⟩,⟨"DecommitMsg",.number 1⟩]
      [⟨"CommitMsg",0,"CommitMsg"⟩,⟨"DecommitMsg",1,"DecommitMsg"⟩]) := rfl

end Derive
end RoundBased
