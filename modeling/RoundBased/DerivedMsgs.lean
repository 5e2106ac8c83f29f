import RoundBased.Derive
import Mathlib.Data.List.Nodup

/-! Enums that derive their protocol messages: their values, and the implementations that were
generated for them. -/
namespace RoundBased
namespace Derive

/-- An enum that both the macro and the compiler accept: the variants have different names, and
no type implements `RoundMsg` twice. -/
structure DerivedEnum (Ident Ty : Type) where
  variants : List (Variant Ident Ty)
  short : variants.length < 65535
  single : ∀ variant ∈ variants, variant.Single
  idents : (variants.map Variant.ident).Nodup
  msgTypes : (variants.map Variant.fields).Nodup

namespace DerivedEnum

variable {Ident Ty : Type} (E : DerivedEnum Ident Ty)

/-- The types of the fields. -/
def FieldType : Type := {ty : Ty // ∃ ident, ⟨ident,.unnamed [ty]⟩ ∈ E.variants}

variable [Build]

/-- The arms of the generated `round`. -/
def arms : List (Arm Ident) :=
  match protocolMsg (.enum E.variants) with
  | .ok (.impls matchVariants _) => matchVariants
  | _ => []

/-- The generated implementations of `RoundMsg`. -/
def impls : List (RoundMsgImpl Ident Ty) :=
  match protocolMsg (.enum E.variants) with
  | .ok (.impls _ roundMsgs) => roundMsgs
  | _ => []

/-- The macro gives the variant this number. -/
def NumberOf (variant : Variant Ident Ty) (i : UInt16) : Prop :=
  ∃ numbered, zipFrom 0 E.variants = .ok numbered ∧ (i,variant) ∈ numbered

variable {E} {v w : Variant Ident Ty} {i j : UInt16} {ty : Ty}

theorem accepted : ∃ out, protocolMsg (.enum E.variants) = .ok out ∧ out.Compiles :=
  (compiles_iff E.short).mpr E.single

theorem numbered_spec {numbered : List (UInt16 × Variant Ident Ty)}
    (h : zipFrom 0 E.variants = .ok numbered) :
    numbered.map Prod.snd = E.variants ∧ (numbered.map Prod.fst).Nodup ∧
      E.arms = numbered.map matchVariant ∧ E.impls = numbered.filterMap roundMsgImpl := by
  obtain ⟨numbered',hzip,hsnd,hnodup,hout⟩ := protocolMsg_enum E.short
  rw [h] at hzip
  cases hzip
  exact ⟨hsnd,hnodup,by simp only [arms,hout],by simp only [impls,hout]⟩

theorem exists_number (h : v ∈ E.variants) : ∃ i, E.NumberOf v i := by
  obtain ⟨numbered,hzip,hsnd,_⟩ := protocolMsg_enum E.short
  rw [← hsnd] at h
  obtain ⟨⟨i,variant⟩,hmem,heq⟩ := List.mem_map.mp h
  cases heq
  exact ⟨i,numbered,hzip,hmem⟩

namespace NumberOf

theorem mem (h : E.NumberOf v i) : v ∈ E.variants := by
  obtain ⟨numbered,hzip,hmem⟩ := h
  rw [← (numbered_spec hzip).1]
  exact List.mem_map_of_mem hmem

theorem mem_numbered (h : E.NumberOf v i) {numbered : List (UInt16 × Variant Ident Ty)}
    (hzip : zipFrom 0 E.variants = .ok numbered) : (i,v) ∈ numbered := by
  obtain ⟨numbered',hzip',hmem⟩ := h
  rw [hzip] at hzip'
  cases hzip'
  exact hmem

theorem variant_eq (hv : E.NumberOf v i) (hw : E.NumberOf w i) : v = w := by
  obtain ⟨numbered,hzip,hmem⟩ := hv
  obtain ⟨_,hnodup,_⟩ := numbered_spec hzip
  exact congrArg Prod.snd (List.inj_on_of_nodup_map hnodup hmem (hw.mem_numbered hzip) rfl)

theorem number_eq (hv : E.NumberOf v i) (hw : E.NumberOf v j) : i = j := by
  obtain ⟨numbered,hzip,hmem⟩ := hv
  have hnodup : (numbered.map Prod.snd).Nodup := by
    rw [(numbered_spec hzip).1]
    exact E.idents.of_map _
  exact congrArg Prod.fst (List.inj_on_of_nodup_map hnodup hmem (hw.mem_numbered hzip) rfl)

end NumberOf

omit [Build] in
theorem ident_inj (hv : v ∈ E.variants) (hw : w ∈ E.variants) (h : v.ident = w.ident) : v = w :=
  List.inj_on_of_nodup_map E.idents hv hw h

omit [Build] in
theorem fields_inj (hv : v ∈ E.variants) (hw : w ∈ E.variants) (h : v.fields = w.fields) : v = w :=
  List.inj_on_of_nodup_map E.msgTypes hv hw h

omit [Build] in
theorem find?_of_unique {A : Type} {l : List A} {p : A → Bool} {a : A} (ha : a ∈ l)
    (hp : p a = true) (hunique : ∀ b ∈ l, p b = true → b = a) : l.find? p = some a := by
  have hsome : (l.find? p).isSome = true := List.find?_isSome.mpr ⟨a,ha,hp⟩
  obtain ⟨b,hb⟩ := Option.isSome_iff_exists.mp hsome
  rw [hb,hunique b (List.mem_of_find?_eq_some hb) (List.find?_some hb)]

/-- The arm for the values of a variant returns the number of the variant. -/
theorem find_arm [DecidableEq Ident] (h : E.NumberOf v i) :
    E.arms.find? (fun arm => arm.variant = v.ident) = some ⟨v.ident,.number i⟩ := by
  obtain ⟨numbered,hzip,hmem⟩ := id h
  have hvalue : matchVariant (i,v) = ⟨v.ident,.number i⟩ := by
    have hident : (matchVariant (i,v)).variant = v.ident := matchVariant_variant (i,v)
    have hnumber : (matchVariant (i,v)).value = .number i :=
      matchVariant_single (x := (i,v)) (E.single v h.mem)
    rw [← hident,← hnumber]
  rw [(numbered_spec hzip).2.2.1,← hvalue]
  refine find?_of_unique (List.mem_map_of_mem hmem) (by simp [matchVariant_variant]) ?_
  intro arm harm hsame
  obtain ⟨⟨j,w⟩,hw,rfl⟩ := List.mem_map.mp harm
  have hw' : E.NumberOf w j := ⟨numbered,hzip,hw⟩
  simp only [matchVariant_variant,decide_eq_true_eq] at hsame
  have hvw : w = v := ident_inj hw'.mem h.mem hsame
  subst hvw
  rw [hw'.number_eq h]

/-- The implementation for the type of a field has the number of the variant. -/
theorem find_impl [DecidableEq Ty] (h : E.NumberOf v i) (hty : v.fields = .unnamed [ty]) :
    E.impls.find? (fun impl => impl.msgType = ty) = some ⟨ty,i,v.ident⟩ := by
  obtain ⟨numbered,hzip,hmem⟩ := id h
  have hvalue : roundMsgImpl (i,v) = some ⟨ty,i,v.ident⟩ := by
    simp only [roundMsgImpl,hty]
  rw [(numbered_spec hzip).2.2.2]
  refine find?_of_unique (List.mem_filterMap.mpr ⟨_,hmem,hvalue⟩) (by simp) ?_
  intro impl himpl hsame
  obtain ⟨⟨j,w⟩,hw,hwimpl⟩ := List.mem_filterMap.mp himpl
  have hw' : E.NumberOf w j := ⟨numbered,hzip,hw⟩
  obtain ⟨ty',hty'⟩ := E.single w hw'.mem
  simp only [roundMsgImpl,hty',Option.some.injEq] at hwimpl
  subst hwimpl
  simp only [decide_eq_true_eq] at hsame
  subst hsame
  have hvw : w = v := fields_inj hw'.mem h.mem (hty'.trans hty.symm)
  subst hvw
  rw [hw'.number_eq h]

end DerivedEnum

/-- A value of the enum, where `El ty` are the values of type `ty`. -/
structure Value {Ident Ty : Type} (E : DerivedEnum Ident Ty) (El : Ty → Type) where
  ident : Ident
  ty : Ty
  mem : ⟨ident,.unnamed [ty]⟩ ∈ E.variants
  payload : El ty

/-- A value of the type of a field. -/
structure Field {Ident Ty : Type} (E : DerivedEnum Ident Ty) (El : Ty → Type)
    (ty : E.FieldType) where
  value : El ty.1

variable {Ident Ty : Type} {E : DerivedEnum Ident Ty} {El : Ty → Type} [Build]

/-- The variant that a value is of. -/
def Value.variant (m : Value E El) : Variant Ident Ty := ⟨m.ident,.unnamed [m.ty]⟩

instance [DecidableEq Ident] : ProtocolMsg (Value E El) where
  round self :=
    match E.arms.find? fun arm => arm.variant = self.ident with
    | some ⟨_,.number i⟩ => .ok i
    | _ => .error .unreachable

theorem round_value [DecidableEq Ident] {m : Value E El} {i : UInt16}
    (h : E.NumberOf m.variant i) : round m = .ok i := by
  have hfind : E.arms.find? (fun arm => arm.variant = m.ident) = some ⟨m.ident,.number i⟩ :=
    DerivedEnum.find_arm h
  simp only [round]
  rw [hfind]

theorem round_value_iff [DecidableEq Ident] {m : Value E El} {v : Variant Ident Ty} {i : UInt16}
    (h : E.NumberOf v i) : round m = .ok i ↔ m.variant = v := by
  obtain ⟨j,hj⟩ := DerivedEnum.exists_number m.mem
  rw [round_value hj]
  constructor
  · intro hij
    rw [Except.ok.inj hij] at hj
    exact hj.variant_eq h
  · intro hv
    rw [← hv] at h
    rw [hj.number_eq h]

instance [DecidableEq Ident] : LawfulProtocolMsg (Value E El) where
  round_ok m := by
    obtain ⟨i,hi⟩ := DerivedEnum.exists_number m.mem
    exact ⟨i,round_value hi⟩

section Impl

variable [DecidableEq Ty]

theorem find_impl_isSome (ty : E.FieldType) :
    (E.impls.find? fun impl => impl.msgType = ty.1).isSome = true := by
  obtain ⟨ident,hmem⟩ := ty.2
  obtain ⟨i,hi⟩ := DerivedEnum.exists_number hmem
  rw [DerivedEnum.find_impl hi rfl]
  rfl

/-- The implementation that the compiler selects for the type. -/
def implOf (ty : E.FieldType) : RoundMsgImpl Ident Ty :=
  (E.impls.find? fun impl => impl.msgType = ty.1).get (find_impl_isSome ty)

/-- The variant in the generated code is the one with a field of the type, under its number. -/
theorem implOf_spec (ty : E.FieldType) :
    E.NumberOf ⟨(implOf ty).variant,.unnamed [ty.1]⟩ (implOf ty).ROUND := by
  obtain ⟨ident,hmem⟩ := ty.2
  obtain ⟨i,hi⟩ := DerivedEnum.exists_number hmem
  have himpl : implOf ty = ⟨ty.1,i,ident⟩ := by
    simp only [implOf,DerivedEnum.find_impl hi rfl,Option.get_some]
  rw [himpl]
  exact hi

theorem ty_eq {ty : E.FieldType} {m : Value E El} (h : m.ident = (implOf ty).variant) :
    m.ty = ty.1 := by
  have hv : m.variant = ⟨(implOf ty).variant,.unnamed [ty.1]⟩ :=
    DerivedEnum.ident_inj m.mem (implOf_spec ty).mem h
  have hfields : Fields.unnamed [m.ty] = Fields.unnamed [ty.1] := congrArg Variant.fields hv
  simpa using hfields

variable [DecidableEq Ident]

instance (ty : E.FieldType) : RoundMsg (Value E El) (Field E El ty) where
  ROUND := (implOf ty).ROUND
  toProtocolMsg roundMsg := ⟨(implOf ty).variant,ty.1,(implOf_spec ty).mem,roundMsg.value⟩
  fromProtocolMsg protocolMsg :=
    if h : protocolMsg.ident = (implOf ty).variant then .ok ⟨ty_eq h ▸ protocolMsg.payload⟩
    else .error protocolMsg

/-- A value converts to the type if it is of the variant with a field of the type. -/
theorem from_value_ok_iff (ty : E.FieldType) (m : Value E El) :
    (∃ t : Field E El ty, fromProtocolMsg m = .ok t) ↔
      m.variant = ⟨(implOf ty).variant,.unnamed [ty.1]⟩ := by
  constructor
  · rintro ⟨t,ht⟩
    simp only [fromProtocolMsg] at ht
    split at ht
    · rename_i hident
      exact DerivedEnum.ident_inj m.mem (implOf_spec ty).mem hident
    · cases ht
  · intro hv
    have hident : m.ident = (implOf ty).variant := congrArg Variant.ident hv
    simp only [fromProtocolMsg,dif_pos hident]
    exact ⟨_,rfl⟩

/-- The two generators agree. -/
instance (ty : E.FieldType) : LosslessRoundMsg (Value E El) (Field E El ty) where
  from_error m m' h := by
    simp only [fromProtocolMsg] at h
    split at h
    · cases h
    · exact (Except.error.inj h).symm
  from_ok_iff m := (from_value_ok_iff ty m).trans (round_value_iff (implOf_spec ty)).symm
  from_to t := by
    simp only [fromProtocolMsg,toProtocolMsg,dite_true]
  to_from m t h := by
    simp only [fromProtocolMsg] at h
    split at h
    · rename_i hident
      obtain ⟨ident,ty',hmem,payload⟩ := m
      have hty : ty' = ty.1 := ty_eq (m := ⟨ident,ty',hmem,payload⟩) hident
      cases h
      simp only at hident
      subst hident hty
      rfl
    · cases h

theorem round_eq_ROUND {ty : E.FieldType} {m : Value E El} (h : m.ty = ty.1) :
    round m = .ok (RoundMsg.ROUND (Value E El) (Field E El ty)) := by
  have hv : m.variant = ⟨(implOf ty).variant,.unnamed [ty.1]⟩ := by
    apply DerivedEnum.fields_inj m.mem (implOf_spec ty).mem
    exact congrArg (fun ty => Fields.unnamed [ty]) h
  exact (round_value_iff (implOf_spec ty)).mpr hv

theorem ROUND_inj {ty ty' : E.FieldType} (h : RoundMsg.ROUND (Value E El) (Field E El ty) =
    RoundMsg.ROUND (Value E El) (Field E El ty')) : ty = ty' := by
  have hnumber : E.NumberOf ⟨(implOf ty).variant,.unnamed [ty.1]⟩ (implOf ty').ROUND := by
    have hround : (implOf ty).ROUND = (implOf ty').ROUND := h
    rw [← hround]
    exact implOf_spec ty
  have hv := hnumber.variant_eq (implOf_spec ty')
  have hty : ty.1 = ty'.1 := by simpa using congrArg Variant.fields hv
  exact Subtype.ext hty

omit [DecidableEq Ty] in
theorem variant_eq_of_round_eq {m m' : Value E El} (h : round m = round m') :
    m.variant = m'.variant := by
  obtain ⟨i,hi⟩ := DerivedEnum.exists_number m'.mem
  rw [round_value (m := m') hi] at h
  exact (round_value_iff hi).mp h

end Impl

end Derive
end RoundBased
