import RoundBased.Feeding

/-! Gathering one item for each needed key. An item without a key is ignored, a refused
item, an item of a foreign key or the second item of one key is an error. -/
namespace Gathering
open Feeding

inductive Item (K V : Type)
  | ignored
  | refused
  | item (k : K) (v : V)

variable {K V : Type}

def Item.key : Item K V → Option K
  | item k _ => some k
  | _ => none

def keys (xs : List (Item K V)) : List K := xs.filterMap Item.key

@[simp] theorem keys_cons_ignored (xs : List (Item K V)) : keys (.ignored :: xs) = keys xs := rfl

@[simp] theorem keys_cons_item (k : K) (v : V) (xs : List (Item K V)) :
    keys (.item k v :: xs) = k :: keys xs := rfl

/-- Nothing among the items is an error. -/
structure Clean (allowed : K → Prop) (xs : List (Item K V)) : Prop where
  not_refused : ∀ x ∈ xs, x ≠ .refused
  allowed : ∀ k ∈ keys xs, allowed k
  nodup : (keys xs).Nodup

variable {allowed need : K → Prop} {xs ys : List (Item K V)}

theorem mem_keys_iff {k : K} : k ∈ keys xs ↔ ∃ v, .item k v ∈ xs := by
  simp only [keys,List.mem_filterMap]
  constructor
  · rintro ⟨x,hx,hk⟩
    cases x with
    | item j v => cases hk; exact ⟨v,hx⟩
    | ignored => cases hk
    | refused => cases hk
  · rintro ⟨v,hv⟩
    exact ⟨_,hv,rfl⟩

theorem Clean.of_prefix (h : Clean allowed ys) (hp : xs <+: ys) : Clean allowed xs where
  not_refused x hx := h.not_refused x (hp.subset hx)
  allowed k hk := h.allowed k ((hp.sublist.filterMap _).subset hk)
  nodup := h.nodup.sublist (hp.sublist.filterMap _)

theorem clean_snoc_item {k : K} {v : V} :
    Clean allowed (xs ++ [.item k v]) ↔ Clean allowed xs ∧ allowed k ∧ k ∉ keys xs := by
  have hkeys : keys (xs ++ [.item k v]) = keys xs ++ [k] := by simp [keys,Item.key]
  constructor
  · intro h
    have hnd := h.nodup
    rw [hkeys,List.nodup_append] at hnd
    refine ⟨h.of_prefix (List.prefix_append _ _),h.allowed k (by simp [hkeys]),fun hk => ?_⟩
    exact hnd.2.2 k hk k (List.mem_singleton_self k) rfl
  · rintro ⟨h,ha,hk⟩
    refine ⟨fun x hx => ?_,fun j hj => ?_,?_⟩
    · rcases List.mem_append.mp hx with hx | hx
      · exact h.not_refused x hx
      · rw [List.mem_singleton.mp hx]; simp
    · rw [hkeys] at hj
      rcases List.mem_append.mp hj with hj | hj
      · exact h.allowed j hj
      · rwa [List.mem_singleton.mp hj]
    · rw [hkeys,List.nodup_append]
      refine ⟨h.nodup,by simp,fun a ha b hb => ?_⟩
      rw [List.mem_singleton.mp hb]
      exact fun he => hk (he ▸ ha)

theorem clean_snoc_ignored : Clean allowed (xs ++ [.ignored]) ↔ Clean allowed xs := by
  have hkeys : keys (xs ++ [.ignored]) = keys xs := by simp [keys,Item.key]
  constructor
  · exact fun h => h.of_prefix (List.prefix_append _ _)
  · intro h
    refine ⟨fun x hx => ?_,by rw [hkeys]; exact h.allowed,by rw [hkeys]; exact h.nodup⟩
    rcases List.mem_append.mp hx with hx | hx
    · exact h.not_refused x hx
    · rw [List.mem_singleton.mp hx]; simp

theorem clean_nil : Clean allowed ([] : List (Item K V)) :=
  ⟨fun _ h => (by cases h),fun _ h => (by cases h),List.nodup_nil⟩

variable [DecidableEq K]

def Item.valueAt (k : K) : Item K V → Option V
  | item j v => if j = k then some v else none
  | _ => none

/-- The value of the first item of the key. -/
def lookup (xs : List (Item K V)) (k : K) : Option V := xs.findSome? (Item.valueAt k)

open Classical in
/-- Items of the keys in `allowed` are taken, until every key in `need` has one. -/
noncomputable def gather (allowed need : K → Prop) :
    Collector (K → Option V) (Item K V) Unit where
  wants acc := !decide (∀ k, need k → (acc k).isSome = true)
  add acc
    | .ignored => .ok acc
    | .refused => .error ()
    | .item k v =>
      if allowed k ∧ acc k = none then .ok (Function.update acc k (some v)) else .error ()

variable {acc : K → Option V}

theorem gather_wants_false :
    (gather allowed need).wants acc = false ↔ ∀ k, need k → (acc k).isSome = true := by
  simp [gather]

theorem lookup_eq_none_iff {k : K} : lookup xs k = none ↔ k ∉ keys xs := by
  rw [mem_keys_iff,lookup,List.findSome?_eq_none_iff]
  constructor
  · rintro h ⟨v,hv⟩
    simpa [Item.valueAt] using h _ hv
  · intro h x hx
    cases x with
    | item j v =>
      have hne : j ≠ k := by rintro rfl; exact h ⟨v,hx⟩
      simp [Item.valueAt,hne]
    | ignored => rfl
    | refused => rfl

theorem lookup_isSome_iff {k : K} : (lookup xs k).isSome = true ↔ k ∈ keys xs := by
  rw [← not_iff_not,← lookup_eq_none_iff]
  simp

theorem lookup_mem {k : K} {v : V} (h : lookup xs k = some v) : .item k v ∈ xs := by
  obtain ⟨x,hx,hv⟩ := List.exists_of_findSome?_eq_some h
  cases x with
  | item j w =>
    simp only [Item.valueAt,Option.ite_none_right_eq_some,Option.some.injEq] at hv
    obtain ⟨rfl,rfl⟩ := hv
    exact hx
  | ignored => cases hv
  | refused => cases hv

theorem lookup_append (k : K) : lookup (xs ++ ys) k = (lookup xs k).or (lookup ys k) := by
  simp [lookup,List.findSome?_append]

theorem lookup_snoc_item {k : K} {v : V} (h : k ∉ keys xs) :
    lookup (xs ++ [.item k v]) = Function.update (lookup xs) k (some v) := by
  funext j
  rw [lookup_append]
  by_cases hj : j = k
  · subst hj
    rw [lookup_eq_none_iff.mpr h,Function.update_self]
    simp [lookup,Item.valueAt]
  · rw [Function.update_of_ne hj]
    simp [lookup,Item.valueAt,Ne.symm hj]

theorem lookup_snoc_other {x : Item K V} (h : x.key = none) :
    lookup (xs ++ [x]) = lookup xs := by
  funext j
  rw [lookup_append]
  cases x with
  | item k v => cases h
  | ignored => simp [lookup,Item.valueAt]
  | refused => simp [lookup,Item.valueAt]

/-- What was gathered without an error is a clean prefix, all of the items as long as
more are wanted. -/
theorem gather_ok (h : (gather allowed need).feed (fun _ => none) xs = .ok acc) :
    ∃ p, p <+: xs ∧ Clean allowed p ∧ acc = lookup p ∧
      ((gather allowed need).wants acc = true → p = xs) := by
  induction xs using List.reverseRecOn generalizing acc with
  | nil =>
    cases h
    exact ⟨[],List.prefix_rfl,clean_nil,rfl,fun _ => rfl⟩
  | append_singleton xs x ih =>
    rw [feed_snoc] at h
    cases hf : (gather allowed need).feed (fun _ => none) xs with
    | error e => rw [hf] at h; cases h
    | ok a =>
      obtain ⟨p,hp,hclean,rfl,hall⟩ := ih hf
      rw [hf] at h
      simp only [Except.bind] at h
      split at h
      · rename_i hw
        obtain rfl := hall hw
        cases x with
        | ignored =>
          cases h
          exact ⟨_,List.prefix_rfl,clean_snoc_ignored.mpr hclean,
            (lookup_snoc_other rfl).symm,fun _ => rfl⟩
        | refused => cases h
        | item k v =>
          simp only [gather] at h
          split at h
          · rename_i hk
            cases h
            have hnot := lookup_eq_none_iff.mp hk.2
            exact ⟨_,List.prefix_rfl,clean_snoc_item.mpr ⟨hclean,hk.1,hnot⟩,
              (lookup_snoc_item hnot).symm,fun _ => rfl⟩
          · cases h
      · rename_i hw
        cases h
        exact ⟨p,hp.trans (List.prefix_append _ _),hclean,rfl,fun hc => absurd hc hw⟩

/-- Clean items are gathered without an error. -/
theorem Clean.gather (need : K → Prop) (h : Clean allowed xs) :
    ∃ acc, (gather allowed need).feed (fun _ => none) xs = .ok acc ∧
      ∀ k, need k → acc k = lookup xs k := by
  induction xs using List.reverseRecOn with
  | nil => exact ⟨_,rfl,fun _ _ => rfl⟩
  | append_singleton xs x ih =>
    obtain ⟨acc,hf,hacc⟩ := ih (h.of_prefix (List.prefix_append _ _))
    obtain ⟨p,hp,hclean,rfl,hall⟩ := gather_ok hf
    rw [feed_snoc,hf]
    simp only [Except.bind]
    by_cases hw : (Gathering.gather allowed need).wants (lookup p) = true
    · obtain rfl := hall hw
      rw [if_pos hw]
      cases x with
      | ignored => exact ⟨_,rfl,fun k _ => by rw [lookup_snoc_other rfl]⟩
      | refused => exact absurd rfl (h.not_refused .refused (by simp))
      | item k v =>
        obtain ⟨_,ha,hk⟩ := clean_snoc_item.mp h
        refine ⟨Function.update (lookup p) k (some v),?_,fun j _ => ?_⟩
        · simp [Gathering.gather,ha,lookup_eq_none_iff.mpr hk]
        · rw [lookup_snoc_item hk]
    · rw [if_neg hw]
      rw [Bool.not_eq_true,gather_wants_false] at hw
      refine ⟨_,rfl,fun k hk => ?_⟩
      rw [hacc k hk,lookup_append]
      obtain ⟨v,hv⟩ := Option.isSome_iff_exists.mp (hw k hk)
      rw [← hacc k hk,hv]
      rfl

/-- Gathering is complete exactly when a clean prefix has an item for every needed key. -/
theorem gather_complete_iff {v : K → Option V} :
    (∃ acc, (gather allowed need).feed (fun _ => none) xs = .ok acc ∧
      (gather allowed need).wants acc = false ∧ ∀ k, need k → acc k = v k) ↔
    ∃ p, p <+: xs ∧ Clean allowed p ∧ (∀ k, need k → k ∈ keys p) ∧
      ∀ k, need k → v k = lookup p k := by
  constructor
  · rintro ⟨acc,hf,hw,hv⟩
    obtain ⟨p,hp,hclean,rfl,_⟩ := gather_ok hf
    rw [gather_wants_false] at hw
    exact ⟨p,hp,hclean,fun k hk => lookup_isSome_iff.mp (hw k hk),
      fun k hk => (hv k hk).symm⟩
  · rintro ⟨p,⟨q,rfl⟩,hclean,hall,hv⟩
    obtain ⟨acc,hf,hacc⟩ := hclean.gather need
    have hw : (gather allowed need).wants acc = false := by
      rw [gather_wants_false]
      intro k hk
      rw [hacc k hk]
      exact lookup_isSome_iff.mpr (hall k hk)
    have hstops : (gather allowed need).Stops (fun _ => none) p := by
      intro s' h
      rw [hf] at h
      cases h
      exact hw
    refine ⟨acc,by rw [hstops.feed_append,hf],hw,fun k hk => ?_⟩
    rw [hacc k hk,hv k hk]

end Gathering
