import Mathlib.Data.List.Nodup
import RoundBased.Counters

/-! The result of a simulation, and the checks of it: that all parties succeeded, and that all of them
have the same output. -/
namespace RoundBased

/-- Result of the simulation. -/
abbrev SimResult (T : Type) := List T

/-- How a check panics: a counter overflows, or it tells what did not match the expectations. -/
inductive ExpectPanic
  | counter (p : Panic)
  | message (msg : String)
  deriving DecidableEq, Repr

namespace SimResult

variable {T E : Type}

/-- The loop over the results, zipped with the indexes `0..`: what was returned, and by whom an error
was. -/
def splitResults [Build] : UInt16 → List (Except E T) → List T → List (UInt16 × E) →
    Checked (List T × List (UInt16 × E))
  | _,[],oks,errs => .ok (oks,errs)
  | i,res :: results,oks,errs => do
    let after ← U16.add i 1
    match res with
    | .ok res => splitResults after results (oks ++ [res]) errs
    | .error res => splitResults after results oks (errs ++ [(i,res)])

/-- The message that specifies which of the parties returned an error. -/
def failuresMessage (debug : E → String) (success : ℕ) (errs : List (UInt16 × E)) : String :=
  "Simulation output didn't match expectations.\n" ++
  "Expected: all parties succeed\n" ++
  "Actual  : " ++ toString success ++ " parties succeeded, " ++ toString errs.length ++
    " parties returned an error\n" ++
  "Failures:\n" ++
  String.join (errs.map fun e => "- Party " ++ toString e.1 ++ ": " ++ debug e.2 ++ "\n")

/-- Unwraps the results of the parties. -/
def expectOk [Build] (debug : E → String) (self : SimResult (Except E T)) :
    Except ExpectPanic (SimResult T) :=
  match splitResults 0 self [] [] with
  | .error p => .error (.counter p)
  | .ok (oks,errs) =>
    if errs.isEmpty then .ok oks else .error (.message (failuresMessage debug oks.length errs))

/-- The index of one more output is pushed to the cluster of its value. -/
def pushIndex [BEq T] (i : ℕ) (value : T) : List (T × List ℕ) → List (T × List ℕ)
  | [] => [(value,[i])]
  | (clusterValue,indexes) :: clusters =>
    if clusterValue == value then (clusterValue,indexes ++ [i]) :: clusters
    else (clusterValue,indexes) :: pushIndex i value clusters

/-- The loop over the outputs with their indexes. -/
def collectClusters [BEq T] : ℕ → List T → List (T × List ℕ) → List (T × List ℕ)
  | _,[],clusters => clusters
  | i,value :: values,clusters => collectClusters (i + 1) values (pushIndex i value clusters)

def clusters [BEq T] (self : SimResult T) : List (T × List ℕ) := collectClusters 0 self []

/-- The message that specifies which of the parties returned which output. -/
def clustersMessage (debug : T → String) (clusters : List (T × List ℕ)) : String :=
  "Simulation output didn't match expectations.\n" ++
  "Expected: all parties return the same output\n" ++
  "Actual  : some of the parties returned a different output\n" ++
  "Outputs :\n" ++
  String.join (clusters.map fun (value,parties) =>
    (if parties.length = 1 then "- Party " else "- Parties ") ++
    ", ".intercalate (parties.map toString) ++ ": " ++ debug value ++ "\n")

/-- Checks that outputs of all parties are equally the same. -/
def expectEq [BEq T] (debug : T → String) (self : SimResult T) : Except ExpectPanic T :=
  match self with
  | [] => .error (.message "simulation contained zero parties")
  | first :: rest =>
    if rest.all (· == first) then .ok ((first :: rest).getLast (List.cons_ne_nil _ _))
    else .error (.message (clustersMessage debug (clusters (first :: rest))))

section ExpectOk

/-- The errors, with the positions of the parties that returned them. -/
def failures (start : ℕ) (self : SimResult (Except E T)) : List (UInt16 × E) :=
  (self.zipIdx start).filterMap fun
    | (.ok _,_) => none
    | (.error e,i) => some (.ofNat i,e)

theorem splitResults_eq [Build] {results : List (Except E T)} {i : ℕ}
    (h : i + results.length ≤ 65535) (oks : List T) (errs : List (UInt16 × E)) :
    splitResults (.ofNat i) results oks errs =
      .ok (oks ++ results.filterMap Except.toOption,errs ++ failures i results) := by
  induction results generalizing i oks errs with
  | nil =>
    rw [splitResults,failures]
    simp
  | cons res results ih =>
    rw [List.length_cons] at h
    have hnat : (UInt16.ofNat i).toNat = i := UInt16.toNat_ofNat_of_lt' (by
      change i < 65536
      omega)
    have hafter : U16.add (.ofNat i) 1 = .ok (.ofNat (i + 1)) := by
      rw [U16.add_one (by omega)]
      exact congrArg Except.ok (UInt16.ofNat_add i 1).symm
    have hrest := @ih (i + 1) (by omega)
    cases res with
    | ok out =>
      have hsplit : splitResults (.ofNat i) (.ok out :: results) oks errs =
          splitResults (.ofNat (i + 1)) results (oks ++ [out]) errs := by
        rw [splitResults,hafter]
        rfl
      rw [hsplit,hrest]
      simp [failures,Except.toOption]
    | error e =>
      have hsplit : splitResults (.ofNat i) (.error e :: results) oks errs =
          splitResults (.ofNat (i + 1)) results oks (errs ++ [(.ofNat i,e)]) := by
        rw [splitResults,hafter]
        rfl
      have hoption : (.error e :: results : List (Except E T)).filterMap Except.toOption =
          results.filterMap Except.toOption := List.filterMap_cons_none rfl
      rw [hsplit,hrest,hoption]
      simp [failures]

theorem failures_eq_nil {start : ℕ} {results : List (Except E T)} :
    failures start results = [] ↔ ∃ outs : List T, results = outs.map Except.ok := by
  induction results generalizing start with
  | nil => exact ⟨fun _ => ⟨[],rfl⟩,fun _ => rfl⟩
  | cons res results ih =>
    cases res with
    | ok out =>
      have hcons : failures start (.ok out :: results) = failures (start + 1) results := by
        simp [failures]
      rw [hcons,ih]
      constructor
      · rintro ⟨outs,rfl⟩
        exact ⟨out :: outs,rfl⟩
      · rintro ⟨outs,houts⟩
        cases outs with
        | nil => cases houts
        | cons _ outs => exact ⟨outs,(List.cons.inj houts).2⟩
    | error e =>
      constructor
      · intro h
        simp [failures] at h
      · rintro ⟨outs,houts⟩
        cases outs <;> cases houts

/-- With at most 65535 parties the check succeeds if they all did. Otherwise its message has the
errors of those that failed, under their indexes. -/
theorem expectOk_cases [Build] (debug : E → String) {results : SimResult (Except E T)}
    (h : results.length ≤ 65535) :
    (∃ outs : List T, results = outs.map Except.ok ∧ expectOk debug results = .ok outs) ∨
    failures 0 results ≠ [] ∧ expectOk debug results = .error (.message
      (failuresMessage debug (results.filterMap Except.toOption).length (failures 0 results))) := by
  have hlen : 0 + results.length ≤ 65535 := by omega
  have hsplit := splitResults_eq hlen [] []
  have hzero : UInt16.ofNat 0 = 0 := rfl
  rw [hzero,List.nil_append,List.nil_append] at hsplit
  simp only [expectOk,hsplit]
  by_cases hnone : failures 0 results = []
  · obtain ⟨outs,rfl⟩ := failures_eq_nil.mp hnone
    refine .inl ⟨outs,rfl,?_⟩
    rw [hnone]
    simp [List.filterMap_map,Function.comp_def,Except.toOption]
  · refine .inr ⟨hnone,if_neg ?_⟩
    rwa [List.isEmpty_iff]

theorem expectOk_of_forall [Build] (debug : E → String) {outs : List T} (h : outs.length ≤ 65535) :
    expectOk debug (outs.map Except.ok : SimResult (Except E T)) = .ok outs := by
  have hlen : (outs.map Except.ok : SimResult (Except E T)).length ≤ 65535 := by
    rwa [List.length_map]
  rcases expectOk_cases debug hlen with ⟨outs',heq,hok⟩ | ⟨hfailures,_⟩
  · rw [hok,List.map_injective_iff.mpr (fun _ _ h => Except.ok.inj h) heq]
  · exact absurd (failures_eq_nil.mpr ⟨outs,rfl⟩) hfailures

end ExpectOk

section ExpectEq

theorem expectEq_of_forall [BEq T] [LawfulBEq T] (debug : T → String) {self : SimResult T}
    {value : T} (hne : self ≠ []) (hall : ∀ out ∈ self, out = value) :
    expectEq debug self = .ok value := by
  cases self with
  | nil => exact absurd rfl hne
  | cons first rest =>
    have hfirst := hall first (List.mem_cons_self ..)
    have hrest : rest.all (· == first) = true := by
      rw [List.all_eq_true]
      intro out hout
      rw [hall out (List.mem_cons_of_mem _ hout),hfirst]
      exact BEq.rfl
    rw [expectEq,if_pos hrest,hall _ (List.getLast_mem _)]

/-- The checks succeed if all parties have returned the value. -/
theorem checks_of_forall [Build] [BEq T] [LawfulBEq T] (debugErr : E → String) (debug : T → String)
    {results : SimResult (Except E T)} {value : T} (hlen : results.length ≤ 65535)
    (hne : results ≠ []) (hall : ∀ res ∈ results, res = .ok value) :
    (expectOk debugErr results).bind (expectEq debug) = .ok value := by
  have hvalues : results = (List.replicate results.length value).map Except.ok := by
    rw [List.map_replicate]
    exact List.eq_replicate_of_mem hall
  rw [hvalues,expectOk_of_forall debugErr (by rwa [List.length_replicate])]
  refine expectEq_of_forall debug ?_ fun out hout => List.eq_of_mem_replicate hout
  rw [Ne,List.replicate_eq_nil_iff,List.length_eq_zero_iff]
  exact hne

/-- The positions at which the value stands. -/
def positions [DecidableEq T] (self : SimResult T) (value : T) : List ℕ :=
  (List.range self.length).filter fun i => self[i]? = some value

/-- Every value that was returned has one cluster, with all the parties that returned it. -/
structure Clustered [DecidableEq T] (outs : SimResult T) (clusters : List (T × List ℕ)) : Prop where
  distinct : (clusters.map Prod.fst).Nodup
  values : ∀ value, value ∈ clusters.map Prod.fst ↔ value ∈ outs
  indexes : ∀ cluster ∈ clusters, cluster.2 = positions outs cluster.1

variable [DecidableEq T]

theorem positions_append_self (self : SimResult T) (value : T) :
    positions (self ++ [value]) value = positions self value ++ [self.length] := by
  rw [positions,positions,List.length_append,List.length_singleton,List.range_succ,
    List.filter_append]
  congr 1
  · refine List.filter_congr fun i hi => ?_
    rw [List.getElem?_append_left (List.mem_range.mp hi)]
  · simp

theorem positions_append_of_ne (self : SimResult T) {value x : T} (h : value ≠ x) :
    positions (self ++ [x]) value = positions self value := by
  rw [positions,positions,List.length_append,List.length_singleton,List.range_succ,
    List.filter_append]
  have hlast : [self.length].filter (fun i => (self ++ [x])[i]? = some value) = [] := by
    simp [Ne.symm h]
  rw [hlast,List.append_nil]
  refine List.filter_congr fun i hi => ?_
  rw [List.getElem?_append_left (List.mem_range.mp hi)]

theorem positions_of_not_mem (self : SimResult T) {value : T} (h : value ∉ self) :
    positions self value = [] := by
  rw [positions,List.filter_eq_nil_iff]
  intro i _ hi
  exact h (List.mem_of_getElem? (of_decide_eq_true hi))

theorem pushIndex_values (i : ℕ) (value : T) (clusters : List (T × List ℕ)) :
    (pushIndex i value clusters).map Prod.fst = if value ∈ clusters.map Prod.fst then
      clusters.map Prod.fst else clusters.map Prod.fst ++ [value] := by
  induction clusters with
  | nil => rfl
  | cons cluster clusters ih =>
    obtain ⟨x,indexes⟩ := cluster
    by_cases hx : x = value
    · subst hx
      simp [pushIndex]
    · have hne : ¬ value = x := fun he => hx he.symm
      have hbeq : (x == value) = false := beq_false_of_ne hx
      rw [pushIndex,hbeq,if_neg Bool.false_ne_true,List.map_cons,ih,List.map_cons]
      by_cases hmem : value ∈ clusters.map Prod.fst
      · rw [if_pos hmem,if_pos (List.mem_cons_of_mem _ hmem)]
      · rw [if_neg hmem,if_neg fun h => (List.mem_cons.mp h).elim hne hmem,List.cons_append]

theorem mem_pushIndex {i : ℕ} {value : T} {clusters : List (T × List ℕ)}
    (hd : (clusters.map Prod.fst).Nodup) {cluster : T × List ℕ}
    (h : cluster ∈ pushIndex i value clusters) :
    (cluster.1 ≠ value ∧ cluster ∈ clusters) ∨ (cluster.1 = value ∧
      ((∃ indexes, (value,indexes) ∈ clusters ∧ cluster.2 = indexes ++ [i]) ∨
        (value ∉ clusters.map Prod.fst ∧ cluster.2 = [i]))) := by
  induction clusters with
  | nil =>
    cases List.mem_singleton.mp h
    exact .inr ⟨rfl,.inr ⟨List.not_mem_nil,rfl⟩⟩
  | cons first clusters ih =>
    obtain ⟨x,indexes⟩ := first
    rw [List.map_cons,List.nodup_cons] at hd
    by_cases hx : x = value
    · subst hx
      simp only [pushIndex,BEq.rfl,if_true] at h
      rcases List.mem_cons.mp h with rfl | hmem
      · exact .inr ⟨rfl,.inl ⟨indexes,List.mem_cons_self ..,rfl⟩⟩
      · refine .inl ⟨fun he => hd.1 ?_,List.mem_cons_of_mem _ hmem⟩
        have hfst : cluster.1 ∈ clusters.map Prod.fst := List.mem_map_of_mem hmem
        rwa [he] at hfst
    · have hbeq : (x == value) = false := beq_false_of_ne hx
      rw [pushIndex,hbeq,if_neg Bool.false_ne_true] at h
      rcases List.mem_cons.mp h with rfl | hmem
      · exact .inl ⟨hx,List.mem_cons_self ..⟩
      · rcases ih hd.2 hmem with ⟨hne,hold⟩ | ⟨he,⟨is,hold,his⟩ | ⟨hnew,his⟩⟩
        · exact .inl ⟨hne,List.mem_cons_of_mem _ hold⟩
        · exact .inr ⟨he,.inl ⟨is,List.mem_cons_of_mem _ hold,his⟩⟩
        · refine .inr ⟨he,.inr ⟨fun hmem => ?_,his⟩⟩
          rw [List.map_cons,List.mem_cons] at hmem
          exact hmem.elim (fun he => hx he.symm) hnew

theorem Clustered.push {self : SimResult T} {clusters : List (T × List ℕ)}
    (h : Clustered self clusters) (value : T) :
    Clustered (self ++ [value]) (pushIndex self.length value clusters) := by
  have hvalues := pushIndex_values self.length value clusters
  refine ⟨?_,fun x => ?_,fun cluster hmem => ?_⟩
  · rw [hvalues]
    split
    · exact h.distinct
    · rename_i hnew
      exact List.nodup_append.mpr ⟨h.distinct,List.nodup_singleton _,fun a ha b hb => by
        rw [List.mem_singleton.mp hb]
        rintro rfl
        exact hnew ha⟩
  · rw [hvalues]
    split
    · rename_i hold
      rw [h.values,List.mem_append,List.mem_singleton]
      exact ⟨.inl,fun hx => hx.elim id fun hx => hx ▸ (h.values value).mp hold⟩
    · rw [List.mem_append,List.mem_append,h.values]
  · rcases mem_pushIndex h.distinct hmem with ⟨hne,hold⟩ | ⟨hvalue,⟨indexes,hold,his⟩ | ⟨hnew,his⟩⟩
    · rw [positions_append_of_ne self hne]
      exact h.indexes cluster hold
    · have hindexes : indexes = positions self value := h.indexes _ hold
      rw [hvalue,positions_append_self,his,hindexes]
    · have hnone := positions_of_not_mem self fun hx => hnew ((h.values value).mpr hx)
      rw [hvalue,positions_append_self,his,hnone,List.nil_append]

/-- The loop over the outputs, after those in `seen`. -/
theorem clustered_collectClusters {seen values : SimResult T} {clusters : List (T × List ℕ)}
    (h : Clustered seen clusters) :
    Clustered (seen ++ values) (collectClusters seen.length values clusters) := by
  induction values generalizing seen clusters with
  | nil => rwa [List.append_nil]
  | cons value values ih =>
    have hrest := ih (h.push value)
    rwa [List.append_assoc,List.length_append,List.length_singleton] at hrest

/-- The check succeeds if there are outputs and all are the same. Otherwise its message has the
clusters. -/
theorem expectEq_cases (debug : T → String) (self : SimResult T) :
    (∃ value, self ≠ [] ∧ (∀ out ∈ self, out = value) ∧ expectEq debug self = .ok value) ∨
    (self = [] ∧ expectEq debug self = .error (.message "simulation contained zero parties")) ∨
    ∃ clusters, Clustered self clusters ∧ 1 < clusters.length ∧
      expectEq debug self = .error (.message (clustersMessage debug clusters)) := by
  cases self with
  | nil => exact .inr (.inl ⟨rfl,rfl⟩)
  | cons first rest =>
    by_cases hall : rest.all (· == first) = true
    · have hsame : ∀ out ∈ first :: rest, out = first := by
        intro out hout
        rcases List.mem_cons.mp hout with rfl | hout
        · rfl
        · exact eq_of_beq (List.all_eq_true.mp hall out hout)
      have hne : first :: rest ≠ [] := List.cons_ne_nil _ _
      exact .inl ⟨first,hne,hsame,expectEq_of_forall debug hne hsame⟩
    · have hempty : Clustered ([] : SimResult T) [] :=
        ⟨List.nodup_nil,fun _ => Iff.rfl,fun _ hc => by cases hc⟩
      have hclustered : Clustered (first :: rest) (clusters (first :: rest)) :=
        clustered_collectClusters hempty
      refine .inr (.inr ⟨clusters (first :: rest),hclustered,?_,if_neg hall⟩)
      -- there is an output that differs from the first one
      obtain ⟨out,hout,hne⟩ : ∃ out ∈ rest, out ≠ first := by
        by_contra hc
        refine hall (List.all_eq_true.mpr fun out hout => ?_)
        by_contra hbeq
        exact hc ⟨out,hout,fun he => hbeq (beq_iff_eq.mpr he)⟩
      have hfirst := (hclustered.values first).mpr (List.mem_cons_self ..)
      have hother := (hclustered.values out).mpr (List.mem_cons_of_mem _ hout)
      rw [← List.length_map (f := Prod.fst)]
      generalize (clusters (first :: rest)).map Prod.fst = values at hfirst hother
      match values with
      | [] => cases hfirst
      | [value] =>
        rw [List.mem_singleton] at hfirst hother
        exact absurd (hother.trans hfirst.symm) hne
      | _ :: _ :: _ => simp

/-- The two checks one after the other, for at most 65535 parties: they return the output of the
parties if there are some and all of them returned it. Otherwise they tell that there are no parties,
which of them failed, or which of them returned which output. -/
theorem checks_report [Build] (debugErr : E → String) (debug : T → String)
    {results : SimResult (Except E T)} (h : results.length ≤ 65535) :
    let checked := expectOk debugErr results >>= expectEq debug
    (∃ value, results ≠ [] ∧ (∀ res ∈ results, res = .ok value) ∧ checked = .ok value) ∨
    (results = [] ∧ checked = .error (.message "simulation contained zero parties")) ∨
    (failures 0 results ≠ [] ∧ checked = .error (.message (failuresMessage debugErr
      (results.filterMap Except.toOption).length (failures 0 results)))) ∨
    ∃ outs clusters, results = outs.map Except.ok ∧ Clustered outs clusters ∧ 1 < clusters.length ∧
      checked = .error (.message (clustersMessage debug clusters)) := by
  intro checked
  rcases expectOk_cases debugErr h with ⟨outs,rfl,hok⟩ | ⟨hfailed,herr⟩
  · have hchecked : checked = expectEq debug outs := by
      simp only [checked,hok]
      rfl
    rw [hchecked]
    rcases expectEq_cases debug outs with ⟨value,hne,hall,heq⟩ | ⟨rfl,heq⟩ | ⟨clusters,hc,hlen,heq⟩
    · refine .inl ⟨value,fun hnil => hne (List.map_eq_nil_iff.mp hnil),fun res hres => ?_,heq⟩
      obtain ⟨out,hout,rfl⟩ := List.mem_map.mp hres
      rw [hall out hout]
    · exact .inr (.inl ⟨rfl,heq⟩)
    · exact .inr (.inr (.inr ⟨outs,clusters,rfl,hc,hlen,heq⟩))
  · refine .inr (.inr (.inl ⟨hfailed,?_⟩))
    simp only [checked,herr]
    rfl

/-- Of three parties two have returned the same. -/
theorem checks_report_three :
    letI : Build := .debug
    ∃ clusters, Clustered [true,false,true] clusters ∧
      (expectOk (fun e : Empty => nomatch e) [.ok true,.ok false,.ok true] >>= expectEq toString) =
        .error (.message (clustersMessage toString clusters)) := by
  let _ : Build := .debug
  have hlen : ([.ok true,.ok false,.ok true] : SimResult (Except Empty Bool)).length ≤ 65535 := by
    decide
  rcases checks_report (fun e : Empty => nomatch e) toString hlen with
    ⟨value,_,hall,_⟩ | ⟨hnil,_⟩ | ⟨hfailed,_⟩ | ⟨outs,clusters,houts,hc,_,heq⟩
  · cases hall (.ok true) (by simp)
    cases hall (.ok false) (by simp)
  · cases hnil
  · exact absurd rfl hfailed
  · have hinj : Function.Injective (Except.ok : Bool → Except Empty Bool) := fun _ _ => Except.ok.inj
    obtain rfl : [true,false,true] = outs := List.map_injective_iff.mpr hinj houts
    exact ⟨clusters,hc,heq⟩

end ExpectEq

end SimResult
end RoundBased
