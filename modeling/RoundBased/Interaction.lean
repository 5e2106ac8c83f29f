import Mathlib.Tactic.Common

/-! Programs that call an underlying component and go on when they get the answer, and
engines that serve calls by such programs. -/
namespace Interaction

variable {C D E S X A B : Type} {R : C → Type} {Q : D → Type}

/-- Calls `C` are answered by `R`. A program returns a value or throws. -/
inductive Prog (C : Type) (R : C → Type) (X A : Type)
  | ret (a : A)
  | call (c : C) (k : R c → Prog C R X A)
  | throw (x : X)

/-- A call and its answer. -/
abbrev Event (C : Type) (R : C → Type) := (c : C) × R c

/-- `Steps p t q`: with the answers in `t`, oldest first, `p` becomes `q`. -/
inductive Steps : Prog C R X A → List (Event C R) → Prog C R X A → Prop
  | refl {p : Prog C R X A} : Steps p [] p
  | call {c : C} {k : R c → Prog C R X A} {r : R c} {t : List (Event C R)}
      {q : Prog C R X A} : Steps (k r) t q → Steps (.call c k) (⟨c,r⟩ :: t) q

theorem Steps.snoc {p : Prog C R X A} {t : List (Event C R)} {c : C} {k : R c → Prog C R X A}
    (h : Steps p t (.call c k)) (r : R c) : Steps p (t ++ [⟨c,r⟩]) (k r) := by
  generalize hq : Prog.call c k = q at h
  induction h with
  | refl => subst hq; exact .call .refl
  | call _ ih => exact .call (ih hq)

/-- What one more answer preserves, all answers preserve. -/
theorem Steps.invariant {p q : Prog C R X A} {t : List (Event C R)}
    {P : List (Event C R) → Prog C R X A → Prop} (h : Steps p t q) (h0 : P [] p)
    (hstep : ∀ t c k r, P t (.call c k) → P (t ++ [⟨c,r⟩]) (k r)) : P t q := by
  suffices hpre : ∀ pre, P pre p → P (pre ++ t) q from hpre [] h0
  clear h0
  induction h with
  | refl => intro pre hp; rwa [List.append_nil]
  | call _ ih =>
    intro pre hp
    have hnext := ih _ (hstep _ _ _ _ hp)
    rwa [List.append_assoc] at hnext

theorem steps_ret {a : A} {t : List (Event C R)} {q : Prog C R X A}
    (h : Steps (.ret a) t q) : t = [] ∧ q = .ret a := by
  cases h
  exact ⟨rfl,rfl⟩

/-- What the program asks for or returns next. -/
def Prog.Conforms (asks : C → Prop) (gives : A → Prop) : Prog C R X A → Prop
  | .ret a => gives a
  | .call c _ => asks c
  | .throw _ => True

theorem Prog.Conforms.imp {asks asks' : C → Prop} {gives gives' : A → Prop} {p : Prog C R X A}
    (h : p.Conforms asks gives) (hasks : ∀ c, asks c → asks' c)
    (hgives : ∀ a, gives a → gives' a) : p.Conforms asks' gives' := by
  cases p with
  | ret a => exact hgives a h
  | call c k => exact hasks c h
  | throw x => trivial

/-- The calls made so far, the last of which may wait for its answer. -/
def asked (t : List (Event C R)) : Prog C R X A → List C
  | .call c _ => t.map Sigma.fst ++ [c]
  | _ => t.map Sigma.fst

/-- Runs a program over a component with state `S`. -/
def Prog.run (handle : (c : C) → S → Except X (S × R c)) :
    Prog C R X A → S → Except X (S × A)
  | .ret a, s => .ok (s,a)
  | .throw x, _ => .error x
  | .call c k, s =>
    match handle c s with
    | .error x => .error x
    | .ok (s',r) => (k r).run handle s'

theorem Prog.run_call {handle : (c : C) → S → Except X (S × R c)} {c : C} {s s' : S} {r : R c}
    (h : handle c s = .ok (s',r)) (k : R c → Prog C R X A) :
    (Prog.call c k).run handle s = (k r).run handle s' := by
  simp only [Prog.run,h]

/-- Every call of the program satisfies `P` and every value `Q`, and it never throws. -/
inductive Prog.Within (P : C → Prop) (Q : A → Prop) : Prog C R X A → Prop
  | ret {a : A} : Q a → Within P Q (.ret a)
  | call {c : C} {k : R c → Prog C R X A} :
      P c → (∀ r, Within P Q (k r)) → Within P Q (.call c k)

/-- What the component preserves while it handles calls in `P`, it preserves while it runs
such a program. -/
theorem Prog.Within.run {handle : (c : C) → S → Except X (S × R c)} {P : C → Prop}
    {Q : A → Prop} {I : S → Prop} {p : Prog C R X A} (h : p.Within P Q)
    (hI : ∀ c s, P c → I s → ∃ s' r, handle c s = .ok (s',r) ∧ I s') {s : S} (hs : I s) :
    ∃ s' a, p.run handle s = .ok (s',a) ∧ I s' ∧ Q a := by
  induction h generalizing s with
  | ret ha => exact ⟨s,_,rfl,hs,ha⟩
  | call hc _ ih =>
    obtain ⟨s1,r,hr,hs1⟩ := hI _ s hc hs
    obtain ⟨s2,a,ha,hs2,hq⟩ := ih r hs1
    exact ⟨s2,a,by simp only [Prog.run,hr,ha],hs2,hq⟩

/-- The calls of a run and their answers. What the component preserves while it handles the calls
holds in the end, and what it answers holds of all events. -/
theorem Prog.trace_of_run {handle : (c : C) → S → Except X (S × R c)} {P : C → Prop}
    {I : S → Prop} {G : Event C R → Prop} {p : Prog C R X A} {s s' : S} {a : A}
    (h : p.run handle s = .ok (s',a)) (hP : ∀ t c k, Steps p t (.call c k) → P c)
    (hI : ∀ c s s' r, P c → I s → handle c s = .ok (s',r) → I s' ∧ G ⟨c,r⟩) (hs : I s) :
    ∃ t, Steps p t (.ret a) ∧ I s' ∧ ∀ event ∈ t, G event := by
  induction p generalizing s with
  | ret b =>
    cases h
    exact ⟨[],.refl,hs,fun _ hmem => (by cases hmem)⟩
  | throw x => cases h
  | call c k ih =>
    simp only [Prog.run] at h
    cases hr : handle c s with
    | error x => rw [hr] at h; cases h
    | ok res =>
      obtain ⟨s1,r⟩ := res
      rw [hr] at h
      obtain ⟨hs1,hG⟩ := hI c s s1 r (hP [] c k .refl) hs hr
      obtain ⟨t,ht,hs',hGt⟩ := ih r h (fun t c' k' hsteps => hP _ c' k' (.call hsteps)) hs1
      refine ⟨⟨c,r⟩ :: t,.call ht,hs',fun event hmem => ?_⟩
      rcases List.mem_cons.mp hmem with rfl | hmem
      · exact hG
      · exact hGt event hmem

/-- How an engine with state `E` serves calls `D` by programs over calls `C`. -/
abbrev Serve (E D : Type) (Q : D → Type) (C : Type) (R : C → Type) (X : Type) :=
  E → (d : D) → Prog C R X (E × Q d)

/-- Runs a program and then another with its value. -/
def Prog.bind : Prog C R X A → (A → Prog C R X B) → Prog C R X B
  | .ret a,f => f a
  | .call c k,f => .call c fun r => (k r).bind f
  | .throw x,_ => .throw x

/-- Hands on a part of the value. -/
def Prog.map (p : Prog C R X A) (f : A → B) : Prog C R X B := p.bind fun a => .ret (f a)

/-- The program with its calls served by the engine. -/
def Prog.servedBy (serve : Serve E D Q C R X) : Prog D Q X A → E → Prog C R X (E × A)
  | .ret a,e => .ret (e,a)
  | .call d k,e => (serve e d).bind fun r => (k r.2).servedBy serve r.1
  | .throw x,_ => .throw x

theorem Prog.servedBy_call {serve : Serve E D Q C R X} {e : E} {d : D} {p : Prog C R X (E × Q d)}
    (h : serve e d = p) (k : Q d → Prog D Q X A) :
    (Prog.call d k).servedBy serve e = p.bind fun r => (k r.2).servedBy serve r.1 := by
  rw [← h,servedBy]

/-- The calls an engine has served and the calls it made for them. -/
inductive Serves (serve : Serve E D Q C R X) (e : E) :
    List (Event D Q) → List (Event C R) → E → Prop
  | refl : Serves serve e [] [] e
  | snoc {done : List (Event D Q)} {made t : List (Event C R)} {a b : E} {d : D} {r : Q d} :
      Serves serve e done made a → Steps (serve a d) t (.ret (b,r)) →
      Serves serve e (done ++ [⟨d,r⟩]) (made ++ t) b

/-- What serving one call preserves, any history preserves. -/
theorem Serves.invariant {serve : Serve E D Q C R X} {e a : E} {done : List (Event D Q)}
    {made : List (Event C R)} {P : List (Event D Q) → List (Event C R) → E → Prop}
    (h : Serves serve e done made a) (h0 : P [] [] e)
    (hstep : ∀ done made a d t b r, P done made a → Steps (serve a d) t (.ret (b,r)) →
      P (done ++ [⟨d,r⟩]) (made ++ t) b) : P done made a := by
  induction h with
  | refl => exact h0
  | snoc _ ht ih => exact hstep _ _ _ _ _ _ _ ih ht

/-- A program that is followed by another is still running, or it has returned. -/
theorem steps_bind {p : Prog C R X A} {f : A → Prog C R X B} {t : List (Event C R)}
    {q : Prog C R X B} (h : Steps (p.bind f) t q) :
    (∃ q', Steps p t q' ∧ q = q'.bind f) ∨
    ∃ a u v, t = u ++ v ∧ Steps p u (.ret a) ∧ Steps (f a) v q := by
  induction p generalizing t with
  | ret a => exact .inr ⟨a,[],t,rfl,.refl,h⟩
  | throw x =>
    cases h
    exact .inl ⟨.throw x,.refl,rfl⟩
  | call c k ih =>
    cases h with
    | refl => exact .inl ⟨.call c k,.refl,rfl⟩
    | @call _ _ r t _ h =>
      rcases ih r h with ⟨q',hq,rfl⟩ | ⟨a,u,v,rfl,hu,hv⟩
      · exact .inl ⟨q',.call hq,rfl⟩
      · exact .inr ⟨a,⟨c,r⟩ :: u,v,rfl,.call hu,hv⟩

/-- A program that is followed by another has returned before that does. -/
theorem steps_bind_ret {p : Prog C R X A} {f : A → Prog C R X B} {t : List (Event C R)} {b : B}
    (h : Steps (p.bind f) t (.ret b)) :
    ∃ a u v, t = u ++ v ∧ Steps p u (.ret a) ∧ Steps (f a) v (.ret b) := by
  rcases steps_bind h with ⟨q,hq,heq⟩ | hret
  · cases q with
    | ret a =>
      rw [Prog.bind] at heq
      exact ⟨a,t,[],by simp,hq,heq ▸ .refl⟩
    | call c k => cases heq
    | throw x => cases heq
  · exact hret

section Served

variable {serve : Serve E D Q C R X} {e a b : E} {done : List (Event D Q)}
  {made t : List (Event C R)}

theorem Serves.cons {d : D} {r : Q d} (ht : Steps (serve a d) t (.ret (b,r)))
    (h : Serves serve b done made e) : Serves serve a (⟨d,r⟩ :: done) (t ++ made) e := by
  induction h with
  | refl =>
    have hstart : Serves serve a [] [] a := .refl
    have hone := hstart.snoc ht
    rwa [List.nil_append,List.nil_append,← List.append_nil t] at hone
  | snoc _ hlast ih =>
    rw [← List.append_assoc]
    exact ih.snoc hlast

theorem Serves.of_mem (h : Serves serve e done made a) {event : Event D Q} (hmem : event ∈ done) :
    ∃ before after made' a' u b' more, done = before ++ event :: after ∧
      Serves serve e before made' a' ∧ Steps (serve a' event.1) u (.ret (b',event.2)) ∧
      made = made' ++ u ++ more := by
  induction h with
  | refl => cases hmem
  | @snoc done made t a b d r hserves ht ih =>
    rcases List.mem_append.mp hmem with hmem | hmem
    · obtain ⟨before,after,made',a',u,b',more,rfl,hbefore,hu,rfl⟩ := ih hmem
      exact ⟨before,after ++ [⟨d,r⟩],made',a',u,b',more ++ t,by simp,hbefore,hu,by simp⟩
    · cases List.mem_singleton.mp hmem
      exact ⟨done,[],made,a,t,b,[],rfl,hserves,ht,by simp⟩

/-- Each call of a program over the engine is made while one of its own calls is served. -/
theorem exists_serving {p : Prog D Q X A} {q : Prog C R X (E × A)}
    (h : Steps (p.servedBy serve e) t q) {event : Event C R} (hmem : event ∈ t) :
    ∃ done made a d k u q' more, Serves serve e done made a ∧ Steps p done (.call d k) ∧
      Steps (serve a d) u q' ∧ t = made ++ u ++ more ∧ event ∈ u := by
  induction p generalizing e t with
  | ret a =>
    obtain ⟨rfl,_⟩ := steps_ret h
    cases hmem
  | throw x =>
    cases h
    cases hmem
  | call d k ih =>
    rcases steps_bind h with ⟨q',hq,_⟩ | ⟨⟨e',r⟩,u,v,rfl,hu,hv⟩
    · exact ⟨[],[],e,d,k,t,q',[],.refl,.refl,hq,by simp,hmem⟩
    · rcases List.mem_append.mp hmem with hmem | hmem
      · exact ⟨[],[],e,d,k,u,_,v,.refl,.refl,hu,by simp,hmem⟩
      · obtain ⟨done,made,a,d',k',u',q',more,hserves,hsteps,hu',rfl,hin⟩ := ih r hv hmem
        exact ⟨⟨d,r⟩ :: done,u ++ made,a,d',k',u',q',more,.cons hu hserves,.call hsteps,hu',
          (by simp),hin⟩

theorem serves_of_ret {p : Prog D Q X A} {out : A}
    (h : Steps (p.servedBy serve e) t (.ret (b,out))) :
    ∃ done, Serves serve e done t b ∧ Steps p done (.ret out) := by
  induction p generalizing e t with
  | ret a =>
    obtain ⟨rfl,hret⟩ := steps_ret h
    cases hret
    exact ⟨[],.refl,.refl⟩
  | throw x => cases h
  | call d k ih =>
    obtain ⟨⟨e',r⟩,u,v,rfl,hu,hv⟩ := steps_bind_ret h
    obtain ⟨done,hserves,hsteps⟩ := ih r hv
    exact ⟨⟨d,r⟩ :: done,.cons hu hserves,.call hsteps⟩

end Served

end Interaction
