import Mathlib.Algebra.GroupWithZero.Nat
import RoundBased.Checked
import RoundBased.Iteration

/-! Counting with machine integers, and ranges of `u16` as iterators. -/
namespace RoundBased
namespace U16
open Iteration

/-- `a - b` on `u16`. -/
def sub [Build] (a b : UInt16) : Checked UInt16 :=
  if b ≤ a then .ok (a - b)
  else if Build.overflowChecks then .error .overflow else .ok (a - b)

theorem sub_of_le [Build] {a b : UInt16} (h : b ≤ a) : sub a b = .ok (a - b) := if_pos h

def nextInRange : Next Panic (UInt16 × UInt16) UInt16 := fun (start,stop) =>
  if start < stop then .ok ((start + 1,stop),some start) else .ok ((start,stop),none)

/-- The successor is computed before the current value is returned. -/
def nextFrom [Build] : Next Panic UInt16 UInt16 := fun start =>
  match add start 1 with
  | .error p => .error p
  | .ok after => .ok (after,some start)

/-- `start..stop`. -/
def range (start stop : UInt16) : Iter Panic (UInt16 × UInt16) UInt16 := ⟨nextInRange,(start,stop)⟩

/-- `start..`. -/
def rangeFrom [Build] (start : UInt16) : Iter Panic UInt16 UInt16 := ⟨nextFrom,start⟩

/-- The `k` numbers from `start` on. -/
def count (start k : ℕ) : List UInt16 := (List.range' start k).map UInt16.ofNat

theorem count_succ (start : UInt16) (k : ℕ) :
    count start.toNat (k + 1) = start :: count (start.toNat + 1) k := by
  simp [count,List.range'_succ]

theorem length_count (start k : ℕ) : (count start k).length = k := by simp [count]

theorem toNat_add_one {a : UInt16} (h : a.toNat < 65535) : (a + 1).toNat = a.toNat + 1 := by
  rw [UInt16.toNat_add,Nat.mod_eq_of_lt]
  · rfl
  · change a.toNat + 1 < 65536
    omega

theorem add_one [Build] {a : UInt16} (h : a.toNat < 65535) : add a 1 = .ok (a + 1) := by
  apply add_of_lt
  change a.toNat + 1 < 65536
  omega

theorem add_one_top [Build] (hb : Build.overflowChecks = true) {a : UInt16} (h : a.toNat = 65535) :
    add a 1 = .error .overflow := by
  have hnot : ¬ a.toNat + (1 : UInt16).toNat < 65536 := by
    rw [h]
    decide
  rw [add,if_neg hnot,if_pos hb]

theorem nextFrom_of_lt [Build] {a : UInt16} (h : a.toNat < 65535) :
    nextFrom a = .ok (a + 1,some a) := by
  simp only [nextFrom,add_one h]

theorem nextFrom_top [Build] (hb : Build.overflowChecks = true) {a : UInt16}
    (h : a.toNat = 65535) : nextFrom a = .error .overflow := by
  simp only [nextFrom,add_one_top hb h]

theorem steps_rangeFrom [Build] {a b : UInt16} {k : ℕ} (h : a.toNat + k = b.toNat) :
    Steps nextFrom a (count a.toNat k) b := by
  induction k generalizing a with
  | zero =>
    rw [Nat.add_zero,UInt16.toNat_inj] at h
    rw [h]
    exact .nil
  | succ k ih =>
    have htop := b.toNat_lt
    have hlt : a.toNat < 65535 := by omega
    have hone := toNat_add_one hlt
    rw [count_succ,← hone]
    exact .cons (nextFrom_of_lt hlt) (ih (by omega))

theorem steps_range {a b : UInt16} {k : ℕ} (h : a.toNat + k = b.toNat) :
    Steps nextInRange (a,b) (count a.toNat k) (b,b) := by
  induction k generalizing a with
  | zero =>
    rw [Nat.add_zero,UInt16.toNat_inj] at h
    rw [h]
    exact .nil
  | succ k ih =>
    have htop := b.toNat_lt
    have hone := toNat_add_one (show a.toNat < 65535 by omega)
    have hlt : a < b := by
      rw [UInt16.lt_iff_toNat_lt]
      omega
    rw [count_succ,← hone]
    exact .cons (if_pos hlt) (ih (by omega))

theorem range_done (b : UInt16) : nextInRange (b,b) = .ok ((b,b),none) :=
  if_neg (UInt16.lt_irrefl b)

end U16

/-- `a - b` on `usize`. -/
def Usize.sub [Build] (a b : ℕ) : Checked ℕ :=
  if b ≤ a then .ok (a - b)
  else if Build.overflowChecks then .error .overflow else .ok (a + 2 ^ 64 - b)

theorem Usize.sub_of_le [Build] {a b : ℕ} (h : b ≤ a) : sub a b = .ok (a - b) := if_pos h

/-- `a + b` on `u64`. -/
def U64.add [Build] (a b : UInt64) : Checked UInt64 :=
  if a.toNat + b.toNat < 2 ^ 64 then .ok (a + b)
  else if Build.overflowChecks then .error .overflow else .ok (a + b)

end RoundBased
