import Mathlib.Tactic.Common

/-! Panics and machine integers. A build either checks `u16` arithmetic or lets it
wrap, so every theorem that mentions `Build` holds for both profiles. -/
namespace RoundBased

/-- The build profile a crate is compiled with. -/
class Build where
  overflowChecks : Bool
  debugAssertions : Bool

/-- The profiles of a debug and of a release build. -/
abbrev Build.debug : Build := ⟨true,true⟩

abbrev Build.release : Build := ⟨false,false⟩

inductive Panic
  | overflow
  | assertion
  | roundOverridden (n : UInt16)
  | unreachable
  | indexOutOfBounds
  deriving DecidableEq, Repr

/-- The value of an expression, unless evaluating it panics. -/
abbrev Checked (α : Type) := Except Panic α

theorem Checked.bind_eq_ok {α β : Type} {x : Checked α} {f : α → Checked β} {b : β} :
    (x >>= f) = .ok b ↔ ∃ a, x = .ok a ∧ f a = .ok b := by
  cases x with
  | error p => exact ⟨fun h => (by cases h),fun ⟨_,h,_⟩ => (by cases h)⟩
  | ok a => exact ⟨fun h => ⟨a,rfl,h⟩,fun ⟨_,h,hb⟩ => (by cases h; exact hb)⟩

namespace U16

/-- `a + b` on `u16`. -/
def add [Build] (a b : UInt16) : Checked UInt16 :=
  if a.toNat + b.toNat < 65536 then .ok (a + b)
  else if Build.overflowChecks then .error .overflow else .ok (a + b)

/-- `a * b` on `u16`. -/
def mul [Build] (a b : UInt16) : Checked UInt16 :=
  if a.toNat * b.toNat < 65536 then .ok (a * b)
  else if Build.overflowChecks then .error .overflow else .ok (a * b)

theorem add_of_lt [Build] {a b : UInt16} (h : a.toNat + b.toNat < 65536) :
    add a b = .ok (a + b) := by
  simp [add,h]

theorem mul_of_lt [Build] {a b : UInt16} (h : a.toNat * b.toNat < 65536) :
    mul a b = .ok (a * b) := by
  simp [mul,h]

end U16
end RoundBased
