import Mathlib.Algebra.Group.Hom.End
import Mathlib.Tactic.Common

/-! Registers that take a symbol in by addition and then turn by an additive
map. Such a register ends with the sum of what it began with and of the
symbols, each turned as often as it was in the register. Two of them agree on a
word exactly if the differences that its symbols make cancel out. -/

universe u

namespace LinearRegister

variable {V C : Type u} [AddCommGroup V] (F G : AddMonoid.End V) (e : C → V)

def absorb (s : V) (w : List C) : V := w.foldl (fun s c => F (s + e c)) s

/-- What the symbols of a word leave in the register. -/
def response : List C → V
  | [] => 0
  | c :: w => (F ^ (w.length + 1)) (e c) + response w

/-- What the symbols of a word leave in the first register and not in the second. -/
def drift : List C → V
  | [] => 0
  | c :: w => (F ^ (w.length + 1) - G ^ (w.length + 1)) (e c) + drift w

theorem sub_apply (v : V) : (F - G) v = F v - G v := rfl

theorem absorb_eq (s : V) (w : List C) : absorb F e s w = (F ^ w.length) s + response F e w := by
  induction w generalizing s with
  | nil => simp [absorb, response]
  | cons c w ih =>
    have hstep : absorb F e s (c :: w) = absorb F e (F (s + e c)) w := rfl
    have hturn : (F ^ w.length) (F (s + e c)) = (F ^ (w.length + 1)) s + (F ^ (w.length + 1)) (e c) := by
      rw [← map_add, pow_succ, AddMonoid.End.coe_mul, Function.comp_apply]
    rw [hstep, ih, hturn, response, List.length_cons, add_assoc]

theorem response_sub (w : List C) : response F e w - response G e w = drift F G e w := by
  induction w with
  | nil => simp [response, drift]
  | cons c w ih => rw [response, response, drift, ← ih, sub_apply, add_sub_add_comm]

theorem absorb_eq_iff (s : V) (w : List C) :
    absorb F e s w = absorb G e s w ↔ (F ^ w.length - G ^ w.length) s + drift F G e w = 0 := by
  rw [absorb_eq, absorb_eq, ← response_sub, sub_apply, ← sub_eq_zero, add_sub_add_comm]

variable {F G e}

theorem drift_append_sub {w w' : List C} (p : List C) (hlen : w.length = w'.length) :
    drift F G e (p ++ w) - drift F G e (p ++ w') = drift F G e w - drift F G e w' := by
  induction p with
  | nil => rfl
  | cons c p ih =>
    have hl : (p ++ w).length = (p ++ w').length := by simp [hlen]
    rw [List.cons_append, List.cons_append, drift, drift, hl, add_sub_add_left_eq_sub, ih]

/-- Endings that the drift tells apart: behind any front the registers agree on one of them at most. -/
theorem ending_unique {s : V} {p w w' : List C} (hlen : w.length = w'.length)
    (hapart : drift F G e w = drift F G e w' → w = w')
    (h : absorb F e s (p ++ w) = absorb G e s (p ++ w)) (h' : absorb F e s (p ++ w') = absorb G e s (p ++ w')) :
    w = w' := by
  have hl : (p ++ w).length = (p ++ w').length := by simp [hlen]
  rw [absorb_eq_iff] at h h'
  rw [hl] at h
  have hdrift : drift F G e (p ++ w) = drift F G e (p ++ w') := add_left_cancel (h.trans h'.symm)
  refine hapart (sub_eq_zero.mp ?_)
  rw [← drift_append_sub p hlen, hdrift, sub_self]

end LinearRegister
