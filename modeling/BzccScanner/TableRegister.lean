import Mathlib.Data.List.Basic
import Mathlib.Tactic.Common

/-! Shift registers driven by a table. A step drops the part of the state that
leaves the register first and mixes in the table entry that this part and the
symbol select. Where an entry is known by the part of it that stays longest,
equal states allow a run to be taken back symbol by symbol. -/

universe u

/-- `Agree j s t` is agreement on all but the `j` parts that leave the register first. -/
structure TableRegister (S C I : Type u) where
  step : S → C → S
  index : S → C → I
  width : Nat
  Agree : Nat → S → S → Prop
  agree_zero (s t : S) : Agree 0 s t ↔ s = t
  index_eq_of_step {j : Nat} {s t : S} {c d : C} :
    j < width → Agree j (step s c) (step t d) → index s c = index t d
  agree_of_step {j : Nat} {s t : S} {c d : C} :
    j < width → Agree j (step s c) (step t d) → Agree (j + 1) s t
  symbol_eq_of_index {s : S} {c d : C} : index s c = index s d → c = d
  state_eq_of_index {s t : S} {c : C} : index s c = index t c → Agree 1 s t → s = t

namespace TableRegister

variable {S C I : Type u} (r : TableRegister S C I)

def absorb (s : S) (w : List C) : S := w.foldl r.step s

@[simp] theorem absorb_nil (s : S) : r.absorb s [] = s := rfl

@[simp] theorem absorb_cons (s : S) (c : C) (w : List C) : r.absorb s (c :: w) = r.absorb (r.step s c) w := rfl

@[simp] theorem absorb_append (s : S) (u v : List C) : r.absorb s (u ++ v) = r.absorb (r.absorb s u) v :=
  List.foldl_append

theorem agree_of_absorb {j : Nat} {s t : S} {u v : List C} (hlen : u.length = v.length)
    (hw : j + u.length ≤ r.width) (h : r.Agree j (r.absorb s u) (r.absorb t v)) :
    r.Agree (j + u.length) s t := by
  induction u generalizing s t v with
  | nil =>
    obtain rfl := List.length_eq_zero_iff.mp hlen.symm
    exact h
  | cons c u ih =>
    cases v with
    | nil => simp at hlen
    | cons d v =>
      simp only [List.length_cons, Nat.add_right_cancel_iff] at hlen hw
      have hstep : r.Agree (j + u.length) (r.step s c) (r.step t d) := ih hlen (by omega) h
      exact r.agree_of_step (j := j + u.length) (by omega) hstep

/-- Words that fit the register are told apart from every start. -/
theorem eq_of_absorb {s : S} {u v : List C} (hlen : u.length = v.length) (hw : u.length ≤ r.width)
    (h : r.absorb s u = r.absorb s v) : u = v := by
  induction u generalizing s v with
  | nil => exact (List.length_eq_zero_iff.mp hlen.symm).symm
  | cons c u ih =>
    cases v with
    | nil => simp at hlen
    | cons d v =>
      simp only [List.length_cons, Nat.add_right_cancel_iff] at hlen hw
      have hagree : r.Agree (0 + u.length) (r.step s c) (r.step s d) :=
        r.agree_of_absorb hlen (by omega) ((r.agree_zero _ _).mpr h)
      have hcd : c = d := r.symbol_eq_of_index (r.index_eq_of_step (by omega) hagree)
      subst hcd
      exact congrArg (c :: ·) (ih hlen (by omega) h)

theorem state_eq_of_absorb (hw : 0 < r.width) {s t : S} {w : List C} (h : r.absorb s w = r.absorb t w) :
    s = t := by
  induction w generalizing s t with
  | nil => exact h
  | cons c w ih =>
    have hstep : r.Agree 0 (r.step s c) (r.step t c) := (r.agree_zero _ _).mpr (ih h)
    exact r.state_eq_of_index (r.index_eq_of_step hw hstep) (r.agree_of_step hw hstep)

/-- A burst that fits the register is noticed whatever stands before and behind it. -/
theorem eq_of_absorb_burst {s : S} {u v w w' : List C} (hlen : w.length = w'.length) (hw : w.length ≤ r.width)
    (h : r.absorb s (u ++ w ++ v) = r.absorb s (u ++ w' ++ v)) : w = w' := by
  by_cases hpos : 0 < r.width
  · simp only [absorb_append] at h
    exact r.eq_of_absorb hlen hw (r.state_eq_of_absorb hpos h)
  · have hnil : w = [] := List.length_eq_zero_iff.mp (by omega)
    have hnil' : w' = [] := List.length_eq_zero_iff.mp (by omega)
    exact hnil.trans hnil'.symm

end TableRegister
