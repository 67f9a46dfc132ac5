import Mathlib.Data.List.Perm.Basic
import Mathlib.Data.List.Nodup
import Mathlib.Tactic.Common

/-! Lists whose elements have keys, and the comparison of two of them by first
match. One key may stand for an unknown one, so that elements may share it. -/

namespace Keyed

universe u v w

variable {α : Type u} {κ : Type v} {ε : Type w} [DecidableEq κ] {key : α → κ} {unknown : κ}
    {xs ys : List α} {x y : α}

def lookup (key : α → κ) (xs : List α) (k : κ) : Option α := xs.find? fun x => key x == k

/-- The known keys are pairwise distinct. -/
def Distinct (key : α → κ) (unknown : κ) (xs : List α) : Prop :=
  ((xs.filter fun x => key x ≠ unknown).map key).Nodup

instance : Decidable (Distinct key unknown xs) := inferInstanceAs (Decidable (List.Nodup _))

/-- The key of `x` is known, and no element of `ys` has it. -/
def lacks (key : α → κ) (unknown : κ) (ys : List α) (x : α) : Bool :=
  key x ≠ unknown ∧ ∀ y ∈ ys, key y ≠ key x

/-- The pairs of elements with one known key. -/
def pairs (key : α → κ) (unknown : κ) (xs ys : List α) : List (α × α) :=
  xs.flatMap fun x => (ys.filter fun y => key x ≠ unknown ∧ key y = key x).map fun y => (x, y)

def comparison (key : α → κ) (ys : List α) (missing : α → List ε) (found : α → α → List ε) (x : α) : List ε :=
  match lookup key ys (key x) with
  | none => missing x
  | some y => found x y

theorem lookup_eq_none {k : κ} : lookup key xs k = none ↔ ∀ x ∈ xs, key x ≠ k := by
  simp [lookup]

theorem lookup_eq_some {k : κ} (h : lookup key xs k = some x) : x ∈ xs ∧ key x = k :=
  ⟨List.mem_of_find?_eq_some h, by simpa using List.find?_some h⟩

theorem Distinct.filter_key (h : Distinct key unknown ys) (hk : key y ≠ unknown) (hy : y ∈ ys) :
    (ys.filter fun z => key z = key y) = [y] := by
  induction ys with
  | nil => simp at hy
  | cons z zs ih =>
    by_cases hz : key z = unknown
    · have hzy : key z ≠ key y := fun he => hk (he ▸ hz)
      have hy' : y ∈ zs := by
        rcases List.mem_cons.mp hy with rfl | hy
        · exact absurd rfl hzy
        · exact hy
      rw [List.filter_cons_of_neg (by simpa using hzy)]
      exact ih (by simpa [Distinct, hz] using h) hy'
    · obtain ⟨hnot, hzs⟩ : (∀ w ∈ zs, key w ≠ unknown → key w ≠ key z) ∧ Distinct key unknown zs := by
        simpa [Distinct, hz] using h
      by_cases hzy : key z = key y
      · have hrest : (zs.filter fun w => key w = key y) = [] := by
          rw [List.filter_eq_nil_iff]
          intro w hw
          simpa [hzy] using fun he : key w = key y => hnot w hw (by rwa [he]) (by rw [he, hzy])
        obtain rfl : y = z := by
          rcases List.mem_cons.mp hy with rfl | hy
          · rfl
          · exact absurd hzy.symm (hnot y hy hk)
        rw [List.filter_cons_of_pos (by simp), hrest]
      · have hy' : y ∈ zs := by
          rcases List.mem_cons.mp hy with rfl | hy
          · exact absurd rfl hzy
          · exact hy
        rw [List.filter_cons_of_neg (by simpa using hzy)]
        exact ih hzs hy'

theorem Distinct.filter_lookup (h : Distinct key unknown ys) (hk : key x ≠ unknown) :
    (ys.filter fun y => key y = key x) = (lookup key ys (key x)).toList := by
  cases hl : lookup key ys (key x) with
  | none => simpa using lookup_eq_none.mp hl
  | some y =>
    obtain ⟨hy, he⟩ := lookup_eq_some hl
    rw [← he] at hk ⊢
    exact h.filter_key hk hy

theorem flatMap_ite (p : α → Bool) (f : α → List ε) (xs : List α) :
    (xs.flatMap fun x => if p x then f x else []) = (xs.filter p).flatMap f := by
  induction xs with
  | nil => rfl
  | cons x xs ih =>
    rw [List.flatMap_cons, ih]
    by_cases hp : p x = true
    · rw [if_pos hp, List.filter_cons_of_pos hp, List.flatMap_cons]
    · rw [if_neg hp, List.filter_cons_of_neg hp, List.nil_append]

theorem Distinct.comparison_eq (h : Distinct key unknown ys) (missing : α → List ε)
    (found : α → α → List ε) (x : α) :
    comparison key ys missing found x = (if lacks key unknown ys x then missing x else []) ++
      (((ys.filter fun y => key x ≠ unknown ∧ key y = key x).flatMap (found x)) ++
        if key x = unknown then comparison key ys missing found x else []) := by
  by_cases hk : key x = unknown
  · simp [lacks, hk]
  · have hf := h.filter_lookup (x := x) hk
    cases hl : lookup key ys (key x) with
    | none =>
      have hlacks : lacks key unknown ys x = true := by simpa [lacks, hk] using lookup_eq_none.mp hl
      simp [comparison, hl, hlacks, hk, hf]
    | some y =>
      obtain ⟨hy, he⟩ := lookup_eq_some hl
      have hlacks : lacks key unknown ys x = false := by
        simpa [lacks] using fun _ => ⟨y, hy, he⟩
      simp [comparison, hl, hlacks, hk, hf]

/-- A comparison is exact for the known keys. -/
theorem Distinct.flatMap_comparison (h : Distinct key unknown ys) (missing : α → List ε) (found : α → α → List ε)
    (xs : List α) : (xs.flatMap (comparison key ys missing found)).Perm
      ((xs.filter (lacks key unknown ys)).flatMap missing ++ ((pairs key unknown xs ys).flatMap fun p =>
        found p.1 p.2) ++ (xs.filter fun x => key x = unknown).flatMap (comparison key ys missing found)) := by
  have hpairs : ((pairs key unknown xs ys).flatMap fun p => found p.1 p.2) =
      xs.flatMap fun x => (ys.filter fun y => key x ≠ unknown ∧ key y = key x).flatMap (found x) := by
    simp only [pairs, List.flatMap_assoc, List.flatMap_map]
  have hunknown : ((xs.filter fun x => key x = unknown).flatMap (comparison key ys missing found)) =
      xs.flatMap fun x => if key x = unknown then comparison key ys missing found x else [] := by
    simpa only [decide_eq_true_eq] using (flatMap_ite (fun x => decide (key x = unknown)) _ xs).symm
  rw [List.flatMap_congr fun x _ => h.comparison_eq missing found x, hpairs, hunknown, ← flatMap_ite,
    List.append_assoc]
  exact ((List.flatMap_append_perm xs _ _).symm).trans
    (((List.flatMap_append_perm xs _ _).symm).append_left _)

/-- Where all keys are known, nothing else is compared. -/
theorem Distinct.flatMap_comparison_known (h : Distinct key unknown ys) (hx : ∀ x ∈ xs, key x ≠ unknown)
    (missing : α → List ε) (found : α → α → List ε) : (xs.flatMap (comparison key ys missing found)).Perm
      ((xs.filter (lacks key unknown ys)).flatMap missing ++ (pairs key unknown xs ys).flatMap fun p =>
        found p.1 p.2) := by
  have hnone : xs.filter (fun x => key x = unknown) = [] := List.filter_eq_nil_iff.mpr (by simpa using hx)
  simpa only [hnone, List.flatMap_nil, List.append_nil] using h.flatMap_comparison missing found xs

/-- All keys are known, and pairwise distinct. -/
structure Identified (key : α → κ) (unknown : κ) (xs : List α) : Prop where
  known : ∀ x ∈ xs, key x ≠ unknown
  nodup : (xs.map key).Nodup

instance : Decidable (Identified key unknown xs) :=
  decidable_of_iff ((∀ x ∈ xs, key x ≠ unknown) ∧ (xs.map key).Nodup) ⟨fun h => ⟨h.1, h.2⟩, fun h => ⟨h.1, h.2⟩⟩

theorem Identified.distinct (h : Identified key unknown xs) : Distinct key unknown xs :=
  h.nodup.sublist (List.filter_sublist.map key)

end Keyed
