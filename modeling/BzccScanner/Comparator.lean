import Mathlib.Data.List.Basic
import Mathlib.Data.List.Sort
import Mathlib.Tactic.Common

/-! Comparators that answer with an integer whose sign counts, on the elements
of a list: when a sort by one of them is well defined. -/

universe u

structure Comparator.Consistent {α : Type u} (cmp : α → α → Int) (xs : List α) : Prop where
  antisymm : ∀ a ∈ xs, ∀ b ∈ xs, (cmp a b).sign = -(cmp b a).sign
  trans : ∀ a ∈ xs, ∀ b ∈ xs, ∀ c ∈ xs, cmp a b ≤ 0 → cmp b c ≤ 0 → cmp a c ≤ 0

namespace Comparator

variable {α : Type u} {cmp cmp' : α → α → Int} {xs ys : List α}

theorem sign_eq_neg_iff {m n : Int} : m.sign = -n.sign ↔ (0 < m ↔ n < 0) ∧ (m < 0 ↔ 0 < n) := by
  rcases Int.lt_trichotomy m 0 with hm | rfl | hm <;> rcases Int.lt_trichotomy n 0 with hn | rfl | hn <;>
    simp [Int.sign_eq_neg_one_of_neg, Int.sign_eq_one_of_pos, *] <;> omega

theorem Consistent.mono (h : Consistent cmp xs) (hs : ys ⊆ xs) : Consistent cmp ys :=
  ⟨fun a ha b hb => h.antisymm a (hs ha) b (hs hb), fun a ha b hb c hc => h.trans a (hs ha) b (hs hb) c (hs hc)⟩

theorem Consistent.congr (h : Consistent cmp xs) (he : ∀ a ∈ xs, ∀ b ∈ xs, cmp' a b = cmp a b) :
    Consistent cmp' xs := by
  refine ⟨?_, ?_⟩
  · intro a ha b hb
    rw [he a ha b hb, he b hb a ha]
    exact h.antisymm a ha b hb
  · intro a ha b hb c hc
    rw [he a ha b hb, he b hb c hc, he a ha c hc]
    exact h.trans a ha b hb c hc

theorem Consistent.of_map {β : Type u} {f : β → α} {zs : List β} (h : Consistent cmp (zs.map f)) :
    Consistent (fun a b => cmp (f a) (f b)) zs := by
  have hmem : ∀ {z : β}, z ∈ zs → f z ∈ zs.map f := List.mem_map_of_mem
  exact ⟨fun a ha b hb => h.antisymm _ (hmem ha) _ (hmem hb),
    fun a ha b hb c hc => h.trans _ (hmem ha) _ (hmem hb) _ (hmem hc)⟩

theorem consistent_of_key (key : α → Int) (h : ∀ a ∈ xs, ∀ b ∈ xs, cmp a b = key a - key b) :
    Consistent cmp xs := by
  refine ⟨?_, ?_⟩
  · intro a ha b hb
    rw [sign_eq_neg_iff, h a ha b hb, h b hb a ha]
    omega
  · intro a ha b hb c hc hab hbc
    rw [h a ha b hb] at hab
    rw [h b hb c hc] at hbc
    rw [h a ha c hc]
    omega

theorem Consistent.neg (h : Consistent cmp xs) (hs : ∀ a ∈ xs, ∀ b ∈ xs, (cmp' a b).sign = -(cmp a b).sign) :
    Consistent cmp' xs := by
  have hle : ∀ a ∈ xs, ∀ b ∈ xs, cmp' a b ≤ 0 ↔ cmp b a ≤ 0 := by
    intro a ha b hb
    have hneg := sign_eq_neg_iff.mp (hs a ha b hb)
    have hswap := sign_eq_neg_iff.mp (h.antisymm a ha b hb)
    omega
  refine ⟨?_, ?_⟩
  · intro a ha b hb
    rw [hs a ha b hb, hs b hb a ha, h.antisymm a ha b hb]
  · intro a ha b hb c hc hab hbc
    rw [hle a ha b hb] at hab
    rw [hle b hb c hc] at hbc
    rw [hle a ha c hc]
    exact h.trans c hc b hb a ha hbc hab

theorem Consistent.exists_least (h : Consistent cmp xs) (hne : xs ≠ []) : ∃ r ∈ xs, ∀ x ∈ xs, cmp r x ≤ 0 := by
  induction xs with
  | nil => exact absurd rfl hne
  | cons y ys ih =>
    have hself : cmp y y ≤ 0 := by
      have hyy := sign_eq_neg_iff.mp (h.antisymm y (by simp) y (by simp))
      omega
    by_cases hys : ys = []
    · exact ⟨y, by simp, by simpa [hys] using hself⟩
    · obtain ⟨r, hr, hleast⟩ := ih (h.mono (List.subset_cons_self y ys)) hys
      have hr' : r ∈ y :: ys := List.mem_cons_of_mem y hr
      by_cases hry : cmp r y ≤ 0
      · exact ⟨r, hr', by simpa [hry] using hleast⟩
      · have hyr : cmp y r ≤ 0 := by
          have hswap := sign_eq_neg_iff.mp (h.antisymm r hr' y (by simp))
          omega
        refine ⟨y, by simp, ?_⟩
        intro x hx
        rcases List.mem_cons.mp hx with rfl | hx'
        · exact hself
        · exact h.trans y (by simp) r hr' x hx hyr (hleast x hx')

/-- A sort that orders every list on which the comparator is consistent. -/
structure Sorts (sort : (α → α → Int) → List α → List α) : Prop where
  perm : ∀ cmp xs, (sort cmp xs).Perm xs
  ordered : ∀ cmp xs, Consistent cmp xs → (sort cmp xs).Pairwise fun a b => cmp a b ≤ 0

def insertionSort (cmp : α → α → Int) (xs : List α) : List α := xs.insertionSort fun a b => cmp a b ≤ 0

theorem Consistent.orderedInsert {a : α} (h : Consistent cmp (a :: xs))
    (hs : xs.Pairwise fun a b => cmp a b ≤ 0) :
    (xs.orderedInsert (fun a b => cmp a b ≤ 0) a).Pairwise fun a b => cmp a b ≤ 0 := by
  induction xs with
  | nil => simp
  | cons b xs ih =>
    obtain ⟨hb, hxs⟩ := List.pairwise_cons.mp hs
    rw [List.orderedInsert_cons]
    split_ifs with hab
    · refine List.pairwise_cons.mpr ⟨fun x hx => ?_, hs⟩
      rcases List.mem_cons.mp hx with rfl | hx'
      · exact hab
      · exact h.trans a (by simp) b (by simp) x (by simp [hx']) hab (hb x hx')
    · have hba : cmp b a ≤ 0 := by
        have hswap := sign_eq_neg_iff.mp (h.antisymm a (by simp) b (by simp))
        omega
      have hsub : a :: xs ⊆ a :: b :: xs := List.cons_subset_cons a (List.subset_cons_self b xs)
      refine List.pairwise_cons.mpr ⟨fun x hx => ?_, ih (h.mono hsub) hxs⟩
      rcases (List.mem_orderedInsert _).mp hx with rfl | hx'
      · exact hba
      · exact hb x hx'

theorem sorts_insertionSort : Sorts (insertionSort : (α → α → Int) → List α → List α) := by
  refine ⟨fun cmp xs => List.perm_insertionSort _ xs, fun cmp xs h => ?_⟩
  induction xs with
  | nil => exact List.Pairwise.nil
  | cons a xs ih =>
    have hsub : a :: xs.insertionSort (fun a b => cmp a b ≤ 0) ⊆ a :: xs :=
      List.cons_subset_cons a (List.perm_insertionSort _ xs).subset
    exact (h.mono hsub).orderedInsert (ih (h.mono (List.subset_cons_self a xs)))

end Comparator
