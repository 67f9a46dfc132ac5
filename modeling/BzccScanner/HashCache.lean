import Mathlib.Data.List.Nodup
import Mathlib.Tactic.Common

/-! A cache of a store, which finds what it holds by a hash of the store's keys.
What is found under a hash is what the store has for some key of that hash, as
long as the cache is told of every change. -/

namespace HashCache

variable {I K V D : Type} {k : K} {v : V} {l l' : List (K × V)}

/-- The value is cached under the hash, or it is dropped where there was none. -/
inductive Caches (k : K) (v : V) : List (K × V) → List (K × V) → Prop
  | replace (front back : List (K × V)) (u : V) : Caches k v (front ++ (k, u) :: back) (front ++ (k, v) :: back)
  | append (l : List (K × V)) (hk : k ∉ l.map Prod.fst) : Caches k v l (l ++ [(k, v)])
  | drop (l : List (K × V)) (hk : k ∉ l.map Prod.fst) : Caches k v l l

theorem Caches.nodup (h : Caches k v l l') (hl : (l.map Prod.fst).Nodup) : (l'.map Prod.fst).Nodup := by
  cases h with
  | replace front back u => simpa only [List.map_append, List.map_cons] using hl
  | append l hk =>
    rw [List.map_append, List.nodup_append_comm]
    exact List.nodup_cons.mpr ⟨hk, hl⟩
  | drop l hk => exact hl

theorem Caches.mem (h : Caches k v l l') (hl : (l.map Prod.fst).Nodup) {c : K × V} (hc : c ∈ l') :
    c = (k, v) ∨ c ∈ l ∧ c.1 ≠ k := by
  cases h with
  | replace front back u =>
    rw [List.map_append, List.map_cons, List.nodup_middle, List.nodup_cons, ← List.map_append] at hl
    have hk : k ∉ (front ++ back).map Prod.fst := hl.1
    have hne : c ∈ front ++ back → c ∈ front ++ (k, u) :: back ∧ c.1 ≠ k := by
      intro hm
      refine ⟨?_, fun he => hk (he ▸ List.mem_map_of_mem hm)⟩
      simp only [List.mem_append, List.mem_cons] at hm ⊢
      tauto
    simp only [List.mem_append, List.mem_cons] at hc
    rcases hc with hc | hc | hc
    · exact .inr (hne (List.mem_append_left _ hc))
    · exact .inl hc
    · exact .inr (hne (List.mem_append_right _ hc))
  | append l hk =>
    rcases List.mem_append.mp hc with hc | hc
    · exact .inr ⟨hc, fun he => hk (he ▸ List.mem_map_of_mem hc)⟩
    · exact .inl (List.mem_singleton.mp hc)
  | drop l hk => exact .inr ⟨hc, fun he => hk (he ▸ List.mem_map_of_mem hc)⟩

def erased [DecidableEq K] (k : K) (l : List (K × V)) : List (K × V) := l.eraseP fun c => c.1 == k

theorem erased_mem [DecidableEq K] (hl : (l.map Prod.fst).Nodup) {c : K × V} (hc : c ∈ erased k l) :
    c ∈ l ∧ c.1 ≠ k := by
  refine ⟨List.mem_of_mem_eraseP hc, ?_⟩
  induction l with
  | nil => cases hc
  | cons d l ih =>
    rw [List.map_cons, List.nodup_cons] at hl
    rw [erased, List.eraseP_cons] at hc
    by_cases hd : d.1 = k
    · rw [beq_iff_eq.mpr hd, cond_true] at hc
      exact fun he => hl.1 (hd.trans he.symm ▸ List.mem_map_of_mem hc)
    · rw [beq_eq_false_iff_ne.mpr hd, cond_false] at hc
      rcases List.mem_cons.mp hc with rfl | hc
      · exact hd
      · exact ih hl.2 hc

/-- Every cached value is the one that the store has, as `code` says, for a key of its hash. -/
structure Backed (hash : I → K) (code : V → D) (store : I → Option D) (l : List (K × V)) : Prop where
  keys : (l.map Prod.fst).Nodup
  stored : ∀ c ∈ l, ∃ i, hash i = c.1 ∧ store i = some (code c.2)

namespace Backed

variable {hash : I → K} {code : V → D} {store store' : I → Option D} {i : I}

theorem nil (hash : I → K) (code : V → D) (store : I → Option D) : Backed hash code store [] :=
  ⟨List.nodup_nil, fun _ hc => by cases hc⟩

theorem caches (h : Backed hash code store l) (hl : Caches (hash i) v l l') (hi : store' i = some (code v))
    (hother : ∀ j, j ≠ i → store' j = store j) : Backed hash code store' l' := by
  refine ⟨hl.nodup h.keys, fun c hc => ?_⟩
  rcases hl.mem h.keys hc with rfl | ⟨hc, hne⟩
  · exact ⟨i, rfl, hi⟩
  · obtain ⟨j, hj, hstored⟩ := h.stored c hc
    refine ⟨j, hj, ?_⟩
    rw [hother j fun he => hne (by rw [← hj, he]), hstored]

/-- Whatever happens to `i`, no entry of its hash is left. -/
theorem erase [DecidableEq K] (h : Backed hash code store l) (hother : ∀ j, j ≠ i → store' j = store j) :
    Backed hash code store' (erased (hash i) l) := by
  refine ⟨h.keys.sublist (List.eraseP_sublist.map _), fun c hc => ?_⟩
  obtain ⟨hc, hne⟩ := erased_mem h.keys hc
  obtain ⟨j, hj, hstored⟩ := h.stored c hc
  refine ⟨j, hj, ?_⟩
  rw [hother j fun he => hne (by rw [← hj, he]), hstored]

theorem lookup [DecidableEq K] (h : Backed hash code store l) (hl : l.lookup k = some v) :
    ∃ i, hash i = k ∧ store i = some (code v) := by
  obtain ⟨front, back, rfl, -⟩ := List.lookup_eq_some_iff.mp hl
  exact h.stored (k, v) (by simp)

/-- Where no other key of the hash is stored, the cache finds what the store has. -/
theorem lookup_alone [DecidableEq K] (h : Backed hash code store l) (hl : l.lookup (hash i) = some v)
    (halone : ∀ j, hash j = hash i → (store j).isSome = true → j = i) : store i = some (code v) := by
  obtain ⟨j, hj, hstored⟩ := h.lookup hl
  rw [← halone j hj (by rw [hstored]; rfl)]
  exact hstored

end Backed

end HashCache
