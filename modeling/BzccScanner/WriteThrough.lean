import Mathlib.Tactic.Common

/-! Values in memory that are written through to a store. Whoever reads the
store later finds the values of the keys that were kept up to date. -/

namespace WriteThrough

/-- A store of one value for each key, which answers for the keys that were never written too. -/
structure Medium (S K : Type) (V : K → Type) where
  Sound : S → Prop
  load : S → (k : K) → V k
  save : S → (k : K) → V k → S
  sound_save : ∀ {s : S}, Sound s → ∀ k (v : V k), Sound (save s k v)
  load_save_self : ∀ {s : S}, Sound s → ∀ k (v : V k), load (save s k v) k = v
  load_save_of_ne : ∀ {s : S}, Sound s → ∀ {k l : K} (v : V k), l ≠ k → load (save s k v) l = load s l

section writes

variable {K : Type} {V : K → Type}

/-- The value that the key has behind the writes, if they write it. -/
def lastWritten [DecidableEq K] : List (Sigma V) → (k : K) → Option (V k)
  | [], _ => none
  | ⟨l, v⟩ :: ws, k => (lastWritten ws k).orElse fun _ => if h : l = k then some (h ▸ v) else none

variable {S : Type} {M : Medium S K V} {s : S} {k : K} {ws : List (Sigma V)} {mem mem' : (k : K) → V k}
  {kept kept' : K → Prop}

namespace Medium

def saveAll (M : Medium S K V) (s : S) (ws : List (Sigma V)) : S := ws.foldl (fun s w => M.save s w.1 w.2) s

theorem saveAll_cons (M : Medium S K V) (s : S) (w : Sigma V) (ws : List (Sigma V)) :
    M.saveAll s (w :: ws) = M.saveAll (M.save s w.1 w.2) ws := rfl

theorem sound_saveAll (h : M.Sound s) (ws : List (Sigma V)) : M.Sound (M.saveAll s ws) := by
  induction ws generalizing s with
  | nil => exact h
  | cons w ws ih => exact ih (M.sound_save h w.1 w.2)

theorem load_saveAll [DecidableEq K] (h : M.Sound s) (ws : List (Sigma V)) (k : K) :
    M.load (M.saveAll s ws) k = (lastWritten ws k).getD (M.load s k) := by
  induction ws generalizing s with
  | nil => rfl
  | cons w ws ih =>
    obtain ⟨l, v⟩ := w
    rw [saveAll_cons, ih (M.sound_save h l v), lastWritten]
    cases lastWritten ws k with
    | some u => rfl
    | none =>
      by_cases hl : l = k
      · subst hl
        simp [M.load_save_self h l v]
      · simp [hl, M.load_save_of_ne h v (Ne.symm hl)]

/-- What the store would give back for the keys in `kept` is what the memory holds. -/
structure Holds (M : Medium S K V) (kept : K → Prop) (s : S) (mem : (k : K) → V k) : Prop where
  sound : M.Sound s
  load : ∀ k, kept k → M.load s k = mem k

/-- A key is kept behind the writes if its value is the last one written, or if nothing
was written for a key that was kept and has not changed. -/
theorem Holds.saveAll [DecidableEq K] (h : M.Holds kept s mem)
    (hws : ∀ k, kept' k → lastWritten ws k = some (mem' k) ∨ lastWritten ws k = none ∧ kept k ∧ mem' k = mem k) :
    M.Holds kept' (M.saveAll s ws) mem' := by
  refine ⟨sound_saveAll h.sound ws, fun k hk => ?_⟩
  rw [load_saveAll h.sound]
  rcases hws k hk with hw | ⟨hw, hkept, hsame⟩
  · rw [hw, Option.getD_some]
  · rw [hw, Option.getD_none, h.load k hkept, hsame]

end Medium

end writes

end WriteThrough
