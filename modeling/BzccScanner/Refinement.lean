import Mathlib.Tactic.Common

/-! A machine against its specification, over whole runs: the machine's steps
may fail, the specification's do not. -/

namespace Refinement

universe u

variable {S M A R E : Type u} {step : S → A → Except E (R × S)} {spec : M → A → R × M}

/-- Every step succeeds with the specification's result, and `Good` holds in every state reached. -/
def Follows (step : S → A → Except E (R × S)) (spec : M → A → R × M) (Good : S → Prop) : S → M → List A → Prop
  | s, _, [] => Good s
  | s, m, a :: as => Good s ∧ ∃ r t, step s a = .ok (r, t) ∧ r = (spec m a).1 ∧
  Follows step spec Good t (spec m a).2 as

/-- `P` holds of every step of the run and the state in front of it. -/
def Along (step : S → A → Except E (R × S)) (P : S → A → Prop) : S → List A → Prop
  | _, [] => True
  | s, a :: as => P s a ∧ ∀ r t, step s a = .ok (r, t) → Along step P t as

theorem Follows.good {Good : S → Prop} {s : S} {m : M} {as : List A} (h : Follows step spec Good s m as) :
    Good s := by
  cases as with
  | nil => exact h
  | cons a as => exact h.1

theorem follows_iff {Rel : S → M → Prop} {P Q : S → A → Prop} {Good : S → Prop}
    (hgood : ∀ s m, Rel s m → Good s)
    (hstep : ∀ s m a, Rel s m → P s a → Q s a →
      ∃ r t, step s a = .ok (r, t) ∧ r = (spec m a).1 ∧ Rel t (spec m a).2)
    (hbreak : ∀ s m a, Rel s m → P s a → ¬ Q s a → ∀ r t, step s a = .ok (r, t) → ¬ Good t)
    {s : S} {m : M} (h : Rel s m) {as : List A} (hP : Along step P s as) :
    Follows step spec Good s m as ↔ Along step Q s as := by
  induction as generalizing s m with
  | nil => exact iff_of_true (hgood s m h) trivial
  | cons a as ih =>
    constructor
    · rintro ⟨-, r, t, ht, hr, hf⟩
      have hQ : Q s a := by
        by_contra hQ
        exact hbreak s m a h hP.1 hQ r t ht hf.good
      obtain ⟨r', t', ht', -, hrel⟩ := hstep s m a h hP.1 hQ
      obtain ⟨rfl, rfl⟩ := Prod.mk.inj (Except.ok.inj (ht.symm.trans ht'))
      refine ⟨hQ, ?_⟩
      intro r' t' ht'
      obtain ⟨rfl, rfl⟩ := Prod.mk.inj (Except.ok.inj (ht.symm.trans ht'))
      exact (ih hrel (hP.2 r t ht)).mp hf
    · rintro ⟨hQ, hrest⟩
      obtain ⟨r, t, ht, hr, hrel⟩ := hstep s m a h hP.1 hQ
      exact ⟨hgood s m h, r, t, ht, hr, (ih hrel (hP.2 r t ht)).mpr (hrest r t ht)⟩

end Refinement
