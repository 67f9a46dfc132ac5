import Mathlib.Algebra.GroupWithZero.Nat
import Mathlib.Tactic.Common

/-! Runs of a machine whose steps may be impossible: every move of a run, and
what holds in each of its states. -/

namespace Runs

universe u

structure Move (S A : Type u) where
  source : S
  action : A
  target : S

variable {S A E : Type u} {step : S → A → Option S} {s t : S} {moves : List (Move S A)}

inductive Run (step : S → A → Option S) : S → List (Move S A) → S → Prop
  | nil (s : S) : Run step s [] s
  | cons {s t u : S} {a : A} {moves : List (Move S A)} (h : step s a = some t) (hrun : Run step t moves u) :
      Run step s (⟨s, a, t⟩ :: moves) u

theorem Run.move (h : Run step s moves t) {m : Move S A} (hm : m ∈ moves) :
    step m.source m.action = some m.target := by
  induction h with
  | nil => simp at hm
  | cons hs _ ih =>
    rcases List.mem_cons.mp hm with rfl | hm
    · exact hs
    · exact ih hm

theorem Run.append {more : List (Move S A)} {u : S} (h : Run step s moves t) (h' : Run step t more u) :
    Run step s (moves ++ more) u := by
  induction h with
  | nil => exact h'
  | cons hmove _ ih => exact .cons hmove (ih h')

/-- What every step keeps whose move meets the condition `P` holds along a run whose moves meet it. -/
theorem Run.keeps {I : S → Prop} {P : Move S A → Prop}
    (hstep : ∀ s a t, I s → P ⟨s, a, t⟩ → step s a = some t → I t) (h : Run step s moves t) (hs : I s)
    (hP : ∀ m ∈ moves, P m) : I t ∧ ∀ m ∈ moves, I m.source := by
  induction h with
  | nil => exact ⟨hs, by simp⟩
  | cons hmove _ ih =>
    rw [List.forall_mem_cons] at hP
    obtain ⟨ht, hall⟩ := ih (hstep _ _ _ hs hP.1 hmove) hP.2
    exact ⟨ht, List.forall_mem_cons.mpr ⟨hs, hall⟩⟩

/-- The same with a condition on the action and the state in front of it. -/
theorem Run.invariant {I : S → Prop} {P : S → A → Prop}
    (hstep : ∀ s a t, I s → P s a → step s a = some t → I t) (h : Run step s moves t) (hs : I s)
    (hP : ∀ m ∈ moves, P m.source m.action) : I t ∧ ∀ m ∈ moves, I m.source :=
  h.keeps (P := fun m => P m.source m.action) hstep hs hP

/-- What each step preserves of the states in front of it leads from every state of the run to its last. -/
theorem Run.before {R : S → S → Prop} (hrefl : ∀ s, R s s) (htrans : ∀ {s t u}, R s t → R t u → R s u)
    (hstep : ∀ {s a t}, step s a = some t → R s t) (h : Run step s moves t) :
    R s t ∧ ∀ m ∈ moves, R m.target t := by
  induction h with
  | nil s => exact ⟨hrefl s, by simp⟩
  | cons hmove _ ih => exact ⟨htrans (hstep hmove) ih.1, List.forall_mem_cons.mpr ih⟩

/-- A machine that another one is part of: each step is a step of the part, or leaves the part alone. -/
theorem Run.project {T B : Type u} {part : T → B → Option T} (f : S → T) (act : A → Option B)
    (hstep : ∀ s a t, step s a = some t → (act a).elim (f t = f s) fun b => part (f s) b = some (f t))
    (h : Run step s moves t) :
    Run part (f s) (moves.filterMap fun m => (act m.action).map fun b => ⟨f m.source, b, f m.target⟩) (f t) := by
  induction h with
  | nil => exact .nil _
  | @cons s t u a moves hmove _ ih =>
    have hpart := hstep s a t hmove
    cases hact : act a with
    | none =>
      rw [hact] at hpart
      rw [List.filterMap_cons_none (by simp [hact]), ← show f t = f s from hpart]
      exact ih
    | some b =>
      rw [hact] at hpart
      rw [List.filterMap_cons_some (b := ⟨f s, b, f t⟩) (by simp [hact])]
      exact .cons hpart ih

/-- Where a step from a good state meets `P` exactly if it ends where `Q` holds, and is then good
itself, `Q` holds behind every step of a run exactly if all of them meet `P`. -/
theorem Run.forall_target_iff {I Q : S → Prop} {P E : S → A → Prop}
    (hstep : ∀ s a t, I s → E s a → step s a = some t → (P s a → I t) ∧ (Q t ↔ P s a)) (h : Run step s moves t)
    (hs : I s) (hE : ∀ m ∈ moves, E m.source m.action) :
    (∀ m ∈ moves, Q m.target) ↔ ∀ m ∈ moves, P m.source m.action := by
  induction h with
  | nil => simp
  | cons hmove _ ih =>
    rw [List.forall_mem_cons] at hE
    obtain ⟨hkeeps, hiff⟩ := hstep _ _ _ hs hE.1 hmove
    rw [List.forall_mem_cons, List.forall_mem_cons, hiff]
    exact and_congr_right fun hP => ih (hkeeps hP) hE.2

/-- What the steps add to a measure and what they take from it, over a whole run. -/
theorem Run.sum_eq {f : S → Nat} {gain loss : Move S A → Nat} (h : Run step s moves t)
    (hmove : ∀ m ∈ moves, f m.target + loss m = f m.source + gain m) :
    f t + (moves.map loss).sum = f s + (moves.map gain).sum := by
  induction h with
  | nil => simp
  | cons _ _ ih =>
    obtain ⟨hfirst, hrest⟩ := List.forall_mem_cons.mp hmove
    have hsum := ih hrest
    simp only [List.map_cons, List.sum_cons] at hfirst ⊢
    omega

/-- A measure that no step raises bounds the steps that lower it. -/
theorem Run.countP_le {f : S → Nat} {p : Move S A → Bool} (h : Run step s moves t)
    (hkeep : ∀ m ∈ moves, f m.target ≤ f m.source) (hlower : ∀ m ∈ moves, p m = true → f m.target < f m.source) :
    f t + moves.countP p ≤ f s := by
  induction h with
  | nil => simp
  | @cons _ _ _ _ rest _ _ ih =>
    obtain ⟨hfirst, hrest⟩ := List.forall_mem_cons.mp hkeep
    obtain ⟨hlow, hlows⟩ := List.forall_mem_cons.mp hlower
    have hsum := ih hrest hlows
    dsimp only at hfirst hlow
    rw [List.countP_cons]
    split_ifs with hp
    · have hlt := hlow hp
      omega
    · omega

/-- A log that steps only append to is good exactly when every step appends what is good. -/
theorem Run.log_iff (log : S → List E) {V : E → Prop} {I : S → Prop} {P : S → A → Prop}
    (hinv : ∀ s a t, I s → step s a = some t → I t)
    (hstep : ∀ s a t, I s → step s a = some t → ∃ new, log t = log s ++ new ∧ ((∀ e ∈ new, V e) ↔ P s a))
    (h : Run step s moves t) (hs : I s) :
    (∀ e ∈ log t, V e) ↔ (∀ e ∈ log s, V e) ∧ ∀ m ∈ moves, P m.source m.action := by
  induction h with
  | nil => simp
  | cons hmove _ ih =>
    obtain ⟨new, hnew, hiff⟩ := hstep _ _ _ hs hmove
    rw [ih (hinv _ _ _ hs hmove), hnew, List.forall_mem_append, hiff, List.forall_mem_cons, and_assoc]

/-- The run of a list of actions, if each of them is possible. -/
def exec (step : S → A → Option S) : S → List A → Option (List (Move S A) × S)
  | s, [] => some ([], s)
  | s, a :: as => do
    let t ← step s a
    let r ← exec step t as
    return (⟨s, a, t⟩ :: r.1, r.2)

theorem exec_run {as : List A} {r : List (Move S A) × S} (h : exec step s as = some r) : Run step s r.1 r.2 := by
  induction as generalizing s r with
  | nil =>
    obtain rfl := Option.some.inj h
    exact .nil s
  | cons a as ih =>
    obtain ⟨t, ht, h⟩ := Option.bind_eq_some_iff.mp h
    obtain ⟨q, hq, h⟩ := Option.bind_eq_some_iff.mp h
    obtain rfl := Option.some.inj h
    exact .cons ht (ih hq)

theorem exec_actions {as : List A} {r : List (Move S A) × S} (h : exec step s as = some r) :
    r.1.map Move.action = as := by
  induction as generalizing s r with
  | nil =>
    obtain rfl := Option.some.inj h
    rfl
  | cons a as ih =>
    obtain ⟨t, -, h⟩ := Option.bind_eq_some_iff.mp h
    obtain ⟨q, hq, h⟩ := Option.bind_eq_some_iff.mp h
    obtain rfl := Option.some.inj h
    rw [List.map_cons, ih hq]

end Runs
