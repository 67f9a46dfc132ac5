import Mathlib.Data.List.Basic
import Mathlib.Tactic.Common

/-! Symbol-at-a-time machines that emit outputs and may stop early. A run with
effects, in which a handler acts on every output and may itself stop the run,
is the pure run followed by a fold of the handler over its outputs. -/

namespace Mealy

universe u

variable {S T A O R E W : Type u}

/-- The outputs of a run, and the state after the last symbol or the reason
why the machine stopped before it. -/
def run (step : S → A → List O × Except R S) : S → List A → List O × Except R S
  | s, [] => ([], .ok s)
  | s, a :: as =>
    match step s a with
    | (out, .ok t) => (out ++ (run step t as).1, (run step t as).2)
    | (out, .error r) => (out, .error r)

def halt (step : S → A → List O × Except R S) : S → List A → S
  | s, [] => s
  | s, a :: as =>
    match (step s a).2 with
    | .ok t => halt step t as
    | .error _ => s

def starts (step : S → A → Except R S) : S → List A → List (S × A)
  | _, [] => []
  | s, a :: as =>
    (s, a) :: match step s a with
      | .ok t => starts step t as
      | .error _ => []

/-- One step whose outputs are handled as they are emitted. -/
def drive (step : S → A → List O × Except R S) (handle : W → O → Except E W)
    (finish : R → W → E) (q : S × W) (a : A) : Except E (S × W) := do
  let w ← (step q.1 a).1.foldlM handle q.2
  match (step q.1 a).2 with
  | .ok t => .ok (t, w)
  | .error r => .error (finish r w)

theorem run_cons_ok {step : S → A → List O × Except R S} {s t : S} {a : A} {out : List O}
    (h : step s a = (out, .ok t)) (as : List A) :
    run step s (a :: as) = (out ++ (run step t as).1, (run step t as).2) := by
  simp [run, h]

theorem run_cons_error {step : S → A → List O × Except R S} {s : S} {a : A} {out : List O} {r : R}
    (h : step s a = (out, .error r)) (as : List A) : run step s (a :: as) = (out, .error r) := by
  simp [run, h]

theorem run_append_ok {step : S → A → List O × Except R S} {s t : S} {as : List A} {out : List O}
    (h : run step s as = (out, .ok t)) (bs : List A) :
    run step s (as ++ bs) = (out ++ (run step t bs).1, (run step t bs).2) := by
  induction as generalizing s out with
  | nil =>
    simp only [run, Prod.mk.injEq, Except.ok.injEq] at h
    obtain ⟨rfl, rfl⟩ := h
    simp
  | cons a as ih =>
    rcases hs : step s a with ⟨o, u | u⟩
    · simp [run, hs] at h
    · rw [run_cons_ok hs, Prod.mk.injEq] at h
      have hi := ih (Prod.ext rfl h.2 : run step u as = ((run step u as).1, .ok t))
      rw [List.cons_append, run_cons_ok hs, hi, ← h.1, List.append_assoc]

theorem run_cons {step : S → A → List O × Except R S} {s t : S} {a : A} {as : List A} {o p : List O}
    {x : Except R S} (h : step s a = (o, .ok t)) (h' : run step t as = (p, x)) :
    run step s (a :: as) = (o ++ p, x) := by
  rw [run_cons_ok h, h']

theorem run_append {step : S → A → List O × Except R S} {s t : S} {as bs : List A} {o p : List O}
    {x : Except R S} (h : run step s as = (o, .ok t)) (h' : run step t bs = (p, x)) :
    run step s (as ++ bs) = (o ++ p, x) := by
  rw [run_append_ok h, h']

theorem run_cons_silent {step : S → A → List O × Except R S} {s t : S} {a : A}
    (h : step s a = ([], .ok t)) (as : List A) : run step s (a :: as) = run step t as := by
  rw [run_cons_ok h]
  rfl

theorem run_append_silent {step : S → A → List O × Except R S} {s t : S} {as : List A}
    (h : run step s as = ([], .ok t)) (bs : List A) : run step s (as ++ bs) = run step t bs := by
  rw [run_append_ok h]
  rfl

theorem run_single (step : S → A → List O × Except R S) (s : S) (a : A) : run step s [a] = step s a := by
  rcases hs : step s a with ⟨o, u | u⟩
  · rw [run_cons_error hs]
  · rw [run_cons_ok hs, run, List.append_nil]

theorem run_concat {step : S → A → List O × Except R S} {s t : S} {as : List A} {out : List O}
    (h : run step s as = (out, .ok t)) (a : A) :
    run step s (as ++ [a]) = (out ++ (step t a).1, (step t a).2) := by
  rw [run_append_ok h, run_single]

theorem run_append_error {step : S → A → List O × Except R S} {s : S} {as : List A} {out : List O}
    {r : R} (h : run step s as = (out, .error r)) (bs : List A) :
    run step s (as ++ bs) = (out, .error r) := by
  induction as generalizing s out with
  | nil => simp [run] at h
  | cons a as ih =>
    rcases hs : step s a with ⟨o, u | u⟩
    · rw [run_cons_error hs] at h
      rw [List.cons_append, run_cons_error hs, h]
    · rw [run_cons_ok hs, Prod.mk.injEq] at h
      have hi := ih (Prod.ext rfl h.2 : run step u as = ((run step u as).1, .error r))
      rw [List.cons_append, run_cons_ok hs, hi, ← h.1]

/-- A machine that stops has a state in front of the symbol at which it does. -/
theorem run_stops {step : S → A → List O × Except R S} {s : S} {as : List A} {r : R}
    (h : (run step s as).2 = .error r) :
    ∃ front a t out, front ++ [a] <+: as ∧ run step s front = (out, .ok t) ∧ (step t a).2 = .error r := by
  induction as generalizing s with
  | nil => simp [run] at h
  | cons a as ih =>
    rcases hs : step s a with ⟨o, u | u⟩
    · rw [run_cons_error hs] at h
      exact ⟨[], a, s, [], by simp, rfl, by rw [hs]; exact h⟩
    · rw [run_cons_ok hs] at h
      obtain ⟨front, b, t, out, hfront, hrun, hstop⟩ := ih h
      exact ⟨a :: front, b, t, o ++ out, by simpa using hfront, by rw [run_cons_ok hs, hrun], hstop⟩

theorem run_prefix_ok {step : S → A → List O × Except R S} {s t : S} {as bs : List A} {out : List O}
    (h : run step s (as ++ bs) = (out, .ok t)) : ∃ o u, run step s as = (o, .ok u) := by
  rcases hs : run step s as with ⟨o, u | u⟩
  · rw [run_append_error hs] at h
    simp at h
  · exact ⟨o, u, rfl⟩

theorem run_invariant {step : S → A → List O × Except R S} {I : S → Prop}
    (hstep : ∀ s a t, I s → (step s a).2 = .ok t → I t) {s t : S} {as : List A}
    (hs : I s) (h : (run step s as).2 = .ok t) : I t := by
  induction as generalizing s with
  | nil =>
    simp only [run, Except.ok.injEq] at h
    exact h ▸ hs
  | cons a as ih =>
    rcases he : step s a with ⟨o, u | u⟩
    · simp [run_cons_error he] at h
    · rw [run_cons_ok he] at h
      exact ih (hstep s a u hs (by rw [he])) h

theorem run_outputs {step : S → A → List O × Except R S} {P : O → Prop} (hstep : ∀ s a, ∀ o ∈ (step s a).1, P o)
    (s : S) (as : List A) : ∀ o ∈ (run step s as).1, P o := by
  induction as generalizing s with
  | nil => simp [run]
  | cons a as ih =>
    intro o ho
    have hout := hstep s a
    rcases hs : step s a with ⟨out, t | t⟩
    · rw [run_cons_error hs] at ho
      exact hout o (by rwa [hs])
    · rw [run_cons_ok hs, List.mem_append] at ho
      rcases ho with ho | ho
      · exact hout o (by rwa [hs])
      · exact ih t o ho

/-- Outputs stand in a relation when each of them leaves a mark on the state,
which lasts, and which every later output respects. -/
theorem run_pairwise {step : S → A → List O × Except R S} {P : S → O → Prop} {Q : O → O → Prop}
    (hkeep : ∀ s a t o, P s o → (step s a).2 = .ok t → P t o)
    (hmark : ∀ s a t, (step s a).2 = .ok t → ∀ o ∈ (step s a).1, P t o)
    (hrel : ∀ s a o, P s o → ∀ q ∈ (step s a).1, Q o q) (hone : ∀ s a, (step s a).1.Pairwise Q)
    (s : S) (as : List A) : (run step s as).1.Pairwise Q := by
  have hpast : ∀ (as : List A) (s : S) (o : O), P s o → ∀ q ∈ (run step s as).1, Q o q := by
    intro as
    induction as with
    | nil => simp [run]
    | cons a as ih =>
      intro s o hs q hq
      rcases he : step s a with ⟨out, t | t⟩
      · rw [run_cons_error he] at hq
        exact hrel s a o hs q (by rwa [he])
      · rw [run_cons_ok he, List.mem_append] at hq
        rcases hq with hq | hq
        · exact hrel s a o hs q (by rwa [he])
        · exact ih t o (hkeep s a t o hs (by rw [he])) q hq
  induction as generalizing s with
  | nil => exact List.Pairwise.nil
  | cons a as ih =>
    have hout := hone s a
    rcases he : step s a with ⟨out, t | t⟩
    · rw [run_cons_error he]
      rwa [he] at hout
    · rw [he] at hout
      rw [run_cons_ok he, List.pairwise_append]
      refine ⟨hout, ih t, ?_⟩
      intro o ho q hq
      exact hpast as t o (hmark s a t (by rw [he]) o (by rwa [he])) q hq

theorem foldlM_drive (step : S → A → List O × Except R S) (handle : W → O → Except E W)
    (finish : R → W → E) (s : S) (w : W) (as : List A) :
    as.foldlM (drive step handle finish) (s, w) = (do
      let v ← (run step s as).1.foldlM handle w
      match (run step s as).2 with
      | .ok t => .ok (t, v)
      | .error r => .error (finish r v)) := by
  induction as generalizing s w with
  | nil => rfl
  | cons a as ih =>
    rcases hs : step s a with ⟨o, u | u⟩
    · rw [run_cons_error hs, List.foldlM_cons, drive, hs]
      cases o.foldlM handle w <;> rfl
    · rw [run_cons_ok hs, List.foldlM_cons, drive, hs]
      simp only [List.foldlM_append]
      cases o.foldlM handle w with
      | error e => rfl
      | ok v => exact ih u v

theorem starts_append (step : S → A → Except R S) (s : S) (as bs : List A) :
    starts step s (as ++ bs) = starts step s as ++ match as.foldlM step s with
      | .ok t => starts step t bs
      | .error _ => [] := by
  induction as generalizing s with
  | nil => rfl
  | cons a as ih =>
    rw [List.cons_append, starts, starts, List.foldlM_cons]
    cases step s a with
    | error r => rfl
    | ok t => exact congrArg ((s, a) :: ·) (ih t)

theorem starts_getElem? {step : S → A → Except R S} {s t : S} {as : List A} {a : A} {i : Nat} :
    (starts step s as)[i]? = some (t, a) ↔ (as.take i).foldlM step s = .ok t ∧ as[i]? = some a := by
  induction as generalizing s i with
  | nil => simp [starts]
  | cons b as ih =>
    cases i with
    | zero => simp [starts, pure, Except.pure]
    | succ i =>
      rw [starts, List.getElem?_cons_succ, List.getElem?_cons_succ, List.take_succ_cons, List.foldlM_cons]
      cases step s b with
      | error r => simp [bind, Except.bind]
      | ok u => exact ih

/-- Two results agree: the same early exit, or states related by `rel`. -/
inductive Agree (rel : S → T → Prop) : Except E S → Except E T → Prop
  | error (e : E) : Agree rel (.error e) (.error e)
  | ok {s : S} {t : T} (h : rel s t) : Agree rel (.ok s) (.ok t)

theorem Agree.foldlM {rel : S → T → Prop} {f : S → A → Except E S} {g : T → A → Except E T}
    (hstep : ∀ s t a, rel s t → Agree rel (f s a) (g t a)) {s : S} {t : T} (h : rel s t)
    (as : List A) : Agree rel (as.foldlM f s) (as.foldlM g t) := by
  induction as generalizing s t with
  | nil => exact .ok h
  | cons a as ih =>
    have hs := hstep s t a h
    simp only [List.foldlM_cons]
    generalize f s a = x at hs ⊢
    generalize g t a = y at hs ⊢
    cases hs with
    | error e => exact .error e
    | ok hr => exact ih hr

theorem Agree.and_right {rel : S → T → Prop} {I : T → Prop} {x : Except E S} {y : Except E T}
    (h : Agree rel x y) (hI : ∀ t, y = .ok t → I t) : Agree (fun s t => rel s t ∧ I t) x y := by
  cases h with
  | error e => exact .error e
  | ok hr => exact .ok ⟨hr, hI _ rfl⟩

theorem starts_simulated {rel : S → T → Prop} {f : S → A → Except E S} {g : T → A → Except E T}
    (hstep : ∀ s t a, rel s t → Agree rel (f s a) (g t a)) {s : S} {t : T} (h : rel s t)
    (as : List A) : ∀ q ∈ starts f s as, ∃ u, rel q.1 u := by
  induction as generalizing s t with
  | nil => simp [starts]
  | cons a as ih =>
    intro q hq
    rcases List.mem_cons.mp hq with rfl | hq
    · exact ⟨t, h⟩
    · have hs := hstep s t a h
      generalize f s a = x at hs hq
      generalize g t a = y at hs
      cases hs with
      | error e => simp at hq
      | ok hr => exact ih hr q hq

end Mealy
