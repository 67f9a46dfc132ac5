import Mathlib.Data.Finset.Basic
import Mathlib.Tactic.Common

/-! Programs that acquire, use and release resources. The trace of a program is
tracked by the set of what is held, and gets stuck on what is acquired twice or
released without being held. Uses of what is not held are strays, and are listed. -/

namespace Resources

variable {R α β : Type}

inductive Event (R : Type)
  | acquire (r : R)
  | use (r : R)
  | release (r : R)

/-- A value with the events on the way to it. -/
structure Traced (R α : Type) where
  events : List (Event R)
  value : α

namespace Traced

def pure (a : α) : Traced R α := ⟨[], a⟩

def bind (x : Traced R α) (f : α → Traced R β) : Traced R β :=
  ⟨x.events ++ (f x.value).events, (f x.value).value⟩

instance : Monad (Traced R) where
  pure := Traced.pure
  bind := Traced.bind

def emit (es : List (Event R)) : Traced R Unit := ⟨es, ()⟩

@[simp] theorem value_pure (a : α) : (Pure.pure a : Traced R α).value = a := rfl

@[simp] theorem value_bind (x : Traced R α) (f : α → Traced R β) : (x >>= f).value = (f x.value).value := rfl

end Traced

variable [DecidableEq R]

/-- What is held behind the events, and the strays among them. -/
def track (held : Finset R) : List (Event R) → Option (Finset R × List R)
  | [] => some (held, [])
  | .acquire r :: es => if r ∈ held then none else track (insert r held) es
  | .use r :: es => (track held es).map fun t => (t.1, if r ∈ held then t.2 else r :: t.2)
  | .release r :: es => if r ∈ held then track (held.erase r) es else none

theorem track_nil (held : Finset R) : track held [] = some (held, []) := rfl

theorem track_acquire {held : Finset R} {r : R} (h : r ∉ held) (es : List (Event R)) :
    track held (.acquire r :: es) = track (insert r held) es := by
  rw [track, if_neg h]

theorem track_use {held : Finset R} {r : R} (h : r ∈ held) (es : List (Event R)) :
    track held (.use r :: es) = track held es := by
  simp only [track, if_pos h, Option.map_id']

theorem track_release {held : Finset R} {r : R} (h : r ∈ held) (es : List (Event R)) :
    track held (.release r :: es) = track (held.erase r) es := by
  rw [track, if_pos h]

theorem track_append {held after : Finset R} {es : List (Event R)} {strays : List R}
    (h : track held es = some (after, strays)) (fs : List (Event R)) :
    track held (es ++ fs) = (track after fs).map fun t => (t.1, strays ++ t.2) := by
  induction es generalizing held strays with
  | nil =>
    obtain ⟨rfl, rfl⟩ := Prod.mk.inj (Option.some.inj h)
    simp only [List.nil_append, Option.map_id']
  | cons e es ih =>
    cases e with
    | acquire r =>
      by_cases hr : r ∈ held
      · simp [track, hr] at h
      · rw [track_acquire hr] at h
        rw [List.cons_append, track_acquire hr, ih h]
    | use r =>
      by_cases hr : r ∈ held
      · rw [track_use hr] at h
        rw [List.cons_append, track_use hr, ih h]
      · rw [track] at h
        obtain ⟨⟨mid, rest⟩, hes, ht⟩ := Option.map_eq_some_iff.mp h
        obtain ⟨rfl, rfl⟩ := Prod.mk.inj ht
        rw [List.cons_append, track, ih hes, Option.map_map]
        simp [Function.comp_def, hr]
    | release r =>
      by_cases hr : r ∈ held
      · rw [track_release hr] at h
        rw [List.cons_append, track_release hr, ih h]
      · simp [track, hr] at h

/-- Events without strays in front of others. -/
theorem track_append_of {held after : Finset R} {es : List (Event R)} (h : track held es = some (after, []))
    (fs : List (Event R)) : track held (es ++ fs) = track after fs := by
  rw [track_append h]
  simp only [List.nil_append, Option.map_id']

/-- From `held` on, the program acquires and releases what it may, and ends as `Q` says. -/
def Leads (held : Finset R) (x : Traced R α) (Q : α → Finset R → List R → Prop) : Prop :=
  ∃ after strays, track held x.events = some (after, strays) ∧ Q x.value after strays

namespace Leads

variable {held : Finset R} {x : Traced R α} {f : α → Traced R β} {Q : α → Finset R → List R → Prop}
  {P : β → Finset R → List R → Prop}

theorem pure {a : α} (h : Q a held []) : Leads held (Pure.pure a) Q := ⟨held, [], rfl, h⟩

theorem bind (hx : Leads held x Q) (hf : ∀ a after strays, Q a after strays →
    Leads after (f a) fun b final rest => P b final (strays ++ rest)) : Leads held (x >>= f) P := by
  obtain ⟨mid, strays, hmid, hQ⟩ := hx
  obtain ⟨after, rest, hafter, hP⟩ := hf x.value mid strays hQ
  refine ⟨after, strays ++ rest, ?_, hP⟩
  show track held (x.events ++ (f x.value).events) = some (after, strays ++ rest)
  rw [track_append hmid, hafter]
  rfl

/-- Events in front of a program. -/
theorem emit_stray {es : List (Event R)} {y : Traced R β} (after : Finset R) (strays : List R)
    (hes : track held es = some (after, strays))
    (hy : Leads after y fun b final rest => P b final (strays ++ rest)) :
    Leads held (Traced.emit es >>= fun _ => y) P :=
  bind (Q := fun _ mid rest => mid = after ∧ rest = strays) ⟨after, strays, hes, rfl, rfl⟩
    fun _ _ _ h => h.1 ▸ h.2 ▸ hy

theorem emit {es : List (Event R)} {y : Traced R β} (after : Finset R) (hes : track held es = some (after, []))
    (hy : Leads after y P) : Leads held (Traced.emit es >>= fun _ => y) P :=
  emit_stray after [] hes hy

end Leads

end Resources
