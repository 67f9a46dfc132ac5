import Mathlib.Data.List.Induction
import BzccScanner.SessionCalls

/-! Which sequences of members an uncancelled scan accepts: those in which
nothing is skipped over. -/

namespace BzccScanner

open CString

def Counters.step (c : Counters) (k : Item) : Option Counters :=
  c.advance (k.depth == 5) k.serverIndex k.playerIndex

/-- Every index in front of a member's is that of another member. -/
def Item.Continues (items : List Item) (k : Item) : Prop :=
  k.serverIndex < maxServers ∧ k.playerIndex < maxPlayers ∧
    (∀ n < k.serverIndex, ∃ i ∈ items, i.serverIndex = n) ∧
    (k.depth = 5 → ∀ m < k.playerIndex, ∃ i ∈ items, i.depth = 5 ∧ i.serverIndex = k.serverIndex ∧
      i.playerIndex = m)

def Complete (items : List Item) : Prop := ∀ k ∈ items, k.Continues items

structure Counters.Tallies (c : Counters) (items : List Item) : Prop where
  servers : ∀ n, (∃ i ∈ items, i.serverIndex = n) ↔ n < c.servers
  players : ∀ m, (∃ i ∈ items, i.depth = 5 ∧ i.serverIndex + 1 = c.servers ∧ i.playerIndex = m) ↔ m < c.players

variable {c d : Counters} {items : List Item} {k : Item}

theorem Counters.tallies_nil : Counters.Tallies ⟨0, 0⟩ [] := ⟨by simp, by simp⟩

theorem exists_mem_append_singleton {P : Item → Prop} :
    (∃ i ∈ items ++ [k], P i) ↔ (∃ i ∈ items, P i) ∨ P k := by
  simp only [List.mem_append, List.mem_singleton, or_and_right, exists_or, exists_eq_left]

theorem continues_append_singleton {i : Item} (hs : i.serverIndex ≤ k.serverIndex)
    (hp : i.serverIndex = k.serverIndex → i.playerIndex ≤ k.playerIndex) :
    i.Continues (items ++ [k]) ↔ i.Continues items := by
  simp only [Item.Continues, exists_mem_append_singleton]
  refine and_congr_right' (and_congr_right' (and_congr ?_ ?_))
  · refine forall₂_congr fun n hn => or_iff_left ?_
    omega
  · refine forall_congr' fun _ => forall₂_congr fun m hm => or_iff_left ?_
    rintro ⟨-, he, hm'⟩
    have := hp he.symm
    omega

theorem complete_append_singleton (ho : ∀ i ∈ items, i.Precedes k) :
    Complete (items ++ [k]) ↔ Complete items ∧ k.Continues items := by
  simp only [Complete, List.mem_append, List.mem_singleton, or_imp, forall_and, forall_eq]
  refine and_congr ?_ (continues_append_singleton (Nat.le_refl _) fun _ => Nat.le_refl _)
  refine forall₂_congr fun i hi => continues_append_singleton ?_ ?_
  · have := ho i hi
    simp only [Item.Precedes] at this
    omega
  · have hfl := i.playerIndex_le_floor
    have := ho i hi
    simp only [Item.Precedes] at this
    omega

theorem Counters.Tallies.step_new (h : c.Tallies items) (hi : k.serverIndex < maxServers)
    (hj : k.playerIndex < maxPlayers) (hk : k.serverIndex = c.servers) :
    (k.Continues items ∧ ∃ d, c.step k = some d ∧ d.Tallies (items ++ [k])) ∨
      (¬ k.Continues items ∧ c.step k = none) := by
  have hnone : ∀ i ∈ items, i.serverIndex ≠ k.serverIndex := by
    intro i hi he
    have := (h.servers i.serverIndex).mp ⟨i, hi, rfl⟩
    omega
  have hstep := c.advance_eq (k.depth == 5) hi hj (Nat.le_of_eq hk) (by rw [if_pos hk])
  have hservers : ∀ n, (∃ i ∈ items ++ [k], i.serverIndex = n) ↔ n < k.serverIndex + 1 := by
    intro n
    rw [exists_mem_append_singleton, h.servers]
    omega
  have hplayers : ∀ m, (∃ i ∈ items ++ [k], i.depth = 5 ∧ i.serverIndex + 1 = k.serverIndex + 1 ∧
      i.playerIndex = m) ↔
      k.depth = 5 ∧ k.playerIndex = m := by
    intro m
    rw [exists_mem_append_singleton]
    constructor
    · rintro (⟨i, hi, -, he, -⟩ | ⟨hd, -, hm⟩)
      · exact absurd (Nat.succ.inj he) (hnone i hi)
      · exact ⟨hd, hm⟩
    · rintro ⟨hd, hm⟩
      exact .inr ⟨hd, rfl, hm⟩
  have hfront : ∀ n < k.serverIndex, ∃ i ∈ items, i.serverIndex = n := fun n hn => (h.servers n).mpr (hk ▸ hn)
  by_cases hd : k.depth = 5
  · by_cases h0 : k.playerIndex = 0
    · refine .inl ⟨⟨hi, hj, hfront, fun _ m hm => by omega⟩, ⟨k.serverIndex + 1, 1⟩, ?_, hservers, ?_⟩
      · rw [step, hstep]
        simp [hd, h0]
      · intro m
        show _ ↔ m < 1
        rw [hplayers]
        omega
    · refine .inr ⟨?_, ?_⟩
      · rintro ⟨-, -, -, hp⟩
        obtain ⟨i, hi, -, he, -⟩ := hp hd 0 (by omega)
        exact hnone i hi he
      · rw [step, hstep, if_pos ⟨by simpa using hd, Nat.pos_of_ne_zero h0⟩]
  · refine .inl ⟨⟨hi, hj, hfront, fun h => absurd h hd⟩, ⟨k.serverIndex + 1, 0⟩, ?_, hservers, ?_⟩
    · rw [step, hstep]
      simp [hd]
    · intro m
      rw [hplayers]
      simp [hd]

theorem Counters.Tallies.step_open (h : c.Tallies items) (ho : ∀ i ∈ items, i.Precedes k)
    (hi : k.serverIndex < maxServers) (hj : k.playerIndex < maxPlayers) (hk : k.serverIndex < c.servers) :
    (k.Continues items ∧ ∃ d, c.step k = some d ∧ d.Tallies (items ++ [k])) ∨
      (¬ k.Continues items ∧ c.step k = none) := by
  have hlast : k.serverIndex + 1 = c.servers := by
    obtain ⟨i, hi, he⟩ := (h.servers (c.servers - 1)).mpr (by omega)
    have := ho i hi
    simp only [Item.Precedes] at this
    omega
  have hle : c.players ≤ k.playerIndex + 1 := by
    by_contra hgt
    obtain ⟨i, hi, -, he, hp⟩ := (h.players (c.players - 1)).mpr (by omega)
    have := ho i hi
    have := i.playerIndex_le_floor
    simp only [Item.Precedes] at *
    omega
  have hstep := c.advance_eq (k.depth == 5) hi hj (Nat.le_of_lt hk) (by rw [if_neg (by omega)])
  have hservers : ∀ n, (∃ i ∈ items ++ [k], i.serverIndex = n) ↔ n < c.servers := by
    intro n
    rw [exists_mem_append_singleton, h.servers]
    omega
  have hplayers : ∀ m, (∃ i ∈ items ++ [k], i.depth = 5 ∧ i.serverIndex + 1 = c.servers ∧ i.playerIndex = m) ↔
      m < c.players ∨ k.depth = 5 ∧ k.playerIndex = m := by
    intro m
    rw [exists_mem_append_singleton, h.players]
    simp only [hlast, true_and]
  have hfront : ∀ n < k.serverIndex, ∃ i ∈ items, i.serverIndex = n := fun n hn => (h.servers n).mpr (by omega)
  have hsame : ∀ m, (∃ i ∈ items, i.depth = 5 ∧ i.serverIndex = k.serverIndex ∧ i.playerIndex = m) ↔
      m < c.players := by
    intro m
    rw [← h.players, ← hlast]
    simp only [Nat.add_right_cancel_iff]
  by_cases hd : k.depth = 5
  · by_cases hs : c.players < k.playerIndex
    · refine .inr ⟨?_, ?_⟩
      · rintro ⟨-, -, -, hp⟩
        have := (hsame _).mp (hp hd c.players hs)
        omega
      · rw [step, hstep, if_pos ⟨by simpa using hd, hs⟩]
    · refine .inl ⟨⟨hi, hj, hfront, fun _ m hm => (hsame m).mpr (by omega)⟩, ⟨c.servers, k.playerIndex + 1⟩, ?_,
        hservers, ?_⟩
      · rw [step, hstep, if_neg (by simpa [hd] using hs), if_pos (by simpa using hd)]
      · intro m
        show _ ↔ m < k.playerIndex + 1
        rw [hplayers]
        omega
  · refine .inl ⟨⟨hi, hj, hfront, fun h => absurd h hd⟩, c, ?_, hservers, ?_⟩
    · rw [step, hstep]
      simp [hd]
    · intro m
      rw [hplayers]
      simp [hd]

theorem Counters.Tallies.step (h : c.Tallies items) (ho : ∀ i ∈ items, i.Precedes k) :
    (k.Continues items ∧ ∃ d, c.step k = some d ∧ d.Tallies (items ++ [k])) ∨
      (¬ k.Continues items ∧ c.step k = none) := by
  by_cases hr : maxServers ≤ k.serverIndex ∨ maxPlayers ≤ k.playerIndex ∨ c.servers < k.serverIndex
  · refine .inr ⟨?_, advance_eq_none hr⟩
    rintro ⟨hi, hj, hs, -⟩
    have hgt : c.servers < k.serverIndex := by omega
    have := (h.servers _).mp (hs _ hgt)
    omega
  · have hi : k.serverIndex < maxServers := by omega
    have hj : k.playerIndex < maxPlayers := by omega
    by_cases hk : k.serverIndex = c.servers
    · exact h.step_new hi hj hk
    · exact h.step_open ho hi hj (by omega)

/-- A run over members in order accepts them all exactly when nothing is skipped over. -/
theorem Counters.run_cases (h : items.Pairwise Item.Precedes) :
    (Complete items ∧ ∃ c, items.foldlM Counters.step ⟨0, 0⟩ = some c ∧ c.Tallies items) ∨
      (¬ Complete items ∧ items.foldlM Counters.step ⟨0, 0⟩ = none) := by
  induction items using List.reverseRecOn with
  | nil => exact .inl ⟨by simp [Complete], _, rfl, tallies_nil⟩
  | append_singleton items k ih =>
    rw [List.pairwise_append] at h
    have ho : ∀ i ∈ items, i.Precedes k := fun i hi => h.2.2 i hi k (by simp)
    rw [complete_append_singleton ho, List.foldlM_append]
    rcases ih h.1 with ⟨hc, c, hr, ht⟩ | ⟨hc, hr⟩
    · rw [hr]
      rcases ht.step ho with ⟨hk, d, hd, htd⟩ | ⟨hk, hd⟩
      · refine .inl ⟨⟨hc, hk⟩, d, ?_, htd⟩
        simp [hd]
      · refine .inr ⟨fun hn => hk hn.2, ?_⟩
        simp [hd]
    · exact .inr ⟨fun hn => hc hn.1, by rw [hr]; rfl⟩

end BzccScanner
