import Mathlib.Data.List.AList
import Mathlib.Data.List.Nodup
import Mathlib.Data.List.Perm.Subperm
import Mathlib.Tactic.Common

/-! Linked lists in a heap. A chain is the list of the nodes, with their
addresses, that a pointer leads through to another pointer. A search follows
the pointers themselves and gets stuck on an address that is not allocated, or
when it has passed more nodes than there are. -/

namespace HeapList

abbrev Addr := Nat

abbrev Heap (V : Type) := AList fun _ : Addr => V

variable {V : Type}

def Chain (next : V → Option Addr) (h : Heap V) : Option Addr → List (Addr × V) → Option Addr → Prop
  | p, [], q => p = q
  | p, c :: cs, q => p = some c.1 ∧ h.lookup c.1 = some c.2 ∧ Chain next h (next c.2) cs q

variable {next : V → Option Addr} {h h' : Heap V} {p q : Option Addr} {a b : Addr} {u v : V}
  {cs ds front back : List (Addr × V)}

theorem chain_append : Chain next h p (cs ++ ds) q ↔ ∃ m, Chain next h p cs m ∧ Chain next h m ds q := by
  induction cs generalizing p with
  | nil => simp [Chain]
  | cons c cs ih =>
    simp only [List.cons_append, Chain, ih]
    tauto

theorem Chain.frame (hc : Chain next h p cs q) (hf : ∀ c ∈ cs, h'.lookup c.1 = h.lookup c.1) :
    Chain next h' p cs q := by
  induction cs generalizing p with
  | nil => exact hc
  | cons c cs ih =>
    obtain ⟨hp, hl, ht⟩ := hc
    exact ⟨hp, (hf c (by simp)).trans hl, ih ht fun d hd => hf d (by simp [hd])⟩

theorem Chain.insert (hc : Chain next h p cs q) (ha : a ∉ cs.map Prod.fst) (v : V) :
    Chain next (h.insert a v) p cs q := by
  apply hc.frame
  intro c hm
  apply AList.lookup_insert_ne
  rintro rfl
  exact ha (List.mem_map_of_mem hm)

theorem Chain.erase (hc : Chain next h p cs q) (ha : a ∉ cs.map Prod.fst) :
    Chain next (h.erase a) p cs q := by
  apply hc.frame
  intro c hm
  apply AList.lookup_erase_ne
  rintro rfl
  exact ha (List.mem_map_of_mem hm)

theorem Chain.unique (hc : Chain next h p cs none) (hd : Chain next h p ds none) : cs = ds := by
  induction cs generalizing p ds with
  | nil =>
    cases ds with
    | nil => rfl
    | cons d ds => exact absurd (hc.symm.trans hd.1) (by simp)
  | cons c cs ih =>
    obtain ⟨hp, hl, ht⟩ := hc
    cases ds with
    | nil => exact absurd (hp.symm.trans hd) (by simp)
    | cons d ds =>
      obtain ⟨hp', hl', ht'⟩ := hd
      have ha : c.1 = d.1 := Option.some.inj (hp.symm.trans hp')
      have hv : c.2 = d.2 := by
        rw [ha, hl'] at hl
        exact (Option.some.inj hl).symm
      rw [← hv] at ht'
      rw [ih ht ht', Prod.ext ha hv]

theorem Chain.nodup (hc : Chain next h p cs none) : (cs.map Prod.fst).Nodup := by
  induction cs generalizing p with
  | nil => exact List.nodup_nil
  | cons c cs ih =>
    rw [List.map_cons, List.nodup_cons]
    refine ⟨fun hm => ?_, ih hc.2.2⟩
    obtain ⟨d, hd, ha⟩ := List.mem_map.mp hm
    obtain ⟨front, back, rfl⟩ := List.append_of_mem hd
    obtain ⟨m, -, ht⟩ := chain_append.mp hc.2.2
    have hm : m = p := ht.1.trans ((congrArg some ha).trans hc.1.symm)
    have he := Chain.unique (hm ▸ ht) hc
    have hlen := congrArg List.length he
    simp only [List.length_cons, List.length_append] at hlen
    omega

theorem Chain.mem (hc : Chain next h p cs q) {c : Addr × V} (hm : c ∈ cs) : h.lookup c.1 = some c.2 := by
  obtain ⟨front, back, rfl⟩ := List.append_of_mem hm
  obtain ⟨m, -, ht⟩ := chain_append.mp hc
  exact ht.2.1

theorem Chain.fresh (hc : Chain next h p cs q) (ha : h.lookup a = none) : a ∉ cs.map Prod.fst := by
  intro hm
  obtain ⟨c, hmem, rfl⟩ := List.mem_map.mp hm
  have hl := hc.mem hmem
  rw [ha] at hl
  cases hl

theorem Chain.length_le (hc : Chain next h p cs none) : cs.length ≤ h.keys.length := by
  have hs : cs.map Prod.fst ⊆ h.keys := by
    intro a ha
    obtain ⟨c, hm, rfl⟩ := List.mem_map.mp ha
    exact AList.mem_keys.mp (AList.lookup_isSome.mp (by rw [hc.mem hm]; rfl))
  simpa using (List.subperm_of_subset hc.nodup hs).length_le

theorem Chain.write (hc : Chain next h p (front ++ (a, u) :: back) none) (hv : next v = next u) :
    Chain next (h.insert a v) p (front ++ (a, v) :: back) none := by
  have hnd := hc.nodup
  rw [List.map_append, List.map_cons, List.nodup_middle, List.nodup_cons, List.mem_append, not_or] at hnd
  obtain ⟨m, hf, hm, -, hb⟩ := chain_append.mp hc
  have hf' := hf.insert hnd.1.1 v
  have hb' := hb.insert hnd.1.2 v
  exact chain_append.mpr ⟨m, hf', hm, AList.lookup_insert h, hv ▸ hb'⟩

theorem Chain.link (hc : Chain next h p (front ++ [(b, u)]) none) (ha : h.lookup a = none)
    (hv : next v = none) {w : V} (hw : next w = some a) :
    Chain next ((h.insert a v).insert b w) p (front ++ [(b, w), (a, v)]) none := by
  have hfresh := hc.fresh ha
  rw [List.map_append, List.mem_append, not_or] at hfresh
  have hab : a ≠ b := by simpa using hfresh.2
  have hnd := hc.nodup
  rw [List.map_append, List.map_cons, List.map_nil, List.nodup_middle, List.append_nil, List.nodup_cons] at hnd
  obtain ⟨m, hf, hm, -, -⟩ := chain_append.mp hc
  have hf' := (hf.insert hfresh.1 v).insert hnd.1 w
  have hla : ((h.insert a v).insert b w).lookup a = some v := by
    rw [AList.lookup_insert_ne hab, AList.lookup_insert]
  exact chain_append.mpr ⟨m, hf', hm, AList.lookup_insert _, hw, hla, hv⟩

theorem Chain.unlink (hc : Chain next h p (front ++ (b, u) :: (a, v) :: back) none) {w : V}
    (hw : next w = next v) :
    Chain next ((h.insert b w).erase a) p (front ++ (b, w) :: back) none := by
  have hnd := hc.nodup
  simp only [List.map_append, List.map_cons, List.nodup_append, List.nodup_cons, List.mem_cons, not_or] at hnd
  obtain ⟨-, ⟨⟨hba, hbb⟩, hab, -⟩, hdisj⟩ := hnd
  have hfb : b ∉ front.map Prod.fst := fun hm => hdisj b hm b (.inl rfl) rfl
  have hfa : a ∉ front.map Prod.fst := fun hm => hdisj a hm a (.inr (.inl rfl)) rfl
  obtain ⟨m, hf, hm, -, -, -, hb⟩ := chain_append.mp hc
  have hf' := (hf.insert hfb w).erase hfa
  have hb' := (hb.insert hbb w).erase hab
  have hlb : ((h.insert b w).erase a).lookup b = some w := by
    rw [AList.lookup_erase_ne hba, AList.lookup_insert]
  exact chain_append.mpr ⟨m, hf', hm, hlb, hw ▸ hb'⟩

theorem Chain.tail (hc : Chain next h p ((a, v) :: back) none) : Chain next (h.erase a) (next v) back none := by
  have hnd := hc.nodup
  rw [List.map_cons, List.nodup_cons] at hnd
  exact hc.2.2.erase hnd.1

inductive Stuck
  | dangling (a : Addr)
  | cyclic
  deriving DecidableEq, Repr

/-- The first node that satisfies `stop`, with the address of the node in front of it. -/
def search (next : V → Option Addr) (stop : V → Bool) (h : Heap V) :
    Nat → Option Addr → Option Addr → Except Stuck (Option (Option Addr × Addr × V))
  | _, _, none => .ok none
  | 0, _, some _ => .error .cyclic
  | n + 1, prev, some a =>
    match h.lookup a with
    | none => .error (.dangling a)
    | some v => if stop v then .ok (some (prev, a, v)) else search next stop h n (some a) (next v)

def locate (stop : V → Bool) : Option Addr → List (Addr × V) → Option (Option Addr × Addr × V)
  | _, [] => none
  | prev, c :: cs => if stop c.2 then some (prev, c.1, c.2) else locate stop (some c.1) cs

theorem Chain.search (hc : Chain next h p cs none) (stop : V → Bool) {n : Nat} (hn : cs.length ≤ n)
    (prev : Option Addr) : search next stop h n prev p = .ok (locate stop prev cs) := by
  induction cs generalizing n p prev with
  | nil =>
    obtain rfl : p = none := hc
    cases n <;> rfl
  | cons c cs ih =>
    obtain ⟨rfl, hl, ht⟩ := hc
    cases n with
    | zero => simp at hn
    | succ n =>
      simp only [HeapList.search, hl, locate]
      by_cases hs : stop c.2 = true
      · rw [if_pos hs, if_pos hs]
      · rw [if_neg hs, if_neg hs]
        exact ih ht (Nat.le_of_succ_le_succ hn) _

theorem locate_eq_none {stop : V → Bool} {prev : Option Addr} (hl : locate stop prev cs = none) :
    ∀ c ∈ cs, stop c.2 = false := by
  induction cs generalizing prev with
  | nil => simp
  | cons c cs ih =>
    rw [locate] at hl
    split_ifs at hl with hs
    intro d hd
    rcases List.mem_cons.mp hd with rfl | hd
    · simpa using hs
    · exact ih hl d hd

theorem locate_eq_some {stop : V → Bool} {prev pr : Option Addr}
    (hl : locate stop prev cs = some (pr, a, v)) : ∃ front back, cs = front ++ (a, v) :: back ∧
      stop v = true ∧ (∀ c ∈ front, stop c.2 = false) ∧
      pr = if front = [] then prev else front.getLast?.map Prod.fst := by
  induction cs generalizing prev with
  | nil => cases hl
  | cons c cs ih =>
    rw [locate] at hl
    split_ifs at hl with hs
    · simp only [Option.some.injEq, Prod.mk.injEq] at hl
      obtain ⟨rfl, rfl, rfl⟩ := hl
      exact ⟨[], cs, rfl, hs, by simp, rfl⟩
    · obtain ⟨front, back, rfl, hv, hf, rfl⟩ := ih hl
      refine ⟨c :: front, back, rfl, hv, ?_, ?_⟩
      · intro d hd
        rcases List.mem_cons.mp hd with rfl | hd
        · simpa using hs
        · exact hf d hd
      · cases front with
        | nil => rfl
        | cons d front => simp [List.getLast?_cons_cons]

theorem locate_middle {stop : V → Bool} {prev : Option Addr} (hf : ∀ c ∈ front, stop c.2 = false)
    (hv : stop v = true) : locate stop prev (front ++ (a, v) :: back) =
      some (if front = [] then prev else front.getLast?.map Prod.fst, a, v) := by
  induction front generalizing prev with
  | nil => simp [locate, hv]
  | cons c front ih =>
    rw [List.cons_append, locate, if_neg (by simp [hf c]), ih fun d hd => hf d (by simp [hd])]
    cases front with
    | nil => rfl
    | cons d front => simp [List.getLast?_cons_cons]

/-- Frees the nodes that a pointer leads through. -/
def free (next : V → Option Addr) : Nat → Heap V → Option Addr → Except Stuck (Heap V)
  | _, h, none => .ok h
  | 0, _, some _ => .error .cyclic
  | n + 1, h, some a =>
    match h.lookup a with
    | none => .error (.dangling a)
    | some v => free next n (h.erase a) (next v)

theorem Chain.free (hc : Chain next h p cs none) {n : Nat} (hn : cs.length ≤ n) :
    ∃ h', free next n h p = .ok h' ∧ ∀ x, x ∈ h' ↔ x ∈ h ∧ x ∉ cs.map Prod.fst := by
  induction cs generalizing h n p with
  | nil =>
    obtain rfl : p = none := hc
    refine ⟨h, ?_, by simp⟩
    cases n <;> rfl
  | cons c cs ih =>
    obtain ⟨a, v⟩ := c
    have htail := hc.tail
    obtain ⟨rfl, hl, -⟩ := hc
    cases n with
    | zero => simp at hn
    | succ n =>
      obtain ⟨h', hfree, hmem⟩ := ih htail (Nat.le_of_succ_le_succ hn)
      refine ⟨h', ?_, fun x => ?_⟩
      · dsimp only at hl
        rw [HeapList.free, hl]
        exact hfree
      · rw [hmem, AList.mem_erase, List.map_cons, List.mem_cons]
        tauto

end HeapList
