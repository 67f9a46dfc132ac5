import BzccScanner.NickTableRefinement

/-! `HT_CopyStr`, assignment by assignment. The loop stops behind the last
element of `value` and the terminator is written where it stops, so that a
string of `HT_MAX_STR` characters or more is terminated outside the entry. -/

namespace BzccScanner

/-- The assignments to `value` from the index `i` on, where `string + i` points to these characters. -/
def copyWrites (i : Nat) : List TChar → List (Nat × TChar)
  | [] => [(i, 0)]
  | c :: string => if i < htMaxStr ∧ c ≠ 0 then (i, c) :: copyWrites (i + 1) string else [(i, 0)]

/-- `entry->value[i] = c` -/
def TableEntry.assign (entry : TableEntry) (w : Nat × TChar) : Except TableFault TableEntry :=
  if h : w.1 < htMaxStr then .ok { entry with value := entry.value.set w.1 w.2 } else .error .overrun

def copyStr (entry : TableEntry) (string : List TChar) : Except TableFault TableEntry :=
  (copyWrites 0 string).foldlM TableEntry.assign entry

/-- Only `value` is written, and it then holds what fits of the string, terminated. -/
structure CopiesInside (entry : TableEntry) (s string : List TChar) : Prop where
  inside : ∀ w ∈ copyWrites 0 string, w.1 < htMaxStr
  copied : ∃ copy, copyStr entry string = .ok copy ∧ copy.crc32 = entry.crc32 ∧ copy.next = entry.next ∧
    0 ∈ copy.value.toList ∧ wstr copy.value = s.take (htMaxStr - 1)

variable {s : List TChar} {i : Nat}

theorem copyWrites_eq (hs : 0 ∉ s) (hi : i ≤ htMaxStr) (rest : List TChar) : copyWrites i (s ++ 0 :: rest) =
    ((s.take (htMaxStr - i)).zipIdx i).map Prod.swap ++ [(min (i + s.length) htMaxStr, 0)] := by
  induction s generalizing i with
  | nil => simp [copyWrites, hi]
  | cons c s ih =>
    obtain ⟨hc, hs⟩ := not_or.mp (List.mem_cons.not.mp hs)
    rw [List.cons_append, copyWrites]
    by_cases hlt : i < htMaxStr
    · have hsub : htMaxStr - i = htMaxStr - (i + 1) + 1 := by omega
      rw [if_pos ⟨hlt, Ne.symm hc⟩, ih hs hlt, hsub, List.take_succ_cons, List.zipIdx_cons, List.map_cons,
        List.length_cons, Nat.add_right_comm i 1]
      rfl
    · have hsub : htMaxStr - i = 0 := by omega
      have hmin : min (i + (c :: s).length) htMaxStr = i := by omega
      rw [if_neg fun h => hlt h.1, hsub, hmin]
      rfl

/-- The characters `cs` in the array, from the index `i` on. -/
def overwrite (value : Vector TChar htMaxStr) (i : Nat) (cs : List TChar) : Vector TChar htMaxStr :=
  Vector.ofFn fun j : Fin htMaxStr =>
    if i ≤ (j : Nat) ∧ (j : Nat) < i + cs.length then cs.getD ((j : Nat) - i) 0 else value.get j

theorem getElem_overwrite (value : Vector TChar htMaxStr) (cs : List TChar) {j : Nat} (hj : j < htMaxStr) :
    (overwrite value i cs)[j] = if i ≤ j ∧ j < i + cs.length then cs.getD (j - i) 0 else value[j] :=
  Vector.getElem_ofFn hj

theorem overwrite_cons (value : Vector TChar htMaxStr) (hi : i < htMaxStr) (c : TChar) (cs : List TChar) :
    overwrite (value.set i c) (i + 1) cs = overwrite value i (c :: cs) := by
  apply Vector.ext
  intro j hj
  rw [getElem_overwrite, getElem_overwrite, List.length_cons]
  rcases Nat.lt_trichotomy j i with hlt | rfl | hgt
  · rw [if_neg (by omega), if_neg (by omega), Vector.getElem_set_ne hi hj (Nat.ne_of_gt hlt)]
  · rw [if_neg (by omega), if_pos (by omega), Vector.getElem_set_self, Nat.sub_self, List.getD_cons_zero]
  · have hsub : j - i = j - (i + 1) + 1 := by omega
    have hin : i + 1 ≤ j ∧ j < i + 1 + cs.length ↔ i ≤ j ∧ j < i + (cs.length + 1) := by omega
    rw [Vector.getElem_set_ne hi hj (Nat.ne_of_lt hgt), hsub, List.getD_cons_succ]
    exact if_congr hin rfl rfl

theorem foldlM_assign (entry : TableEntry) (cs : List TChar) (hi : i + cs.length ≤ htMaxStr) :
    ((cs.zipIdx i).map Prod.swap).foldlM TableEntry.assign entry =
      .ok { entry with value := overwrite entry.value i cs } := by
  induction cs generalizing i entry with
  | nil =>
    have hsame : overwrite entry.value i [] = entry.value := by
      apply Vector.ext
      intro j hj
      rw [getElem_overwrite]
      exact if_neg fun hin => Nat.not_lt.mpr hin.1 hin.2
    rw [hsame]
    rfl
  | cons c cs ih =>
    rw [List.length_cons] at hi
    have hlt : i < htMaxStr := by omega
    rw [List.zipIdx_cons, List.map_cons, List.foldlM_cons, ← overwrite_cons entry.value hlt]
    have hassign : entry.assign (i, c) = .ok { entry with value := entry.value.set i c } := dif_pos hlt
    exact (congrArg (· >>= _) hassign).trans (ih _ (by omega))

/-- The loop computes what `HT_New` and `HT_Set` take for it. -/
theorem copyStr_eq (hs : 0 ∉ s) (entry : TableEntry) (rest : List TChar) :
    copyStr entry (s ++ 0 :: rest) = (htCopyStr entry.value s).map fun value => { entry with value } := by
  have hlen : (s.take htMaxStr).length = min s.length htMaxStr := by rw [List.length_take, Nat.min_comm]
  have hvalue : overwrite entry.value 0 (s.take htMaxStr) =
      Vector.ofFn fun j : Fin htMaxStr => if (j : Nat) < min s.length htMaxStr then s.getD j 0
      else entry.value[j] := by
    apply Vector.ext
    intro j hj
    rw [getElem_overwrite, Vector.getElem_ofFn, hlen, Nat.zero_add, Nat.sub_zero]
    by_cases hin : j < min s.length htMaxStr
    · rw [if_pos ⟨Nat.zero_le j, hin⟩, if_pos hin, List.getD_eq_getElem?_getD, List.getElem?_take_of_lt hj,
        ← List.getD_eq_getElem?_getD]
    · rw [if_neg fun h => hin h.2, if_neg hin]
      rfl
  rw [copyStr, copyWrites_eq hs (Nat.zero_le _), List.foldlM_append, Nat.sub_zero, Nat.zero_add,
    foldlM_assign entry _ (by omega), htCopyStr, ← hvalue]
  show (TableEntry.assign _ (min s.length htMaxStr, 0) >>= pure) = _
  rw [bind_pure, TableEntry.assign]
  dsimp only
  split_ifs <;> rfl

theorem htCopyStr_overruns (h : htMaxStr ≤ s.length) (value : Vector TChar htMaxStr) :
    htCopyStr value s = .error .overrun := by
  rw [htCopyStr, Nat.min_eq_right h]
  rfl

/-- `HT_New` and `HT_Set` pass a string on as it is. -/
theorem htNew_overruns (h : htMaxStr ≤ s.length) (t : Table) (crc32 : UInt32) (a : HeapList.Addr)
    (raw : TableEntry) :
    t.htNew crc32 s (some (a, raw)) = .error .overrun := by
  rw [Table.htNew, htCopyStr_overruns h]
  rfl

theorem htSet_overruns (h : htMaxStr ≤ s.length) {t : Table} {reference : List TChar}
    {r : Option (Option HeapList.Addr × HeapList.Addr × TableEntry)}
    (hr : t.searchCrc32 (calcCRC32 reference) = .ok r) (a : HeapList.Addr) (raw : TableEntry) :
    t.htSet reference s (some (a, raw)) = .error .overrun := by
  rw [Table.htSet, hr]
  rcases r with _ | ⟨prev, b, e⟩
  · exact htNew_overruns h t _ a raw
  · show (htCopyStr e.value s >>= _) = _
    rw [htCopyStr_overruns h]
    rfl

/-- Every string is copied inside the entry that is shorter than the array, and no other one. -/
theorem copiesInside_iff (hs : 0 ∉ s) (entry : TableEntry) (rest : List TChar) :
    CopiesInside entry s (s ++ 0 :: rest) ↔ s.length < htMaxStr := by
  constructor
  · intro h
    have hlast := h.inside (min (0 + s.length) htMaxStr, 0) (by rw [copyWrites_eq hs (Nat.zero_le _)]; simp)
    dsimp only at hlast
    omega
  · intro hlen
    obtain ⟨value, hv, hw⟩ := htCopyStr_fits ⟨hs, hlen⟩ entry.value
    refine ⟨?_, { entry with value }, ?_, rfl, rfl, ?_, ?_⟩
    · intro w hmem
      rw [copyWrites_eq hs (Nat.zero_le _), List.mem_append] at hmem
      rcases hmem with hmem | hmem
      · obtain ⟨⟨c, j⟩, hj, rfl⟩ := List.mem_map.mp hmem
        have hlt := (List.mem_zipIdx hj).2.1
        rw [List.length_take] at hlt
        show j < htMaxStr
        omega
      · rw [List.mem_singleton.mp hmem]
        dsimp only
        omega
    · rw [copyStr_eq hs, hv]
      rfl
    · by_contra hnone
      have hfull : wstr value = value.toList := by
        refine List.takeWhile_eq_self_iff.mpr fun c hc => ?_
        simpa using fun h0 : c = 0 => hnone (h0 ▸ hc)
      have hsize := congrArg List.length (hw.symm.trans hfull)
      rw [Vector.length_toList] at hsize
      omega
    · rw [hw, List.take_of_length_le (by omega)]

def blankEntry : TableEntry := ⟨0, Vector.replicate _ 0, none⟩

theorem copiesInside_iff_nick : CopiesInside blankEntry [0x41, 0x63, 0x65] [0x41, 0x63, 0x65, 0] :=
  (copiesInside_iff (s := [0x41, 0x63, 0x65]) (by simp) blankEntry []).mpr (by decide)

/-- 64 characters: the terminator goes to the index 64. -/
theorem longString_leaves_entry : (htMaxStr, 0) ∈ copyWrites 0 (List.replicate htMaxStr 0x41 ++ [0]) ∧
    ¬ CopiesInside blankEntry (List.replicate htMaxStr 0x41) (List.replicate htMaxStr 0x41 ++ [0]) := by
  have hlast : (htMaxStr, 0) ∈ copyWrites 0 (List.replicate htMaxStr 0x41 ++ [0]) := by decide +kernel
  exact ⟨hlast, fun h => absurd (h.inside _ hlast) (by decide)⟩

end BzccScanner
