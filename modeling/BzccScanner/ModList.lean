import BzccScanner.GameStore

/-! `split_raw_mod_ids` on every list of items, against the format that it is
written for. What the code does is said by its items too: how many of them it
takes, what it stores for them, and what it returns. -/

namespace BzccScanner

open CString

def modItems (s : List Byte) : List (List Byte) := s.splitOn semicolon

variable {max : Nat}

/-- The first entries are replaced. -/
def written (modIds : Vector UInt32 max) (values : List UInt32) : Vector UInt32 max :=
  Vector.ofFn fun j => values.getD j (modIds.get j)

section format

/-- An item of the format: blanks and then 1 to 15 digits of a number of 32 bits. -/
def ModItem (item : List Byte) : Prop :=
  let digits := item.dropWhile isSpace
  1 ≤ digits.length ∧ digits.length ≤ 15 ∧ digits.all isDigit = true ∧ digitsValue digits < 2 ^ 32

instance : DecidablePred ModItem := fun _ => inferInstanceAs (Decidable (_ ∧ _))

def itemValue (item : List Byte) : UInt32 := UInt32.ofNat (digitsValue (item.dropWhile isSpace))

def ModFormat (max : Nat) (s : List Byte) : Prop := (modItems s).length ≤ max ∧ ∀ item ∈ modItems s, ModItem item

instance (max : Nat) (s : List Byte) : Decidable (ModFormat max s) := inferInstanceAs (Decidable (_ ∧ _))

/-- What the format says: the values of the items, or nothing. -/
def decodeModIds (s : List Byte) (modIds : Vector UInt32 max) : Nat × Vector UInt32 max :=
  if ModFormat max s then ((modItems s).length, written modIds ((modItems s).map itemValue)) else (0, modIds)

end format

section code

/-- The items that the code takes, an empty one and every one without blanks among them. -/
def Taken (item : List Byte) : Prop := item.all isDigit = true ∧ item.length < modIdStrlen

instance : DecidablePred Taken := fun _ => inferInstanceAs (Decidable (_ ∧ _))

def storedValue (item : List Byte) : UInt32 := UInt32.ofInt (atoi item)

/-- What is stored where `room` entries are left in front of the last one. -/
def storedValues (room : Nat) (items : List (List Byte)) : List UInt32 :=
  ((items.takeWhile fun item => decide (Taken item)).take room).map storedValue

/-- What is returned behind `count` items. -/
def returned (max count : Nat) (items : List (List Byte)) : Nat :=
  if ∀ item ∈ items, Taken item then
    if count + items.length < max then count + items.length else if count + items.length = max then 1 else 0
  else 0

/-- The code item by item. -/
def itemLoop (modIds : Vector UInt32 max) (modIndex : Nat) : List (List Byte) → Nat × Vector UInt32 max
  | [] => (modIndex, modIds)
  | item :: items =>
    if Taken item then
      if h : modIndex + 1 ≥ max then (if items = [] then 1 else 0, modIds)
      else itemLoop (modIds.set modIndex (storedValue item) (lt_of_not_full h)) (modIndex + 1) items
    else (0, modIds)

theorem itemLoop_not_taken {item : List Byte} (h : ¬ Taken item) (modIds : Vector UInt32 max) (modIndex : Nat)
    (items : List (List Byte)) : itemLoop modIds modIndex (item :: items) = (0, modIds) := by
  rw [itemLoop, if_neg h]

theorem exists_modItems (s : List Byte) : ∃ item items, modItems s = item :: items :=
  List.exists_cons_of_ne_nil (List.splitOn_ne_nil semicolon s)

theorem modItems_cons (c : Byte) (cs : List Byte) : modItems (c :: cs) =
    if c = semicolon then [] :: modItems cs else (modItems cs).modifyHead (c :: ·) := by
  rw [modItems, List.splitOn_cons_eq_if_modifyHead]
  simp only [beq_iff_eq]
  rfl

theorem splitLoop_eq {digits : List Byte} (hd : Taken digits) (modIds : Vector UInt32 max) (modIndex : Nat)
    (s : List Byte) :
    splitLoop modIds modIndex digits s = itemLoop modIds modIndex ((modItems s).modifyHead (digits ++ ·)) := by
  induction s generalizing modIds modIndex digits with
  | nil =>
    have hitems : (modItems []).modifyHead (digits ++ ·) = [digits] := by simp [modItems]
    rw [hitems, itemLoop, if_pos hd, splitLoop]
    rfl
  | cons c cs ih =>
    obtain ⟨item, items, hitems⟩ := exists_modItems cs
    by_cases hc : c = semicolon
    · have hsplit : (modItems (c :: cs)).modifyHead (digits ++ ·) = digits :: modItems cs := by
        rw [modItems_cons, if_pos hc, List.modifyHead_cons, List.append_nil]
      have hnil : Taken [] := ⟨rfl, by decide⟩
      have hid : (modItems cs).modifyHead ([] ++ ·) = modItems cs := by rw [hitems]; rfl
      rw [hsplit, itemLoop, if_pos hd, splitLoop, if_pos hc, hitems,
        if_neg (List.cons_ne_nil item items), ← hitems]
      split_ifs
      · rfl
      · rw [ih hnil, hid]
        rfl
    · have hsplit : (modItems (c :: cs)).modifyHead (digits ++ ·) = (digits ++ c :: item) :: items := by
        rw [modItems_cons, if_neg hc, hitems, List.modifyHead_cons, List.modifyHead_cons]
      have hrest : (modItems cs).modifyHead ((digits ++ [c]) ++ ·) = (digits ++ c :: item) :: items := by
        rw [hitems, List.modifyHead_cons, List.append_assoc]
        rfl
      rw [hsplit, splitLoop, if_neg hc]
      split_ifs with hdigit hlen
      · refine (itemLoop_not_taken ?_ modIds modIndex items).symm
        rintro ⟨-, hlt⟩
        simp only [List.length_append, List.length_cons] at hlt
        omega
      · rw [← hrest]
        apply ih
        refine ⟨?_, ?_⟩
        · simp [hd.1, hdigit]
        · simp only [List.length_append, List.length_singleton]
          omega
      · refine (itemLoop_not_taken ?_ modIds modIndex items).symm
        rintro ⟨hall, -⟩
        simp [hdigit] at hall

theorem written_nil (modIds : Vector UInt32 max) : written modIds [] = modIds := by
  ext j hj
  simp [written, Vector.get]

theorem written_set (modIds : Vector UInt32 max) {values : List UInt32} (h : values.length < max) (v : UInt32) :
    (written modIds values).set values.length v = written modIds (values ++ [v]) := by
  ext j hj
  rw [Vector.getElem_set]
  by_cases hlt : j < values.length
  · simp [written, List.getElem?_append_left hlt, Nat.ne_of_gt hlt]
  · by_cases heq : values.length = j
    · subst heq
      simp [written]
    · have hgt : (values ++ [v]).length ≤ j := by simp; omega
      simp [written, heq, hlt, List.getElem?_eq_none hgt]

theorem returned_cons {item : List Byte} (h : Taken item) (count : Nat) (items : List (List Byte)) :
    returned max count (item :: items) = returned max (count + 1) items := by
  have hsum : count + (item :: items).length = count + 1 + items.length := by
    rw [List.length_cons]
    omega
  simp only [returned, List.forall_mem_cons, h, true_and, hsum]

theorem returned_beyond {count : Nat} {items : List (List Byte)} (h : max < count + items.length) :
    returned max count items = 0 := by
  unfold returned
  split_ifs <;> omega

theorem storedValues_succ {item : List Byte} (h : Taken item) (room : Nat) (items : List (List Byte)) :
    storedValues (room + 1) (item :: items) = storedValue item :: storedValues room items := by
  simp [storedValues, h]

theorem storedValues_zero (items : List (List Byte)) : storedValues 0 items = [] := rfl

theorem itemLoop_eq (modIds : Vector UInt32 max) {values : List UInt32} (h : values.length < max)
    (items : List (List Byte)) : itemLoop (written modIds values) values.length items =
      (returned max values.length items,
        written modIds (values ++ storedValues (max - 1 - values.length) items)) := by
  induction items generalizing values with
  | nil => simp [itemLoop, returned, storedValues, h]
  | cons item items ih =>
    by_cases htaken : Taken item
    · rw [itemLoop, if_pos htaken]
      by_cases hfull : values.length + 1 ≥ max
      · have hroom : max - 1 - values.length = 0 := by omega
        rw [dif_pos hfull, hroom, storedValues_zero, List.append_nil]
        by_cases hnil : items = []
        · have hlast : values.length + 1 = max := by omega
          simp [returned, htaken, hnil, hlast]
        · have hpos := List.length_pos_of_ne_nil hnil
          rw [if_neg hnil, returned_cons htaken, returned_beyond (by omega)]
      · have hroom : max - 1 - values.length = max - 1 - (values ++ [storedValue item]).length + 1 := by
          simp only [List.length_append, List.length_singleton]
          omega
        have hlt : (values ++ [storedValue item]).length < max := by
          simp only [List.length_append, List.length_singleton]
          omega
        have hstep := ih hlt
        rw [dif_neg hfull, written_set modIds h, returned_cons htaken, hroom, storedValues_succ htaken]
        simpa using hstep
    · rw [itemLoop_not_taken htaken]
      simp [returned, storedValues, htaken]

/-- The code, said by the items of the string. -/
theorem splitRawModIds_eq (hmax : 1 ≤ max) (s : List Byte) (modIds : Vector UInt32 max) :
    splitRawModIds s modIds =
      (returned max 0 (modItems s), written modIds (storedValues (max - 1) (modItems s))) := by
  have hnil : Taken [] := ⟨rfl, by decide⟩
  have hloop := splitLoop_eq hnil modIds 0 s
  obtain ⟨item, items, hitems⟩ := exists_modItems s
  have hid : (modItems s).modifyHead ([] ++ ·) = modItems s := by rw [hitems]; rfl
  have hpos : ([] : List UInt32).length < max := hmax
  have hrun := itemLoop_eq modIds hpos (modItems s)
  rw [written_nil] at hrun
  rw [splitRawModIds, hloop, hid]
  exact hrun

end code

section agreement

variable {modIds : Vector UInt32 max} {values values' : List UInt32} {s item : List Byte}
    {items : List (List Byte)}

theorem written_toList (h : values.length ≤ max) :
    (written modIds values).toList = values ++ modIds.toList.drop values.length := by
  apply List.ext_getElem
  · simp [h]
  · intro j hj _
    by_cases hlt : j < values.length
    · simp [written, List.getElem_append_left hlt, hlt]
    · have hj' : values.length + (j - values.length) = j := by omega
      simp [written, List.getElem_append_right (Nat.le_of_not_lt hlt), hlt, Vector.get, hj']

theorem written_inj (h : values.length ≤ max) (hlen : values.length = values'.length) :
    written modIds values = written modIds values' ↔ values = values' := by
  constructor
  · intro he
    have hl := congrArg Vector.toList he
    rw [written_toList h, written_toList (hlen ▸ h)] at hl
    exact (List.append_inj hl hlen).1
  · exact congrArg _

theorem written_eq_self_iff (h : values.length ≤ max) :
    written modIds values = modIds ↔ values <+: modIds.toList := by
  rw [← Vector.toList_inj, written_toList h]
  constructor
  · intro he
    exact ⟨_, he⟩
  · rintro ⟨rest, he⟩
    rw [← he, List.drop_left]

theorem length_storedValues_le (room : Nat) (items : List (List Byte)) :
    (storedValues room items).length ≤ room := by
  rw [storedValues, List.length_map, List.length_take]
  exact Nat.min_le_left _ _

theorem dropWhile_isSpace (h : item.all isDigit = true) : item.dropWhile isSpace = item := by
  cases item with
  | nil => rfl
  | cons c cs =>
    simp only [List.all_cons, Bool.and_eq_true] at h
    rw [List.dropWhile_cons_of_neg (by simp [isSpace_eq_false_of_isDigit h.1])]

theorem storedValue_eq (h : item.all isDigit = true) :
    storedValue item = UInt32.ofNat (min (digitsValue item) intMax) := ofInt_atoi_digits h

theorem storedValue_eq_itemValue_iff (h : item.all isDigit = true) (hv : digitsValue item < 2 ^ 32) :
    storedValue item = itemValue item ↔ digitsValue item ≤ intMax := by
  rw [storedValue_eq h, itemValue, dropWhile_isSpace h, ← UInt32.toNat_inj,
    UInt32.toNat_ofNat_of_lt' (Nat.lt_of_le_of_lt (Nat.min_le_left _ _) hv), UInt32.toNat_ofNat_of_lt' hv]
  omega

theorem Taken.of_format (h : ModItem item) (hd : item.all isDigit = true) : Taken item := by
  obtain ⟨-, hlen, -, -⟩ := h
  rw [dropWhile_isSpace hd] at hlen
  exact ⟨hd, Nat.lt_succ_of_le hlen⟩

theorem storedValues_all {room : Nat} (h : ∀ item ∈ items, Taken item) (hroom : items.length ≤ room) :
    storedValues room items = items.map storedValue := by
  have htake : (items.takeWhile fun item => decide (Taken item)) = items :=
    List.takeWhile_eq_self_iff.mpr fun item hi => decide_eq_true (h item hi)
  rw [storedValues, htake, List.take_of_length_le hroom]

/-- When the code keeps to the format. -/
def SplitsWell (s : List Byte) (modIds : Vector UInt32 max) : Prop :=
  if ModFormat max s then
    (∀ item ∈ modItems s, item.all isDigit = true) ∧
      ((modItems s).length < max ∧ (∀ item ∈ modItems s, digitsValue item ≤ intMax) ∨
        max = 1 ∧ modIds.toList = (modItems s).map itemValue)
  else (max < (modItems s).length ∨ ∃ item ∈ modItems s, ¬ Taken item) ∧
    storedValues (max - 1) (modItems s) <+: modIds.toList

theorem returned_eq_zero_iff (max : Nat) (s : List Byte) :
    returned max 0 (modItems s) = 0 ↔ max < (modItems s).length ∨ ∃ item ∈ modItems s, ¬ Taken item := by
  obtain ⟨item, items, hitems⟩ := exists_modItems s
  have hpos : 0 < (modItems s).length := by simp [hitems]
  by_cases hall : ∀ item ∈ modItems s, Taken item
  · have hnot : ¬ ∃ item ∈ modItems s, ¬ Taken item := by simpa using hall
    simp only [returned, if_pos hall, hnot, or_false]
    split_ifs
    · omega
    · exact iff_of_false id (by omega)
    · exact iff_of_true rfl (by omega)
  · rw [returned, if_neg hall]
    exact iff_of_true rfl (.inr (by simpa using hall))

theorem splitRawModIds_reject_iff (hmax : 1 ≤ max) (hf : ¬ ModFormat max s) :
    splitRawModIds s modIds = decodeModIds s modIds ↔ SplitsWell s modIds := by
  have hle : (storedValues (max - 1) (modItems s)).length ≤ max :=
    (length_storedValues_le _ _).trans (Nat.sub_le max 1)
  rw [splitRawModIds_eq hmax, decodeModIds, if_neg hf, SplitsWell, if_neg hf, Prod.mk.injEq,
    returned_eq_zero_iff, written_eq_self_iff hle]

theorem written_full (h : values.length = max) : written modIds values = modIds ↔ modIds.toList = values := by
  rw [written_eq_self_iff (Nat.le_of_eq h)]
  constructor
  · intro hp
    exact (hp.eq_of_length (by simpa using h)).symm
  · intro he
    exact he ▸ List.prefix_refl _

/-- Every item in front of the last entry is stored, if its value fits an `int`. -/
theorem storedValues_format_iff (hitem : ∀ item ∈ items, ModItem item)
    (hd : ∀ item ∈ items, item.all isDigit = true) (hlt : items.length < max) :
    written modIds (storedValues (max - 1) items) = written modIds (items.map itemValue) ↔
      ∀ item ∈ items, digitsValue item ≤ intMax := by
  have hall : ∀ item ∈ items, Taken item := fun item hi => .of_format (hitem item hi) (hd item hi)
  rw [storedValues_all hall (Nat.le_sub_one_of_lt hlt), written_inj (by simpa using Nat.le_of_lt hlt) (by simp),
    List.map_inj_left]
  apply forall₂_congr
  intro item hi
  obtain ⟨-, -, -, hv⟩ := hitem item hi
  rw [dropWhile_isSpace (hd item hi)] at hv
  exact storedValue_eq_itemValue_iff (hd item hi) hv

theorem splitRawModIds_accept_iff (hmax : 1 ≤ max) (hf : ModFormat max s) :
    splitRawModIds s modIds = decodeModIds s modIds ↔ SplitsWell s modIds := by
  obtain ⟨first, rest, hitems⟩ := exists_modItems s
  have hpos : 0 < (modItems s).length := by simp [hitems]
  rw [splitRawModIds_eq hmax, decodeModIds, if_pos hf, SplitsWell, if_pos hf, Prod.mk.injEq]
  obtain ⟨hlen, hitem⟩ := hf
  by_cases hd : ∀ item ∈ modItems s, item.all isDigit = true
  · have hall : ∀ item ∈ modItems s, Taken item := fun item hi => .of_format (hitem item hi) (hd item hi)
    by_cases hlt : (modItems s).length < max
    · have hret : returned max 0 (modItems s) = (modItems s).length := by simp [returned, if_pos hall, hlt]
      have hone : max ≠ 1 := by omega
      simp only [hret, true_and, storedValues_format_iff hitem hd hlt, hlt, hone, false_and, or_false]
      exact ⟨fun h => ⟨hd, h⟩, And.right⟩
    · have hfull : (modItems s).length = max := by omega
      have hret : returned max 0 (modItems s) = 1 := by simp [returned, if_pos hall, hfull]
      rw [hret, hfull]
      constructor
      · rintro ⟨rfl, hw⟩
        rw [storedValues_zero, written_nil, eq_comm, written_full (by simpa using hfull)] at hw
        exact ⟨hd, .inr ⟨rfl, hw⟩⟩
      · rintro ⟨-, ⟨hless, -⟩ | ⟨rfl, hw⟩⟩
        · omega
        · refine ⟨rfl, ?_⟩
          rw [storedValues_zero, written_nil, eq_comm, written_full (by simpa using hfull)]
          exact hw
  · refine iff_of_false ?_ fun h => hd h.1
    rintro ⟨hret, -⟩
    obtain ⟨item, hi, hnot⟩ : ∃ item ∈ modItems s, ¬ item.all isDigit = true := by simpa using hd
    have hzero : returned max 0 (modItems s) = 0 :=
      (returned_eq_zero_iff max s).mpr (.inr ⟨item, hi, fun ht => hnot ht.1⟩)
    omega

theorem splitRawModIds_eq_iff (hmax : 1 ≤ max) (s : List Byte) (modIds : Vector UInt32 max) :
    splitRawModIds s modIds = decodeModIds s modIds ↔ SplitsWell s modIds := by
  by_cases hf : ModFormat max s
  · exact splitRawModIds_accept_iff hmax hf
  · exact splitRawModIds_reject_iff hmax hf

/-- `7;8` -/
theorem splitRawModIds_eq_iff_two : splitRawModIds [0x37, 0x3b, 0x38] (Vector.replicate maxMods 0) =
    decodeModIds [0x37, 0x3b, 0x38] (Vector.replicate maxMods 0) := by
  apply (splitRawModIds_eq_iff (by decide) _ _).mpr
  have hitems : modItems [0x37, 0x3b, 0x38] = [[0x37], [0x38]] := by decide
  rw [SplitsWell, if_pos (by decide), hitems]
  exact ⟨by decide, .inl ⟨by decide, by decide⟩⟩

/-- `2785557433`, from the mod list of a real game: the conversion to `int` clamps it. -/
theorem largeModId_clamped :
    splitRawModIds [0x32, 0x37, 0x38, 0x35, 0x35, 0x35, 0x37, 0x34, 0x33, 0x33] (Vector.replicate maxMods 0) =
      (1, written (Vector.replicate maxMods 0) [2147483647]) ∧
    decodeModIds [0x32, 0x37, 0x38, 0x35, 0x35, 0x35, 0x37, 0x34, 0x33, 0x33] (Vector.replicate maxMods 0) =
      (1, written (Vector.replicate maxMods 0) [2785557433]) ∧
    splitRawModIds [0x32, 0x37, 0x38, 0x35, 0x35, 0x35, 0x37, 0x34, 0x33, 0x33] (Vector.replicate maxMods 0) ≠
      decodeModIds [0x32, 0x37, 0x38, 0x35, 0x35, 0x35, 0x37, 0x34, 0x33, 0x33] (Vector.replicate maxMods 0) := by
  refine ⟨?_, ?_, ?_⟩ <;> decide +kernel

end agreement

end BzccScanner
