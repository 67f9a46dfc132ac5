import BzccScanner.GameStore

/-! The settings in the registry, and which strings load back. A string is
saved with its length in bytes and without the terminator, and loaded with the
size of the buffer in characters where bytes are counted. -/

namespace BzccScanner

open CString

def bytesOf (s : List TChar) : List Byte := s.flatMap fun c : TChar => [c.toUInt8, (c >>> 8).toUInt8]

def bytesOfDword (d : UInt32) : List Byte :=
  [d.toUInt8, (d >>> 8).toUInt8, (d >>> 16).toUInt8, (d >>> 24).toUInt8]

def dwordOf (b : List Byte) : UInt32 := UInt32.ofNat (b.foldr (fun c n => c.toNat + 256 * n) 0)

inductive Access
  | read | write
  deriving DecidableEq, Repr

/-- The values by key and name. `opens` is whether `RegCreateKeyEx` succeeds,
and `accepts` whether `RegSetValueEx` does. -/
structure Registry where
  opens : List TChar → Access → Bool
  accepts : List TChar → List TChar → Bool
  values : List TChar → List TChar → Option (List Byte)

namespace Registry

def setValue (reg : Registry) (key name : List TChar) (data : Option (List Byte)) : Registry :=
  { reg with values := fun k n => if k = key ∧ n = name then data else reg.values k n }

/-- What `RegSetValueEx` keeps of a REG_SZ: `cbData` bytes, and the NUL that follows them in memory
if there are any. -/
def stringData (value : List TChar) (cbData : UInt32) : List Byte :=
  let data := (bytesOf value).take cbData.toNat
  if data ≠ [] ∧ value[cbData.toNat / 2]? = some 0 then data ++ bytesOf [0] else data

/-- `RegQueryValueEx`: the buffer with the bytes and their number, unless they do not fit the size. -/
def queryValue (reg : Registry) (key name : List TChar) (buffer : List Byte) (size : UInt32) :
    Option (List Byte × UInt32) :=
  match reg.values key name with
  | none => none
  | some data =>
    if size.toNat < data.length then none
    else some (data ++ buffer.drop data.length, UInt32.ofNat data.length)

def loadSettingString (reg : Registry) (keyName valueName : List TChar) (out : List Byte) (outLen : UInt32) :
    UInt32 × List Byte :=
  if reg.opens keyName .read then
    match reg.queryValue keyName valueName out outLen with
    | none => (0, out)
    | some (out, valueSz) => (valueSz / 2 - 1, out)
  else (0, out)

/-- `value` is what the pointer points to, up to the NUL and behind it. -/
def saveSettingString (reg : Registry) (keyName valueName value : List TChar) : Bool × Registry :=
  if reg.opens keyName .write then
    if reg.accepts keyName valueName then
      let cbData := UInt32.ofNat (2 * (value.takeWhile (· != 0)).length)
      (true, reg.setValue keyName valueName (some (stringData value cbData)))
    else (false, reg)
  else (false, reg)

def deleteSetting (reg : Registry) (keyName valueName : List TChar) : Bool × Registry :=
  if reg.opens keyName .write then
    if (reg.values keyName valueName).isSome then (true, reg.setValue keyName valueName none)
    else (false, reg)
  else (false, reg)

/-- `value` is what the local variable holds before it is assigned. The type of the data is not looked at. -/
def loadSettingDWORD (reg : Registry) (keyName valueName : List TChar) (defaultValue : UInt32)
    (value : List Byte) : UInt32 :=
  if reg.opens keyName .read then
    match reg.queryValue keyName valueName value 4 with
    | none => defaultValue
    | some (value, _) => dwordOf value
  else defaultValue

def saveSettingDWORD (reg : Registry) (keyName valueName : List TChar) (value : UInt32) : Bool × Registry :=
  if reg.opens keyName .write then
    (true, if reg.accepts keyName valueName then reg.setValue keyName valueName (some (bytesOfDword value))
      else reg)
  else (false, reg)

end Registry

def regKeySetting : List TChar := text "Software\\BZCC Scanner"

def regKeyNicks : List TChar := text "Software\\BZCC Scanner\\Known Nicks"

def loadSettingString (reg : Registry) (valueName : List TChar) : List Byte → UInt32 → UInt32 × List Byte :=
  reg.loadSettingString regKeySetting valueName

def saveSettingString (reg : Registry) (valueName value : List TChar) : Bool × Registry :=
  reg.saveSettingString regKeySetting valueName value

def loadSettingDWORD (reg : Registry) (valueName : List TChar) : UInt32 → List Byte → UInt32 :=
  reg.loadSettingDWORD regKeySetting valueName

def saveSettingDWORD (reg : Registry) (valueName : List TChar) (value : UInt32) : Bool × Registry :=
  reg.saveSettingDWORD regKeySetting valueName value

def loadNick (reg : Registry) (userId : List TChar) : List Byte → UInt32 → UInt32 × List Byte :=
  reg.loadSettingString regKeyNicks userId

def saveNick (reg : Registry) (userId nick : List TChar) : Bool × Registry :=
  reg.saveSettingString regKeyNicks userId nick

def deleteNick (reg : Registry) (userId : List TChar) : Bool × Registry := reg.deleteSetting regKeyNicks userId

/-- The call returns the length of the string and leaves it in the buffer, terminated. -/
def LoadsBack (s : List TChar) (loaded : UInt32 × List Byte) : Prop :=
  loaded.1.toNat = s.length ∧ bytesOf (s ++ [0]) <+: loaded.2

theorem bytesOf_length (s : List TChar) : (bytesOf s).length = 2 * s.length := by
  induction s with
  | nil => rfl
  | cons c s ih =>
    rw [bytesOf, List.flatMap_cons, List.length_append, ← bytesOf, ih]
    simp only [List.length_cons, List.length_nil]
    omega

theorem bytesOf_append (s t : List TChar) : bytesOf (s ++ t) = bytesOf s ++ bytesOf t := List.flatMap_append

theorem dwordOf_bytesOfDword (d : UInt32) : dwordOf (bytesOfDword d) = d := by
  apply UInt32.toNat_inj.mp
  have hlt := d.toNat_lt
  simp only [dwordOf, bytesOfDword, List.foldr_cons, List.foldr_nil, UInt32.toNat_ofNat', UInt32.toNat_toUInt8,
    UInt32.toNat_shiftRight, Nat.shiftRight_eq_div_pow]
  simp
  omega

theorem takeWhile_terminated {s : List TChar} (hs : 0 ∉ s) (rest : List TChar) :
    (s ++ 0 :: rest).takeWhile (· != 0) = s := by
  have hall : s.takeWhile (· != 0) = s := by
    refine List.takeWhile_eq_self_iff.mpr fun c hc => ?_
    simpa using fun h0 : c = 0 => hs (h0 ▸ hc)
  rw [List.takeWhile_append, hall, if_pos rfl]
  simp

namespace Registry

variable {reg reg' : Registry} {key name s rest : List TChar} {out : List Byte} {outLen : UInt32}

theorem stringData_short (hne : s ≠ []) (h : 2 * s.length < 2 ^ 32) (rest : List TChar) :
    stringData (s ++ 0 :: rest) (UInt32.ofNat (2 * s.length)) = bytesOf (s ++ [0]) := by
  have hcb : (UInt32.ofNat (2 * s.length)).toNat = 2 * s.length := UInt32.toNat_ofNat_of_lt' h
  have htake : (bytesOf (s ++ 0 :: rest)).take (2 * s.length) = bytesOf s := by
    rw [bytesOf_append, List.take_left' (bytesOf_length s)]
  have hpos : bytesOf s ≠ [] := by
    rw [← List.length_pos_iff, bytesOf_length]
    have := List.length_pos_iff.mpr hne
    omega
  rw [stringData, hcb, htake, if_pos ⟨hpos, by simp⟩, bytesOf_append]

theorem stringData_long (hs : 0 ∉ s) (h : 2 ^ 32 ≤ 2 * s.length) (hlt : s.length < 2 ^ 32) (rest : List TChar) :
    (stringData (s ++ 0 :: rest) (UInt32.ofNat (2 * s.length))).length = 2 * s.length - 2 ^ 32 := by
  have hcb : (UInt32.ofNat (2 * s.length)).toNat = 2 * s.length - 2 ^ 32 := by
    rw [UInt32.toNat_ofNat']
    omega
  have hhalf : (2 * s.length - 2 ^ 32) / 2 < s.length := by omega
  have hnext : (s ++ 0 :: rest)[(2 * s.length - 2 ^ 32) / 2]? ≠ some 0 := by
    rw [List.getElem?_append_left hhalf, List.getElem?_eq_getElem hhalf]
    intro h0
    exact hs (Option.some.inj h0 ▸ List.getElem_mem hhalf)
  rw [stringData, hcb, if_neg fun h => hnext h.2, List.length_take, bytesOf_length, List.length_append,
    List.length_cons]
  omega

theorem queryValue_saved (hsave : reg.saveSettingString key name (s ++ 0 :: rest) = (true, reg')) (hs : 0 ∉ s) :
    reg'.values key name = some (stringData (s ++ 0 :: rest) (UInt32.ofNat (2 * s.length))) := by
  rw [saveSettingString, takeWhile_terminated hs] at hsave
  split_ifs at hsave with hopen haccept
  · obtain rfl := (Prod.mk.inj hsave).2
    simp [setValue]
  all_goals simp at hsave

theorem chars_toNat {n : Nat} (h : n < 2 ^ 32) :
    (UInt32.ofNat n / 2 - 1).toNat = (2 ^ 32 - 1 + n / 2) % 2 ^ 32 := by
  rw [UInt32.toNat_sub, UInt32.toNat_div, UInt32.toNat_ofNat_of_lt' h]
  rfl

/-- A saved string loads back if and only if it is not empty and its bytes fit the number of
characters of the buffer. -/
theorem loadsBack_saved (hs : 0 ∉ s) (hlen : s.length < outLen.toNat)
    (hsave : reg.saveSettingString key name (s ++ 0 :: rest) = (true, reg'))
    (hopen : reg'.opens key .read = true) :
    LoadsBack s (reg'.loadSettingString key name out outLen) ↔ s ≠ [] ∧ 2 * (s.length + 1) ≤ outLen.toNat := by
  have hlt := outLen.toNat_lt
  rw [loadSettingString, if_pos hopen, queryValue, queryValue_saved hsave hs, LoadsBack]
  by_cases hne : s = []
  · subst hne
    simp [stringData, bytesOf]
  have hpos := List.length_pos_iff.mpr hne
  by_cases hwrap : 2 ^ 32 ≤ 2 * s.length
  · have hdata := stringData_long hs hwrap (by omega) rest
    refine iff_of_false ?_ (by omega)
    rintro ⟨hn, -⟩
    dsimp only at hn
    split_ifs at hn with hsize
    · exact absurd hn (by simp; omega)
    · rw [hdata, chars_toNat (by omega)] at hn
      omega
  · have hdata := stringData_short hne (by omega) rest
    have hbytes : (bytesOf (s ++ [0])).length = 2 * (s.length + 1) := by
      rw [bytesOf_length, List.length_append, List.length_singleton]
    simp only [hdata, hbytes]
    split_ifs with hsize
    · refine iff_of_false ?_ (by omega)
      rintro ⟨hn, -⟩
      exact absurd hn (by simp; omega)
    · refine iff_of_true ⟨?_, List.prefix_append _ _⟩ ⟨hne, by omega⟩
      rw [chars_toNat (by omega)]
      omega

/-- Any number that is saved is loaded. -/
theorem loadSettingDWORD_saved {d : UInt32} (hsave : reg.opens key .write = true)
    (haccept : reg.accepts key name = true) (hopen : reg.opens key .read = true) (defaultValue : UInt32)
    {value : List Byte} (hsize : value.length = 4) :
    (reg.saveSettingDWORD key name d).2.loadSettingDWORD key name defaultValue value = d := by
  have hdata : value.drop (bytesOfDword d).length = [] := List.drop_eq_nil_of_le (by simp [hsize, bytesOfDword])
  rw [saveSettingDWORD, if_pos hsave, if_pos haccept, loadSettingDWORD, if_pos (by exact hopen), queryValue]
  simp only [setValue, and_self, if_true, hdata, List.append_nil]
  rw [if_neg (by simp [bytesOfDword])]
  exact dwordOf_bytesOfDword d

end Registry

def emptyRegistry : Registry := ⟨fun _ _ => true, fun _ _ => true, fun _ _ => none⟩

/-- The nick is saved for the player and loaded into a buffer of zeros. -/
def nickLoaded (userId nick : List TChar) : UInt32 × List Byte :=
  loadNick (saveNick emptyRegistry userId (nick ++ [0])).2 userId (List.replicate (2 * playerNameLen) 0)
    (UInt32.ofNat playerNameLen)

theorem loadsBack_saved_short : LoadsBack (text "Ace") (nickLoaded (text "S1") (text "Ace")) :=
  (Registry.loadsBack_saved (by decide) (by decide) (Prod.ext rfl rfl) rfl).mpr (by decide)

set_option maxRecDepth 10000 in
/-- A nick in the upper half of the buffer is not found, and an empty one gets a length. -/
theorem nick_not_loadsBack :
    ¬ LoadsBack (List.replicate 32 0x41) (nickLoaded (text "S1") (List.replicate 32 0x41)) ∧
    ¬ LoadsBack [] (nickLoaded (text "S1") []) := by
  have hlong : (nickLoaded (text "S1") (List.replicate 32 0x41)).1.toNat = 0 := by decide +kernel
  have hempty : (nickLoaded (text "S1") []).1.toNat = 2 ^ 32 - 1 := by decide +kernel
  exact ⟨fun h => absurd (hlong.symm.trans h.1) (by decide), fun h => absurd (hempty.symm.trans h.1) (by decide)⟩

end BzccScanner
