import BzccScanner.Nicks
import BzccScanner.WriteThrough

/-! The settings that `WinMain` loads, by name. A setting that is not in the
registry, or whose value is longer than a DWORD, has its default. -/

namespace BzccScanner

open CString WriteThrough

abbrev hostnameLen : Nat := 128

def httpHost : List TChar := text "battlezone99mp.webdev.rebellion.co.uk"

def httpFile : List TChar := text "lobbyServer"

/-- The settings that are numbers. `HOST` and `FILE` are strings. -/
inductive Setting
  | rememberSize | winWidth | winHeight | useLocalNames | autoCreateNicks | autoSort | autoScan | autoScanDelay
  | lastSortIndex | lastSortReverse | port
  deriving DecidableEq, Repr

namespace Setting

def name : Setting → List TChar
  | rememberSize => text "REMEMBER_SIZE"
  | winWidth => text "WIN_WIDTH"
  | winHeight => text "WIN_HEIGHT"
  | useLocalNames => text "USE_LOCAL_NAMES"
  | autoCreateNicks => text "AUTO_CREATE_NICKS"
  | autoSort => text "AUTO_SORT"
  | autoScan => text "AUTO_SCAN"
  | autoScanDelay => text "AUTO_SCAN_DELAY"
  | lastSortIndex => text "LAST_SORT_INDEX"
  | lastSortReverse => text "LAST_SORT_REVERSE"
  | port => text "PORT"

/-- The type that the DWORD is cast to. -/
def Value : Setting → Type
  | winWidth | winHeight | lastSortIndex => Int32
  | autoScanDelay | port => UInt32
  | rememberSize | useLocalNames | autoCreateNicks | autoSort | autoScan | lastSortReverse => Bool

def toDword : (k : Setting) → k.Value → UInt32
  | winWidth, n | winHeight, n | lastSortIndex, n => Int32.toUInt32 n
  | autoScanDelay, d | port, d => d
  | rememberSize, b | useLocalNames, b | autoCreateNicks, b | autoSort, b | autoScan, b | lastSortReverse, b =>
    Bool.toUInt32 b

def ofDword : (k : Setting) → UInt32 → k.Value
  | winWidth, d | winHeight, d | lastSortIndex, d => UInt32.toInt32 d
  | autoScanDelay, d | port, d => d
  | rememberSize, d | useLocalNames, d | autoCreateNicks, d | autoSort, d | autoScan, d | lastSortReverse, d =>
    bne d 0

def default : (k : Setting) → k.Value
  | rememberSize => false
  | winWidth => (760 : Int32)
  | winHeight => (420 : Int32)
  | useLocalNames => false
  | autoCreateNicks => false
  | autoSort => true
  | autoScan => false
  | autoScanDelay => (60 : UInt32)
  | lastSortIndex => (-1 : Int32)
  | lastSortReverse => false
  | port => (80 : UInt32)

/-- `value` is what the local variable of the call holds before it is assigned. -/
def load (reg : Registry) (value : Setting → List Byte) (k : Setting) : k.Value :=
  k.ofDword (loadSettingDWORD reg k.name (k.toDword k.default) (value k))

def save (reg : Registry) (k : Setting) (v : k.Value) : Registry := (saveSettingDWORD reg k.name (k.toDword v)).2

theorem name_injective {k l : Setting} (h : k.name = l.name) : k = l := by
  cases k <;> cases l <;> first | rfl | exact absurd h (by decide +kernel)

theorem ofDword_toDword (k : Setting) (v : k.Value) : k.ofDword (k.toDword v) = v := by
  cases k <;> first | rfl | exact Int32.toInt32_toUInt32 v | (cases v <;> rfl)

end Setting

/-- The program can open the key of the settings and write any value there, and no number is
shorter than a DWORD. -/
structure Registry.Usable (reg : Registry) : Prop where
  read : reg.opens regKeySetting .read = true
  write : reg.opens regKeySetting .write = true
  accepts : ∀ name, reg.accepts regKeySetting name = true
  dwords : ∀ (k : Setting) (data : List Byte), reg.values regKeySetting k.name = some data → 4 ≤ data.length

/-- A string of the settings, in the buffer that holds its default. -/
def loadText (reg : Registry) (name : List TChar) (buffer : WString hostnameLen) : WString hostnameLen :=
  let out := (loadSettingString reg name (bytesOf buffer.toList) (UInt32.ofNat hostnameLen)).2
  Vector.ofFn fun i => (tcharsOf out).getD i 0

def saveText (reg : Registry) (name : List TChar) (value : WString hostnameLen) : Registry :=
  (saveSettingString reg name value.toList).2

section text

variable {reg : Registry} {name s : List TChar} {value : WString hostnameLen}

theorem bytes_of_char (c : TChar) : c.toUInt8.toUInt16 ||| (c >>> 8).toUInt8.toUInt16 <<< 8 = c := by
  apply UInt16.toNat_inj.mp
  have hlt := c.toNat_lt
  have hhigh : c.toNat / 256 % 256 = c.toNat / 256 := by omega
  have hshift : (c.toNat / 256) <<< 8 = c.toNat / 256 * 256 := Nat.shiftLeft_eq _ 8
  have hfit : (c.toNat / 256) <<< 8 % 65536 = (c.toNat / 256) <<< 8 := by omega
  have hor := Nat.shiftLeft_add_eq_or_of_lt (i := 8) (b := c.toNat % 256) (by omega) (c.toNat / 256)
  rw [Nat.or_comm] at hor
  simp [Nat.shiftRight_eq_div_pow]
  rw [hhigh, hfit, ← hor, hshift]
  omega

theorem tcharsOf_bytesOf_append (s : List TChar) (rest : List Byte) :
    tcharsOf (bytesOf s ++ rest) = s ++ tcharsOf rest := by
  induction s with
  | nil => rfl
  | cons c s ih =>
    have hcons : bytesOf (c :: s) ++ rest = c.toUInt8 :: (c >>> 8).toUInt8 :: (bytesOf s ++ rest) := rfl
    rw [hcons, tcharsOf, bytes_of_char, ih, List.cons_append]

theorem zero_notMem_wstr {n : Nat} (v : WString n) : 0 ∉ wstr v := by
  intro h
  simpa using List.mem_takeWhile_imp h

theorem wstr_snwprintf {n : Nat} (hn : 0 < n) (hs : 0 ∉ s) (v : WString n) :
    wstr (v.snwprintf s) = s.take (n - 1) := by
  have hprefix : s.take (n - 1) ++ [0] <+: (v.snwprintf s).toList := by
    rw [List.prefix_iff_getElem?]
    intro i hi
    have hi' : i < n := by
      simp only [List.length_append, List.length_take, List.length_singleton] at hi
      omega
    have hget : (s.take (n - 1) ++ [0])[i]? = some (s.take (n - 1) ++ [0])[i] := List.getElem?_eq_getElem hi
    rw [WString.snwprintf, WString.write]
    simp [hi', hget]
  obtain ⟨rest, hrest⟩ := hprefix
  rw [wstr, ← hrest, List.append_assoc, List.singleton_append, takeWhile_terminated]
  exact fun h => hs (List.mem_of_mem_take h)

theorem wstr_snwprintf_lt {n : Nat} (hn : 0 < n) (hs : 0 ∉ s) (v : WString n) :
    (wstr (v.snwprintf s)).length < n := by
  rw [wstr_snwprintf hn hs, List.length_take]
  omega

theorem toList_of_wstr_lt {n : Nat} {v : WString n} (h : (wstr v).length < n) :
    ∃ rest, v.toList = wstr v ++ 0 :: rest := by
  have hsplit := List.takeWhile_append_dropWhile (p := (· != 0)) (l := v.toList)
  cases hdrop : v.toList.dropWhile (· != 0) with
  | nil =>
    rw [hdrop, List.append_nil] at hsplit
    have hlen := congrArg List.length hsplit
    rw [Vector.length_toList, ← wstr] at hlen
    omega
  | cons c rest =>
    have hc := List.head_dropWhile_not (· != 0) (l := v.toList) (by simp [hdrop])
    obtain rfl : c = 0 := by simpa [hdrop] using hc
    exact ⟨rest, by rw [wstr, ← hdrop, hsplit]⟩

theorem wstr_ofFn {n : Nat} {chars : List TChar} (hs : 0 ∉ s) (hlen : s.length < n) (h : s ++ [0] <+: chars) :
    wstr (Vector.ofFn fun i : Fin n => chars.getD i 0) = s := by
  have hprefix : s ++ [0] <+: (Vector.ofFn fun i : Fin n => chars.getD i 0).toList := by
    rw [List.prefix_iff_getElem?]
    intro i hi
    have hi' : i < s.length + 1 := by simpa using hi
    have hchars := List.prefix_iff_getElem?.mp h i hi
    have hn : i < n := by omega
    simp [hn, hchars]
  obtain ⟨rest, hrest⟩ := hprefix
  rw [wstr, ← hrest, List.append_assoc, List.singleton_append, takeWhile_terminated hs]

theorem saveText_eq (h : reg.Usable) (value : WString hostnameLen) : saveText reg name value =
    reg.setValue regKeySetting name
      (some (Registry.stringData value.toList (UInt32.ofNat (2 * (wstr value).length)))) := by
  rw [saveText, saveSettingString, Registry.saveSettingString, if_pos h.write, if_pos (h.accepts name)]
  rfl

theorem saveText_values_of_ne (h : reg.Usable) (value : WString hostnameLen) {l : List TChar} (hl : l ≠ name) :
    (saveText reg name value).values regKeySetting l = reg.values regKeySetting l := by
  rw [saveText_eq h]
  simp [Registry.setValue, hl]

theorem usable_saveText (h : reg.Usable) (hname : ∀ k : Setting, k.name ≠ name) (value : WString hostnameLen) :
    (saveText reg name value).Usable := by
  refine ⟨by rw [saveText_eq h]; exact h.read, by rw [saveText_eq h]; exact h.write,
    by rw [saveText_eq h]; exact h.accepts, ?_⟩
  intro k data hd
  rw [saveText_values_of_ne h value (hname k)] at hd
  exact h.dwords k data hd

/-- A host or a file loads back unless it is empty or has more than 63 characters. -/
theorem loadText_saved (hreg : reg.Usable) (hne : wstr value ≠ []) (hlen : (wstr value).length ≤ 63)
    (buffer : WString hostnameLen) : wstr (loadText (saveText reg name value) name buffer) = wstr value := by
  have hs := zero_notMem_wstr value
  have hfits : (wstr value).length < hostnameLen := Nat.lt_of_le_of_lt hlen (by decide)
  obtain ⟨rest, hrest⟩ := toList_of_wstr_lt hfits
  have hsave : reg.saveSettingString regKeySetting name (wstr value ++ 0 :: rest) =
      (true, saveText reg name value) := by
    rw [← hrest, saveText, saveSettingString, Registry.saveSettingString, if_pos hreg.write,
      if_pos (hreg.accepts name)]
  have hopen : (saveText reg name value).opens regKeySetting .read = true := by
    rw [saveText_eq hreg]
    exact hreg.read
  have hsize : (UInt32.ofNat hostnameLen).toNat = 128 := rfl
  have hback : LoadsBack (wstr value) (loadSettingString (saveText reg name value) name (bytesOf buffer.toList)
      (UInt32.ofNat hostnameLen)) := by
    refine (Registry.loadsBack_saved hs ?_ hsave hopen).mpr ⟨hne, ?_⟩
    · omega
    · omega
  obtain ⟨more, hmore⟩ := hback.2
  refine wstr_ofFn hs hfits ?_
  rw [← hmore, tcharsOf_bytesOf_append]
  exact List.prefix_append _ _

theorem loadText_congr {reg' : Registry} (h : reg.Usable) (h' : reg'.Usable)
    (hvalues : reg'.values regKeySetting name = reg.values regKeySetting name) (buffer : WString hostnameLen) :
    loadText reg' name buffer = loadText reg name buffer := by
  have hquery : reg'.queryValue regKeySetting name (bytesOf buffer.toList) (UInt32.ofNat hostnameLen) =
      reg.queryValue regKeySetting name (bytesOf buffer.toList) (UInt32.ofNat hostnameLen) := by
    rw [Registry.queryValue, Registry.queryValue, hvalues]
  rw [loadText, loadText, loadSettingString, loadSettingString, Registry.loadSettingString,
    Registry.loadSettingString, if_pos h'.read, if_pos h.read, hquery]

end text

namespace Setting

variable {reg : Registry} {value : Setting → List Byte}

theorem save_eq (h : reg.Usable) (k : Setting) (v : k.Value) :
    k.save reg v = reg.setValue regKeySetting k.name (some (bytesOfDword (k.toDword v))) := by
  rw [save, saveSettingDWORD, Registry.saveSettingDWORD, if_pos h.write, if_pos (h.accepts k.name)]

theorem save_values_of_ne (h : reg.Usable) (k : Setting) (v : k.Value) {l : List TChar} (hl : l ≠ k.name) :
    (k.save reg v).values regKeySetting l = reg.values regKeySetting l := by
  rw [save_eq h]
  simp [Registry.setValue, hl]

theorem usable_save (h : reg.Usable) (k : Setting) (v : k.Value) : (k.save reg v).Usable := by
  refine ⟨by rw [save_eq h]; exact h.read, by rw [save_eq h]; exact h.write,
    by rw [save_eq h]; exact h.accepts, ?_⟩
  intro l data hd
  by_cases hl : l.name = k.name
  · rw [save_eq h, hl] at hd
    obtain rfl : bytesOfDword (k.toDword v) = data := by simpa [Registry.setValue] using hd
    exact Nat.le_refl 4
  · rw [save_values_of_ne h k v hl] at hd
    exact h.dwords l data hd

theorem load_eq (h : reg.Usable) (hvalue : ∀ k, (value k).length = 4) (k : Setting) : k.load reg value =
    match reg.values regKeySetting k.name with
    | none => k.default
    | some data => if 4 < data.length then k.default else k.ofDword (dwordOf data) := by
  rw [load, loadSettingDWORD, Registry.loadSettingDWORD, if_pos h.read, Registry.queryValue]
  cases hdata : reg.values regKeySetting k.name with
  | none => exact ofDword_toDword k k.default
  | some data =>
    have hlen := h.dwords k data hdata
    have h4 : (4 : UInt32).toNat = 4 := rfl
    have hdrop : (value k).drop data.length = [] := List.drop_eq_nil_of_le (by rw [hvalue k]; exact hlen)
    simp only [h4, hdrop, List.append_nil]
    split_ifs
    · exact ofDword_toDword k k.default
    · rfl

theorem load_save_self (h : reg.Usable) (hvalue : ∀ k, (value k).length = 4) (k : Setting) (v : k.Value) :
    k.load (k.save reg v) value = v := by
  rw [load_eq (usable_save h k v) hvalue, save_eq h]
  simp only [Registry.setValue, and_self, if_true]
  rw [dwordOf_bytesOfDword, ofDword_toDword]
  exact if_neg (by simp [bytesOfDword])

theorem load_congr {reg' : Registry} {value' : Setting → List Byte} (h : reg.Usable) (h' : reg'.Usable)
    (hvalue : ∀ k, (value k).length = 4) (hvalue' : ∀ k, (value' k).length = 4) {k : Setting}
    (hvalues : reg'.values regKeySetting k.name = reg.values regKeySetting k.name) :
    k.load reg' value' = k.load reg value := by
  rw [load_eq h' hvalue', load_eq h hvalue, hvalues]

end Setting

/-- The settings in the registry, as the store of the numbers that the window keeps there. -/
def settingsMedium : Medium Registry Setting Setting.Value where
  Sound := Registry.Usable
  load reg k := k.load reg fun _ => List.replicate 4 0
  save reg k v := k.save reg v
  sound_save := Setting.usable_save
  load_save_self h k v := Setting.load_save_self h (fun _ => rfl) k v
  load_save_of_ne h k _ v hl :=
    Setting.load_congr h (Setting.usable_save h k v) (fun _ => rfl) (fun _ => rfl)
      (Setting.save_values_of_ne h k v fun hn => hl (Setting.name_injective hn))

end BzccScanner
