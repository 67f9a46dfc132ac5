import BzccScanner.ScreenView

/-! What the next start of the program finds of the settings. Every change of a
setting is written to the registry at once, apart from the order of the rows,
which is written only while it is remembered, and the size of the window, which
is written when it is closed. -/

namespace BzccScanner

open CString Runs WriteThrough

/-- The settings of the window. -/
def Window.prefs (w : Window) : (Bool × Bool × UInt32) × Bool :=
  ((w.autoNickSave, w.autoScan, w.autoScanDelay), w.closed)

namespace Window

variable {o : Outcomes} {w v : Window}

theorem updatePlayerList_prefs (h : w.updatePlayerList o = some v) : v.prefs = w.prefs := by
  obtain ⟨g, names, n, list, new, -, rfl⟩ := updatePlayerList_eq h
  rfl

theorem submitRename_prefs {tmpmsg : List TChar} (h : w.submitRename o tmpmsg = some v) : v.prefs = w.prefs := by
  obtain ⟨g, j, names, n, new, -, rfl⟩ := submitRename_eq h
  rfl

theorem leaveDlg_prefs (o : Outcomes) (w : Window) : (w.leaveDlg o).prefs = w.prefs := by
  rcases leaveDlg_cases o w with ⟨-, -, he⟩ | he <;> rw [he] <;> rfl

theorem clickAutoScan_prefs (o : Outcomes) (w : Window) :
    (w.clickAutoScan o).prefs = ((w.autoNickSave, !w.autoScan, w.autoScanDelay), w.closed) := by
  obtain ⟨id, armed, log, he⟩ := clickAutoScan_eq o w
  rw [he]
  rfl

theorem clickAutoScanTimeApply_prefs (o : Outcomes) (input : List TChar) (w : Window) :
    (w.clickAutoScanTimeApply o input).prefs = ((w.autoNickSave, w.autoScan, scanDelay input), w.closed) := by
  obtain ⟨id, armed, log, he⟩ := clickAutoScanTimeApply_eq o input w
  rw [he]
  rfl

theorem beginScan_prefs (o : Outcomes) (w : Window) : (w.beginScan o).prefs = w.prefs := by
  rw [beginScan]
  dsimp only
  split_ifs <;> rfl

theorem close_prefs (w : Window) : w.close.prefs.1 = w.prefs.1 := by
  rcases close_cases w with he | he <;> rw [he] <;> rfl

end Window

namespace Screen

/-- The values that the settings have now. -/
def setting (s : Screen) : (k : Setting) → k.Value
  | .rememberSize => s.rememberSize
  | .winWidth => s.width
  | .winHeight => s.height
  | .useLocalNames => s.useLocalNames
  | .autoCreateNicks => s.window.autoNickSave
  | .autoSort => s.rememberSort
  | .autoScan => s.window.autoScan
  | .autoScanDelay => s.window.autoScanDelay
  | .lastSortIndex => s.lastColSortIndex
  | .lastSortReverse => s.reverseSort
  | .port => s.hostPort

/-- The settings that are up to date in the registry. -/
def Kept (s : Screen) : Setting → Prop
  | .lastSortIndex | .lastSortReverse => s.rememberSort = true
  | .winWidth | .winHeight => s.window.closed = true ∧ s.rememberSize = true
  | _ => True

/-- The string is what was loaded first, or was saved. -/
def TextKept (base : Registry) (name : List TChar) (buffer : WString hostnameLen) (reg : Registry)
    (v : WString hostnameLen) : Prop :=
  (reg.values regKeySetting name = base.values regKeySetting name ∧ wstr v = wstr (loadText base name buffer)) ∨
    ∃ r : Registry, r.Usable ∧ reg.values regKeySetting name = (saveText r name v).values regKeySetting name

def hostDefault : WString hostnameLen := (WString.zero hostnameLen).snwprintf httpHost

def fileDefault : WString hostnameLen := (WString.zero hostnameLen).snwprintf httpFile

/-- The registry is up to date with what is kept there. `base` is the registry that the program started with. -/
structure Saved (base : Registry) (s : Screen) : Prop where
  numbers : settingsMedium.Holds s.Kept s.settings s.setting
  host : TextKept base (text "HOST") hostDefault s.settings s.hostName
  file : TextKept base (text "FILE") fileDefault s.settings s.hostFile

/-- All that is saved or may be. -/
def saved (s : Screen) :
    ((k : Setting) → k.Value) × Bool × Registry × WString hostnameLen × WString hostnameLen :=
  (s.setting, s.window.closed, s.settings, s.hostName, s.hostFile)

variable {p : Platform} {o : Outcomes} {base : Registry} {s t : Screen}

theorem Saved.frame (h : s.Saved base) (hsettings : t.settings = s.settings) (hhost : t.hostName = s.hostName)
    (hfile : t.hostFile = s.hostFile) (hkept : ∀ k, t.Kept k → s.Kept k ∧ t.setting k = s.setting k) :
    t.Saved base := by
  refine ⟨⟨by rw [hsettings]; exact h.numbers.sound, fun k hk => ?_⟩, ?_, ?_⟩
  · obtain ⟨hold, hsame⟩ := hkept k hk
    rw [hsettings, hsame]
    exact h.numbers.load k hold
  · rw [hsettings, hhost]
    exact h.host
  · rw [hsettings, hfile]
    exact h.file

theorem kept_eq (hsort : t.rememberSort = s.rememberSort) (hsize : t.rememberSize = s.rememberSize)
    (hclosed : t.window.closed = s.window.closed) : t.Kept = s.Kept := by
  funext k
  cases k <;> simp only [Kept, hsort, hsize, hclosed]

theorem Saved.same (h : s.Saved base) (hs : t.saved = s.saved) : t.Saved base := by
  simp only [saved, Prod.mk.injEq] at hs
  obtain ⟨hsetting, hclosed, hsettings, hhost, hfile⟩ := hs
  have hsort : t.rememberSort = s.rememberSort := congrFun hsetting Setting.autoSort
  have hsize : t.rememberSize = s.rememberSize := congrFun hsetting Setting.rememberSize
  exact h.frame hsettings hhost hfile fun k hk => ⟨by rw [← kept_eq hsort hsize hclosed]; exact hk,
    congrFun hsetting k⟩

/-- What belongs to the screen itself among what is saved. -/
def own (s : Screen) : (Bool × Bool × Bool) × (Int32 × Bool) × (Int32 × Int32) × (UInt32 × Registry) ×
    WString hostnameLen × WString hostnameLen :=
  ((s.rememberSize, s.useLocalNames, s.rememberSort), (s.lastColSortIndex, s.reverseSort), (s.width, s.height),
    (s.hostPort, s.settings), s.hostName, s.hostFile)

theorem saved_eq (hown : t.own = s.own) (hprefs : t.window.prefs = s.window.prefs) : t.saved = s.saved := by
  simp only [own, Prod.mk.injEq] at hown
  obtain ⟨⟨h₁, h₂, h₃⟩, ⟨h₄, h₅⟩, ⟨h₆, h₇⟩, ⟨h₈, h₉⟩, h₁₀, h₁₁⟩ := hown
  simp only [Window.prefs, Prod.mk.injEq] at hprefs
  obtain ⟨⟨ha, hb, hc⟩, hd⟩ := hprefs
  have hsetting : t.setting = s.setting := by
    funext k
    cases k <;> assumption
  rw [saved, saved, hsetting, hd, h₉, h₁₀, h₁₁]

theorem updatePlayerList_saved (h : s.updatePlayerList o = some t) : t.saved = s.saved := by
  obtain ⟨g, w, -, hw, rfl⟩ := updatePlayerList_eq h
  exact saved_eq rfl (Window.updatePlayerList_prefs hw)

theorem setPlayerStatus_saved (s : Screen) : s.setPlayerStatus.saved = s.saved := by
  rw [setPlayerStatus]
  split <;> rfl

theorem closeRenameDlg_saved {input : List TChar} (h : s.closeRenameDlg o input = some t) :
    t.saved = s.saved := by
  rcases closeRenameDlg_cases h with ⟨-, rfl⟩ | ⟨-, -, rfl⟩ | ⟨-, -, w, u, hw, hu, rfl⟩
  · rfl
  · exact saved_eq rfl (Window.leaveDlg_prefs o s.window)
  · rw [setPlayerStatus_saved, updatePlayerList_saved hu]
    exact saved_eq rfl ((Window.submitRename_prefs hw).trans (Window.leaveDlg_prefs o s.window))

theorem selectGame_saved {i : Fin maxServers} (h : s.selectGame o i = some t) : t.saved = s.saved := by
  obtain ⟨-, ⟨-, rfl⟩ | ⟨-, info, -, h⟩⟩ := selectGame_cases h
  · rfl
  · have hsaved := updatePlayerList_saved h
    exact hsaved

theorem selectPlayer_saved {item : Option Nat} (h : s.selectPlayer item = some t) : t.saved = s.saved := by
  obtain ⟨w, hw, ht⟩ := selectPlayer_cases h
  have hprefs : w.prefs = s.window.prefs := by
    rcases Window.selectPlayer_cases hw with rfl | ⟨g, j, -, rfl⟩ <;> rfl
  rcases ht with ⟨q, -, rfl⟩ | ⟨-, rfl⟩
  · rw [setPlayerStatus_saved]
    exact saved_eq rfl hprefs
  · exact saved_eq rfl hprefs

theorem sort_saved (h : s.sort p = some t) : t.saved = s.saved := by
  obtain ⟨-, rfl⟩ := sort_eq h
  rfl

theorem addRow_saved {g : Fin maxServers} (h : s.addRow p g = some t) : t.saved = s.saved := by
  obtain ⟨texts, -, ⟨-, -, h⟩ | ⟨-, rfl⟩⟩ := addRow_cases h
  · have hsaved := sort_saved h
    exact hsaved
  · rfl

theorem addRows_saved {rows : List (Fin maxServers)} (h : rows.foldlM (addRow p) s = some t) :
    t.saved = s.saved := by
  induction rows generalizing s with
  | nil => exact congrArg saved (Option.some.inj h).symm
  | cons g rows ih =>
    obtain ⟨u, hu, h⟩ := Option.bind_eq_some_iff.mp h
    rw [ih h, addRow_saved hu]

theorem name_ne_host (k : Setting) : k.name ≠ text "HOST" := by
  cases k <;> decide +kernel

theorem name_ne_file (k : Setting) : k.name ≠ text "FILE" := by
  cases k <;> decide +kernel

theorem TextKept.of_values {name : List TChar} {buffer v : WString hostnameLen} {reg reg' : Registry}
    (h : TextKept base name buffer reg v)
    (hvalues : reg'.values regKeySetting name = reg.values regKeySetting name) :
    TextKept base name buffer reg' v := by
  rw [TextKept, hvalues]
  exact h

/-- Numbers are written, and they are those that the settings have now. -/
theorem Saved.saveAll (h : s.Saved base) (ws : List (Sigma Setting.Value))
    (hsettings : t.settings = settingsMedium.saveAll s.settings ws) (hhost : t.hostName = s.hostName)
    (hfile : t.hostFile = s.hostFile)
    (hws : ∀ k, t.Kept k → lastWritten ws k = some (t.setting k) ∨ lastWritten ws k = none ∧ s.Kept k ∧
      t.setting k = s.setting k) :
    t.Saved base := by
  have hvalues : ∀ l, (∀ k : Setting, k.name ≠ l) →
      t.settings.values regKeySetting l = s.settings.values regKeySetting l := by
    intro l hl
    rw [hsettings]
    have hsound := h.numbers.sound
    clear hws hsettings
    generalize s.settings = r at hsound ⊢
    induction ws generalizing r with
    | nil => rfl
    | cons w ws ih =>
      rw [Medium.saveAll_cons, ih _ (settingsMedium.sound_save hsound w.1 w.2)]
      exact Setting.save_values_of_ne hsound w.1 w.2 (Ne.symm (hl w.1))
  refine ⟨?_, ?_, ?_⟩
  · rw [hsettings]
    exact h.numbers.saveAll hws
  · rw [hhost]
    exact h.host.of_values (hvalues _ name_ne_host)
  · rw [hfile]
    exact h.file.of_values (hvalues _ name_ne_file)

/-- One number is written, and no other setting changes. -/
theorem Saved.save (h : s.Saved base) (k : Setting) (hsettings : t.settings = k.save s.settings (t.setting k))
    (hhost : t.hostName = s.hostName) (hfile : t.hostFile = s.hostFile)
    (hother : ∀ l, l ≠ k → t.Kept l → s.Kept l ∧ t.setting l = s.setting l) : t.Saved base := by
  refine h.saveAll [⟨k, t.setting k⟩] hsettings hhost hfile fun l hl => ?_
  by_cases hlk : l = k
  · subst hlk
    exact .inl (by simp [lastWritten])
  · exact .inr ⟨by simp [lastWritten, Ne.symm hlk], hother l hlk hl⟩

theorem Saved.toggleLocalNames (h : s.Saved base) : s.toggleLocalNames.Saved base := by
  refine h.save .useLocalNames rfl rfl rfl fun l hl hk => ?_
  cases l with
  | useLocalNames => exact absurd rfl hl
  | _ => exact ⟨hk, rfl⟩

theorem Saved.toggleAutoNickSave (h : s.Saved base) : s.toggleAutoNickSave.Saved base := by
  refine h.save .autoCreateNicks rfl rfl rfl fun l hl hk => ?_
  cases l with
  | autoCreateNicks => exact absurd rfl hl
  | _ => exact ⟨hk, rfl⟩

theorem Saved.clickAutoScan (h : s.Saved base) (o : Outcomes) : (s.clickAutoScan o).Saved base := by
  have hprefs := Window.clickAutoScan_prefs o s.window
  simp only [Window.prefs, Prod.mk.injEq] at hprefs
  obtain ⟨⟨hnicks, -, hdelay⟩, hclosed⟩ := hprefs
  refine h.save .autoScan rfl rfl rfl fun l hl hk => ?_
  cases l with
  | autoScan => exact absurd rfl hl
  | autoCreateNicks => exact ⟨trivial, hnicks⟩
  | autoScanDelay => exact ⟨trivial, hdelay⟩
  | winWidth => exact ⟨⟨hclosed.symm.trans hk.1, hk.2⟩, rfl⟩
  | winHeight => exact ⟨⟨hclosed.symm.trans hk.1, hk.2⟩, rfl⟩
  | _ => exact ⟨hk, rfl⟩

theorem Saved.clickAutoScanTimeApply (h : s.Saved base) (o : Outcomes) (input : List TChar) :
    (s.clickAutoScanTimeApply o input).Saved base := by
  have hprefs := Window.clickAutoScanTimeApply_prefs o input s.window
  simp only [Window.prefs, Prod.mk.injEq] at hprefs
  obtain ⟨⟨hnicks, hauto, -⟩, hclosed⟩ := hprefs
  refine h.save .autoScanDelay rfl rfl rfl fun l hl hk => ?_
  cases l with
  | autoScanDelay => exact absurd rfl hl
  | autoCreateNicks => exact ⟨trivial, hnicks⟩
  | autoScan => exact ⟨trivial, hauto⟩
  | winWidth => exact ⟨⟨hclosed.symm.trans hk.1, hk.2⟩, rfl⟩
  | winHeight => exact ⟨⟨hclosed.symm.trans hk.1, hk.2⟩, rfl⟩
  | _ => exact ⟨hk, rfl⟩

theorem Saved.clickRememberWindow (h : s.Saved base) (hopen : s.window.closed = false) :
    s.clickRememberWindow.Saved base := by
  have hnot : s.clickRememberWindow.window.closed ≠ true := by
    rw [show s.clickRememberWindow.window = s.window from rfl, hopen]
    decide
  refine h.save .rememberSize rfl rfl rfl fun l hl hk => ?_
  cases l with
  | rememberSize => exact absurd rfl hl
  | winWidth => exact absurd hk.1 hnot
  | winHeight => exact absurd hk.1 hnot
  | _ => exact ⟨hk, rfl⟩

/-- The order is written whenever it is remembered. -/
theorem Saved.saveSort (h : s.Saved base) (hsettings : t.settings = s.settings) (hhost : t.hostName = s.hostName)
    (hfile : t.hostFile = s.hostFile)
    (hother : ∀ k, k ≠ .lastSortIndex → k ≠ .lastSortReverse → t.Kept k → s.Kept k ∧ t.setting k = s.setting k) :
    t.saveSort.Saved base := by
  refine h.saveAll [⟨.lastSortIndex, t.lastColSortIndex⟩, ⟨.lastSortReverse, t.reverseSort⟩] ?_ hhost hfile
    fun k hk => ?_
  · rw [← hsettings]
    rfl
  · cases k with
    | lastSortIndex => exact .inl (by simp [lastWritten]; rfl)
    | lastSortReverse => exact .inl (by simp [lastWritten]; rfl)
    | _ => exact .inr ⟨by simp [lastWritten], hother _ (by simp) (by simp) hk⟩

theorem Saved.clickRememberSort (h : s.Saved base) : s.clickRememberSort.Saved base := by
  rw [Screen.clickRememberSort]
  dsimp only
  split_ifs with hsort
  · refine h.saveAll [⟨.autoSort, !s.rememberSort⟩, ⟨.lastSortIndex, s.lastColSortIndex⟩,
      ⟨.lastSortReverse, s.reverseSort⟩] rfl rfl rfl fun k hk => ?_
    cases k with
    | autoSort => exact .inl (by simp [lastWritten]; rfl)
    | lastSortIndex => exact .inl (by simp [lastWritten]; rfl)
    | lastSortReverse => exact .inl (by simp [lastWritten]; rfl)
    | _ => exact .inr ⟨by simp [lastWritten], hk, rfl⟩
  · refine h.save .autoSort rfl rfl rfl fun k hk hkept => ?_
    cases k with
    | autoSort => exact absurd rfl hk
    | lastSortIndex => exact absurd hkept hsort
    | lastSortReverse => exact absurd hkept hsort
    | _ => exact ⟨hkept, rfl⟩

theorem Saved.columnClick (h : s.Saved base) {iSubItem : Int32} (ht : s.columnClick p iSubItem = some t) :
    t.Saved base := by
  rw [Screen.columnClick] at ht
  refine Saved.same ?_ (sort_saved ht)
  generalize hu : (if iSubItem = s.lastColSortIndex then { s with reverseSort := !s.reverseSort }
    else { s with reverseSort := false, lastColSortIndex := iSubItem }) = u
  have hother : ∀ k, k ≠ Setting.lastSortIndex → k ≠ Setting.lastSortReverse → u.Kept k → s.Kept k ∧
      u.setting k = s.setting k := by
    intro k hindex hreverse hk
    subst hu
    split_ifs at hk ⊢ <;> cases k <;>
      first | exact absurd rfl hindex | exact absurd rfl hreverse | exact ⟨hk, rfl⟩
  have hsame : u.settings = s.settings ∧ u.hostName = s.hostName ∧ u.hostFile = s.hostFile := by
    subst hu
    split_ifs <;> exact ⟨rfl, rfl, rfl⟩
  obtain ⟨hsettings, hhost, hfile⟩ := hsame
  split_ifs with hsort
  · exact h.saveSort hsettings hhost hfile hother
  · refine h.frame hsettings hhost hfile fun k hk => ?_
    cases k with
    | lastSortIndex => exact absurd hk hsort
    | lastSortReverse => exact absurd hk hsort
    | _ => exact hother _ (by simp) (by simp) hk

/-- The order is forgotten by a refresh only while it is not remembered. -/
theorem Saved.refresh (h : s.Saved base) (o : Outcomes) : (s.refresh o).Saved base := by
  rw [Screen.refresh]
  split_ifs
  · exact h
  · exact h.same rfl
  · exact h
  · have hprefs := Window.beginScan_prefs o s.window
    simp only [Window.prefs, Prod.mk.injEq] at hprefs
    obtain ⟨⟨hnicks, hauto, hdelay⟩, hclosed⟩ := hprefs
    refine h.frame rfl rfl rfl fun k hk => ?_
    cases k with
    | lastSortIndex => exact ⟨hk, if_pos hk⟩
    | lastSortReverse => exact ⟨hk, congrArg (· && s.reverseSort) hk⟩
    | autoCreateNicks => exact ⟨trivial, hnicks⟩
    | autoScan => exact ⟨trivial, hauto⟩
    | autoScanDelay => exact ⟨trivial, hdelay⟩
    | winWidth => exact ⟨⟨hclosed.symm.trans hk.1, hk.2⟩, rfl⟩
    | winHeight => exact ⟨⟨hclosed.symm.trans hk.1, hk.2⟩, rfl⟩
    | _ => exact ⟨hk, rfl⟩

/-- The size of the window is written when it is closed. -/
theorem Saved.close (h : s.Saved base) : s.close.Saved base := by
  rw [Screen.close]
  dsimp only
  split_ifs with hsize
  · refine h.saveAll [⟨.winWidth, s.width⟩, ⟨.winHeight, s.height⟩] rfl rfl rfl fun k hk => ?_
    have hprefs := Window.close_prefs s.window
    cases k with
    | winWidth => exact .inl (by simp [lastWritten]; rfl)
    | winHeight => exact .inl (by simp [lastWritten]; rfl)
    | autoCreateNicks => exact .inr ⟨by simp [lastWritten], trivial, congrArg Prod.fst hprefs⟩
    | autoScan => exact .inr ⟨by simp [lastWritten], trivial, congrArg (fun q => q.2.1) hprefs⟩
    | autoScanDelay => exact .inr ⟨by simp [lastWritten], trivial, congrArg (fun q => q.2.2) hprefs⟩
    | _ => exact .inr ⟨by simp [lastWritten], hk, rfl⟩
  · have hprefs := Window.close_prefs s.window
    refine h.frame rfl rfl rfl fun k hk => ?_
    cases k with
    | winWidth => exact absurd hk hsize
    | winHeight => exact absurd hk hsize
    | autoCreateNicks => exact ⟨trivial, congrArg Prod.fst hprefs⟩
    | autoScan => exact ⟨trivial, congrArg (fun q => q.2.1) hprefs⟩
    | autoScanDelay => exact ⟨trivial, congrArg (fun q => q.2.2) hprefs⟩
    | _ => exact ⟨hk, rfl⟩

theorem TextKept.of_save (name : List TChar) (buffer v : WString hostnameLen) {reg reg' : Registry}
    (h : reg.Usable) (hvalues : reg'.values regKeySetting name =
      (saveText reg name v).values regKeySetting name) :
    TextKept base name buffer reg' v := .inr ⟨reg, h, hvalues⟩

theorem holds_saveText {kept : Setting → Prop} {reg : Registry} {mem : (k : Setting) → k.Value}
    (h : settingsMedium.Holds kept reg mem) {name : List TChar} (hname : ∀ k : Setting, k.name ≠ name)
    (v : WString hostnameLen) : settingsMedium.Holds kept (saveText reg name v) mem := by
  have hsaved := usable_saveText h.sound hname v
  refine ⟨hsaved, fun k hk => ?_⟩
  have hload : settingsMedium.load (saveText reg name v) k = settingsMedium.load reg k :=
    Setting.load_congr h.sound hsaved (fun _ => List.length_replicate) (fun _ => List.length_replicate)
      (saveText_values_of_ne h.sound v (hname k))
  rw [hload, h.load k hk]

theorem clickHostApply_setting (addr port file : List TChar) {k : Setting} (hk : k ≠ .port) :
    (s.clickHostApply addr port file).setting k = s.setting k := by
  cases k with
  | port => exact absurd rfl hk
  | _ =>
    simp only [setting, Screen.clickHostApply, Screen.save]
    rfl

/-- The host, the port and the file are written, in this order. -/
theorem Saved.clickHostApply (h : s.Saved base) (addr port file : List TChar) :
    (s.clickHostApply addr port file).Saved base := by
  have hhost := holds_saveText h.numbers name_ne_host (editText s.hostName addr)
  have hport : settingsMedium.Holds (s.clickHostApply addr port file).Kept
      (Setting.port.save (saveText s.settings (text "HOST") (editText s.hostName addr)) (ttoi port))
      (s.clickHostApply addr port file).setting := by
    have hkept : (s.clickHostApply addr port file).Kept = s.Kept := by
      refine kept_eq ?_ ?_ ?_ <;> simp only [Screen.clickHostApply, Screen.save]
    let ws : List (Sigma Setting.Value) := [⟨.port, ttoi port⟩]
    have hwritten : ∀ k, (s.clickHostApply addr port file).Kept k →
        lastWritten ws k = some ((s.clickHostApply addr port file).setting k) ∨
          lastWritten ws k = none ∧ s.Kept k ∧ (s.clickHostApply addr port file).setting k = s.setting k := by
      intro k hk
      by_cases hkp : k = .port
      · subst hkp
        exact .inl (by simp [ws, lastWritten]; rfl)
      · exact .inr ⟨by simp [ws, lastWritten, Ne.symm hkp], hkept ▸ hk, clickHostApply_setting addr port file hkp⟩
    exact hhost.saveAll hwritten
  refine ⟨holds_saveText hport name_ne_file _, ?_, .of_save _ _ _ hport.sound rfl⟩
  refine .of_save _ _ _ h.numbers.sound ?_
  have hafter := Setting.save_values_of_ne hhost.sound .port (ttoi port) (Ne.symm (name_ne_host .port))
  have hne : text "HOST" ≠ text "FILE" := by decide +kernel
  exact (saveText_values_of_ne hport.sound (editText s.hostFile file) hne).trans hafter

theorem Saved.endScan (h : s.Saved base) (o : Outcomes) : (s.endScan o).Saved base := by
  rw [Screen.endScan]
  split_ifs with hquit
  · have hstopped : Saved base { s with window := { s.window with hScan := false, thread := none } } := h.same rfl
    exact hstopped.close
  · have hprefs : (s.window.endScan o).prefs = s.window.prefs := by
      rcases Window.endScan_cases o s.window with ⟨hq, -⟩ | ⟨-, -, he⟩ | ⟨-, -, he⟩
      · exact absurd hq hquit
      · rw [he]
        rfl
      · rw [he]
        rfl
    exact h.same (saved_eq rfl hprefs)

theorem Saved.scan (h : s.Saved base) (ht : s.scan p o = some t) : t.Saved base := by
  rcases scan_cases ht with ⟨source, garbage, w, hthread, hw, rfl⟩ | ⟨u, k, todo, r, -, -, -, hrows⟩ |
    ⟨u, code, m, x, -, -, -, -, rfl⟩
  · rcases Window.scan_cases hw with ⟨_, _, -, rfl⟩ | ⟨u, _, _, _, hu, -⟩ | ⟨u, _, _, _, hu, -⟩
    · exact h.same rfl
    · rw [hthread] at hu
      cases hu
    · rw [hthread] at hu
      cases hu
  · exact h.same ((addRows_saved hrows).trans rfl)
  · have hended : Saved base { s with window := { s.window with controls := x } } := h.same rfl
    exact hended.endScan o

theorem Saved.handle {m : Msg} (h : s.Saved base) (ht : s.handle p o (.window m) = some t) : t.Saved base := by
  cases m with
  | refresh =>
    obtain rfl := Option.some.inj ht
    exact h.refresh o
  | timer =>
    simp only [Screen.handle] at ht
    split_ifs at ht
    obtain rfl := Option.some.inj ht
    rw [Screen.timer]
    split_ifs with hdlg
    · exact h.same (saved_eq rfl (by rw [Window.timer, if_pos hdlg]; rfl))
    · exact h.refresh o
  | close =>
    obtain rfl := Option.some.inj ht
    exact h.close
  | renameDlg =>
    obtain rfl := Option.some.inj ht
    refine h.same (saved_eq rfl ?_)
    rcases Window.renameDlg_cases s.window with he | ⟨-, q, -, he⟩
    · rw [he]
    · rw [he]
      rfl
  | renOk input => exact h.same ((closeRenameDlg_saved ht).trans rfl)
  | renDelete => exact h.same ((closeRenameDlg_saved ht).trans rfl)
  | renClose input => exact h.same (closeRenameDlg_saved ht)
  | selectGame i => exact h.same (selectGame_saved ht)
  | selectPlayer item => exact h.same (selectPlayer_saved ht)
  | clickLocalNames =>
    rcases clickLocalNames_cases ht with ⟨-, rfl⟩ | ⟨-, ht⟩
    · exact h.toggleLocalNames
    · exact h.toggleLocalNames.same (updatePlayerList_saved ht)
  | clickAutoCreateNicks =>
    rcases clickAutoCreateNicks_cases ht with ⟨-, rfl⟩ | ⟨-, -, ht⟩
    · exact h.toggleAutoNickSave
    · exact h.toggleAutoNickSave.same (updatePlayerList_saved ht)
  | clickAutoScan =>
    obtain rfl := Option.some.inj ht
    exact h.clickAutoScan o
  | clickAutoScanTimeApply input =>
    obtain rfl := Option.some.inj ht
    exact h.clickAutoScanTimeApply o input

/-- What is kept in the registry is up to date behind every step. -/
theorem Saved.step {a : ScreenAction × Outcomes} (h : s.Saved base) (ht : s.step p a = some t) :
    t.Saved base := by
  obtain ⟨a, o⟩ := a
  rw [Screen.step] at ht
  split_ifs at ht with hclosed
  rw [Bool.not_eq_true] at hclosed
  cases a with
  | scan => exact h.scan ht
  | ui m =>
    cases m with
    | window m => exact h.handle ht
    | columnClick iSubItem => exact h.columnClick ht
    | clickRememberSort =>
      obtain rfl := Option.some.inj ht
      exact h.clickRememberSort
    | clickRememberWindow =>
      obtain rfl := Option.some.inj ht
      exact h.clickRememberWindow hclosed
    | clickHostApply addr port file =>
      obtain rfl := Option.some.inj ht
      exact h.clickHostApply addr port file
    | clickUrl =>
      obtain rfl := Option.some.inj ht
      refine h.same ?_
      rw [Screen.clickUrl]
      split <;> rfl
    | sizeMove rect =>
      obtain rfl := Option.some.inj ht
      refine h.frame rfl rfl rfl fun k hk => ?_
      cases k with
      | winWidth => exact absurd (hclosed.symm.trans hk.1) (by decide)
      | winHeight => exact absurd (hclosed.symm.trans hk.1) (by decide)
      | _ => exact ⟨hk, rfl⟩

theorem Saved.start {value : Setting → List Byte} {client : Int32 × Int32 → Int32 × Int32} (h : base.Usable)
    (hvalue : ∀ k, (value k).length = 4) : (Screen.start base value client).Saved base := by
  refine ⟨⟨h, fun k hk => ?_⟩, .inl ⟨rfl, rfl⟩, .inl ⟨rfl, rfl⟩⟩
  have hload : settingsMedium.load base k = k.load base value :=
    Setting.load_congr h h hvalue (fun _ => List.length_replicate) rfl
  cases k with
  | winWidth => exact absurd hk.1 Bool.false_ne_true
  | winHeight => exact absurd hk.1 Bool.false_ne_true
  | _ => exact hload

/-- What is kept in the registry is up to date in every state. -/
theorem saved_run {value : Setting → List Byte} {client : Int32 × Int32 → Int32 × Int32}
    {moves : List (Move Screen (ScreenAction × Outcomes))} (hreg : base.Usable)
    (hvalue : ∀ k, (value k).length = 4) (h : Run (Screen.step p) (Screen.start base value client) moves s) :
    s.Saved base :=
  (h.invariant (P := fun _ _ => True) (fun _ _ _ hs _ ht => hs.step ht) (.start hreg hvalue) fun _ _ => trivial).1

/-- The registry with both keys. -/
def registry (s : Screen) : Registry :=
  { s.settings with
    values := fun key name =>
      if key = regKeyNicks then s.window.nicks.registry.values key name else s.settings.values key name }

theorem registry_values (s : Screen) (name : List TChar) :
    s.registry.values regKeySetting name = s.settings.values regKeySetting name := by
  have hne : regKeySetting ≠ regKeyNicks := by decide +kernel
  simp only [registry, if_neg hne]

theorem registry_nicks (s : Screen) (name : List TChar) :
    s.registry.values regKeyNicks name = s.window.nicks.registry.values regKeyNicks name := by
  simp only [registry, if_true]

theorem usable_registry (h : s.settings.Usable) : s.registry.Usable :=
  ⟨h.read, h.write, h.accepts, fun k data hd => h.dwords k data ((registry_values s k.name).symm.trans hd)⟩

theorem TextKept.load {name : List TChar} {buffer v : WString hostnameLen}
    (h : TextKept base name buffer s.settings v) (hbase : base.Usable) (hreg : s.settings.Usable)
    (hsaved : ∀ {r : Registry}, r.Usable → (saveText r name v).Usable)
    (hv : wstr v ≠ [] ∧ (wstr v).length ≤ 63) : wstr (loadText s.registry name buffer) = wstr v := by
  rcases h with ⟨hvalues, hsame⟩ | ⟨r, hr, hvalues⟩
  · rw [loadText_congr hbase (usable_registry hreg) ((registry_values s name).trans hvalues), hsame]
  · rw [loadText_congr (hsaved hr) (usable_registry hreg) ((registry_values s name).trans hvalues)]
    exact loadText_saved hr hv.1 hv.2 buffer

/-- The window that the program shows when it is started again has the settings of the one that was closed. -/
structure Resumes (s t : Screen) (client : Int32 × Int32 → Int32 × Int32) : Prop where
  useLocalNames : t.useLocalNames = s.useLocalNames
  autoNickSave : t.window.autoNickSave = s.window.autoNickSave
  autoScan : t.window.autoScan = s.window.autoScan
  autoScanDelay : t.window.autoScanDelay = s.window.autoScanDelay
  rememberSort : t.rememberSort = s.rememberSort
  rememberSize : t.rememberSize = s.rememberSize
  hostPort : t.hostPort = s.hostPort
  order : s.rememberSort = true → t.lastColSortIndex = s.lastColSortIndex ∧ t.reverseSort = s.reverseSort
  size : (t.width, t.height) = client (if s.rememberSize then (s.width, s.height) else (760, 420))
  hostName : wstr s.hostName ≠ [] ∧ (wstr s.hostName).length ≤ 63 → wstr t.hostName = wstr s.hostName
  hostFile : wstr s.hostFile ≠ [] ∧ (wstr s.hostFile).length ≤ 63 → wstr t.hostFile = wstr s.hostFile
  nicks : t.window.nicks.registry.values regKeyNicks = s.window.nicks.registry.values regKeyNicks

theorem screen_resumes {value value' : Setting → List Byte} {client client' : Int32 × Int32 → Int32 × Int32}
    {moves : List (Move Screen (ScreenAction × Outcomes))} (hreg : base.Usable)
    (hvalue : ∀ k, (value k).length = 4) (hvalue' : ∀ k, (value' k).length = 4)
    (h : Run (Screen.step p) (Screen.start base value client) moves s)
    (hclosed : s.window.closed = true) : s.Resumes (Screen.start s.registry value' client') client' := by
  have hsaved := saved_run hreg hvalue h
  have husable := hsaved.numbers.sound
  have hload : ∀ k, s.Kept k → k.load s.registry value' = s.setting k := by
    intro k hk
    rw [← hsaved.numbers.load k hk]
    exact Setting.load_congr husable (usable_registry husable)
      (fun _ => List.length_replicate) hvalue' (registry_values s k.name)
  have hsize : Setting.rememberSize.load s.registry value' = s.rememberSize := hload .rememberSize trivial
  exact {
    useLocalNames := hload .useLocalNames trivial
    autoNickSave := hload .autoCreateNicks trivial
    autoScan := hload .autoScan trivial
    autoScanDelay := hload .autoScanDelay trivial
    rememberSort := hload .autoSort trivial
    rememberSize := hsize
    hostPort := hload .port trivial
    order := fun hsort => ⟨hload .lastSortIndex hsort, hload .lastSortReverse hsort⟩
    size := by
      rw [start, hsize]
      by_cases hs : s.rememberSize = true
      · rw [hload .winWidth ⟨hclosed, hs⟩, hload .winHeight ⟨hclosed, hs⟩, if_pos hs, if_pos hs]
        rfl
      · rw [if_neg hs, if_neg hs]
        rfl
    hostName := fun hv => hsaved.host.load hreg husable (fun hr => usable_saveText hr name_ne_host _) hv
    hostFile := fun hv => hsaved.file.load hreg husable (fun hr => usable_saveText hr name_ne_file _) hv
    nicks := funext (registry_nicks s) }

theorem usable_emptyRegistry : emptyRegistry.Usable :=
  ⟨rfl, rfl, fun _ => rfl, fun _ _ h => by cases h⟩

/-- Settings are changed, and the window is resized and closed. -/
def settingsChanged : List (ScreenAction × Outcomes) :=
  [.ui (.window .clickLocalNames), .ui (.clickHostApply (text "localhost") (text "8080") (text "lobby")),
    .ui .clickRememberWindow, .ui (.sizeMove (800, 600)), .ui (.columnClick 3),
    .ui (.window .close)].map (·, idle)

set_option maxRecDepth 100000 in
theorem settingsChanged_runs : ∃ r ∈ exec (Screen.step plain) emptyScreen settingsChanged,
    r.2.window.closed = true ∧ r.2.useLocalNames = true ∧ r.2.rememberSort = true ∧ r.2.lastColSortIndex = 3 ∧
      wstr r.2.hostName = text "localhost" := by
  decide +kernel

theorem screen_resumes_changed : ∃ moves s, Run (Screen.step plain) emptyScreen moves s ∧ s.window.closed = true ∧
    (Screen.start s.registry (fun _ => List.replicate 4 1) id).useLocalNames = true ∧
    (Screen.start s.registry (fun _ => List.replicate 4 1) id).lastColSortIndex = 3 ∧
    wstr (Screen.start s.registry (fun _ => List.replicate 4 1) id).hostName = text "localhost" := by
  obtain ⟨r, hr, hclosed, hlocal, hsort, hcol, hhost⟩ := settingsChanged_runs
  have hresumes : r.2.Resumes (.start r.2.registry (fun _ => List.replicate 4 1) id) id :=
    screen_resumes usable_emptyRegistry (fun _ => rfl) (fun _ => List.length_replicate) (exec_run hr) hclosed
  have hlen : wstr r.2.hostName ≠ [] ∧ (wstr r.2.hostName).length ≤ 63 := by
    rw [hhost]
    decide
  exact ⟨r.1, r.2, exec_run hr, hclosed, hresumes.useLocalNames.trans hlocal, (hresumes.order hsort).1.trans hcol,
    (hresumes.hostName hlen).trans hhost⟩

end Screen

end BzccScanner
