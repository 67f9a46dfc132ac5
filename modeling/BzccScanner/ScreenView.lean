import BzccScanner.Comparison
import BzccScanner.Screen

/-! What the screen shows of a selection. The texts, the buttons and the player
list are set where the selection or a nick changes, and scans leave the selected
game alone, so that in every state they are those of the selection. -/

namespace BzccScanner

open CString Runs

theorem importNicks_count {o : Outcomes} {autoNickSave : Bool} {g : GameInfo} {count i : Nat}
    {names : Vector LocalName maxPlayers} {n : Nicks} {r : Vector LocalName maxPlayers × Nicks × List Event}
    (h : importNicks o autoNickSave g count i names n = some r) (hi : i ≤ maxPlayers)
    (hall : ∀ j, i ≤ j → j < i + count → o.addString j = true) : i + count ≤ maxPlayers := by
  induction count generalizing i names n r with
  | zero => exact hi
  | succ count ih =>
    rw [importNicks] at h
    by_cases hlt : i < maxPlayers
    · rw [dif_pos hlt] at h
      obtain ⟨q, -, h⟩ := Option.bind_eq_some_iff.mp h
      rw [if_neg (by simp [hall i (Nat.le_refl i) (by omega)])] at h
      obtain ⟨s, hs, -⟩ := Option.bind_eq_some_iff.mp h
      have hrest := ih hs hlt fun j hij hj => hall j (by omega) (by omega)
      omega
    · simp [dif_neg hlt] at h

/-- The selection is the same, and so are the game that is selected and the nicks of its players. -/
structure Window.KeepsSelection (w v : Window) : Prop where
  game : v.selectedGame = w.selectedGame
  player : v.selectedPlayer = w.selectedPlayer
  list : v.playerList = w.playerList
  info : ∀ g, w.selectedGame = some g → v.controls.game g = w.controls.game g
  names : ∀ g, w.selectedGame = some g → v.localNames.get g = w.localNames.get g

theorem Window.KeepsSelection.of_eq {w v : Window} (hg : v.selectedGame = w.selectedGame)
    (hq : v.selectedPlayer = w.selectedPlayer) (hlist : v.playerList = w.playerList)
    (hc : v.controls.gameinfo = w.controls.gameinfo) (hnames : v.localNames = w.localNames) :
    w.KeepsSelection v :=
  ⟨hg, hq, hlist, fun g _ => congrArg (·[g]) hc, fun _ _ => by rw [hnames]⟩

namespace Window

variable {o : Outcomes} {w v : Window}

theorem close_keepsSelection (w : Window) : w.KeepsSelection w.close := by
  rcases close_cases w with he | he <;> rw [he] <;> exact .of_eq rfl rfl rfl rfl rfl

theorem leaveDlg_keepsSelection (o : Outcomes) (w : Window) : w.KeepsSelection (w.leaveDlg o) := by
  rcases leaveDlg_cases o w with ⟨-, -, he⟩ | he <;> rw [he] <;> exact .of_eq rfl rfl rfl rfl rfl

theorem endScan_keepsSelection (o : Outcomes) (w : Window) : w.KeepsSelection (w.endScan o) := by
  rcases endScan_cases o w with ⟨-, he⟩ | ⟨-, -, he⟩ | ⟨-, -, he⟩ <;> rw [he] <;> exact .of_eq rfl rfl rfl rfl rfl

theorem renameDlg_keepsSelection (w : Window) : w.KeepsSelection w.renameDlg := by
  rcases renameDlg_cases w with he | ⟨-, p, -, he⟩ <;> rw [he] <;> exact .of_eq rfl rfl rfl rfl rfl

theorem clickAutoScan_keepsSelection (o : Outcomes) (w : Window) : w.KeepsSelection (w.clickAutoScan o) := by
  obtain ⟨id, armed, log, he⟩ := clickAutoScan_eq o w
  rw [he]
  exact .of_eq rfl rfl rfl rfl rfl

theorem clickAutoScanTimeApply_keepsSelection (o : Outcomes) (input : List TChar) (w : Window) :
    w.KeepsSelection (w.clickAutoScanTimeApply o input) := by
  obtain ⟨id, armed, log, he⟩ := clickAutoScanTimeApply_eq o input w
  rw [he]
  exact .of_eq rfl rfl rfl rfl rfl

theorem scan_selection {decode : Decoder} (h : w.scan decode o = some v) :
    v.selectedGame = w.selectedGame ∧ v.selectedPlayer = w.selectedPlayer ∧ v.playerList = w.playerList := by
  rcases scan_cases h with ⟨-, -, -, rfl⟩ | ⟨-, -, -, -, -, -, -, rfl⟩ | ⟨-, -, -, x, -, -, -, -, rfl⟩
  · exact ⟨rfl, rfl, rfl⟩
  · exact ⟨rfl, rfl, rfl⟩
  · have hend := endScan_keepsSelection o { w with controls := x }
    exact ⟨hend.game, hend.player, hend.list⟩

/-- The scan thread writes only to games that cannot be selected yet. -/
theorem Shows.scan_keepsSelection {decode : Decoder} (h : w.Shows decode) (hi : w.Indexed .scan)
    (hv : w.scan decode o = some v) : w.KeepsSelection v := by
  obtain ⟨hg, hq, hlist⟩ := scan_selection hv
  refine ⟨hg, hq, hlist, fun g hsel => ?_, fun g hsel => ?_⟩
  · exact (h.scan_spares hi hv (h.game g hsel)).1
  · exact (h.scan_spares hi hv (h.game g hsel)).2.1

end Window

theorem Window.updatePlayerList_list {o : Outcomes} {w v : Window} {g : Fin maxServers}
    (h : w.updatePlayerList o = some v) (hg : w.selectedGame = some g) :
    v.playerList = (if (List.range (w.controls.game g).playerCount).all o.addString then
      (w.controls.game g).playerCount else 0) ∧
    ((List.range (w.controls.game g).playerCount).all o.addString = true →
      (w.controls.game g).playerCount ≤ maxPlayers) := by
  rw [Window.updatePlayerList, hg] at h
  obtain ⟨r, hr, h⟩ := Option.bind_eq_some_iff.mp h
  obtain rfl := Option.some.inj h
  refine ⟨rfl, fun hall => ?_⟩
  have hcount := importNicks_count hr (Nat.zero_le _) fun j _ hj =>
    List.all_eq_true.mp hall j (List.mem_range.mpr (by simpa using hj))
  simpa using hcount

namespace Screen

def texts (s : Screen) : List TChar × List TChar × List TChar × List TChar :=
  (s.title, s.shellMap, s.hostMessage, s.serverInfo)

/-- What is shown of the selection. -/
def panes (s : Screen) :
    (List TChar × List TChar × List TChar × List TChar) × (Bool × Bool × Bool) × Bool × List (List TChar) :=
  (s.texts, (s.join, s.url, s.setName), s.useLocalNames, s.playerTexts)

/-- The texts and buttons are those of the game and the player that are selected. -/
structure Describes (s : Screen) : Prop where
  nothing : s.window.selectedGame = none → s.texts = (defaultTitle, [], [], [])
  game : ∀ g, s.window.selectedGame = some g → ∃ info, hostmsgStr (s.window.controls.game g) = .ok info ∧
    s.texts = (wstr (s.window.controls.game g).name, wstr (s.window.controls.game g).map,
      wstr (s.window.controls.game g).msg, info)
  join : s.join = s.window.selectedGame.isSome
  url : s.url = s.window.selectedPlayer.any fun q => (steamPage (wstr (s.window.playerAt q).userId)).isSome
  setName : s.window.selectedPlayer.isSome = true → s.setName = true
  nameable : s.setName = true → s.window.selectedGame.isSome = true

/-- The player list shows the players of the selected game by the names that they have now, or
could not be filled. -/
structure ListsPlayers (s : Screen) : Prop where
  lines : s.playerTexts = [] ∨ ∃ g, s.window.selectedGame = some g ∧ s.playerTexts = s.playerLines g
  length : s.playerTexts.length = s.window.playerList

structure Mirrors (s : Screen) : Prop extends s.Describes, s.ListsPlayers

variable {p : Platform} {o : Outcomes} {s t : Screen} {w v : Window}

theorem start_mirrors (reg : Registry) (value : Setting → List Byte) (client : Int32 × Int32 → Int32 × Int32) :
    (start reg value client).Mirrors :=
  ⟨⟨fun _ => rfl, fun _ hg => (by cases hg), rfl, rfl, fun h => h, fun h => h⟩, ⟨.inl rfl, rfl⟩⟩

/-- A step that sets nothing on the screen must keep the selection. -/
theorem Mirrors.frame (h : s.Mirrors) (hp : t.panes = s.panes) (hw : s.window.KeepsSelection t.window)
    (hplayer : ∀ q, s.window.selectedPlayer = some q → s.window.selectedGame = some q.1) : t.Mirrors := by
  simp only [panes, Prod.mk.injEq] at hp
  obtain ⟨htexts, ⟨hjoin, hurl, hname⟩, hlocal, hlist⟩ := hp
  have hg := hw.game
  have hq := hw.player
  refine ⟨⟨?_, ?_, ?_, ?_, ?_, ?_⟩, ⟨?_, ?_⟩⟩
  · rw [hg, htexts]
    exact h.nothing
  · intro g hsel
    rw [hg] at hsel
    rw [hw.info g hsel, htexts]
    exact h.game g hsel
  · rw [hjoin, h.join, hg]
  · rw [hurl, h.url, hq]
    cases hsel : s.window.selectedPlayer with
    | none => rfl
    | some q =>
      rw [Option.any_some, Option.any_some, Window.playerAt, Window.playerAt,
        hw.info q.1 (hplayer q hsel)]
  · rw [hq, hname]
    exact h.setName
  · rw [hname, hg]
    exact h.nameable
  · rw [hlist]
    refine h.lines.imp_right ?_
    rintro ⟨g, hsel, hlines⟩
    refine ⟨g, hg.trans hsel, ?_⟩
    rw [hlines, playerLines, playerLines, hw.info g hsel, hw.names g hsel, hlocal]
  · rw [hlist, h.length, hw.list]

theorem Describes.congr (h : s.Describes) (htexts : t.texts = s.texts)
    (hbuttons : (t.join, t.url, t.setName) = (s.join, s.url, s.setName))
    (hg : t.window.selectedGame = s.window.selectedGame) (hq : t.window.selectedPlayer = s.window.selectedPlayer)
    (hc : t.window.controls = s.window.controls) : t.Describes := by
  simp only [Prod.mk.injEq] at hbuttons
  obtain ⟨hjoin, hurl, hname⟩ := hbuttons
  refine ⟨?_, ?_, ?_, ?_, ?_, ?_⟩
  · rw [hg, htexts]
    exact h.nothing
  · rw [hg, hc, htexts]
    exact h.game
  · rw [hjoin, h.join, hg]
  · rw [hurl, h.url, hq]
    simp only [Window.playerAt, hc]
  · rw [hq, hname]
    exact h.setName
  · rw [hname, hg]
    exact h.nameable

theorem length_playerLines (s : Screen) (g : Fin maxServers) :
    (s.playerLines g).length = min (s.window.controls.game g).playerCount maxPlayers := by
  rw [playerLines, List.length_map, List.length_take, List.length_finRange]

/-- The player list is filled anew, with the nicks that are looked up for it. -/
theorem Describes.updatePlayerList (h : s.Describes) (ht : s.updatePlayerList o = some t) : t.Mirrors := by
  obtain ⟨g, w, hg, hw, rfl⟩ := updatePlayerList_eq ht
  obtain ⟨hlist, hcount⟩ := Window.updatePlayerList_list hw hg
  obtain ⟨g', names, n, list, new, hg', rfl⟩ := Window.updatePlayerList_eq hw
  refine ⟨h.congr rfl rfl rfl rfl rfl, ⟨?_, ?_⟩⟩
  · dsimp only
    split_ifs
    · exact .inr ⟨g, hg, rfl⟩
    · exact .inl rfl
  · dsimp only at hlist ⊢
    rw [hlist]
    split_ifs with hall
    · exact (length_playerLines _ g).trans (Nat.min_eq_left (hcount hall))
    · rfl

theorem setPlayerStatus_eq {q : Fin maxServers × Fin maxPlayers} (hq : s.window.selectedPlayer = some q) :
    s.setPlayerStatus = { s with url := (steamPage (wstr (s.window.playerAt q).userId)).isSome } := by
  have hpage : decide ((wstr (s.window.playerAt q).userId).head? = some 0x53) =
      (steamPage (wstr (s.window.playerAt q).userId)).isSome := by
    rw [steamPage]
    split_ifs with hsteam
    · exact decide_eq_true hsteam
    · exact decide_eq_false hsteam
  rw [setPlayerStatus, hq]
  exact congrArg (fun b => { s with url := b }) hpage

theorem Mirrors.setPlayerStatus (h : s.Mirrors) : s.setPlayerStatus.Mirrors := by
  cases hq : s.window.selectedPlayer with
  | none => rwa [Screen.setPlayerStatus, hq]
  | some q =>
    have hurl := h.url
    rw [hq, Option.any_some] at hurl
    rw [setPlayerStatus_eq hq, ← hurl]
    exact h

theorem addRows_panes {rows : List (Fin maxServers)} (h : rows.foldlM (addRow p) s = some t) :
    t.panes = s.panes := by
  induction rows generalizing s with
  | nil => exact congrArg panes (Option.some.inj h).symm
  | cons g rows ih =>
    obtain ⟨u, hu, h⟩ := Option.bind_eq_some_iff.mp h
    rw [ih h]
    obtain ⟨texts, -, ⟨-, -, hu⟩ | ⟨-, rfl⟩⟩ := addRow_cases hu
    · obtain ⟨-, rfl⟩ := sort_eq hu
      rfl
    · rfl

theorem close_panes (s : Screen) : s.close.panes = s.panes := by
  rw [close]
  dsimp only
  split_ifs <;> rfl

theorem endScan_panes (o : Outcomes) (s : Screen) : (s.endScan o).panes = s.panes := by
  rw [endScan]
  split_ifs
  · rw [close_panes]
    rfl
  · rfl

theorem scan_panes (h : s.scan p o = some t) : t.panes = s.panes := by
  rcases scan_cases h with ⟨-, -, w, -, -, rfl⟩ | ⟨u, k, todo, r, -, -, -, h⟩ | ⟨u, code, m, x, -, -, -, -, rfl⟩
  · rfl
  · rw [addRows_panes h]
    rfl
  · rw [endScan_panes]
    rfl

theorem Mirrors.beginScan (o : Outcomes) (s : Screen) : (s.beginScan o).Mirrors := by
  obtain ⟨log, he⟩ := Window.beginScan_eq o s.window
  have hw := beginScan_window o s
  rw [he] at hw
  refine ⟨⟨?_, ?_, ?_, ?_, ?_, ?_⟩, ⟨?_, ?_⟩⟩
  · exact fun _ => rfl
  · intro g hg
    rw [hw] at hg
    cases hg
  · rw [hw]
    rfl
  · rw [hw]
    rfl
  · rw [hw]
    intro hq
    cases hq
  · intro hn
    cases hn
  · exact .inl rfl
  · rw [hw]
    rfl

theorem Mirrors.refresh (h : s.Mirrors) (o : Outcomes)
    (hplayer : ∀ q, s.window.selectedPlayer = some q → s.window.selectedGame = some q.1) :
    (s.refresh o).Mirrors := by
  rw [Screen.refresh]
  split_ifs
  · exact h
  · exact h.frame rfl (.of_eq rfl rfl rfl rfl rfl) hplayer
  · exact h
  · exact .beginScan o s

theorem Mirrors.timer (h : s.Mirrors) (o : Outcomes)
    (hplayer : ∀ q, s.window.selectedPlayer = some q → s.window.selectedGame = some q.1) :
    (s.timer o).Mirrors := by
  rw [Screen.timer]
  split_ifs with hdlg
  · refine h.frame rfl ?_ hplayer
    rw [Window.timer, if_pos hdlg]
    exact .of_eq rfl rfl rfl rfl rfl
  · exact h.refresh o hplayer

theorem Mirrors.closeRenameDlg {input : List TChar} (h : s.Mirrors)
    (hplayer : ∀ q, s.window.selectedPlayer = some q → s.window.selectedGame = some q.1)
    (ht : s.closeRenameDlg o input = some t) : t.Mirrors := by
  have hleave := Window.leaveDlg_keepsSelection o s.window
  rcases closeRenameDlg_cases ht with ⟨-, rfl⟩ | ⟨-, -, rfl⟩ | ⟨-, -, w, u, hw, hu, rfl⟩
  · exact h
  · exact h.frame rfl hleave hplayer
  · obtain ⟨g, j, names, n, new, -, rfl⟩ := Window.submitRename_eq hw
    refine Mirrors.setPlayerStatus (Describes.updatePlayerList ?_ hu)
    exact h.toDescribes.congr rfl rfl hleave.game hleave.player (Window.leaveDlg_controls o s.window)

theorem Mirrors.selectGame {i : Fin maxServers} (h : s.Mirrors) (ht : s.selectGame o i = some t) : t.Mirrors := by
  obtain ⟨-, ⟨-, rfl⟩ | ⟨-, info, hinfo, ht⟩⟩ := selectGame_cases ht
  · exact h
  · refine Describes.updatePlayerList ⟨fun hg => (by cases hg), fun g hg => ?_, rfl, rfl, fun hq => (by cases hq),
      fun _ => rfl⟩ ht
    obtain rfl := Option.some.inj hg
    exact ⟨info, hinfo, rfl⟩

theorem Mirrors.selectPlayer {item : Option Nat} (h : s.Mirrors) (ht : s.selectPlayer item = some t) :
    t.Mirrors := by
  obtain ⟨w, hw, hcases⟩ := selectPlayer_cases ht
  rcases Window.selectPlayer_cases hw with rfl | ⟨g, j, hg, rfl⟩
  · rcases hcases with ⟨q, hq, -⟩ | ⟨-, rfl⟩
    · cases hq
    · exact ⟨⟨h.nothing, h.game, h.join, rfl, fun hq => (by cases hq), h.nameable⟩, ⟨h.lines, h.length⟩⟩
  · rcases hcases with ⟨q, hq, rfl⟩ | ⟨hq, -⟩
    · rw [setPlayerStatus_eq hq]
      refine ⟨⟨h.nothing, h.game, h.join, ?_, fun _ => rfl, fun _ => ?_⟩, ⟨h.lines, h.length⟩⟩
      · rw [hq, Option.any_some]
      · rw [hg, Option.isSome_some]
    · cases hq

theorem Mirrors.clickLocalNames (h : s.Mirrors) (ht : s.clickLocalNames o = some t) : t.Mirrors := by
  have hdescribes : s.toggleLocalNames.Describes := h.toDescribes.congr rfl rfl rfl rfl rfl
  rcases clickLocalNames_cases ht with ⟨hnone, rfl⟩ | ⟨-, ht⟩
  · refine ⟨hdescribes, .inl ?_, h.length⟩
    rcases h.lines with hnil | ⟨g, hg, -⟩
    · exact hnil
    · cases hnone.symm.trans hg
  · exact hdescribes.updatePlayerList ht

theorem Mirrors.clickAutoCreateNicks (h : s.Mirrors) (ht : s.clickAutoCreateNicks o = some t) : t.Mirrors := by
  have hdescribes : s.toggleAutoNickSave.Describes := h.toDescribes.congr rfl rfl rfl rfl rfl
  rcases clickAutoCreateNicks_cases ht with ⟨-, rfl⟩ | ⟨-, -, ht⟩
  · exact ⟨hdescribes, h.lines, h.length⟩
  · exact hdescribes.updatePlayerList ht

theorem sort_panes (h : s.sort p = some t) : t.panes = s.panes := by
  obtain ⟨-, rfl⟩ := sort_eq h
  rfl

theorem columnClick_panes {iSubItem : Int32} (h : s.columnClick p iSubItem = some t) : t.panes = s.panes := by
  rw [columnClick] at h
  rw [sort_panes h]
  split_ifs <;> rfl

theorem handle_panes {m : ScreenMsg} (hm : (ScreenAction.ui m).toWindow = none) (h : s.handle p o m = some t) :
    t.panes = s.panes := by
  cases m with
  | window m => cases hm
  | columnClick iSubItem => exact columnClick_panes h
  | clickRememberSort =>
    obtain rfl := Option.some.inj h
    rw [clickRememberSort]
    dsimp only
    split_ifs <;> rfl
  | clickRememberWindow =>
    obtain rfl := Option.some.inj h
    rfl
  | clickHostApply addr port file =>
    obtain rfl := Option.some.inj h
    simp only [clickHostApply, save, panes, texts]
  | clickUrl =>
    obtain rfl := Option.some.inj h
    rw [clickUrl]
    split <;> rfl
  | sizeMove rect =>
    obtain rfl := Option.some.inj h
    rfl

/-- The member that the step reports has no index that has wrapped. -/
def Indexed (s : Screen) : ScreenAction → Prop
  | .scan => s.window.Indexed .scan
  | .ui _ => True

instance (s : Screen) : DecidablePred s.Indexed
  | .scan => inferInstanceAs (Decidable (s.window.Indexed .scan))
  | .ui _ => .isTrue trivial

theorem Indexed.window {a : ScreenAction} {b : Action} (h : s.Indexed a) (hb : a.toWindow = some b) :
    s.window.Indexed b := by
  rintro rfl
  cases a with
  | scan => exact h rfl
  | ui m => cases m <;> cases hb

theorem Mirrors.step {a : ScreenAction × Outcomes} (h : s.Mirrors) (hs : s.window.Shows p.decode)
    (hi : s.Indexed a.1) (ht : s.step p a = some t) : t.Mirrors := by
  have hwindow := step_window ht
  have hsubmit : { s with window := { s.window with submit := true } }.Mirrors :=
    h.frame rfl (.of_eq rfl rfl rfl rfl rfl) hs.player
  obtain ⟨a, o⟩ := a
  rw [Screen.step] at ht
  split_ifs at ht
  cases a with
  | scan => exact h.frame (scan_panes ht) (hs.scan_keepsSelection hi (scan_window ht)) hs.player
  | ui m =>
    cases hm : (ScreenAction.ui m).toWindow with
    | none =>
      rw [hm] at hwindow
      have hsame : t.window = s.window := hwindow
      exact h.frame (handle_panes hm ht) (.of_eq (by rw [hsame]) (by rw [hsame]) (by rw [hsame]) (by rw [hsame])
        (by rw [hsame])) hs.player
    | some b =>
      cases m with
      | window m =>
        cases m with
        | refresh =>
          obtain rfl := Option.some.inj ht
          exact h.refresh o hs.player
        | timer =>
          simp only [handle] at ht
          split_ifs at ht
          obtain rfl := Option.some.inj ht
          exact h.timer o hs.player
        | close =>
          obtain rfl := Option.some.inj ht
          refine h.frame (close_panes s) ?_ hs.player
          rw [close_window]
          exact Window.close_keepsSelection s.window
        | renameDlg =>
          obtain rfl := Option.some.inj ht
          exact h.frame rfl (Window.renameDlg_keepsSelection s.window) hs.player
        | renOk input => exact hsubmit.closeRenameDlg hs.player ht
        | renDelete => exact hsubmit.closeRenameDlg hs.player ht
        | renClose input => exact h.closeRenameDlg hs.player ht
        | selectGame i => exact h.selectGame ht
        | selectPlayer item => exact h.selectPlayer ht
        | clickLocalNames => exact h.clickLocalNames ht
        | clickAutoCreateNicks => exact h.clickAutoCreateNicks ht
        | clickAutoScan =>
          obtain rfl := Option.some.inj ht
          exact h.frame rfl (Window.clickAutoScan_keepsSelection o s.window) hs.player
        | clickAutoScanTimeApply input =>
          obtain rfl := Option.some.inj ht
          exact h.frame rfl (Window.clickAutoScanTimeApply_keepsSelection o input s.window) hs.player
      | _ => cases hm

theorem step_shows {a : ScreenAction × Outcomes} (h : s.window.Shows p.decode) (hi : s.Indexed a.1)
    (ht : s.step p a = some t) :
    t.window.Shows p.decode := by
  have hwindow := step_window ht
  cases hact : a.1.toWindow with
  | none =>
    rw [hact] at hwindow
    rw [show t.window = s.window from hwindow]
    exact h
  | some b =>
    rw [hact] at hwindow
    exact h.step (hi.window hact) hwindow

end Screen

def plain : Platform := ⟨fun _ _ => none, compareUnits, Comparator.insertionSort⟩

def emptyScreen : Screen := .start emptyRegistry (fun _ => List.replicate 4 0) id

def Action.toScreen : Action → ScreenAction
  | .ui m => .ui (.window m)
  | .scan => .scan

/-- The player of the first of two games is selected while the scan is going on. -/
def playerSelected : List (ScreenAction × Outcomes) := untilSelected.map fun a => (a.1.toScreen, a.2)

set_option maxRecDepth 100000 in
theorem playerSelected_runs : ∃ r ∈ exec (Screen.step plain) emptyScreen playerSelected,
    r.2.window.selectedPlayer = some (firstGame, 0) ∧ r.2.url = true ∧
      ∀ m ∈ r.1, m.source.Indexed m.action.1 := by
  decide +kernel

end BzccScanner
