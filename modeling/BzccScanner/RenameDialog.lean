import BzccScanner.Runs
import BzccScanner.ValidIdentifiers
import BzccScanner.WrappedSlots

/-! The player of the rename dialog. While the dialog is open no scan begins,
and a scan that is going on writes only to games that are not displayed yet:
the player of the dialog was selected in a game that was. -/

namespace BzccScanner

open Runs

/-- The nick that the step submits if the dialog is open. -/
def Action.submits (w : Window) : Action → Option (List TChar)
  | .ui (.renOk input) => some (edited input)
  | .ui .renDelete => some (edited [])
  | .ui (.renClose input) => if w.submit then some (edited input) else none
  | _ => none

namespace Window

def playerAt (w : Window) (p : Fin maxServers × Fin maxPlayers) : PlayerInfo :=
  (w.controls.game p.1).playerinfo.get p.2

def nameAt (w : Window) (p : Fin maxServers × Fin maxPlayers) : LocalName := (w.localNames.get p.1).get p.2

/-- What can be selected is displayed, and the scan thread is behind what is displayed. -/
structure Shows (decode : Decoder) (w : Window) : Prop where
  sound : w.controls.Sound
  game : ∀ g, w.selectedGame = some g → g ∈ w.rows
  player : ∀ p, w.selectedPlayer = some p → w.selectedGame = some p.1
  dialog : w.inDlg = true → ∃ p, w.pPlayer = some p ∧ p.1 ∈ w.rows
  created : ∀ source garbage, w.thread = some (.created source garbage) → w.rows = []
  scanning : ∀ s, w.thread = some (.scanning s) → s.todo = [] ∨ ∃ done, s.Stands decode w.rows done w.controls

variable {decode : Decoder} {o : Outcomes} {u v w : Window}

theorem start_shows (decode : Decoder) (registry : Registry) (autoNickSave autoScan : Bool) (delay : UInt32) :
    (start registry autoNickSave autoScan delay).Shows decode :=
  ⟨WindowControls.zero_sound, by simp [start], by simp [start], by simp [start], by simp [start], by simp [start]⟩

theorem Shows.lists (h : w.Shows decode) (hl : w.Lists v) (hg : ∀ g, v.selectedGame = some g → g ∈ w.rows)
    (hp : ∀ p, v.selectedPlayer = some p → v.selectedGame = some p.1) : v.Shows decode := by
  refine ⟨?_, ?_, hp, ?_, ?_, ?_⟩
  · rw [hl.controls]
    exact h.sound
  · rw [hl.rows]
    exact hg
  · rw [hl.inDlg, hl.pPlayer, hl.rows]
    exact h.dialog
  · rw [hl.thread, hl.rows]
    exact h.created
  · rw [hl.thread, hl.rows, hl.controls]
    exact h.scanning

theorem Shows.updatePlayerList (h : w.Shows decode) (hv : w.updatePlayerList o = some v) : v.Shows decode := by
  have hl := updatePlayerList_lists hv
  obtain ⟨g, names, n, list, new, -, rfl⟩ := updatePlayerList_eq hv
  exact h.lists hl h.game h.player

theorem Shows.submitRename {tmpmsg : List TChar} (h : w.Shows decode) (hv : w.submitRename o tmpmsg = some v) :
    v.Shows decode := by
  have hl := submitRename_lists hv
  obtain ⟨g, j, names, n, new, -, rfl⟩ := submitRename_eq hv
  exact h.lists hl h.game h.player

theorem Shows.selectGame {i : Fin maxServers} (h : w.Shows decode) (hv : w.selectGame o i = some v) :
    v.Shows decode := by
  rcases selectGame_cases hv with ⟨hrow, ⟨-, rfl⟩ | ⟨-, hv⟩⟩
  · exact h
  · refine Shows.updatePlayerList ?_ hv
    refine ⟨h.sound, fun g hg => ?_, by simp, h.dialog, h.created, h.scanning⟩
    obtain rfl := Option.some.inj hg
    exact hrow

theorem Shows.selectPlayer {item : Option Nat} (h : w.Shows decode) (hv : w.selectPlayer item = some v) :
    v.Shows decode := by
  rcases selectPlayer_cases hv with rfl | ⟨g, j, hg, rfl⟩
  · exact ⟨h.sound, h.game, by simp, h.dialog, h.created, h.scanning⟩
  · refine ⟨h.sound, h.game, fun p hp => ?_, h.dialog, h.created, h.scanning⟩
    obtain rfl := Option.some.inj hp
    exact hg

theorem Shows.clickLocalNames (h : w.Shows decode) (hv : w.handle o .clickLocalNames = some v) :
    v.Shows decode := by
  rcases clickLocalNames_cases hv with ⟨-, rfl⟩ | hv
  · exact h
  · exact h.updatePlayerList hv

theorem Shows.clickAutoCreateNicks (h : w.Shows decode) (hv : w.clickAutoCreateNicks o = some v) :
    v.Shows decode := by
  have hset : ∀ b, { w with autoNickSave := b }.Shows decode := fun _ =>
    ⟨h.sound, h.game, h.player, h.dialog, h.created, h.scanning⟩
  rcases clickAutoCreateNicks_cases hv with ⟨-, -, hv⟩ | ⟨-, rfl⟩
  · exact (hset true).updatePlayerList hv
  · exact hset _

theorem Shows.congr (h : w.Shows decode) (hc : v.controls = w.controls) (hg : v.selectedGame = w.selectedGame)
    (hp : v.selectedPlayer = w.selectedPlayer) (hd : v.inDlg = true → w.inDlg = true) (hr : v.pPlayer = w.pPlayer)
    (hrows : v.rows = w.rows) (ht : v.thread = w.thread) : v.Shows decode := by
  refine ⟨?_, ?_, ?_, ?_, ?_, ?_⟩
  · rw [hc]
    exact h.sound
  · rw [hg, hrows]
    exact h.game
  · rw [hp, hg]
    exact h.player
  · rw [hr, hrows]
    exact fun hdlg => h.dialog (hd hdlg)
  · rw [ht, hrows]
    exact h.created
  · rw [ht, hrows, hc]
    exact h.scanning

theorem Shows.leaveDlg (o : Outcomes) (h : w.Shows decode) : (w.leaveDlg o).Shows decode := by
  rcases leaveDlg_cases o w with ⟨-, -, he⟩ | he
  · rw [he]
    exact h.congr rfl rfl rfl (fun ht => Bool.noConfusion ht) rfl rfl rfl
  · rw [he]
    exact h.congr rfl rfl rfl (fun ht => Bool.noConfusion ht) rfl rfl rfl

theorem Shows.closeRenameDlg {input : List TChar} (h : w.Shows decode) (hv : w.closeRenameDlg o input = some v) :
    v.Shows decode := by
  rcases closeRenameDlg_cases hv with ⟨-, rfl⟩ | ⟨-, -, rfl⟩ | ⟨-, -, x, hx, hv⟩
  · exact h
  · exact h.leaveDlg o
  · exact ((h.leaveDlg o).submitRename hx).updatePlayerList hv

theorem Shows.cancelScan (h : w.Shows decode) : w.cancelScan.Shows decode := by
  refine ⟨h.sound.cancel, h.game, h.player, h.dialog, h.created, fun s hs => ?_⟩
  rcases h.scanning s hs with hdone | ⟨done, hst⟩
  · exact .inl hdone
  · exact .inr ⟨done, hst.cancel⟩

theorem Shows.beginScan (o : Outcomes) (h : w.Shows decode) (hdlg : w.inDlg = false) :
    (w.beginScan o).Shows decode := by
  obtain ⟨log, he⟩ := beginScan_eq o w
  rw [he]
  refine ⟨h.sound.withContinue true, fun g hg => ?_, fun p hp => ?_, fun ht => ?_, fun _ _ _ => rfl,
    fun s hs => ?_⟩
  · cases hg
  · cases hp
  · exact absurd (hdlg.symm.trans ht) (by simp)
  · obtain ⟨c, -, hc⟩ := Option.map_eq_some_iff.mp hs
    cases hc

theorem Shows.refresh (o : Outcomes) (h : w.Shows decode) : (w.refresh o).Shows decode := by
  rw [Window.refresh]
  split_ifs with hdlg
  · exact h
  · exact h.cancelScan
  · exact h
  · exact h.beginScan o (by simpa using hdlg)

theorem Shows.renameDlg (h : w.Shows decode) : w.renameDlg.Shows decode := by
  rcases renameDlg_cases w with he | ⟨-, p, hp, he⟩
  · rw [he]
    exact h
  · rw [he]
    exact ⟨h.sound, h.game, h.player, fun _ => ⟨p, rfl, h.game p.1 (h.player p hp)⟩, h.created, h.scanning⟩

theorem Shows.endScan (o : Outcomes) (h : w.Shows decode) : (w.endScan o).Shows decode := by
  have hended : { w with hScan := false, thread := none }.Shows decode :=
    ⟨h.sound, h.game, h.player, h.dialog, fun _ _ ht => (by cases ht), fun _ ht => (by cases ht)⟩
  rcases endScan_cases o w with ⟨-, he⟩ | ⟨-, -, he⟩ | ⟨-, -, he⟩ <;> rw [he]
  · exact hended.congr rfl rfl rfl id rfl rfl rfl
  · exact hended.congr rfl rfl rfl id rfl rfl rfl
  · exact hended

theorem Shows.scan (h : w.Shows decode) (hindexed : w.Indexed .scan) (hv : w.scan decode o = some v) :
    v.Shows decode := by
  rcases scan_cases hv with ⟨source, garbage, ht, rfl⟩ | ⟨s, k, todo, r, ht, htodo, hr, rfl⟩ |
    ⟨s, code, m, x, ht, htodo, -, hx, rfl⟩
  · have hrows := h.created source garbage ht
    refine ⟨h.sound.prepare.withContinue _, h.game, h.player, h.dialog, fun _ _ ht => (by cases ht),
      fun s hs => ?_⟩
    cases hs
    refine .inr ⟨[], ?_⟩
    show Scanning.Stands decode w.rows [] _ _
    rw [hrows]
    exact Scanning.start_stands source garbage h.sound
  · obtain hnil | ⟨done, hst⟩ := h.scanning s ht
    · simp [htodo] at hnil
    · obtain ⟨hwrites, hnext⟩ := hst.report (hindexed rfl s ht) htodo hr
      refine ⟨hwrites.sound, fun g hg => ?_, h.player, fun hdlg => ?_, fun _ _ ht => (by cases ht),
        fun t ht => ?_⟩
      · exact List.mem_append_left _ (h.game g hg)
      · obtain ⟨p, hp, hrow⟩ := h.dialog hdlg
        exact ⟨p, hp, List.mem_append_left _ hrow⟩
      · cases ht
        exact hnext.imp_right fun hst => ⟨_, hst⟩
  · have hx : { w with controls := x }.Shows decode := by
      refine ⟨(Scanning.terminal_sound h.sound hx).1, h.game, h.player, h.dialog, h.created, ?_⟩
      intro t hs
      obtain rfl := ScanThread.scanning.inj (Option.some.inj (ht.symm.trans hs))
      exact .inl htodo
    exact hx.endScan o

theorem Shows.step {a : Action × Outcomes} (h : w.Shows decode) (hindexed : w.Indexed a.1)
    (hv : w.step decode a = some v) : v.Shows decode := by
  obtain ⟨a, o⟩ := a
  have hsubmit : { w with submit := true }.Shows decode := h.congr rfl rfl rfl id rfl rfl rfl
  rw [Window.step] at hv
  split_ifs at hv
  cases a with
  | scan => exact h.scan hindexed hv
  | ui m =>
    cases m with
    | refresh =>
      obtain rfl := Option.some.inj hv
      exact h.refresh o
    | timer =>
      rcases (timer_cases hv).2 with ⟨-, rfl⟩ | ⟨-, rfl⟩
      · exact h.congr rfl rfl rfl id rfl rfl rfl
      · exact h.refresh o
    | close =>
      obtain rfl := Option.some.inj hv
      rcases close_cases w with he | he
      · rw [he]
        exact h.cancelScan.congr rfl rfl rfl id rfl rfl rfl
      · rw [he]
        exact h.congr rfl rfl rfl id rfl rfl rfl
    | renameDlg =>
      obtain rfl := Option.some.inj hv
      exact h.renameDlg
    | renOk input => exact hsubmit.closeRenameDlg hv
    | renDelete => exact hsubmit.closeRenameDlg hv
    | renClose input => exact h.closeRenameDlg hv
    | selectGame i => exact h.selectGame hv
    | selectPlayer item => exact h.selectPlayer hv
    | clickLocalNames => exact h.clickLocalNames hv
    | clickAutoCreateNicks => exact h.clickAutoCreateNicks hv
    | clickAutoScan =>
      obtain rfl := Option.some.inj hv
      obtain ⟨i, armed, log, he⟩ := clickAutoScan_eq o w
      rw [he]
      exact h.congr rfl rfl rfl id rfl rfl rfl
    | clickAutoScanTimeApply input =>
      obtain rfl := Option.some.inj hv
      obtain ⟨i, armed, log, he⟩ := clickAutoScanTimeApply_eq o input w
      rw [he]
      exact h.congr rfl rfl rfl id rfl rfl rfl

theorem clearNames_other {k : Item} {x y : WindowControls}
    {names : Vector (Vector LocalName maxPlayers) maxServers} {g : Fin maxServers} (hg : g.val ≠ k.serverIndex)
    (h : Scanning.Writes k x y) :
    (clearNames x y names).get g = names.get g := by
  rw [clearNames]
  split_ifs with hservers hplayers
  · obtain ⟨i, hi, hk⟩ := h.server hservers
    rw [hi]
    exact Vector.getElem_set_ne i.isLt g.isLt (by omega)
  · obtain ⟨i, j, hij, hi⟩ := h.player hplayers
    rw [hij]
    exact Vector.getElem_set_ne i.isLt g.isLt (by omega)
  · rfl

theorem Shows.scan_spares {g : Fin maxServers} (h : w.Shows decode) (hindexed : w.Indexed .scan)
    (hv : w.scan decode o = some v) (hg : g ∈ w.rows) :
    v.controls.game g = w.controls.game g ∧ v.localNames.get g = w.localNames.get g ∧ v.pPlayer = w.pPlayer := by
  rcases scan_cases hv with ⟨-, -, -, rfl⟩ | ⟨s, k, todo, r, ht, htodo, hr, rfl⟩ |
    ⟨s, code, m, x, -, -, -, hx, rfl⟩
  · exact ⟨rfl, rfl, rfl⟩
  · obtain hnil | ⟨done, hst⟩ := h.scanning s ht
    · simp [htodo] at hnil
    · have hwrites := (hst.report (hindexed rfl s ht) htodo hr).1
      have hbeyond : g.val < k.serverIndex := hst.beyond hg (by simp [htodo])
      exact ⟨hwrites.others g g.isLt (by omega), clearNames_other (by omega) hwrites, rfl⟩
  · have hgames := (Scanning.terminal_sound h.sound hx).2
    obtain ⟨hcontrols, hnames, hplayer, -, -⟩ := endScan_keeps o { w with controls := x }
    refine ⟨?_, by rw [hnames], hplayer⟩
    rw [hcontrols]
    exact congrArg (·[g]) hgames

/-- The nick is submitted under the identifier, and then the players are listed. -/
def SubmitsUnder (userId : List TChar) (o : Outcomes) (tmpmsg : List TChar) (w v : Window) : Prop :=
  ∃ x, (w.leaveDlg o).submitRename o tmpmsg = some x ∧ Emits (·.userId = some userId) (w.leaveDlg o) x ∧
    x.updatePlayerList o = some v

/-- A step while the dialog is open for the player at `p`, of whom it shows `shown`. -/
structure SparesPlayer (p : Fin maxServers × Fin maxPlayers) (shown : PlayerInfo) (w : Window)
    (a : Action × Outcomes) (v : Window) : Prop where
  noScan : Emits (· ≠ .beginScan) w v
  player : v.pPlayer = some p
  info : v.playerAt p = shown
  name : a.1 = .scan → v.nameAt p = w.nameAt p
  submits : ∀ tmpmsg, a.1.submits w = some tmpmsg →
    SubmitsUnder (wstr shown.userId) a.2 tmpmsg { w with submit := true } v

section spares

variable {a : Action × Outcomes} {p : Fin maxServers × Fin maxPlayers}

theorem Emits.timer_noScan (h : Emits (·.isTimer) w v) : Emits (· ≠ .beginScan) w v :=
  h.imp fun e he hb => by subst hb; cases he

theorem Emits.nick_noScan (h : Emits (·.userId.isSome) w v) : Emits (· ≠ .beginScan) w v :=
  h.imp fun e he hb => by simp [hb, Event.userId] at he

theorem closeRenameDlg_spares {input : List TChar} (hdlg : w.inDlg = true) (hp : w.pPlayer = some p)
    (hv : w.closeRenameDlg o input = some v) : Emits (· ≠ .beginScan) w v ∧ v.pPlayer = some p ∧
    v.controls = w.controls ∧
      (w.submit = true → SubmitsUnder (wstr (w.playerAt p).userId) o (edited input) w v) := by
  have hleave := (leaveDlg_emits o w).timer_noScan
  have hcontrols := leaveDlg_controls o w
  have hplayer : (w.leaveDlg o).pPlayer = some p := by
    rcases leaveDlg_cases o w with ⟨-, -, he⟩ | he
    · rw [he]
      exact hp
    · rw [he]
      exact hp
  rcases closeRenameDlg_cases hv with ⟨hclosed, -⟩ | ⟨-, hsubmit, rfl⟩ | ⟨-, -, x, hx, hv⟩
  · exact absurd (hclosed.symm.trans hdlg) (by simp)
  · exact ⟨hleave, hplayer, hcontrols, fun h => absurd (hsubmit.symm.trans h) (by simp)⟩
  · obtain ⟨g, j, hgj, hnick⟩ := submitRename_emits hx
    obtain rfl := Option.some.inj (hplayer.symm.trans hgj)
    rw [hcontrols] at hnick
    have hlists := (submitRename_lists hx).trans (updatePlayerList_lists hv)
    refine ⟨?_, hlists.pPlayer.trans hplayer, hlists.controls.trans hcontrols, fun _ => ⟨x, hx, hnick, hv⟩⟩
    exact (hleave.trans (submitRename_nicks hx).nick_noScan).trans (updatePlayerList_nicks hv).nick_noScan

theorem sparesPlayer_of (hp : v.pPlayer = some p) (hc : v.controls = w.controls) (hui : a.1 ≠ .scan)
    (hnone : a.1.submits w = none) (he : Emits (· ≠ .beginScan) w v) : SparesPlayer p (w.playerAt p) w a v where
  noScan := he
  player := hp
  info := by rw [playerAt, hc, playerAt]
  name := fun h => absurd h hui
  submits := fun t ht => by simp [hnone] at ht

theorem Lists.spares (hl : w.Lists v) (hp : w.pPlayer = some p) (hui : a.1 ≠ .scan) (hnone : a.1.submits w = none)
    (he : Emits (· ≠ .beginScan) w v) : SparesPlayer p (w.playerAt p) w a v :=
  sparesPlayer_of (hl.pPlayer.trans hp) hl.controls hui hnone he

/-- The dialog is closed by a button that submits what it shows. -/
theorem submitted_spares {input : List TChar} {m : Msg} (hm : (Action.ui m).submits w = some (edited input))
    (hdlg : w.inDlg = true) (hp : w.pPlayer = some p)
    (hv : { w with submit := true }.closeRenameDlg o input = some v) :
    SparesPlayer p (w.playerAt p) w (.ui m, o) v := by
  obtain ⟨he, hplayer, hcontrols, hsubmits⟩ := closeRenameDlg_spares (w := { w with submit := true }) hdlg hp hv
  refine ⟨he, hplayer, by rw [playerAt, hcontrols]; rfl, fun h => absurd h (by simp), fun t ht => ?_⟩
  obtain rfl := Option.some.inj (hm.symm.trans ht)
  exact hsubmits rfl

theorem Shows.spares (h : w.Shows decode) (hindexed : w.Indexed a.1) (hdlg : w.inDlg = true)
    (hp : w.pPlayer = some p) (hv : w.step decode a = some v) : SparesPlayer p (w.playerAt p) w a v := by
  obtain ⟨a, o⟩ := a
  rw [Window.step] at hv
  split_ifs at hv
  cases a with
  | scan =>
    obtain ⟨q, hq, hrow⟩ := h.dialog hdlg
    obtain rfl := Option.some.inj (hp.symm.trans hq)
    obtain ⟨hgame, hnames, hplayer⟩ := h.scan_spares hindexed hv hrow
    refine ⟨(scan_emits hv).timer_noScan, hplayer.trans hp, ?_, fun _ => ?_, fun t ht => by cases ht⟩
    · rw [playerAt, hgame, playerAt]
    · rw [nameAt, hnames, nameAt]
  | ui m =>
    have hui : Action.ui m ≠ .scan := by simp
    cases m with
    | refresh =>
      obtain rfl := Option.some.inj hv
      rw [Window.refresh, if_pos hdlg]
      exact (Lists.refl w).spares hp hui rfl (.silent rfl)
    | timer =>
      rcases (timer_cases hv).2 with ⟨-, rfl⟩ | ⟨hclosed, -⟩
      · exact sparesPlayer_of hp rfl hui rfl (killTimer_emits w).timer_noScan
      · exact absurd (hclosed.symm.trans hdlg) (by simp)
    | close =>
      obtain rfl := Option.some.inj hv
      rcases close_cases w with he | he
      · rw [he]
        exact ⟨.silent rfl, hp, rfl, fun h => absurd h hui, fun t ht => by cases ht⟩
      · rw [he]
        exact sparesPlayer_of hp rfl hui rfl (.silent rfl)
    | renameDlg =>
      obtain rfl := Option.some.inj hv
      rcases renameDlg_cases w with he | ⟨hclosed, -⟩
      · rw [he]
        exact (Lists.refl w).spares hp hui rfl (.silent rfl)
      · exact absurd (hclosed.symm.trans hdlg) (by simp)
    | renOk input => exact submitted_spares rfl hdlg hp hv
    | renDelete => exact submitted_spares rfl hdlg hp hv
    | renClose input =>
      obtain ⟨he, hplayer, hcontrols, hsubmits⟩ := closeRenameDlg_spares hdlg hp hv
      refine ⟨he, hplayer, by rw [playerAt, hcontrols]; rfl, fun h => absurd h hui, fun t ht => ?_⟩
      simp only [Action.submits] at ht
      split_ifs at ht with hs
      obtain rfl := Option.some.inj ht
      have hset : { w with submit := true } = w := by rw [← hs]
      rw [hset]
      exact hsubmits hs
    | selectGame i =>
      have hnicks := handle_nicks (m := .selectGame i) trivial id hv
      exact (selectGame_lists hv).spares hp hui rfl hnicks.nick_noScan
    | selectPlayer item =>
      have hnicks := handle_nicks (m := .selectPlayer item) trivial id hv
      exact (selectPlayer_lists hv).spares hp hui rfl hnicks.nick_noScan
    | clickLocalNames =>
      have hnicks := handle_nicks (m := .clickLocalNames) trivial id hv
      exact (clickLocalNames_lists hv).spares hp hui rfl hnicks.nick_noScan
    | clickAutoCreateNicks =>
      have hnicks := handle_nicks (m := .clickAutoCreateNicks) trivial id hv
      exact (clickAutoCreateNicks_lists hv).spares hp hui rfl hnicks.nick_noScan
    | clickAutoScan =>
      obtain rfl := Option.some.inj hv
      have hquiet := (clickAutoScan_emits o w).timer_noScan
      obtain ⟨i, armed, log, he⟩ := clickAutoScan_eq o w
      rw [he] at hquiet ⊢
      exact sparesPlayer_of hp rfl hui rfl hquiet
    | clickAutoScanTimeApply input =>
      obtain rfl := Option.some.inj hv
      have hquiet := (clickAutoScanTimeApply_emits o input w).timer_noScan
      obtain ⟨i, armed, log, he⟩ := clickAutoScanTimeApply_eq o input w
      rw [he] at hquiet ⊢
      exact sparesPlayer_of hp rfl hui rfl hquiet

end spares

end Window

/-- From the step that opens the rename dialog to the step that closes it, no scan begins, no
call of a scan writes to its player, and a nick is submitted under the identifier that it shows,
if no member with an index that has wrapped is reported. -/
theorem rename_keeps_player {decode : Decoder} {registry : Registry} {autoNickSave autoScan : Bool}
    {delay : UInt32} {moves during : List (Move Window (Action × Outcomes))} {o : Outcomes} {u v w : Window}
    (h : Run (Window.step decode) (.start registry autoNickSave autoScan delay) moves u)
    (hindexed : ∀ m ∈ moves, m.source.Indexed m.action.1) (hclosed : u.inDlg = false)
    (hopen : u.step decode (.ui .renameDlg, o) = some v) (hopened : v.inDlg = true)
    (hduring : Run (Window.step decode) v during w) (hdlg : ∀ m ∈ during, m.source.inDlg = true)
    (hduringIndexed : ∀ m ∈ during, m.source.Indexed m.action.1) :
    ∃ p, u.selectedPlayer = some p ∧ v.playerAt p = u.playerAt p ∧
      ∀ m ∈ during, Window.SparesPlayer p (v.playerAt p) m.source m.action m.target := by
  have hu : u.Shows decode :=
    (h.invariant (P := fun s a => s.Indexed a.1) (fun _ _ _ hs hi hstep => hs.step hi hstep)
    (Window.start_shows decode registry autoNickSave autoScan delay) hindexed).1
  have hv := hu.step (fun h => by cases h) hopen
  obtain ⟨p, hsel, hp, hinfo⟩ : ∃ p, u.selectedPlayer = some p ∧ v.pPlayer = some p ∧
      v.playerAt p = u.playerAt p := by
    rw [Window.step] at hopen
    split_ifs at hopen
    obtain rfl := Option.some.inj hopen
    rcases u.renameDlg_cases with he | ⟨-, p, hsel, he⟩
    · exact absurd (hclosed.symm.trans (he ▸ hopened)) (by simp)
    · rw [he]
      exact ⟨p, hsel, rfl, rfl⟩
  refine ⟨p, hsel, hinfo, ?_⟩
  have hkept := hduring.invariant
    (I := fun s => s.Shows decode ∧ s.pPlayer = some p ∧ s.playerAt p = v.playerAt p)
    (P := fun s a => s.inDlg = true ∧ s.Indexed a.1)
    (fun s a t hs hd ht => by
      have hspares := hs.1.spares hd.2 hd.1 hs.2.1 ht
      exact ⟨hs.1.step hd.2 ht, hspares.player, hspares.info.trans hs.2.2⟩)
    ⟨hv, hp, rfl⟩ fun m hm => ⟨hdlg m hm, hduringIndexed m hm⟩
  intro m hm
  obtain ⟨hshows, hplayer, hshown⟩ := hkept.2 m hm
  rw [← hshown]
  exact hshows.spares (hduringIndexed m hm) (hdlg m hm) hplayer (hduring.move hm)

/-- `{"G":[{"p":[{"i":"S1","t":1}],"k":1},{"k":1}]}` -/
def twoGames : Source × KeyValueInfo :=
  (.file (.ok [.data ([0x7b, 0x22, 0x47, 0x22, 0x3a, 0x5b, 0x7b, 0x22, 0x70, 0x22, 0x3a, 0x5b, 0x7b] ++
    steamPlayer ++ [0x7d, 0x5d, 0x2c, 0x22, 0x6b, 0x22, 0x3a, 0x31, 0x7d, 0x2c, 0x7b, 0x22, 0x6b, 0x22,
    0x3a, 0x31, 0x7d, 0x5d, 0x7d])]), .zero)

/-- The player of the first game is selected while the scan is going on. -/
def untilSelected : List (Action × Outcomes) :=
  (.ui .refresh, { idle with createThread := some twoGames }) :: List.replicate 4 (.scan, idle) ++
    [(.ui (.selectGame firstGame), idle), (.ui (.selectPlayer (some 0)), idle)]

/-- A click on refresh, the second game, the end of the scan, and the nick. -/
def untilRenamed : List (Action × Outcomes) :=
  [(.ui .refresh, { idle with createThread := some twoGames }), (.scan, idle), (.scan, idle),
    (.ui (.renOk [0x41]), idle)]

set_option maxRecDepth 100000 in
theorem renamed_runs :
    ∃ r ∈ exec (Window.step fun _ _ => none) (.start emptyRegistry false false 60) untilSelected,
    ∃ v ∈ r.2.step (fun _ _ => none) (.ui .renameDlg, idle),
    ∃ q ∈ exec (Window.step fun _ _ => none) v untilRenamed,
      r.2.inDlg = false ∧ v.inDlg = true ∧ (∀ m ∈ q.1, m.source.inDlg = true) ∧
        (∀ m ∈ r.1 ++ q.1, m.source.Indexed m.action.1) ∧ .saveNick [0x53, 0x31] [0x41] ∈ q.2.log := by
  decide +kernel

theorem rename_keeps_player_twoGames :
    ∃ (u v w : Window) (moves during : List (Move Window (Action × Outcomes))) (p : _),
    Run (Window.step fun _ _ => none) (.start emptyRegistry false false 60) moves u ∧
      u.step (fun _ _ => none) (.ui .renameDlg, idle) = some v ∧ Run (Window.step fun _ _ => none) v during w ∧
      during.map Move.action = untilRenamed ∧ .saveNick [0x53, 0x31] [0x41] ∈ w.log ∧ u.selectedPlayer = some p ∧
        v.playerAt p = u.playerAt p ∧ ∀ m ∈ during,
        Window.SparesPlayer p (v.playerAt p) m.source m.action m.target := by
  obtain ⟨⟨moves, u⟩, hr, v, hv, ⟨during, w⟩, hq, hclosed, hopened, hdlg, hindexed, hsaved⟩ := renamed_runs
  rw [List.forall_mem_append] at hindexed
  obtain ⟨p, hsel, hinfo, hspares⟩ :=
    rename_keeps_player (exec_run hr) hindexed.1 hclosed hv hopened (exec_run hq) hdlg
    hindexed.2
  exact ⟨u, v, w, moves, during, p, exec_run hr, hv, exec_run hq, exec_actions hq, hsaved, hsel, hinfo, hspares⟩

/-- `"i":"S1"` -/
def steamField : Field :=
  .tight keyI (.quoted [.plain 0x53 (by decide), .plain 0x31 (by decide)]) (by decide)

/-- `"t":2` -/
def teamField : Field :=
  .tight keyT (.bare ⟨[0x32], by simp, List.forall_mem_singleton.mpr rfl⟩) (by decide)

/-- `{"G":[{"p":[{"i":"S1","t":1}],"k":1},{},…,{},{"p":[{"t":2}]}]}` with 2^31 - 1 empty servers. -/
def farRename : Lobby :=
  farServers 2147483647
    (.items (.players ⟨[], keyP, [], []⟩
      (.items ⟨[], .items steamField [.tight keyT one one_lt], []⟩ []) [])
      [.field (.tight keyK one one_lt)])
    (.items (.players ⟨[], keyP, [], []⟩ (.items ⟨[], .items teamField [], []⟩ []) []) [])

/-- The members of `farRename`: the last one is told with the index -2^31. -/
def farRenameItems : List Item :=
  [⟨.normal, [0x69], [0x53, 0x31], 5, 0, 0⟩, ⟨.last, [0x74], [0x31], 5, 0, 0⟩, ⟨.last, [0x6b], [0x31], 3, 0, 1⟩,
    ⟨.last, [0x74], [0x32], 5, 2147483648, 0⟩]

theorem farRename_items : farRename.placed.map Placed.item = farRenameItems := by
  rw [farRename, farServers_placed]
  rfl

/-- The window behind a click on refresh, when the thread has prepared the scan. -/
def prepared (s : Scanning) : Window :=
  { Window.start emptyRegistry false false 60 with
    controls := WindowControls.zero.beginScan.prepare
    thread := some (.scanning s)
    hScan := true
    log := [.beginScan] }

theorem prepared_run (source : Source) (garbage : KeyValueInfo) : ∃ moves,
    Run (Window.step fun _ _ => none) (.start emptyRegistry false false 60) moves
        (prepared (.start source garbage)) ∧
      moves.map Move.action = [(.ui .refresh, { idle with createThread := some (source, garbage) }),
        (.scan, idle)] :=
  ⟨_, .cons rfl (.cons rfl (.nil _)), rfl⟩

/-- The player of the first game is selected, and the dialog is opened for it. -/
def untilDialog : List (Action × Outcomes) :=
  List.replicate 3 (.scan, idle) ++ [(.ui (.selectGame firstGame), idle), (.ui (.selectPlayer (some 0)), idle)]

set_option maxRecDepth 100000 in
theorem farRename_runs :
    ∃ r ∈ exec (Window.step fun _ _ => none) (prepared ⟨farRenameItems, .ok (0, none), .zero⟩) untilDialog,
      ∃ v ∈ r.2.step (fun _ _ => none) (.ui .renameDlg, idle), ∃ t ∈ v.step (fun _ _ => none) (.scan, idle),
        v.inDlg = true ∧ t.inDlg = true ∧ ∃ p ∈ v.pPlayer, (v.playerAt p).team = 1 ∧ (t.playerAt p).team = 2 := by
  decide +kernel

/-- A call of the scan rewrites the player that the open dialog is for. -/
theorem farRename_rewrites : ∃ (moves : List (Move Window (Action × Outcomes))) (u v t : Window),
    Run (Window.step fun _ _ => none) (.start emptyRegistry false false 60) moves u ∧
      moves.map Move.action =
        (.ui .refresh, { idle with createThread := some (farRename.fileScan.source, .zero) }) ::
          (.scan, idle) :: untilDialog ∧
      u.step (fun _ _ => none) (.ui .renameDlg, idle) = some v ∧ v.inDlg = true ∧
      v.step (fun _ _ => none) (.scan, idle) = some t ∧ t.inDlg = true ∧
      ∃ p, v.pPlayer = some p ∧ t.playerAt p ≠ v.playerAt p := by
  obtain ⟨first, hfirst, hactions⟩ := prepared_run farRename.fileScan.source .zero
  rw [Lobby.start_fileScan, farRename_items] at hfirst
  obtain ⟨r, hr, v, hv, t, ht, hopen, hstill, p, hp, hteam, hteam'⟩ := farRename_runs
  refine ⟨first ++ r.1, r.2, v, t, hfirst.append (exec_run hr), ?_, hv, hopen, ht, hstill, p, hp, fun he => ?_⟩
  · rw [List.map_append, hactions, exec_actions hr]
    rfl
  · rw [he, hteam] at hteam'
    exact absurd hteam' (by decide)

end BzccScanner
