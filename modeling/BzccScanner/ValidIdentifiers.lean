import BzccScanner.Runs
import BzccScanner.Window

/-! Which identifiers reach the registry. The dialog asks `UserIDIsValid`,
which accepts the empty string, and `UpdatePlayerList` does not ask it. -/

namespace BzccScanner

open CString Runs

/-- A nick is saved or deleted only under a valid identifier. -/
def Event.Valid (e : Event) : Prop := ∀ userId ∈ e.userId, userId ≠ [] ∧ userIDIsValid userId = true

theorem Event.valid_of_userId {e : Event} (h : e.userId = none) : e.Valid := by
  simp [Valid, h]

/-- Every player that is given a nick when its turn comes has a valid identifier. -/
def ImportsValid (o : Outcomes) (autoNickSave : Bool) (g : GameInfo) :
    Nat → Nat → Vector LocalName maxPlayers → Nicks → Prop
  | 0, _, _, _ => True
  | count + 1, i, names, n =>
    ∀ _ : i < maxPlayers,
      (AutoSaves o autoNickSave i g.playerinfo[i] names[i] n →
        userIDIsValid (wstr g.playerinfo[i].userId) = true) ∧
        (o.addString i = true → ∀ r, importNick o autoNickSave i g.playerinfo[i] names[i] n = some r →
          ImportsValid o autoNickSave g count (i + 1) (names.set i r.1) r.2.1)

variable {o : Outcomes} {autoNickSave : Bool} {p : PlayerInfo} {localName : LocalName} {n : Nicks} {i : Nat}
  {r : LocalName × Nicks × List Event}

theorem importNick_valid (h : importNick o autoNickSave i p localName n = some r) :
    (∀ e ∈ r.2.2, e.Valid) ↔
      (AutoSaves o autoNickSave i p localName n → userIDIsValid (wstr p.userId) = true) := by
  rcases importNick_events h with ⟨hs, nick, he⟩ | ⟨hs, he⟩
  · simp [he, hs, Event.Valid, Event.userId, hs.identified]
  · simp [he, hs]

theorem importNicks_valid {g : GameInfo} {count : Nat} {names : Vector LocalName maxPlayers}
    {s : Vector LocalName maxPlayers × Nicks × List Event}
    (h : importNicks o autoNickSave g count i names n = some s) :
    (∀ e ∈ s.2.2, e.Valid) ↔ ImportsValid o autoNickSave g count i names n := by
  induction count generalizing i names n s with
  | zero =>
    obtain rfl := Option.some.inj h
    simp [ImportsValid]
  | succ count ih =>
    rw [importNicks] at h
    by_cases hi : i < maxPlayers
    · rw [dif_pos hi] at h
      obtain ⟨r, hr, h⟩ := Option.bind_eq_some_iff.mp h
      have hone := importNick_valid hr
      rw [ImportsValid, forall_prop_of_true hi]
      by_cases hadd : o.addString i = false
      · rw [if_pos hadd] at h
        obtain rfl := Option.some.inj h
        simp [hone, hadd]
      · rw [if_neg hadd] at h
        obtain ⟨t, ht, h⟩ := Option.bind_eq_some_iff.mp h
        obtain rfl := Option.some.inj h
        have hrest := ih ht
        rw [List.forall_mem_append, hone, hrest]
        simp [hadd, hr]
    · simp [dif_neg hi] at h

theorem userIDIsValid_nil : userIDIsValid [] = true := rfl

theorem submitNick_valid {tmpmsg : List TChar} (h : submitNick o p localName tmpmsg n = some r) :
    (∀ e ∈ r.2.2, e.Valid) ↔ (tmpmsg ≠ wstr localName → wstr p.userId ≠ []) := by
  rcases submitNick_events h with ⟨⟨hchanged, hvalid⟩, e, he, hid⟩ | ⟨hnot, he⟩
  · simp [he, Event.Valid, hid, hchanged, hvalid]
  · refine iff_of_true (by simp [he]) fun hchanged hempty => hnot ⟨hchanged, ?_⟩
    rw [hempty]
    exact userIDIsValid_nil

namespace Window

/-- Every player that the list is to give a nick has a valid identifier. -/
def ListsValid (o : Outcomes) (w : Window) : Prop :=
  ∀ g ∈ w.selectedGame, ImportsValid o w.autoNickSave (w.controls.game g) (w.controls.game g).playerCount 0
    (w.localNames.get g) w.nicks

/-- A changed nick is submitted only for a player who has an identifier. -/
def SubmitsIdentified (tmpmsg : List TChar) (w : Window) : Prop :=
  ∀ g j, w.pPlayer = some (g, j) → tmpmsg ≠ wstr ((w.localNames.get g).get j) →
    wstr ((w.controls.game g).playerinfo.get j).userId ≠ []

def RenamesValid (o : Outcomes) (input : List TChar) (w : Window) : Prop :=
  w.inDlg = true → w.submit = true →
    (w.leaveDlg o).SubmitsIdentified (edited input) ∧
      ∀ v, (w.leaveDlg o).submitRename o (edited input) = some v → v.ListsValid o

/-- What is asked of the window in front of a step, at each call of `UpdatePlayerList` and each submitted nick. -/
def StepValid (w : Window) (a : Action × Outcomes) : Prop :=
  match a.1 with
  | .ui (.renOk input) => { w with submit := true }.RenamesValid a.2 input
  | .ui .renDelete => { w with submit := true }.RenamesValid a.2 []
  | .ui (.renClose input) => w.RenamesValid a.2 input
  | .ui (.selectGame i) => w.selectedGame ≠ some i → { w with selectedGame := some i }.ListsValid a.2
  | .ui .clickLocalNames => w.ListsValid a.2
  | .ui .clickAutoCreateNicks =>
    w.autoNickSave = false → w.selectedPlayer.isSome = true → { w with autoNickSave := true }.ListsValid a.2
  | _ => True

def Logs (w v : Window) (P : Prop) : Prop := ∃ new, v.log = w.log ++ new ∧ ((∀ e ∈ new, e.Valid) ↔ P)

variable {o : Outcomes} {u v w : Window} {P Q : Prop}

theorem Logs.refl (h : v.log = w.log) : w.Logs v True := ⟨[], by simp [h], by simp⟩

theorem Emits.logs (h : Emits Event.Valid w v) : w.Logs v True := by
  obtain ⟨new, hnew, hall⟩ := h
  exact ⟨new, hnew, iff_of_true hall trivial⟩

theorem Emits.timer_logs (h : Emits (·.isTimer) w v) : w.Logs v True :=
  (h.imp fun _ he => Event.valid_of_userId (Event.userId_of_isTimer he)).logs

theorem Logs.trans (h : w.Logs v P) (h' : v.Logs u Q) : w.Logs u (P ∧ Q) := by
  obtain ⟨new, hnew, hP⟩ := h
  obtain ⟨more, hmore, hQ⟩ := h'
  exact ⟨new ++ more, by rw [hmore, hnew, List.append_assoc], by rw [List.forall_mem_append, hP, hQ]⟩

theorem Logs.congr (h : w.Logs v P) (hPQ : P ↔ Q) : w.Logs v Q := by
  obtain ⟨new, hnew, hP⟩ := h
  exact ⟨new, hnew, hP.trans hPQ⟩

theorem updatePlayerList_logs (h : w.updatePlayerList o = some v) : w.Logs v (w.ListsValid o) := by
  rw [updatePlayerList] at h
  cases hg : w.selectedGame with
  | none => simp [hg] at h
  | some g =>
    simp only [hg] at h
    obtain ⟨r, hr, h⟩ := Option.bind_eq_some_iff.mp h
    obtain rfl := Option.some.inj h
    refine ⟨r.2.2, rfl, ?_⟩
    rw [importNicks_valid hr, ListsValid, hg]
    simp

theorem submitRename_logs {tmpmsg : List TChar} (h : w.submitRename o tmpmsg = some v) :
    w.Logs v (w.SubmitsIdentified tmpmsg) := by
  rw [submitRename] at h
  cases hp : w.pPlayer with
  | none => simp [hp] at h
  | some p =>
    obtain ⟨g, j⟩ := p
    simp only [hp] at h
    obtain ⟨r, hr, h⟩ := Option.bind_eq_some_iff.mp h
    obtain rfl := Option.some.inj h
    refine ⟨r.2.2, rfl, ?_⟩
    rw [submitNick_valid hr, SubmitsIdentified, hp]
    simp

theorem closeRenameDlg_logs {input : List TChar} (h : w.closeRenameDlg o input = some v) :
    w.Logs v (w.RenamesValid o input) := by
  rcases closeRenameDlg_cases h with ⟨hdlg, rfl⟩ | ⟨-, hsubmit, rfl⟩ | ⟨hdlg, hsubmit, x, hx, hv⟩
  · exact (Logs.refl rfl).congr (iff_of_true trivial fun h => absurd (hdlg.symm.trans h) (by simp))
  · exact (leaveDlg_emits o w).timer_logs.congr (iff_of_true trivial fun _ h =>
      absurd (hsubmit.symm.trans h) (by simp))
  · refine (((leaveDlg_emits o w).timer_logs.trans (submitRename_logs hx)).trans (updatePlayerList_logs hv)).congr
      ?_
    simp [RenamesValid, hdlg, hsubmit, hx]

theorem Emits.scan_logs (h : Emits (fun e => e = .killTimer ∨ e = .beginScan) w v) : w.Logs v True := by
  refine (h.imp fun e he => Event.valid_of_userId ?_).logs
  rcases he with rfl | rfl <;> rfl

theorem close_logs (w : Window) : w.Logs w.close True := by
  rcases close_cases w with he | he <;> rw [he] <;> exact .refl rfl

theorem renameDlg_logs (w : Window) : w.Logs w.renameDlg True := by
  rcases renameDlg_cases w with he | ⟨-, p, -, he⟩ <;> rw [he] <;> exact .refl rfl

theorem timer_logs (h : w.handle o .timer = some v) : w.Logs v True := by
  simp only [handle] at h
  split_ifs at h
  obtain rfl := Option.some.inj h
  exact (timer_emits o w).scan_logs

theorem selectPlayer_logs {item : Option Nat} (h : w.selectPlayer item = some v) : w.Logs v True := by
  rcases selectPlayer_cases h with rfl | ⟨g, j, -, rfl⟩
  · exact .refl rfl
  · exact .refl rfl

theorem selectGame_logs {i : Fin maxServers} (h : w.selectGame o i = some v) :
    w.Logs v (w.selectedGame ≠ some i → { w with selectedGame := some i }.ListsValid o) := by
  rcases (selectGame_cases h).2 with ⟨hsame, rfl⟩ | ⟨hne, hv⟩
  · exact (Logs.refl rfl).congr (iff_of_true trivial fun hne => absurd hsame hne)
  · exact (updatePlayerList_logs hv).congr ⟨fun hl _ => hl, fun hl => hl hne⟩

theorem clickLocalNames_logs (h : w.handle o .clickLocalNames = some v) : w.Logs v (w.ListsValid o) := by
  rcases clickLocalNames_cases h with ⟨hnone, rfl⟩ | hv
  · refine (Logs.refl rfl).congr (iff_of_true trivial fun g hg => ?_)
    simp [hnone] at hg
  · exact updatePlayerList_logs hv

theorem clickAutoCreateNicks_logs (h : w.clickAutoCreateNicks o = some v) : w.Logs v
    (w.autoNickSave = false → w.selectedPlayer.isSome = true → { w with autoNickSave := true }.ListsValid o) := by
  rcases clickAutoCreateNicks_cases h with ⟨hoff, hsel, hv⟩ | ⟨hnot, rfl⟩
  · exact (updatePlayerList_logs hv).congr ⟨fun hl _ _ => hl, fun hl => hl hoff hsel⟩
  · exact (Logs.refl rfl).congr (iff_of_true trivial fun hoff hsel => absurd ⟨hoff, hsel⟩ hnot)

theorem step_logs {decode : Decoder} {a : Action × Outcomes} (h : w.step decode a = some v) :
    w.Logs v (w.StepValid a) := by
  obtain ⟨a, o⟩ := a
  rw [step] at h
  split_ifs at h
  cases a with
  | scan => exact (scan_emits h).timer_logs
  | ui m =>
    cases m with
    | refresh =>
      obtain rfl := Option.some.inj h
      exact (refresh_emits o w).scan_logs
    | timer => exact timer_logs h
    | close =>
      obtain rfl := Option.some.inj h
      exact close_logs w
    | renameDlg =>
      obtain rfl := Option.some.inj h
      exact renameDlg_logs w
    | renOk input => exact closeRenameDlg_logs (w := { w with submit := true }) h
    | renDelete => exact closeRenameDlg_logs (w := { w with submit := true }) h
    | renClose input => exact closeRenameDlg_logs h
    | selectGame i => exact selectGame_logs h
    | selectPlayer item => exact selectPlayer_logs h
    | clickLocalNames => exact clickLocalNames_logs h
    | clickAutoCreateNicks => exact clickAutoCreateNicks_logs h
    | clickAutoScan =>
      obtain rfl := Option.some.inj h
      exact (clickAutoScan_emits o w).timer_logs
    | clickAutoScanTimeApply input =>
      obtain rfl := Option.some.inj h
      exact (clickAutoScanTimeApply_emits o input w).timer_logs

end Window

/-- In a run, every nick is saved or deleted under a valid identifier if and only if
`UpdatePlayerList` gives nicks only to players whose identifier is valid, and the
dialog submits them only for players who have one. -/
theorem validIdentifiers_iff {decode : Decoder} {registry : Registry} {autoNickSave autoScan : Bool}
    {delay : UInt32} {moves : List (Move Window (Action × Outcomes))} {v : Window}
    (h : Run (Window.step decode) (.start registry autoNickSave autoScan delay) moves v) :
    (∀ e ∈ v.log, e.Valid) ↔ ∀ m ∈ moves, m.source.StepValid m.action := by
  have hlog := h.log_iff Window.log (I := fun _ => True) (V := Event.Valid) (P := Window.StepValid)
    (fun _ _ _ _ _ => trivial) (fun _ _ _ _ hs => Window.step_logs hs) trivial
  simpa [Window.start] using hlog

/-- `{"G":[{"p":[{...}],"k":1}]}`, with the members of a player. -/
def playerFile (player : List Byte) : Source × KeyValueInfo :=
  (.file (.ok [.data ([0x7b, 0x22, 0x47, 0x22, 0x3a, 0x5b, 0x7b, 0x22, 0x70, 0x22, 0x3a, 0x5b, 0x7b] ++ player ++
    [0x7d, 0x5d, 0x2c, 0x22, 0x6b, 0x22, 0x3a, 0x31, 0x7d, 0x5d, 0x7d])]), .zero)

/-- `"i":"S1","t":1` -/
def steamPlayer : List Byte :=
  [0x22, 0x69, 0x22, 0x3a, 0x22, 0x53, 0x31, 0x22, 0x2c, 0x22, 0x74, 0x22, 0x3a, 0x31]

/-- `"i":"S!","t":1` -/
def brokenPlayer : List Byte :=
  [0x22, 0x69, 0x22, 0x3a, 0x22, 0x53, 0x21, 0x22, 0x2c, 0x22, 0x74, 0x22, 0x3a, 0x31]

/-- `"t":1,"k":1` -/
def unidentifiedPlayer : List Byte := [0x22, 0x74, 0x22, 0x3a, 0x31, 0x2c, 0x22, 0x6b, 0x22, 0x3a, 0x31]

def idle : Outcomes := ⟨true, none, fun _ => none, none, fun _ => [], fun _ => true⟩

/-- A scan that reports two members of one player, from the click to its end. -/
def wholeScan (player : List Byte) : List (Action × Outcomes) :=
  (.ui .refresh, { idle with createThread := some (playerFile player) }) :: List.replicate 5 (.scan, idle)

def firstGame : Fin maxServers := ⟨0, by decide⟩

def openGame (player : List Byte) : List (Action × Outcomes) :=
  wholeScan player ++ [(.ui (.selectGame firstGame), idle)]

def renamePlayer (player : List Byte) (nick : List TChar) : List (Action × Outcomes) :=
  openGame player ++ [(.ui (.selectPlayer (some 0)), idle), (.ui .renameDlg, idle), (.ui (.renOk nick), idle)]

def execWindow (autoNickSave : Bool) : List (Action × Outcomes) →
    Option (List (Move Window (Action × Outcomes)) × Window) :=
  exec (Window.step fun _ _ => none) (.start emptyRegistry autoNickSave false 60)

set_option maxRecDepth 100000 in
theorem openGame_saves : ∃ r ∈ execWindow true (openGame steamPlayer), .saveNick [0x53, 0x31] [] ∈ r.2.log := by
  decide +kernel

theorem validIdentifiers_steamPlayer : ∃ moves v,
    Run (Window.step fun _ _ => none) (.start emptyRegistry true false 60) moves v ∧
      .saveNick [0x53, 0x31] [] ∈ v.log ∧
      ((∀ e ∈ v.log, e.Valid) ↔ ∀ m ∈ moves, m.source.StepValid m.action) := by
  obtain ⟨⟨moves, v⟩, hr, hsaved⟩ := openGame_saves
  exact ⟨moves, v, exec_run hr, hsaved, validIdentifiers_iff (exec_run hr)⟩

set_option maxRecDepth 100000 in
theorem brokenPlayer_saves :
    (∃ r ∈ execWindow true (openGame brokenPlayer), .saveNick [0x53, 0x21] [] ∈ r.2.log) ∧
    ∃ r ∈ execWindow false (renamePlayer unidentifiedPlayer [0x41]), .saveNick [] [0x41] ∈ r.2.log := by
  decide +kernel

/-- The list gives a nick to a player whose identifier is no key, and the dialog gives one to a
player without any. -/
theorem validIdentifiers_false :
    (∃ moves v, Run (Window.step fun _ _ => none) (.start emptyRegistry true false 60) moves v ∧
      .saveNick [0x53, 0x21] [] ∈ v.log ∧ userIDIsValid [0x53, 0x21] = false ∧ ¬ ∀ e ∈ v.log, e.Valid) ∧
    ∃ moves v, Run (Window.step fun _ _ => none) (.start emptyRegistry false false 60) moves v ∧
      .saveNick [] [0x41] ∈ v.log ∧ ¬ ∀ e ∈ v.log, e.Valid := by
  obtain ⟨⟨⟨moves, v⟩, hr, hsaved⟩, ⟨moves', v'⟩, hr', hsaved'⟩ := brokenPlayer_saves
  refine ⟨⟨moves, v, exec_run hr, hsaved, rfl, fun hall => ?_⟩, moves', v', exec_run hr', hsaved', fun hall => ?_⟩
  · exact absurd (hall _ hsaved _ rfl).2 (by decide)
  · exact absurd rfl (hall _ hsaved' _ rfl).1

end BzccScanner
