import BzccScanner.DisplayedGames
import BzccScanner.PlayerTotal
import BzccScanner.WindowScans

/-! The end of a scan that is cancelled. The thread has at most three steps left:
it prepares the scan, a member is refused, and the scan ends. -/

namespace BzccScanner

open Keyed Runs

namespace Window

def Cancelled (w : Window) : Prop := w.hScan = true ∧ w.controls.iContinueScan = false

instance (w : Window) : Decidable w.Cancelled := inferInstanceAs (Decidable (_ ∧ _))

/-- The steps that the thread of a cancelled scan has left. -/
def callsLeft (w : Window) : Nat :=
  match w.thread with
  | none => 0
  | some (.created _ _) => 3
  | some (.scanning s) => if s.todo = [] then 1 else 2

/-- `parse_data` reads in front of its buffer instead of returning. -/
def faults (w : Window) : Bool :=
  match w.thread with
  | some (.scanning ⟨[], .error _, _⟩) => true
  | _ => false

/-- No game is written, listed or counted, and no error is shown. -/
structure Still (w v : Window) : Prop where
  games : v.controls.gameinfo = w.controls.gameinfo
  rows : v.rows = w.rows
  total : v.totalPlayerCount = w.totalPlayerCount
  notices : ∃ new, v.controls.notices = w.controls.notices ++ new ∧
    ∀ m ∈ new, m.isRow = false ∧ ∀ err, m ≠ .messageBox err

variable {decode : Decoder} {o : Outcomes} {u v w : Window}

theorem Still.of_notices (hc : v.controls.gameinfo = w.controls.gameinfo) (hr : v.rows = w.rows)
    (ht : v.totalPlayerCount = w.totalPlayerCount) (hn : v.controls.notices = w.controls.notices) : w.Still v :=
  ⟨hc, hr, ht, [], by rw [hn, List.append_nil], by simp⟩

theorem Still.refl (w : Window) : w.Still w := .of_notices rfl rfl rfl rfl

theorem Still.trans (h : w.Still v) (h' : v.Still u) : w.Still u := by
  obtain ⟨new, hn, hstill⟩ := h.notices
  obtain ⟨more, hm, hstill'⟩ := h'.notices
  refine ⟨h'.games.trans h.games, h'.rows.trans h.rows, h'.total.trans h.total, new ++ more, ?_, ?_⟩
  · rw [hm, hn, List.append_assoc]
  · exact List.forall_mem_append.mpr ⟨hstill, hstill'⟩

/-- Of what a cancelled scan depends on, nothing differs. -/
structure Waits (w v : Window) : Prop where
  controls : v.controls = w.controls
  thread : v.thread = w.thread
  hScan : v.hScan = w.hScan
  rows : v.rows = w.rows
  total : v.totalPlayerCount = w.totalPlayerCount

theorem Waits.still (h : w.Waits v) : w.Still v :=
  .of_notices (by rw [h.controls]) h.rows h.total (by rw [h.controls])

theorem Waits.cancelled (h : w.Waits v) (hc : w.Cancelled) : v.Cancelled := by
  rw [Cancelled, h.hScan, h.controls]
  exact hc

theorem Waits.callsLeft (h : w.Waits v) : v.callsLeft = w.callsLeft := by
  rw [Window.callsLeft, Window.callsLeft, h.thread]

theorem Selects.waits (h : w.Selects v) : w.Waits v := by
  obtain ⟨_, _, _, _, _, _, _, _, rfl⟩ := h
  exact ⟨rfl, rfl, rfl, rfl, rfl⟩

theorem Cancelled.refresh (h : w.Cancelled) (o : Outcomes) : w.refresh o = w := by
  rw [Window.refresh]
  simp [h.1, h.2]

theorem Cancelled.cancelScan (h : w.Cancelled) : w.cancelScan = w := by
  rw [Window.cancelScan, ← h.2]

/-- The user cannot resume a scan, and the window shows what it shows until the scan has ended. -/
theorem Cancelled.waits {m : Msg} (h : w.Cancelled) (hv : w.handle o m = some v) : w.Waits v := by
  cases handle_effect hv with
  | refresh =>
    rw [h.refresh]
    exact ⟨rfl, rfl, rfl, rfl, rfl⟩
  | tick =>
    rw [h.refresh]
    exact ⟨rfl, rfl, rfl, rfl, rfl⟩
  | postpone => exact ⟨rfl, rfl, rfl, rfl, rfl⟩
  | close =>
    rcases close_cases w with he | he <;> rw [he]
    · rw [h.cancelScan]
      exact ⟨rfl, rfl, rfl, rfl, rfl⟩
    · exact ⟨rfl, rfl, rfl, rfl, rfl⟩
  | openDlg => exact ⟨rfl, rfl, rfl, rfl, rfl⟩
  | leaveDlg _ _ hv =>
    have hwaits := hv.waits
    rcases leaveDlg_cases o w with ⟨-, -, he⟩ | he <;> rw [he] at hwaits <;>
      exact ⟨hwaits.controls, hwaits.thread, hwaits.hScan, hwaits.rows, hwaits.total⟩
  | selects _ hv => exact hv.waits
  | clickAutoScan =>
    obtain ⟨i, armed, log, he⟩ := clickAutoScan_eq o w
    rw [he]
    exact ⟨rfl, rfl, rfl, rfl, rfl⟩
  | apply input =>
    obtain ⟨i, armed, log, he⟩ := clickAutoScanTimeApply_eq o input w
    rw [he]
    exact ⟨rfl, rfl, rfl, rfl, rfl⟩

end Window

namespace Scanning

variable {decode : Decoder} {s : Scanning} {k : Item} {todo : List Item} {w v : WindowControls}

theorem report_cancelled (hk : k.status = .normal ∨ k.status = .last) (hc : w.iContinueScan = false) :
    s.report decode k todo w = .ok (⟨[], .ok (1, none), k.kvi s.kvi⟩, w) := by
  have hmember : ¬ ((k.kvi s.kvi).status = .complete ∨ (k.kvi s.kvi).status = .error) := by
    show ¬ (k.status = .complete ∨ k.status = .error)
    rcases hk with hk | hk <;> simp [hk]
  have hp : processSessionInfo decode (k.kvi s.kvi) w = .ok ⟨1, k.kvi s.kvi, w⟩ := by
    rw [processSessionInfo, if_neg hmember, if_pos hc]
  exact report_of_reply hp

end Scanning

theorem collect_forall {P : Notice → Prop} {f : Nat → Except ScanFault (List Notice)}
    (hf : ∀ i out, f i = .ok out → ∀ m ∈ out, P m) {n : Nat} {shown : List Notice} (h : collect f n = .ok shown) :
    ∀ m ∈ shown, P m := by
  induction n generalizing shown with
  | zero =>
    obtain rfl := Except.ok.inj h
    simp
  | succ n ih =>
    obtain ⟨front, hfront, h⟩ := bind_eq_ok.mp h
    obtain ⟨last, hlast, h⟩ := bind_eq_ok.mp h
    obtain rfl := Except.ok.inj h
    exact List.forall_mem_append.mpr ⟨ih hfront, hf n last hlast⟩

theorem playerLeft_isPlayer {old new : GameInfo} {ip : Nat} {shown : List Notice}
    (h : playerLeft old new ip = .ok shown) :
    ∀ m ∈ shown, m.isPlayer = true := by
  obtain ⟨player, -, h⟩ := bind_eq_ok.mp h
  obtain ⟨found, -, h⟩ := bind_eq_ok.mp h
  cases found <;> obtain rfl := Except.ok.inj h
  · exact List.forall_mem_singleton.mpr rfl
  · simp

theorem playerCame_isPlayer {old new : GameInfo} {ip : Nat} {shown : List Notice}
    (h : playerCame old new ip = .ok shown) :
    ∀ m ∈ shown, m.isPlayer = true := by
  obtain ⟨player, -, h⟩ := bind_eq_ok.mp h
  obtain ⟨found, -, h⟩ := bind_eq_ok.mp h
  cases found with
  | none =>
    obtain rfl := Except.ok.inj h
    exact List.forall_mem_singleton.mpr rfl
  | some before =>
    obtain rfl := Except.ok.inj h
    split_ifs
    · exact List.forall_mem_singleton.mpr rfl
    · simp

/-- Behind the last call no rows and no errors are shown for the changes. -/
theorem gameChange_quiet {w : WindowControls} {ig : Nat} {shown : List Notice} (h : gameChange w ig = .ok shown) :
    ∀ m ∈ shown, m.isRow = false ∧ ∀ err, m ≠ .messageBox err := by
  have hplayer : ∀ m : Notice, m.isPlayer = true → m.isRow = false ∧ ∀ err, m ≠ .messageBox err := by
    intro m hm
    cases m with
    | playerQuit game old => exact ⟨rfl, fun _ => Notice.noConfusion⟩
    | playerJoined game new => exact ⟨rfl, fun _ => Notice.noConfusion⟩
    | playerChangedNick game old new => exact ⟨rfl, fun _ => Notice.noConfusion⟩
    | _ => cases hm
  obtain ⟨old, -, h⟩ := bind_eq_ok.mp h
  obtain ⟨found, -, h⟩ := bind_eq_ok.mp h
  cases found with
  | none =>
    obtain rfl := Except.ok.inj h
    exact List.forall_mem_singleton.mpr ⟨rfl, fun _ => Notice.noConfusion⟩
  | some new =>
    obtain ⟨quits, hquits, h⟩ := bind_eq_ok.mp h
    obtain ⟨joins, hjoins, h⟩ := bind_eq_ok.mp h
    obtain rfl := Except.ok.inj h
    intro m hm
    rcases List.mem_append.mp hm with hm | hm
    · exact hplayer m (collect_forall (fun _ _ => playerLeft_isPlayer) hquits m hm)
    · exact hplayer m (collect_forall (fun _ _ => playerCame_isPlayer) hjoins m hm)

/-- The last call of a cancelled scan shows nothing but changes. -/
theorem Scanning.terminal_cancelled {decode : Decoder} {s : Scanning} {code : Int} {m : Option Message}
    {w v : WindowControls} (hc : w.iContinueScan = false) (h : s.terminal decode code m w = .ok v) :
    ∃ new, v = { w with notices := w.notices ++ new } ∧ ∀ n ∈ new, n.isRow = false ∧
      ∀ err, n ≠ .messageBox err := by
  obtain ⟨r, hr, h⟩ := bind_eq_ok.mp h
  obtain rfl := Except.ok.inj h
  rw [processSessionInfo, if_pos (by by_cases h0 : code = 0 <;> simp [h0])] at hr
  obtain ⟨changes, hcollect, he⟩ := processEnd_eq hr
  rw [if_neg (by simp [hc]), List.append_nil] at he
  exact ⟨changes, he, collect_forall (fun _ _ => gameChange_quiet) hcollect⟩

namespace Window

variable {decode : Decoder} {o : Outcomes} {v w : Window}

/-- What a step of the thread makes of a cancelled scan. -/
structure Winds (w v : Window) : Prop where
  still : w.Still v
  cancelled : v.hScan = true → v.Cancelled ∧ v.callsLeft < w.callsLeft
  ended : v.hScan = false → v.closed = w.quitting

theorem Tells.winds (h : w.Tells) (hc : w.Cancelled) (hopen : w.closed = false)
    (hv : w.scan decode o = some v) : w.Winds v := by
  rcases scan_cases hv with ⟨source, garbage, ht, rfl⟩ | ⟨s, k, todo, r, ht, htodo, hr, rfl⟩ |
    ⟨s, code, m, x, ht, htodo, -, hx, rfl⟩
  · refine ⟨.of_notices rfl rfl rfl rfl, fun hs => ⟨⟨hs, hc.2⟩, ?_⟩,
      fun hs => absurd (hs.symm.trans hc.1) (by simp)⟩
    rw [callsLeft, callsLeft, ht]
    dsimp only
    split_ifs <;> decide
  · have hk := h.members s ht k (by simp [htodo])
    obtain rfl := Except.ok.inj ((Scanning.report_cancelled hk hc.2).symm.trans hr)
    have hnone : displayed w.controls w.controls = [] := displayed_eq_nil (List.append_nil _).symm (by simp)
    refine ⟨.of_notices rfl ?_ ?_ rfl, fun hs => ⟨⟨hs, hc.2⟩, ?_⟩,
      fun hs => absurd (hs.symm.trans hc.1) (by simp)⟩
    · simp [reported, hnone]
    · simp [reported, hnone]
    · rw [callsLeft, callsLeft, ht]
      simp [reported, htodo]
  · obtain ⟨new, rfl, hquiet⟩ := Scanning.terminal_cancelled hc.2 hx
    have hstill : w.Still { w with controls := { w.controls with notices := w.controls.notices ++ new } } :=
      ⟨rfl, rfl, rfl, new, rfl, hquiet⟩
    rcases endScan_cases o { w with controls := { w.controls with notices := w.controls.notices ++ new } }
      with ⟨hq, he⟩ | ⟨hq, -, he⟩ | ⟨hq, -, he⟩ <;> rw [he]
    · exact ⟨⟨hstill.games, hstill.rows, hstill.total, hstill.notices⟩, fun hs => Bool.noConfusion hs,
        fun _ => hq.symm⟩
    · exact ⟨⟨hstill.games, hstill.rows, hstill.total, hstill.notices⟩, fun hs => Bool.noConfusion hs,
        fun _ => hopen.trans hq.symm⟩
    · exact ⟨⟨hstill.games, hstill.rows, hstill.total, hstill.notices⟩, fun hs => Bool.noConfusion hs,
        fun _ => hopen.trans hq.symm⟩

/-- The thread of a cancelled scan has a next step, unless `parse_data` faults. -/
theorem Tells.scan_possible (h : w.Tells) (hsound : w.controls.Sound) (hc : w.Cancelled) (hf : w.faults = false)
    (o : Outcomes) : ∃ v, w.scan decode o = some v := by
  have hthread := h.running.symm.trans hc.1
  rw [Window.scan]
  cases ht : w.thread with
  | none => simp [ht] at hthread
  | some t =>
    cases t with
    | created source garbage => exact ⟨_, rfl⟩
    | scanning s =>
      dsimp only
      cases htodo : s.todo with
      | cons k todo =>
        have hk := h.members s ht k (by simp [htodo])
        exact ⟨_, by simp only [Scanning.report_cancelled hk hc.2]; rfl⟩
      | nil =>
        obtain ⟨_, ending, kvi⟩ := s
        obtain rfl : _ = [] := htodo
        cases ending with
        | error f => simp [faults, ht] at hf
        | ok e => exact ⟨_, by simp only [Scanning.terminal_silent hsound (.inr hc.2)]; rfl⟩

theorem callsLeft_le (w : Window) : w.callsLeft ≤ 3 := by
  rw [callsLeft]
  split <;> [skip; skip; split_ifs] <;> decide

theorem callsLeft_pos (h : w.Tells) (hc : w.Cancelled) : 0 < w.callsLeft := by
  have hthread := h.running.symm.trans hc.1
  rw [callsLeft]
  split
  · next ht => simp [ht] at hthread
  · decide
  · split_ifs <;> decide

theorem Tells.step_cancelled {a : Action × Outcomes} (h : w.Tells) (hc : w.Cancelled)
    (hv : w.step decode a = some v) (hgoing : v.hScan = true) :
    w.Still v ∧ v.Cancelled ∧ v.callsLeft ≤ w.callsLeft ∧ (a.1 = .scan → v.callsLeft < w.callsLeft) := by
  obtain ⟨a, o⟩ := a
  rw [Window.step] at hv
  split_ifs at hv with hclosed
  cases a with
  | ui m =>
    have hwaits := hc.waits hv
    exact ⟨hwaits.still, hwaits.cancelled hc, hwaits.callsLeft.le, fun ha => by cases ha⟩
  | scan =>
    have hwinds := h.winds hc (by simpa using hclosed) hv
    obtain ⟨hcancelled, hlt⟩ := hwinds.cancelled hgoing
    exact ⟨hwinds.still, hcancelled, hlt.le, fun _ => hlt⟩

end Window

/-- A cancelled scan goes on for two steps of the thread at most, whatever the user does, and then its
next step ends it. It cannot be resumed, nothing more is written, listed or counted, no error is shown,
and a window that was to be closed is closed with its end. The thread has a next step unless an index
had wrapped before the scan was cancelled. -/
theorem cancelled_ends {decode : Decoder} {registry : Registry} {autoNickSave autoScan : Bool} {delay : UInt32}
    {before moves : List (Move Window (Action × Outcomes))} {w v : Window}
    (hbefore : Run (Window.step decode) (.start registry autoNickSave autoScan delay) before w) (hc : w.Cancelled)
    (h : Run (Window.step decode) w moves v) (hgoing : ∀ m ∈ moves, m.target.hScan = true) :
    v.Cancelled ∧ w.Still v ∧ moves.countP (·.action.1 = .scan) ≤ 2 ∧
      (∀ o u, v.step decode (.scan, o) = some u → w.Still u ∧
        (moves.countP (·.action.1 = .scan) = 2 → u.hScan = false) ∧ (u.hScan = false → u.closed = v.quitting)) ∧
      (v.closed = false → v.faults = false → (∀ m ∈ before, m.source.Indexed m.action.1) →
        ∀ o, ∃ u, v.step decode (.scan, o) = some u) := by
  have hinv := (hbefore.invariant (I := Window.Tells) (P := fun _ _ => True) (fun _ _ _ hw _ hs => hw.step hs)
    (Window.start_tells registry autoNickSave autoScan delay) fun _ _ => trivial).1
  have hkept := h.keeps (I := fun u => u.Tells ∧ u.Cancelled ∧ w.Still u)
    (P := fun m => m.target.hScan = true) (fun _ _ _ hw hm hs => by
      have hstep := hw.1.step_cancelled hw.2.1 hs hm
      exact ⟨hw.1.step hs, hstep.2.1, hw.2.2.trans hstep.1⟩) ⟨hinv, hc, .refl w⟩ hgoing
  obtain ⟨⟨htells, hcancelled, hstill⟩, hsources⟩ := hkept
  have hstep : ∀ m ∈ moves, m.target.callsLeft ≤ m.source.callsLeft ∧
      (m.action.1 = .scan → m.target.callsLeft < m.source.callsLeft) := fun m hm =>
    ((hsources m hm).1.step_cancelled (hsources m hm).2.1 (h.move hm) (hgoing m hm)).2.2
  have hcount : v.callsLeft + moves.countP (·.action.1 = .scan) ≤ w.callsLeft :=
    h.countP_le (fun m hm => (hstep m hm).1) fun m hm hp => (hstep m hm).2 (by simpa using hp)
  have hleft := Window.callsLeft_pos htells hcancelled
  have hmost := Window.callsLeft_le w
  refine ⟨hcancelled, hstill, by omega, fun o u hu => ?_, fun hclosed hfaults hindexed o => ?_⟩
  · rw [Window.step] at hu
    split_ifs at hu with hclosed
    have hwinds := htells.winds hcancelled (by simpa using hclosed) hu
    refine ⟨hstill.trans hwinds.still, fun htwo => ?_, hwinds.ended⟩
    by_contra hgoes
    obtain ⟨hcancelled', hlt⟩ := hwinds.cancelled (by simpa using hgoes)
    have hleft' := Window.callsLeft_pos (htells.scan hu) hcancelled'
    omega
  · -- No index is looked at behind the cancellation.
    have hshows := (hbefore.invariant (I := fun w => w.Shows decode) (P := fun w a => w.Indexed a.1)
      (fun _ _ _ hw hi hs => hw.step hi hs)
      (Window.start_shows decode registry autoNickSave autoScan delay) hindexed).1
    have hmoves : ∀ m ∈ moves, m.source.Indexed m.action.1 := fun m hm _ s _ hcont =>
      absurd (hcont.symm.trans (hsources m hm).2.1.2) (by simp)
    have hend := (h.invariant (I := fun w => w.Shows decode) (P := fun w a => w.Indexed a.1)
      (fun _ _ _ hw hi hs => hw.step hi hs) hshows hmoves).1
    obtain ⟨u, hu⟩ := htells.scan_possible hend.sound hcancelled hfaults o
    exact ⟨u, by rw [Window.step, hclosed]; exact hu⟩

/-- A scan that is cancelled behind its first game. -/
def cancelledScan : List (Action × Outcomes) :=
  (.ui .refresh, twoTeamsCreated) :: selecting [(.ui .refresh, idle)]

/-- The next member is refused, after the window was to be closed. -/
def closing : List (Action × Outcomes) := [(.ui .close, idle), (.ui .refresh, idle), (.scan, idle)]

set_option maxRecDepth 100000 in
theorem cancelledScan_runs :
    ∃ r ∈ exec (Window.step fun _ _ => none) (.start emptyRegistry true false 60) cancelledScan,
    ((∀ m ∈ r.1, m.source.Indexed m.action.1) ∧ r.2.Cancelled) ∧ r.2.rows = [firstGame] ∧
    ∃ q ∈ exec (Window.step fun _ _ => none) r.2 closing,
      (∀ m ∈ q.1, m.target.hScan = true) ∧ (q.2.closed = false ∧ q.2.faults = false) ∧ q.2.quitting = true ∧
        (q.2.step (fun _ _ => none) (.scan, idle)).any (fun u => !u.hScan) = true := by
  decide +kernel

theorem cancelled_ends_closing : ∃ before w moves v,
    Run (Window.step fun _ _ => none) (.start emptyRegistry true false 60) before w ∧
      Run (Window.step fun _ _ => none) w moves v ∧ w.rows = [firstGame] ∧ moves.map Move.action = closing ∧
      ∃ u, v.step (fun _ _ => none) (.scan, idle) = some u ∧ u.closed = true ∧ u.rows = [firstGame] := by
  obtain ⟨⟨before, w⟩, hbefore, ⟨hindexed, hc⟩, hrows, ⟨moves, v⟩, hmoves, hgoing, ⟨hopen, hfaults⟩,
      hquit, hends⟩ :=
    cancelledScan_runs
  have h := cancelled_ends (exec_run hbefore) hc (exec_run hmoves) hgoing
  obtain ⟨u, hu⟩ := h.2.2.2.2 hopen hfaults hindexed idle
  obtain ⟨hstill, -, hclosed⟩ := h.2.2.2.1 idle u hu
  rw [hu] at hends
  refine ⟨before, w, moves, v, exec_run hbefore, exec_run hmoves, hrows, exec_actions hmoves, u, hu, ?_, ?_⟩
  · exact (hclosed (by simpa using hends)).trans hquit
  · exact hstill.rows.trans hrows

end BzccScanner
