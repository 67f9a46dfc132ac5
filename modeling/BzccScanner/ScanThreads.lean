import BzccScanner.Runs
import BzccScanner.Window

/-! The UI thread and the scan threads. `BeginScan` stores the handle of a thread
that is already running, and `EndScan` clears it before it sends to the window and
sets the timer: the threads' steps come between each other, and messages between them. -/

namespace BzccScanner

open Runs

/-- Where the UI thread is in `BeginScan`. `killing` is behind `KillTimer`, and
`created` holds whether there is a handle to store. -/
inductive BeginPhase
  | killing
  | beginning
  | created (handle : Bool)
  | stored
  | returned
  deriving DecidableEq

/-- Where the thread of the last scan is: `ending` is behind its last call, and `ended` behind its
test of `hScan`. -/
inductive ScanStage
  | scanning
  | ending
  | ended
  deriving DecidableEq

/-- Where a thread is in `EndScan` behind its test of `hScan`: in front of the test of
`quitting`, of what it sends to the window, of the test of `auto_scan`, or of `SetTimer`. -/
inductive EndStage
  | freed
  | sending
  | testing
  | setting
  deriving DecidableEq

/-- `ends` are the threads behind their tests of `hScan`. `queued` is whether a `WM_TIMER`
message waits to be handled, which `KillTimer` does not change. -/
structure Threads where
  window : Window
  phase : BeginPhase
  stage : ScanStage
  ends : List EndStage
  queued : Bool

inductive Turn
  | ui (m : Msg)
  | beginScan
  | scan
  | endScan (i : Nat)
  | elapse
  deriving DecidableEq

namespace Window

/-- `BeginScan` from the timer to the creation of the thread. -/
def createScan (o : Outcomes) (w : Window) : Window :=
  { w with
    controls := w.controls.beginScan
    selectedGame := none
    selectedPlayer := none
    totalPlayerCount := 0
    playerList := 0
    rows := []
    thread := o.createThread.map fun c => .created c.1 c.2
    log := w.log ++ [.beginScan] }

def killed (w : Window) : Window := if w.timerId then { w.killTimer with timerId := false } else w

def freeScan (w : Window) : Window :=
  { w with
    hScan := false
    thread := none }

def finishScan (o : Outcomes) (w : Window) : Window :=
  if w.quitting then w.close else if w.autoScan then w.setTimer o else w

theorem beginScan_eq_createScan (o : Outcomes) (w : Window) :
    w.beginScan o = { w.killed.createScan o with hScan := o.createThread.isSome } := rfl

theorem endScan_eq_finishScan (o : Outcomes) (w : Window) : w.endScan o = w.freeScan.finishScan o := rfl

end Window

namespace Threads

def start (w : Window) : Threads := ⟨w, .returned, .ended, [], false⟩

def beginScan (x : Threads) : Threads :=
  if x.window.timerId then { x with window := x.window.killTimer, phase := .killing }
  else { x with phase := .beginning }

def beginStep (o : Outcomes) (x : Threads) : Option Threads :=
  match x.phase with
  | .killing => some { x with window := { x.window with timerId := false }, phase := .beginning }
  | .beginning => some { x with
      window := x.window.createScan o
      phase := .created o.createThread.isSome
      stage := if o.createThread.isSome then .scanning else x.stage }
  | .created handle => some { x with window := { x.window with hScan := handle }, phase := .stored }
  | .stored => some { x with phase := .returned }
  | .returned => none

def refresh (o : Outcomes) (x : Threads) : Threads :=
  if x.window.inDlg ∨ x.window.hScan then { x with window := x.window.refresh o } else x.beginScan

def timer (o : Outcomes) (x : Threads) : Threads :=
  if x.window.inDlg then { x with window := x.window.timer o } else x.refresh o

def handle (o : Outcomes) (x : Threads) : Msg → Option Threads
  | .refresh => some (x.refresh o)
  | .timer => if x.queued then some ({ x with queued := false }.timer o) else none
  | m => (x.window.handle o m).map fun v => { x with window := v }

/-- What is sent to the window waits until the UI thread handles its messages again. -/
def waits (x : Threads) (shows : Prop) [Decidable shows] : Bool := decide (shows ∧ x.phase ≠ .returned)

def scanStep (decode : Decoder) (o : Outcomes) (x : Threads) : Option Threads :=
  match x.stage with
  | .scanning =>
    match x.window.thread with
    | some (.scanning ⟨[], ending, kvi⟩) => do
      let e ← ending.toOption
      if x.waits (e.1 ≠ 0 ∧ x.window.controls.iContinueScan = true) then none
      else do
        let v ← (Scanning.terminal decode ⟨[], ending, kvi⟩ e.1 e.2 x.window.controls).toOption
        return { x with window := { x.window with controls := v }, stage := .ending }
    | _ => do
      let v ← x.window.scan decode o
      if x.waits (displayed x.window.controls v.controls ≠ []) then none else some { x with window := v }
  | .ending => some { x with window := x.window.freeScan, stage := .ended, ends := x.ends ++ [.freed] }
  | .ended => none

def endStep (o : Outcomes) (i : Nat) (x : Threads) : Option Threads :=
  match x.ends[i]? with
  | none => none
  | some .freed =>
    if x.window.quitting then
      if x.waits True then none else some { x with window := x.window.close, ends := x.ends.eraseIdx i }
    else some { x with ends := x.ends.set i .sending }
  | some .sending => if x.waits True then none else some { x with ends := x.ends.set i .testing }
  | some .testing =>
    some (if x.window.autoScan then { x with ends := x.ends.set i .setting }
      else { x with ends := x.ends.eraseIdx i })
  | some .setting => some { x with window := x.window.setTimer o, ends := x.ends.eraseIdx i }

def step (decode : Decoder) (x : Threads) (a : Turn × Outcomes) : Option Threads :=
  if x.window.closed then none
  else
    match a.1 with
    | .ui m => if x.phase = .returned then x.handle a.2 m else none
    | .beginScan => x.beginStep a.2
    | .scan => x.scanStep decode a.2
    | .endScan i => x.endStep a.2 i
    | .elapse => if x.window.armed then some { x with queued := true } else none

variable {decode : Decoder} {o : Outcomes} {x y : Threads} {v w : Window}

theorem refresh_of_busy (h : x.window.inDlg = true ∨ x.window.hScan = true) :
    x.refresh o = { x with window := x.window.refresh o } := if_pos h

theorem refresh_of_idle (h : ¬ (x.window.inDlg = true ∨ x.window.hScan = true)) :
    x.refresh o = x.beginScan := if_neg h

theorem step_ui {m : Msg} (hc : x.window.closed = false) (hp : x.phase = .returned) :
    x.step decode (.ui m, o) = x.handle o m := by
  rw [step, if_neg (by simp [hc])]
  exact if_pos hp

theorem step_beginScan (hc : x.window.closed = false) :
    x.step decode (.beginScan, o) = x.beginStep o := if_neg (by simp [hc])

theorem step_scan (hc : x.window.closed = false) :
    x.step decode (.scan, o) = x.scanStep decode o := if_neg (by simp [hc])

theorem step_endScan {i : Nat} (hc : x.window.closed = false) : x.step decode (.endScan i, o) = x.endStep o i :=
  if_neg (by simp [hc])

/-- What the scan thread does in front of its test of `hScan`, and in it. -/
theorem scanStep_cases (h : x.scanStep decode o = some y) :
    (x.stage = .scanning ∧ ∃ v, x.window.scan decode o = some v ∧ y = { x with window := v } ∧
      (displayed x.window.controls v.controls = [] ∨ x.phase = .returned) ∧
      ∀ s, x.window.thread = some (.scanning s) → s.todo ≠ []) ∨
    (x.stage = .scanning ∧ ∃ s code m v, x.window.thread = some (.scanning s) ∧ s.todo = [] ∧
      s.ending = .ok (code, m) ∧
      s.terminal decode code m x.window.controls = .ok v ∧
      (code = 0 ∨ x.window.controls.iContinueScan = false ∨ x.phase = .returned) ∧
      y = { x with window := { x.window with controls := v }, stage := .ending }) ∨
    x.stage = .ending ∧
      y = { x with window := x.window.freeScan, stage := .ended, ends := x.ends ++ [.freed] } := by
  rw [scanStep] at h
  split at h
  · rename_i hstage
    split at h
    · rename_i ending kvi ht
      obtain ⟨⟨code, m⟩, he, h⟩ := Option.bind_eq_some_iff.mp h
      split_ifs at h with hwaits
      obtain ⟨v, hv, h⟩ := Option.bind_eq_some_iff.mp h
      refine .inr (.inl ⟨hstage, _, code, m, v, ht, rfl, toOption_eq_some.mp he, toOption_eq_some.mp hv, ?_,
        (Option.some.inj h).symm⟩)
      simp only [waits, decide_eq_true_eq] at hwaits
      by_contra hn
      simp only [not_or, Bool.not_eq_false] at hn
      exact hwaits ⟨⟨hn.1, hn.2.1⟩, hn.2.2⟩
    · rename_i hnot
      obtain ⟨v, hv, h⟩ := Option.bind_eq_some_iff.mp h
      split_ifs at h with hwaits
      refine .inl ⟨hstage, v, hv, (Option.some.inj h).symm, ?_, ?_⟩
      · simp only [waits, decide_eq_true_eq] at hwaits
        by_contra hn
        simp only [not_or] at hn
        exact hwaits hn
      · rintro ⟨todo, ending, kvi⟩ hs rfl
        exact hnot ending kvi hs
  · rename_i hstage
    exact .inr (.inr ⟨hstage, (Option.some.inj h).symm⟩)
  · cases h

/-- What a thread does in the rest of `EndScan`. -/
theorem endStep_cases {i : Nat} (h : x.endStep o i = some y) : ∃ ends,
    (y = { x with ends := ends } ∨
      (x.phase = .returned ∧ x.window.quitting = true ∧ y = { x with window := x.window.close, ends := ends })) ∨
    x.ends[i]? = some .setting ∧ y = { x with window := x.window.setTimer o, ends := ends } := by
  rw [endStep] at h
  split at h
  · cases h
  · split_ifs at h with hquit hwaits
    · exact ⟨_, .inl (.inr ⟨by simpa [waits] using hwaits, hquit, (Option.some.inj h).symm⟩)⟩
    · exact ⟨_, .inl (.inl (Option.some.inj h).symm)⟩
  · split_ifs at h
    exact ⟨_, .inl (.inl (Option.some.inj h).symm)⟩
  · split_ifs at h
    · exact ⟨_, .inl (.inl (Option.some.inj h).symm)⟩
    · exact ⟨_, .inl (.inl (Option.some.inj h).symm)⟩
  · rename_i hset
    exact ⟨_, .inr ⟨hset, (Option.some.inj h).symm⟩⟩

theorem handle_cases {m : Msg} (h : x.handle o m = some y) :
    (m = .refresh ∧ y = x.refresh o) ∨ (m = .timer ∧ x.queued = true ∧ y = { x with queued := false }.timer o) ∨
    (m ≠ .refresh ∧ m ≠ .timer) ∧ ∃ v, x.window.handle o m = some v ∧ y = { x with window := v } := by
  by_cases hm : m ≠ .refresh ∧ m ≠ .timer
  · have hmap : (x.window.handle o m).map (fun v => { x with window := v }) = some y := by
      rw [← h, handle]
      · exact hm.1
      · exact hm.2
    obtain ⟨v, hv, hy⟩ := Option.map_eq_some_iff.mp hmap
    exact .inr (.inr ⟨hm, v, hv, hy.symm⟩)
  cases m with
  | refresh => exact .inl ⟨rfl, (Option.some.inj h).symm⟩
  | timer =>
    rw [handle] at h
    split_ifs at h with hqueued
    exact .inr (.inl ⟨rfl, hqueued, (Option.some.inj h).symm⟩)
  | _ => exact absurd ⟨by simp, by simp⟩ hm

/-- A step is a message, or a step of one of the threads, or the timer elapses. -/
theorem step_cases {a : Turn × Outcomes} (h : x.step decode a = some y) : x.window.closed = false ∧
    ((∃ m, a.1 = .ui m ∧ x.phase = .returned ∧ x.handle a.2 m = some y) ∨
      (a.1 = .beginScan ∧ x.beginStep a.2 = some y) ∨ (a.1 = .scan ∧ x.scanStep decode a.2 = some y) ∨
      (∃ i, a.1 = .endScan i ∧ x.endStep a.2 i = some y) ∨
      a.1 = .elapse ∧ x.window.armed = true ∧ y = { x with queued := true }) := by
  obtain ⟨a, o⟩ := a
  by_cases hc : x.window.closed = true
  · rw [step, if_pos hc] at h
    cases h
  rw [step, if_neg hc] at h
  refine ⟨by simpa using hc, ?_⟩
  cases a with
  | ui m =>
    obtain ⟨hp, hm⟩ : x.phase = .returned ∧ x.handle o m = some y := by simpa using h
    exact .inl ⟨m, rfl, hp, hm⟩
  | beginScan => exact .inr (.inl ⟨rfl, h⟩)
  | scan => exact .inr (.inr (.inl ⟨rfl, h⟩))
  | endScan i => exact .inr (.inr (.inr (.inl ⟨i, rfl, h⟩)))
  | elapse =>
    obtain ⟨harmed, hy⟩ : x.window.armed = true ∧ { x with queued := true } = y := by simpa using h
    exact .inr (.inr (.inr (.inr ⟨rfl, harmed, hy.symm⟩)))

section coarse

/-- A window whose last step is finished. -/
def ofWindow (w : Window) : Threads := ⟨w, .returned, if w.thread.isSome then .scanning else .ended, [], false⟩

theorem ofWindow_running (h : w.thread.isSome = true) : ofWindow w = ⟨w, .returned, .scanning, [], false⟩ := by
  rw [ofWindow, if_pos h]

theorem ofWindow_idle (h : w.thread.isSome = false) : ofWindow w = ⟨w, .returned, .ended, [], false⟩ := by
  rw [ofWindow, if_neg (by simp [h])]

theorem ofWindow_congr (h : v.thread = w.thread) : { ofWindow w with window := v } = ofWindow v := by
  rw [ofWindow, ofWindow, h]

/-- A refresh that begins no scan leaves the thread alone. -/
theorem refresh_keeps (h : w.inDlg = true ∨ w.hScan = true) :
    (w.refresh o).thread = w.thread ∧ (w.refresh o).hScan = w.hScan := by
  rw [Window.refresh]
  split_ifs with hdlg hs
  · exact ⟨rfl, rfl⟩
  · exact ⟨rfl, rfl⟩
  · exact ⟨rfl, rfl⟩
  · exact absurd h (by simp [hdlg, hs])

theorem refresh_begins (h : ¬ (w.inDlg = true ∨ w.hScan = true)) : w.refresh o = w.beginScan o := by
  rw [not_or] at h
  rw [Window.refresh, if_neg h.1, if_neg h.2]

theorem handle_keeps {m : Msg} (hm : m ≠ .refresh ∧ m ≠ .timer) (h : w.handle o m = some v) :
    v.thread = w.thread ∧ v.hScan = w.hScan := by
  cases Window.handle_effect h with
  | refresh => exact absurd rfl hm.1
  | tick => exact absurd rfl hm.2
  | postpone => exact absurd rfl hm.2
  | close =>
    rcases w.close_cases with he | he
    · rw [he]
      exact ⟨rfl, rfl⟩
    · rw [he]
      exact ⟨rfl, rfl⟩
  | openDlg => exact ⟨rfl, rfl⟩
  | leaveDlg _ _ hv =>
    rw [hv.lists.thread, hv.lists.hScan]
    rcases Window.leaveDlg_cases o w with ⟨-, -, he⟩ | he
    · rw [he]
      exact ⟨rfl, rfl⟩
    · rw [he]
      exact ⟨rfl, rfl⟩
  | selects _ hv => exact ⟨hv.lists.thread, hv.lists.hScan⟩
  | clickAutoScan =>
    obtain ⟨id, armed, log, he⟩ := Window.clickAutoScan_eq o w
    rw [he]
    exact ⟨rfl, rfl⟩
  | apply input =>
    obtain ⟨id, armed, log, he⟩ := Window.clickAutoScanTimeApply_eq o input w
    rw [he]
    exact ⟨rfl, rfl⟩

/-- Between the window's own steps a thread that is running has its handle stored. -/
def Running (w : Window) : Prop := w.thread.isSome = true → w.hScan = true

theorem Running.refresh (hw : Running w) (o : Outcomes) : Running (w.refresh o) := by
  by_cases h : w.inDlg = true ∨ w.hScan = true
  · obtain ⟨ht, hs⟩ := refresh_keeps (o := o) h
    rw [Running, ht, hs]
    exact hw
  · rw [refresh_begins h, Running, Window.beginScan_eq_createScan, Window.createScan, Option.isSome_map]
    exact id

theorem Running.step {a : Action × Outcomes} (hw : Running w) (h : w.step decode a = some v) : Running v := by
  obtain ⟨a, o⟩ := a
  obtain ⟨-, ⟨-, hscan⟩ | ⟨m, -, he⟩⟩ := Window.step_cases h
  · rcases Window.scan_cases hscan with ⟨_, _, ht, rfl⟩ | ⟨_, _, _, _, ht, -, -, rfl⟩ |
      ⟨_, _, _, x, -, -, -, -, rfl⟩
    · exact fun _ => hw (by simp [ht])
    · exact fun _ => hw (by simp [ht])
    · rcases Window.endScan_cases o { w with controls := x } with ⟨-, he⟩ | ⟨-, -, he⟩ |
        ⟨-, -, he⟩ <;> rw [he] <;>
        exact fun ht => Bool.noConfusion ht
  · cases he with
    | refresh => exact hw.refresh o
    | tick => exact hw.refresh o
    | postpone => exact hw
    | close => rcases w.close_cases with he | he <;> rw [he] <;> exact hw
    | openDlg => exact hw
    | leaveDlg _ _ hv =>
      rw [Running, hv.lists.thread, hv.lists.hScan]
      rcases Window.leaveDlg_cases o w with ⟨-, -, he⟩ | he <;> rw [he] <;> exact hw
    | selects _ hv =>
      rw [Running, hv.lists.thread, hv.lists.hScan]
      exact hw
    | clickAutoScan =>
      obtain ⟨id, armed, log, he⟩ := Window.clickAutoScan_eq o w
      rw [he]
      exact hw
    | apply input =>
      obtain ⟨id, armed, log, he⟩ := Window.clickAutoScanTimeApply_eq o input w
      rw [he]
      exact hw

/-- `BeginScan` without another thread's step in between. -/
theorem begin_run (decode : Decoder) (o : Outcomes) (hw : w.thread = none) (hopen : w.closed = false) :
    ∃ moves, Run (step decode) (beginScan (ofWindow w)) moves (ofWindow (w.beginScan o)) := by
  have hbegun : ∀ u : Window, u.closed = false →
      ∃ moves, Run (step decode) ⟨u, .beginning, .ended, [], false⟩ moves
      (ofWindow { u.createScan o with hScan := o.createThread.isSome }) := by
    intro u hu
    have hstage : ofWindow { u.createScan o with hScan := o.createThread.isSome } =
        ⟨{ u.createScan o with hScan := o.createThread.isSome }, .returned,
          if o.createThread.isSome then .scanning else .ended, [], false⟩ := by
      rw [ofWindow, Window.createScan, Option.isSome_map]
    rw [hstage]
    have hcreate : step decode ⟨u, .beginning, .ended, [], false⟩ (.beginScan, o) = some ⟨u.createScan o,
        .created o.createThread.isSome, if o.createThread.isSome then .scanning else .ended, [], false⟩ :=
        step_beginScan hu
    have hstore : ∀ handle stage,
        step decode ⟨u.createScan o, .created handle, stage, [], false⟩ (.beginScan, o) =
        some ⟨{ u.createScan o with hScan := handle }, .stored, stage, [], false⟩ := fun _ _ => step_beginScan hu
    exact ⟨_, .cons hcreate (.cons (hstore _ _) (.cons (a := (.beginScan, o)) (step_beginScan hu) (.nil _)))⟩
  rw [Window.beginScan_eq_createScan, Window.killed, beginScan, ofWindow_idle (by simp [hw])]
  dsimp only
  split_ifs with hid
  · obtain ⟨moves, hrun⟩ := hbegun { w.killTimer with timerId := false } hopen
    exact ⟨_, .cons (a := (.beginScan, o)) (step_beginScan hopen) hrun⟩
  · exact hbegun w hopen

theorem refresh_run (decode : Decoder) (o : Outcomes) (hw : Running w) (hopen : w.closed = false) :
    ∃ moves, Run (step decode) ((ofWindow w).refresh o) moves (ofWindow (w.refresh o)) := by
  by_cases h : w.inDlg = true ∨ w.hScan = true
  · refine ⟨[], ?_⟩
    rw [refresh_of_busy (x := ofWindow w) h, ← ofWindow_congr (refresh_keeps h).1]
    exact .nil _
  · have hnone : w.thread = none := by
      rw [← Option.not_isSome_iff_eq_none]
      exact fun hs => h (.inr (hw hs))
    rw [refresh_of_idle (x := ofWindow w) h, refresh_begins h]
    exact begin_run decode o hnone hopen

theorem timer_run {decode : Decoder} (hw : Running w) (hopen : w.closed = false)
    (h : w.handle o .timer = some v) :
    ∃ moves, Run (step decode) (ofWindow w) moves (ofWindow v) := by
  obtain ⟨harmed, hcases⟩ := Window.timer_cases h
  have helapse : step decode (ofWindow w) (.elapse, o) = some { ofWindow w with queued := true } := by
    rw [step, if_neg (by simp [ofWindow, hopen])]
    exact if_pos harmed
  have htick : step decode { ofWindow w with queued := true } (.ui .timer, o) = some ((ofWindow w).timer o) :=
    step_ui hopen rfl
  rcases hcases with ⟨hdlg, rfl⟩ | ⟨hdlg, rfl⟩
  · have htimer : (ofWindow w).timer o = { ofWindow w with window := w.timer o } := if_pos hdlg
    rw [htimer, Window.timer, if_pos hdlg] at htick
    exact ⟨_, .cons helapse (.cons htick (.nil _))⟩
  · obtain ⟨moves, hrun⟩ := refresh_run decode o hw hopen
    have htimer : (ofWindow w).timer o = (ofWindow w).refresh o := if_neg (by simp [ofWindow, hdlg])
    exact ⟨_, .cons helapse (.cons htick (htimer ▸ hrun))⟩

/-- `EndScan` without another thread's step in between. -/
theorem end_run (decode : Decoder) (o : Outcomes) (hopen : w.closed = false) :
    ∃ moves, Run (step decode) ⟨w, .returned, .ending, [], false⟩ moves (ofWindow (w.endScan o)) := by
  have hfree : step decode ⟨w, .returned, .ending, [], false⟩ (.scan, o) =
      some ⟨w.freeScan, .returned, .ended, [.freed], false⟩ := step_scan hopen
  have hnext : ∀ e, step decode ⟨w.freeScan, .returned, .ended, [e], false⟩ (.endScan 0, o) =
      endStep o 0 ⟨w.freeScan, .returned, .ended, [e], false⟩ := fun _ => step_endScan hopen
  rw [Window.endScan_eq_finishScan]
  by_cases hquit : w.quitting = true
  · have hclose : endStep o 0 ⟨w.freeScan, .returned, .ended, [.freed], false⟩ =
        some (ofWindow (w.freeScan.finishScan o)) := by
      have hthread : w.freeScan.close.thread = none := by
        rcases w.freeScan.close_cases with he | he <;> rw [he] <;> rfl
      have hq : w.freeScan.quitting = true := hquit
      rw [Window.finishScan, if_pos hq, ofWindow_idle (by rw [hthread]; rfl)]
      simp [endStep, waits, hq]
    exact ⟨_, .cons hfree (.cons ((hnext _).trans hclose) (.nil _))⟩
  · have hq : ¬ w.freeScan.quitting = true := hquit
    have hsend : endStep o 0 ⟨w.freeScan, .returned, .ended, [.freed], false⟩ =
        some ⟨w.freeScan, .returned, .ended, [.sending], false⟩ := if_neg hq
    have htest : endStep o 0 ⟨w.freeScan, .returned, .ended, [.sending], false⟩ =
        some ⟨w.freeScan, .returned, .ended, [.testing], false⟩ := rfl
    rw [Window.finishScan, if_neg hq]
    by_cases hauto : w.freeScan.autoScan = true
    · have hset : endStep o 0 ⟨w.freeScan, .returned, .ended, [.testing], false⟩ =
          some ⟨w.freeScan, .returned, .ended, [.setting], false⟩ := congrArg some (if_pos hauto)
      rw [if_pos hauto]
      exact ⟨_, .cons hfree (.cons ((hnext _).trans hsend) (.cons ((hnext _).trans htest)
        (.cons ((hnext _).trans hset) (.cons ((hnext _).trans rfl) (.nil _)))))⟩
    · have hgone : endStep o 0 ⟨w.freeScan, .returned, .ended, [.testing], false⟩ = some (ofWindow w.freeScan) :=
        congrArg some (if_neg hauto)
      rw [if_neg hauto]
      exact ⟨_, .cons hfree (.cons ((hnext _).trans hsend) (.cons ((hnext _).trans htest)
        (.cons ((hnext _).trans hgone) (.nil _))))⟩

/-- A call of a thread whose `BeginScan` has returned. -/
theorem scanStep_call {decode : Decoder} (hscan : w.scan decode o = some v)
    (hnext : ∀ s, w.thread = some (.scanning s) → s.todo ≠ []) :
    scanStep decode o ⟨w, .returned, .scanning, [], false⟩ = some ⟨v, .returned, .scanning, [], false⟩ := by
  rw [scanStep]
  dsimp only
  split
  · rename_i ending kvi ht
    exact absurd rfl (hnext _ ht)
  · rw [hscan]
    show (if waits _ _ then none else some _) = some _
    rw [if_neg (by simp [waits])]

theorem scan_run {decode : Decoder} (hopen : w.closed = false) (h : w.scan decode o = some v) :
    ∃ moves, Run (step decode) (ofWindow w) moves (ofWindow v) := by
  rcases Window.scan_cases h with ⟨source, garbage, ht, hv⟩ | ⟨s, k, todo, r, ht, htodo, -, hv⟩ |
    ⟨s, code, m, x, ht, htodo, hend, hx, rfl⟩
  · have hcall := scanStep_call h fun s hs => absurd (ht.symm.trans hs) (by simp)
    rw [ofWindow_running (by simp [ht]), ofWindow_running (by simp [hv])]
    exact ⟨_, .cons (a := (.scan, o)) ((step_scan hopen).trans hcall) (.nil _)⟩
  · have hcall := scanStep_call h fun t hs => by
      obtain rfl := ScanThread.scanning.inj (Option.some.inj (ht.symm.trans hs))
      simp [htodo]
    rw [ofWindow_running (by simp [ht]), ofWindow_running (by simp [hv, Window.reported])]
    exact ⟨_, .cons (a := (.scan, o)) ((step_scan hopen).trans hcall) (.nil _)⟩
  · have hlast : scanStep decode o ⟨w, .returned, .scanning, [], false⟩ =
        some ⟨{ w with controls := x }, .returned, .ending, [], false⟩ := by
      obtain ⟨todo, ending, kvi⟩ := s
      obtain rfl : todo = [] := htodo
      obtain rfl : ending = .ok (code, m) := hend
      simp [scanStep, ht, hx, waits, Except.toOption]
    obtain ⟨moves, hrun⟩ := end_run decode o (w := { w with controls := x }) hopen
    rw [ofWindow_running (by simp [ht])]
    exact ⟨_, .cons (a := (.scan, o)) ((step_scan hopen).trans hlast) hrun⟩

/-- What the window does with one message or one call is done by the threads, one after the other. -/
theorem run_of_step {a : Action × Outcomes} (hw : Running w) (h : w.step decode a = some v) :
    ∃ moves, Run (step decode) (ofWindow w) moves (ofWindow v) := by
  obtain ⟨a, o⟩ := a
  have hopen := (Window.step_cases h).1
  rw [Window.step, if_neg (by simp [hopen])] at h
  cases a with
  | scan => exact scan_run hopen h
  | ui m =>
    by_cases hm : m ≠ .refresh ∧ m ≠ .timer
    · have hstep : step decode (ofWindow w) (.ui m, o) = some { ofWindow w with window := v } := by
        rw [step_ui hopen rfl, handle]
        · exact congrArg (Option.map _) h
        · exact hm.1
        · exact hm.2
      rw [ofWindow_congr (handle_keeps hm h).1] at hstep
      exact ⟨_, .cons hstep (.nil _)⟩
    cases m with
    | refresh =>
      obtain rfl := Option.some.inj h
      obtain ⟨moves, hrun⟩ := refresh_run decode o hw hopen
      exact ⟨_, .cons (a := (.ui .refresh, o)) (step_ui hopen rfl) hrun⟩
    | timer => exact timer_run hw hopen h
    | _ => exact absurd ⟨by simp, by simp⟩ hm

/-- Every run of the window's own steps is a run of the threads. -/
theorem run_of_window {moves : List (Move Window (Action × Outcomes))} (hw : Running w)
    (h : Run (Window.step decode) w moves v) : ∃ turns, Run (step decode) (ofWindow w) turns (ofWindow v) := by
  induction h with
  | nil w => exact ⟨_, .nil _⟩
  | cons hstep _ ih =>
    obtain ⟨first, hfirst⟩ := run_of_step hw hstep
    obtain ⟨rest, hrest⟩ := ih (hw.step hstep)
    exact ⟨_, hfirst.append hrest⟩

end coarse

end Threads

end BzccScanner
