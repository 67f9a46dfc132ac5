import BzccScanner.ScanThreads
import BzccScanner.ValidIdentifiers

/-! When a tick may stop a scan. A scan begins with the timer killed, so a tick
finds a scan only if something sets the timer while the scan is going on, if a
tick has been waiting since before, or if the timer has been set without its
identifier being known. -/

namespace BzccScanner

open Runs

namespace Window

def MakesUp (w : Window) : Action → Prop
  | .ui (.renOk _) | .ui .renDelete | .ui (.renClose _) =>
    w.inDlg = true ∧ w.autoScanRequestWhileBusy = true ∧ w.autoScan = true
  | _ => False

def SetsTimer (w : Window) : Action → Prop
  | .ui .clickAutoScan => w.autoScan = false
  | .ui (.clickAutoScanTimeApply _) => w.autoScan = true
  | a => w.MakesUp a

/-- The timer is not set while `busy`, and `timer_id` is not lost while it is. -/
structure TimerKept (busy : Prop) (w : Window) : Prop where
  idle : busy → w.armed = false
  known : w.armed = true → w.timerId = true

variable {busy : Prop} {o : Outcomes} {m : Msg} {v w : Window}

theorem TimerKept.congr (h : w.TimerKept busy) (ha : v.armed = w.armed) (hid : v.timerId = w.timerId) :
    v.TimerKept busy := by
  refine ⟨?_, ?_⟩
  · rw [ha]
    exact h.idle
  · rw [ha, hid]
    exact h.known

/-- A timer whose identifier is known is not set behind `KillTimer`. -/
theorem unset_of_known (hk : w.armed = true → w.timerId = true) : (w.armed && !w.timerId) = false := by
  cases ha : w.armed with
  | false => rfl
  | true => rw [hk ha, Bool.not_true, Bool.and_false]

theorem TimerKept.of_unset (ha : w.armed = false) : w.TimerKept busy :=
  ⟨fun _ => ha, fun h => absurd (ha.symm.trans h) (by simp)⟩

theorem TimerKept.setTimer (h : w.TimerKept busy) (hidle : busy → o.setTimer = false)
    (hknown : w.armed = true → o.setTimer = true) : (w.setTimer o).TimerKept busy := by
  refine ⟨fun hb => ?_, fun ha => ?_⟩
  · show (o.setTimer || w.armed) = false
    rw [hidle hb, h.idle hb]
    rfl
  · rcases Bool.or_eq_true_iff.mp ha with hset | harmed
    · exact hset
    · exact hknown harmed

theorem TimerKept.unset_of_unknown (h : w.TimerKept busy) (hid : ¬ w.timerId = true) : w.armed = false :=
  Bool.eq_false_of_not_eq_true fun ha => hid (h.known ha)

theorem TimerKept.leaveDlg (h : w.TimerKept busy)
    (hidle : busy → w.autoScanRequestWhileBusy = true → w.autoScan = true → o.setTimer = false)
    (hknown : w.armed = true → w.autoScanRequestWhileBusy = true → w.autoScan = true → o.setTimer = true) :
    (w.leaveDlg o).TimerKept busy := by
  rcases leaveDlg_cases o w with ⟨hb, ha, he⟩ | he <;> rw [he]
  · have hset := TimerKept.setTimer (o := o) h (fun hbusy => hidle hbusy hb ha) fun harmed => hknown harmed hb ha
    exact hset.congr rfl rfl
  · exact h.congr rfl rfl

theorem TimerKept.clickAutoScan (h : w.TimerKept busy) (hidle : busy → w.autoScan = false → o.setTimer = false)
    (hknown : w.armed = true → w.autoScan = false → o.setTimer = true) : (w.clickAutoScan o).TimerKept busy := by
  rw [Window.clickAutoScan]
  dsimp only
  split_ifs with hon hid
  · have hoff : w.autoScan = false := by simpa using hon
    exact TimerKept.setTimer (h.congr rfl rfl) (fun hb => hidle hb hoff) fun ha => hknown ha hoff
  · exact .of_unset (unset_of_known h.known)
  · exact .of_unset (h.unset_of_unknown hid)

theorem TimerKept.clickAutoScanTimeApply {input : List TChar} (h : w.TimerKept busy)
    (hidle : busy → w.autoScan = true → o.setTimer = false) :
    (w.clickAutoScanTimeApply o input).TimerKept busy := by
  rw [Window.clickAutoScanTimeApply]
  dsimp only
  split_ifs with hon
  · have hkilled : (w.armed && !w.timerId) = false := unset_of_known h.known
    refine TimerKept.setTimer (.of_unset hkilled) (fun hb => hidle hb hon) fun ha => ?_
    exact absurd (hkilled.symm.trans ha) (by simp)
  · exact h.congr rfl rfl

theorem makesUp_of_leavesDlg (hm : m.LeavesDlg) (hdlg : w.inDlg = true) (hb : w.autoScanRequestWhileBusy = true)
    (ha : w.autoScan = true) : w.MakesUp (.ui m) := by
  cases m with
  | renOk input => exact ⟨hdlg, hb, ha⟩
  | renDelete => exact ⟨hdlg, hb, ha⟩
  | renClose input => exact ⟨hdlg, hb, ha⟩
  | _ => exact hm.elim

theorem setsTimer_of_makesUp {a : Action} (h : w.MakesUp a) : w.SetsTimer a := by
  cases a with
  | scan => exact h
  | ui m => cases m <;> first | exact h | exact h.elim

theorem TimerKept.handle (h : w.TimerKept busy) (hm : m ≠ .refresh ∧ m ≠ .timer)
    (hidle : busy → w.SetsTimer (.ui m) → o.setTimer = false)
    (hknown : w.armed = true → w.SetsTimer (.ui m) → (∀ input, m ≠ .clickAutoScanTimeApply input) →
      o.setTimer = true)
    (hv : w.handle o m = some v) : v.TimerKept busy := by
  cases handle_effect hv with
  | refresh => exact absurd rfl hm.1
  | tick => exact absurd rfl hm.2
  | postpone => exact absurd rfl hm.2
  | close => rcases close_cases w with he | he <;> rw [he] <;> exact h.congr rfl rfl
  | openDlg => exact h.congr rfl rfl
  | leaveDlg hleaves hdlg hsel =>
    have hsets : w.autoScanRequestWhileBusy = true → w.autoScan = true → w.SetsTimer (.ui m) :=
      fun hb ha => setsTimer_of_makesUp (makesUp_of_leavesDlg hleaves hdlg hb ha)
    have hleft := h.leaveDlg (o := o) (fun hbusy hb ha => hidle hbusy (hsets hb ha)) fun harmed hb ha =>
      hknown harmed (hsets hb ha) fun input he => by
        subst he
        exact hleaves
    exact hleft.congr hsel.lists.armed hsel.lists.timerId
  | selects _ hsel => exact h.congr hsel.lists.armed hsel.lists.timerId
  | clickAutoScan => exact h.clickAutoScan hidle fun harmed ha => hknown harmed ha fun _ => by simp
  | apply input => exact h.clickAutoScanTimeApply hidle

/-- Only these three messages write what a scan may be cancelled by. -/
theorem handle_keepsControls (hm : m ≠ .refresh ∧ m ≠ .timer) (hc : m ≠ .close) (h : w.handle o m = some v) :
    v.controls = w.controls := by
  cases handle_effect h with
  | refresh => exact absurd rfl hm.1
  | tick => exact absurd rfl hm.2
  | postpone => exact absurd rfl hm.2
  | close => exact absurd rfl hc
  | openDlg => rfl
  | leaveDlg _ _ hsel => exact hsel.lists.controls.trans (leaveDlg_controls o w)
  | selects _ hsel => exact hsel.lists.controls
  | clickAutoScan =>
    obtain ⟨id, armed, log, he⟩ := clickAutoScan_eq o w
    rw [he]
  | apply input =>
    obtain ⟨id, armed, log, he⟩ := clickAutoScanTimeApply_eq o input w
    rw [he]

theorem scan_continues {decode : Decoder} (h : w.scan decode o = some v) :
    v.controls.iContinueScan = w.controls.iContinueScan := by
  rcases scan_cases h with ⟨-, -, -, rfl⟩ | ⟨s, k, todo, r, -, -, hr, rfl⟩ | ⟨s, code, m, x, -, -, -, hx, rfl⟩
  · rfl
  · exact Scanning.report_continues hr
  · rw [(endScan_keeps o { w with controls := x }).1]
    exact Scanning.terminal_continues hx

end Window

namespace Threads

/-- The UI thread is in `BeginScan`, or a scan thread has not come to its test of `hScan`. -/
def Busy (x : Threads) : Prop := x.phase ≠ .returned ∨ x.stage ≠ .ended

/-- The step takes `iContinueScan` from a scan that is going on. -/
def Stops (x y : Threads) : Prop :=
  x.stage ≠ .ended ∧ x.window.controls.iContinueScan = true ∧ y.window.controls.iContinueScan = false

instance (x y : Threads) : Decidable (x.Stops y) := inferInstanceAs (Decidable (_ ∧ _ ∧ _))

def SetsTimer (x : Threads) : Turn → Prop
  | .ui m => x.window.SetsTimer (.ui m)
  | .endScan i => x.ends[i]? = some .setting
  | _ => False

/-- The timer is not set while a scan is going on or beginning, it is not lost when it is to be set
again, and no tick waits when the user begins a scan. -/
structure TimerSafe (x : Threads) (a : Turn × Outcomes) : Prop where
  idle : x.Busy → x.SetsTimer a.1 → a.2.setTimer = false
  known : x.window.armed = true → x.SetsTimer a.1 → (∀ input, a.1 ≠ .ui (.clickAutoScanTimeApply input)) →
    a.2.setTimer = true
  fresh : a.1 = .ui .refresh → x.window.inDlg = false → x.window.hScan = false → x.queued = false

structure TimerKept (x : Threads) : Prop where
  timer : x.window.TimerKept x.Busy
  fresh : x.Busy → x.queued = false
  held : x.phase = .stored ∨ x.phase = .returned → x.stage ≠ .ended → x.window.hScan = true
  created : ∀ handle, x.phase = .created handle → x.stage ≠ .ended → handle = true
  before : x.phase = .killing ∨ x.phase = .beginning → x.stage = .ended

variable {decode : Decoder} {o : Outcomes} {a : Turn × Outcomes} {x y : Threads} {v : Window}
    {ends : List EndStage}

theorem start_timerKept (registry : Registry) (autoNickSave autoScan : Bool) (delay : UInt32) :
    (start (.start registry autoNickSave autoScan delay)).TimerKept :=
  ⟨.of_unset rfl, fun _ => rfl, fun _ h => absurd rfl h, fun _ h => BeginPhase.noConfusion h, fun _ => rfl⟩

/-- Only the window is written, and not the handle. -/
theorem TimerKept.window (h : x.TimerKept) (hv : v.TimerKept x.Busy) (hs : v.hScan = x.window.hScan) :
    { x with window := v, ends := ends }.TimerKept :=
  ⟨hv, h.fresh, fun hp hst => hs.trans (h.held hp hst), h.created, h.before⟩

theorem TimerKept.beginScan (h : x.TimerKept) (hp : x.phase = .returned) (hs : ¬ x.window.hScan = true)
    (hq : x.queued = false) : x.beginScan.TimerKept := by
  have hended : x.stage = .ended := by
    by_contra hst
    exact hs (h.held (.inr hp) hst)
  rw [Threads.beginScan]
  split_ifs with hid
  · have hkilled : x.window.killTimer.armed = false := Window.unset_of_known h.timer.known
    exact ⟨.of_unset hkilled, fun _ => hq, fun hp => by simp at hp, fun _ hp => BeginPhase.noConfusion hp,
      fun _ => hended⟩
  · have hunset : x.window.armed = false := h.timer.unset_of_unknown hid
    exact ⟨.of_unset hunset, fun _ => hq, fun hp => by simp at hp, fun _ hp => BeginPhase.noConfusion hp,
      fun _ => hended⟩

theorem TimerKept.refresh (h : x.TimerKept) (hp : x.phase = .returned)
    (hq : x.window.inDlg = false → x.window.hScan = false → x.queued = false) : (x.refresh o).TimerKept := by
  by_cases hheld : x.window.inDlg = true ∨ x.window.hScan = true
  · rw [refresh_of_busy hheld]
    refine h.window ?_ (refresh_keeps hheld).2
    rw [Window.refresh]
    split_ifs with hdlg hs
    · exact h.timer
    · exact h.timer.congr rfl rfl
    · exact h.timer
    · exact absurd hheld (by simp [hdlg, hs])
  · rw [refresh_of_idle hheld]
    simp only [not_or, Bool.not_eq_true] at hheld
    exact h.beginScan hp (by simp [hheld.2]) (hq hheld.1 hheld.2)

theorem TimerKept.tick (h : x.TimerKept) (hp : x.phase = .returned) :
    ({ x with queued := false }.timer o).TimerKept := by
  have hfresh : { x with queued := false }.TimerKept := ⟨h.timer, fun _ => rfl, h.held, h.created, h.before⟩
  rw [Threads.timer]
  split_ifs with hdlg
  · rw [Window.timer, if_pos hdlg]
    exact hfresh.window (.of_unset (Window.unset_of_known h.timer.known)) rfl
  · exact hfresh.refresh hp fun _ _ => rfl

theorem TimerKept.handle {m : Msg} (h : x.TimerKept) (hp : x.phase = .returned) (hsafe : x.TimerSafe (.ui m, o))
    (hy : x.handle o m = some y) : y.TimerKept := by
  rcases handle_cases hy with ⟨rfl, rfl⟩ | ⟨rfl, -, rfl⟩ | ⟨hm, v, hv, rfl⟩
  · exact h.refresh hp (hsafe.fresh rfl)
  · exact h.tick hp
  · refine h.window (h.timer.handle hm hsafe.idle (fun ha hset hinput => ?_) hv) (handle_keeps hm hv).2
    exact hsafe.known ha hset fun input he => hinput input (Turn.ui.inj he)

theorem TimerKept.beginStep (h : x.TimerKept) (hy : x.beginStep o = some y) : y.TimerKept := by
  rw [Threads.beginStep] at hy
  split at hy
  · rename_i hphase
    obtain rfl := Option.some.inj hy
    have hbusy : x.Busy := .inl (by simp [hphase])
    exact ⟨.of_unset (h.timer.idle hbusy), fun _ => h.fresh hbusy, fun hp => by simp at hp,
      fun _ hp => BeginPhase.noConfusion hp, fun _ => h.before (.inl hphase)⟩
  · rename_i hphase
    obtain rfl := Option.some.inj hy
    have hbusy : x.Busy := .inl (by simp [hphase])
    refine ⟨.of_unset (h.timer.idle hbusy), fun _ => h.fresh hbusy, fun hp => by simp at hp,
      fun handle hp hst => ?_, fun hp => by simp at hp⟩
    obtain rfl := BeginPhase.created.inj hp
    by_contra hnone
    rw [if_neg hnone] at hst
    exact hst (h.before (.inr hphase))
  · rename_i handle hphase
    obtain rfl := Option.some.inj hy
    have hbusy : x.Busy := .inl (by simp [hphase])
    exact ⟨.of_unset (h.timer.idle hbusy), fun _ => h.fresh hbusy, fun _ hst => h.created handle hphase hst,
      fun _ hp => BeginPhase.noConfusion hp, fun hp => by simp at hp⟩
  · rename_i hphase
    obtain rfl := Option.some.inj hy
    have hbusy : x.Busy := .inl (by simp [hphase])
    exact ⟨.of_unset (h.timer.idle hbusy), fun _ => h.fresh hbusy, fun _ hst => h.held (.inl hphase) hst,
      fun _ hp => BeginPhase.noConfusion hp, fun hp => by simp at hp⟩
  · cases hy

theorem TimerKept.scanStep (h : x.TimerKept) (hy : x.scanStep decode o = some y) : y.TimerKept := by
  rcases scanStep_cases hy with ⟨-, v, hv, rfl, -, hnext⟩ | ⟨hstage, s, code, m, v, -, -, -, -, -, rfl⟩ |
    ⟨hstage, rfl⟩
  · rcases Window.scan_cases hv with ⟨_, _, -, rfl⟩ | ⟨_, _, _, _, -, -, -, rfl⟩ | ⟨s, _, _, _, ht, htodo, -⟩
    · exact h.window (h.timer.congr rfl rfl) rfl
    · exact h.window (h.timer.congr rfl rfl) rfl
    · exact absurd htodo (hnext s ht)
  · have hrunning : x.stage ≠ .ended := by simp [hstage]
    have hbusy : x.Busy := .inr hrunning
    exact ⟨.of_unset (h.timer.idle hbusy), fun _ => h.fresh hbusy, fun hp _ => h.held hp hrunning,
      fun handle hp _ => h.created handle hp hrunning, fun hp => absurd (h.before hp) hrunning⟩
  · have hbusy : x.Busy := .inr (by simp [hstage])
    exact ⟨.of_unset (h.timer.idle hbusy), fun _ => h.fresh hbusy, fun _ hst => absurd rfl hst,
      fun _ _ hst => absurd rfl hst, fun _ => rfl⟩

theorem TimerKept.endStep {i : Nat} (h : x.TimerKept) (hsafe : x.TimerSafe (.endScan i, o))
    (hy : x.endStep o i = some y) : y.TimerKept := by
  obtain ⟨ends, (rfl | ⟨-, -, rfl⟩) | ⟨hset, rfl⟩⟩ := endStep_cases hy
  · exact h.window (v := x.window) h.timer rfl
  · rcases x.window.close_cases with he | he <;> rw [he] <;> exact h.window (h.timer.congr rfl rfl) rfl
  · exact h.window (h.timer.setTimer (fun hb => hsafe.idle hb hset) fun ha => hsafe.known ha hset
      fun _ => by simp) rfl

theorem TimerKept.step (h : x.TimerKept) (hsafe : x.TimerSafe a) (hy : x.step decode a = some y) :
    y.TimerKept := by
  obtain ⟨a, o⟩ := a
  obtain ⟨-, ⟨m, rfl, hp, hy⟩ | ⟨-, hy⟩ | ⟨-, hy⟩ | ⟨i, rfl, hy⟩ | ⟨-, harmed, rfl⟩⟩ := step_cases hy
  · exact h.handle hp hsafe hy
  · exact h.beginStep hy
  · exact h.scanStep hy
  · exact h.endStep hsafe hy
  · refine ⟨h.timer, fun hb => ?_, h.held, h.created, h.before⟩
    exact absurd ((h.timer.idle hb).symm.trans harmed) (by simp)

theorem Stops.continues (hs : x.Stops y) :
    y.window.controls.iContinueScan ≠ x.window.controls.iContinueScan := by
  rw [hs.2.1, hs.2.2]
  simp

theorem beginStep_continues (h : x.beginStep o = some y) : y.window.controls.iContinueScan = true ∨
    y.window.controls = x.window.controls := by
  rw [Threads.beginStep] at h
  split at h
  · exact .inr (by rw [← Option.some.inj h])
  · exact .inl (by rw [← Option.some.inj h]; rfl)
  · exact .inr (by rw [← Option.some.inj h])
  · exact .inr (by rw [← Option.some.inj h])
  · cases h

theorem scanStep_continues (h : x.scanStep decode o = some y) :
    y.window.controls.iContinueScan = x.window.controls.iContinueScan := by
  rcases scanStep_cases h with ⟨-, v, hv, rfl, -⟩ | ⟨-, s, code, m, v, -, -, -, hv, -, rfl⟩ | ⟨-, rfl⟩
  · exact Window.scan_continues hv
  · exact Scanning.terminal_continues hv
  · rfl

theorem endStep_controls {i : Nat} (h : x.endStep o i = some y) : y.window.controls = x.window.controls := by
  obtain ⟨ends, (rfl | ⟨-, hquit, rfl⟩) | ⟨-, rfl⟩⟩ := endStep_cases h
  · rfl
  · rw [Window.close, if_neg (by simp [hquit])]
  · rfl

/-- A scan that is going on is stopped by the user's own refresh or by closing the window. -/
theorem TimerKept.stops (h : x.TimerKept) (hy : x.step decode a = some y) (hs : x.Stops y) :
    a.1 = .ui .refresh ∨ a.1 = .ui .close := by
  have hsame : y.window.controls ≠ x.window.controls := fun he => hs.continues (by rw [he])
  obtain ⟨-, ⟨m, hm, hp, hy⟩ | ⟨-, hy⟩ | ⟨-, hy⟩ | ⟨i, -, hy⟩ | ⟨-, -, rfl⟩⟩ := step_cases hy
  · rcases handle_cases hy with ⟨rfl, -⟩ | ⟨-, hqueued, -⟩ | ⟨hother, v, hv, rfl⟩
    · exact .inl hm
    · -- No tick waits while a scan is going on.
      exact absurd ((h.fresh (.inr hs.1)).symm.trans hqueued) (by simp)
    · by_cases hclose : m = .close
      · exact .inr (hclose ▸ hm)
      · exact absurd (Window.handle_keepsControls hother hclose hv) hsame
  · rcases beginStep_continues hy with hcont | he
    · exact absurd (hs.2.2.symm.trans hcont) (by simp)
    · exact absurd he hsame
  · exact absurd (scanStep_continues hy) hs.continues
  · exact absurd (endStep_controls hy) hsame
  · exact absurd rfl hsame

end Threads

/-- In a run in which no timer is set during a scan, none is lost, and no tick waits when the user
begins a scan, no tick stops a scan. -/
theorem ticks_spare_scans {decode : Decoder} {registry : Registry} {autoNickSave autoScan : Bool} {delay : UInt32}
    {moves : List (Move Threads (Turn × Outcomes))} {y : Threads}
    (h : Run (Threads.step decode) (.start (.start registry autoNickSave autoScan delay)) moves y)
    (hsafe : ∀ m ∈ moves, m.source.TimerSafe m.action) :
    ∀ m ∈ moves, m.source.Stops m.target → m.action.1 = .ui .refresh ∨ m.action.1 = .ui .close := by
  have hkept := h.invariant (I := Threads.TimerKept) (P := Threads.TimerSafe)
    (fun _ _ _ hx hsafe hs => hx.step hsafe hs)
    (Threads.start_timerKept registry autoNickSave autoScan delay) hsafe
  exact fun m hm hs => (hkept.2 m hm).stops (h.move hm) hs

instance (x : Threads) : Decidable x.Busy := inferInstanceAs (Decidable (_ ∨ _))

def steamCreated : Outcomes := { idle with createThread := some (playerFile steamPlayer) }

/-- A scan with nothing in between, up to the test of `hScan`. -/
def freedScan : List (Turn × Outcomes) :=
  [(.ui .refresh, idle), (.beginScan, steamCreated), (.beginScan, idle), (.beginScan, idle)] ++
    List.replicate 6 (.scan, idle)

/-- A scan that ends with the timer set, the scan that a tick then begins, and a click that stops it. -/
def tickedScan : List (Turn × Outcomes) :=
  freedScan ++ List.replicate 4 (.endScan 0, idle) ++
    [(.elapse, idle), (.ui .timer, idle), (.beginScan, idle), (.beginScan, steamCreated), (.beginScan, idle),
      (.beginScan, idle), (.ui .refresh, idle)]

def execThreads (autoScan : Bool) : List (Turn × Outcomes) →
    Option (List (Move Threads (Turn × Outcomes)) × Threads) :=
  exec (Threads.step fun _ _ => none) (.start (.start emptyRegistry true autoScan 60))

theorem tickedScan_stops : ∃ r ∈ execThreads true tickedScan, (∃ m ∈ r.1, m.source.Stops m.target) ∧
    r.1.all (fun m => (m.action.1 = .endScan 0 → ¬ m.source.Busy ∧ m.source.window.armed = false) ∧
      (m.action.1 = .ui .refresh → m.source.queued = false)) = true := by
  decide +kernel

/-- Only a thread in `EndScan` sets the timer there. -/
theorem tickedScan_sets {a : Turn × Outcomes} (ha : a ∈ tickedScan) {x : Threads} (h : x.SetsTimer a.1) :
    a.1 = .endScan 0 := by
  simp only [tickedScan, freedScan, List.mem_append, List.mem_cons, List.mem_replicate, List.not_mem_nil,
    or_false] at ha
  rcases ha with (((rfl | rfl | rfl | rfl) | ⟨-, rfl⟩) | ⟨-, rfl⟩) | rfl | rfl | rfl | rfl | rfl | rfl | rfl <;>
    first | rfl | exact h.elim

theorem ticks_spare_scans_tickedScan : ∃ moves y,
    Run (Threads.step fun _ _ => none) (.start (.start emptyRegistry true true 60)) moves y ∧
      (∃ m ∈ moves, m.action.1 = .ui .timer) ∧ (∃ m ∈ moves, m.source.Stops m.target) ∧
      ∀ m ∈ moves, m.source.Stops m.target → m.action.1 = .ui .refresh ∨ m.action.1 = .ui .close := by
  obtain ⟨⟨moves, y⟩, hr, hstops, hall⟩ := tickedScan_stops
  have hactions : moves.map Move.action = tickedScan := exec_actions hr
  refine ⟨moves, y, exec_run hr, ?_, hstops, ticks_spare_scans (exec_run hr) fun m hm => ?_⟩
  · have htick : (.ui .timer, idle) ∈ moves.map Move.action := by
      rw [hactions]
      simp [tickedScan]
    obtain ⟨m, hm, he⟩ := List.mem_map.mp htick
    exact ⟨m, hm, congrArg Prod.fst he⟩
  · have hturn : m.action ∈ tickedScan := hactions ▸ List.mem_map_of_mem hm
    obtain ⟨hend, hrefresh⟩ := of_decide_eq_true (List.all_eq_true.mp hall m hm)
    refine ⟨fun hbusy hset => ?_, fun harmed hset _ => ?_, fun hr _ _ => hrefresh hr⟩
    · exact absurd hbusy (hend (tickedScan_sets hturn hset)).1
    · exact absurd ((hend (tickedScan_sets hturn hset)).2.symm.trans harmed) (by simp)

/-- Auto-scan is switched on during a scan. -/
def switchedOn : List (Turn × Outcomes) :=
  freedScan.take 4 ++ [(.ui .clickAutoScan, idle), (.elapse, idle), (.ui .timer, idle)]

/-- The user refreshes while a thread is in `EndScan`, and then that thread sets the timer. -/
def refreshedEarly : List (Turn × Outcomes) :=
  freedScan ++ List.replicate 3 (.endScan 0, idle) ++ freedScan.take 4 ++
    [(.endScan 0, idle), (.elapse, idle), (.ui .timer, idle)]

/-- The user refreshes while a tick waits to be handled. -/
def refreshedLate : List (Turn × Outcomes) :=
  freedScan ++ List.replicate 4 (.endScan 0, idle) ++ [(.elapse, idle), (.ui .refresh, idle), (.beginScan, idle),
    (.beginScan, steamCreated), (.beginScan, idle), (.beginScan, idle), (.ui .timer, idle)]

theorem switchedOn_stops :
    ∃ r ∈ execThreads false switchedOn, ∃ m ∈ r.1, m.action.1 = .ui .timer ∧ m.source.Stops m.target := by
  decide +kernel

theorem refreshedEarly_stops :
    ∃ r ∈ execThreads true refreshedEarly, ∃ m ∈ r.1, m.action.1 = .ui .timer ∧ m.source.Stops m.target := by
  decide +kernel

theorem refreshedLate_stops :
    ∃ r ∈ execThreads true refreshedLate, ∃ m ∈ r.1, m.action.1 = .ui .timer ∧ m.source.Stops m.target := by
  decide +kernel

/-- The tick stops the scan in each of the three runs. -/
theorem tick_stops_scan :
    (∃ moves y, Run (Threads.step fun _ _ => none) (.start (.start emptyRegistry true false 60)) moves y ∧
      moves.map Move.action = switchedOn ∧ ∃ m ∈ moves, m.action.1 = .ui .timer ∧ m.source.Stops m.target) ∧
    (∃ moves y, Run (Threads.step fun _ _ => none) (.start (.start emptyRegistry true true 60)) moves y ∧
      moves.map Move.action = refreshedEarly ∧ ∃ m ∈ moves, m.action.1 = .ui .timer ∧ m.source.Stops m.target) ∧
    ∃ moves y, Run (Threads.step fun _ _ => none) (.start (.start emptyRegistry true true 60)) moves y ∧
      moves.map Move.action = refreshedLate ∧ ∃ m ∈ moves, m.action.1 = .ui .timer ∧ m.source.Stops m.target := by
  obtain ⟨⟨moves₁, y₁⟩, h₁, hstops₁⟩ := switchedOn_stops
  obtain ⟨⟨moves₂, y₂⟩, h₂, hstops₂⟩ := refreshedEarly_stops
  obtain ⟨⟨moves₃, y₃⟩, h₃, hstops₃⟩ := refreshedLate_stops
  exact ⟨⟨moves₁, y₁, exec_run h₁, exec_actions h₁, hstops₁⟩, ⟨moves₂, y₂, exec_run h₂, exec_actions h₂, hstops₂⟩,
    moves₃, y₃, exec_run h₃, exec_actions h₃, hstops₃⟩

end BzccScanner
