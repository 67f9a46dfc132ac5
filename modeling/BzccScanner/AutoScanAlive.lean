import BzccScanner.AutoRefresh

/-! Auto-scan keeps itself going. While it is on, and neither a scan nor the
rename dialog holds it up, a timer is set: what kills the timer passes it on to
the end of the scan or to the closing of the dialog. A scan whose thread cannot
be created has no end, and nothing sets the timer again. -/

namespace BzccScanner

open Runs

namespace Window

/-- What `WinMain` does before its first message. -/
def startUp (registry : Registry) (autoNickSave autoScan : Bool) (autoScanDelay : UInt32)
    (o : Outcomes) : Window :=
  let w := start registry autoNickSave autoScan autoScanDelay
  if w.autoScan then w.refresh o else w

def Alive (w : Window) : Prop :=
  w.quitting = false → w.closed = false → w.autoScan = true → w.hScan = false → w.inDlg = false →
    w.timerId = true ∧ w.armed = true

instance (w : Window) : Decidable w.Alive :=
  inferInstanceAs (Decidable (_ = _ → _ = _ → _ = _ → _ = _ → _ = _ → _ = _ ∧ _ = _))

/-- The step begins a scan while auto-scan is on, and the scan's thread is not created. -/
def LosesTimer (w : Window) (a : Action × Outcomes) : Prop :=
  (a.1 = .ui .refresh ∨ a.1 = .ui .timer) ∧ w.inDlg = false ∧ w.hScan = false ∧ w.autoScan = true ∧
    a.2.createThread = none

/-- Whoever is to set the timer again is still to come. -/
structure Pursued (w : Window) : Prop where
  known : w.armed = true → w.timerId = true
  quits : w.quitting = true → w.hScan = true ∨ w.closed = true
  next : w.autoScan = true → w.hScan = false → w.closed = false →
    w.armed = true ∨ w.inDlg = true ∧ w.autoScanRequestWhileBusy = true

variable {o : Outcomes} {v w : Window}

theorem Pursued.alive (h : w.Pursued) : w.Alive := by
  intro _ hclosed hauto hs hdlg
  rcases h.next hauto hs hclosed with ha | ⟨hopen, -⟩
  · exact ⟨h.known ha, ha⟩
  · exact absurd (hdlg.symm.trans hopen) (by simp)

theorem start_pursued (registry : Registry) (autoNickSave : Bool) (delay : UInt32) :
    (start registry autoNickSave false delay).Pursued :=
  ⟨by simp [start], by simp [start], by simp [start]⟩

/-- A timer that is set is enough. -/
theorem Pursued.setTimer (hq : w.quitting = true → w.hScan = true ∨ w.closed = true) (hset : o.setTimer = true) :
    (w.setTimer o).Pursued := by
  have harmed : (w.setTimer o).armed = true := by
    show (o.setTimer || w.armed) = true
    rw [hset, Bool.true_or]
  exact ⟨fun _ => hset, hq, fun _ _ _ => .inl harmed⟩

/-- The end of a scan that begins is to set the timer. -/
theorem beginScan_pursued (hk : w.armed = true → w.timerId = true) (hq : w.quitting = false)
    (ht : w.autoScan = true → o.createThread ≠ none) : (w.beginScan o).Pursued := by
  obtain ⟨log, he⟩ := beginScan_eq o w
  rw [he]
  refine ⟨fun ha => ?_, fun hb => ?_, fun ha hb _ => ?_⟩
  · exact absurd ((unset_of_known hk).symm.trans ha) (by simp)
  · exact absurd (hq.symm.trans hb) (by simp)
  · exact absurd (by simpa using hb) (ht ha)

theorem beginScan_dead (hk : w.armed = true → w.timerId = true) (hq : w.quitting = false) (hc : w.closed = false)
    (hdlg : w.inDlg = false) (ha : w.autoScan = true) (ht : o.createThread = none) : ¬ (w.beginScan o).Alive := by
  obtain ⟨log, he⟩ := beginScan_eq o w
  rw [he]
  intro halive
  have harmed := (halive hq hc ha (by simp [ht]) hdlg).2
  exact absurd ((unset_of_known hk).symm.trans harmed) (by simp)

theorem Pursued.idle_quitting (h : w.Pursued) (hc : w.closed = false) (hs : w.hScan = false) :
    w.quitting = false := by
  refine Bool.eq_false_of_not_eq_true fun hq => ?_
  rcases h.quits hq with hscan | hclosed
  · exact absurd (hs.symm.trans hscan) (by simp)
  · exact absurd (hc.symm.trans hclosed) (by simp)

theorem Pursued.refresh (h : w.Pursued) (hc : w.closed = false)
    (ht : w.inDlg = false → w.hScan = false → w.autoScan = true → o.createThread ≠ none) :
    (w.refresh o).Pursued := by
  rw [Window.refresh]
  split_ifs with hdlg hs
  · exact h
  · exact ⟨h.known, h.quits, h.next⟩
  · exact h
  · have hidle : w.hScan = false := by simpa using hs
    exact beginScan_pursued h.known (h.idle_quitting hc hidle) (ht (by simpa using hdlg) hidle)

theorem Pursued.close (h : w.Pursued) : w.close.Pursued := by
  rw [Window.close]
  split_ifs with hs
  · exact ⟨h.known, fun _ => .inl hs.1, h.next⟩
  · exact ⟨h.known, fun _ => .inr rfl, fun _ _ hc => absurd hc (by simp)⟩

theorem Pursued.endScan (h : w.Pursued) (hset : o.setTimer = true) : (w.endScan o).Pursued := by
  rcases endScan_cases o w with ⟨-, he⟩ | ⟨hq, -, he⟩ | ⟨hq, ha, he⟩ <;> rw [he]
  · exact ⟨h.known, fun _ => .inr rfl, fun _ _ hc => absurd hc (by simp)⟩
  · exact Pursued.setTimer (fun hb => absurd hb (by simp [hq])) hset
  · exact ⟨h.known, fun hb => absurd hb (by simp [hq]), fun hb => absurd hb (by simp [ha])⟩

theorem Pursued.leaveDlg (h : w.Pursued) (hset : o.setTimer = true) : (w.leaveDlg o).Pursued := by
  rw [Window.leaveDlg]
  dsimp only
  split_ifs with hbusy ha
  · have hs := Pursued.setTimer (w := { w with inDlg := false }) h.quits hset
    exact ⟨hs.known, hs.quits,
      fun _ _ _ => .inl (by show (o.setTimer || w.armed) = true; rw [hset, Bool.true_or])⟩
  · exact ⟨h.known, h.quits, fun hb => absurd hb ha⟩
  · refine ⟨h.known, h.quits, fun ha hs hc => ?_⟩
    rcases h.next ha hs hc with harmed | ⟨-, hb⟩
    · exact .inl harmed
    · exact absurd hb hbusy

theorem Selects.pursued (hv : w.Selects v) (h : w.Pursued) : v.Pursued := by
  obtain ⟨_, _, _, _, _, _, _, _, rfl⟩ := hv
  exact ⟨h.known, h.quits, h.next⟩

theorem Pursued.clickAutoScan (h : w.Pursued) (hset : o.setTimer = true) : (w.clickAutoScan o).Pursued := by
  rw [Window.clickAutoScan]
  dsimp only
  split_ifs with hon hid
  · exact Pursued.setTimer h.quits hset
  · refine ⟨fun ha => ?_, h.quits, fun ha => absurd ha hon⟩
    exact absurd ((unset_of_known h.known).symm.trans ha) (by simp)
  · exact ⟨h.known, h.quits, fun ha => absurd ha hon⟩

theorem Pursued.clickAutoScanTimeApply {input : List TChar} (h : w.Pursued) (hset : o.setTimer = true) :
    (w.clickAutoScanTimeApply o input).Pursued := by
  rw [Window.clickAutoScanTimeApply]
  dsimp only
  split_ifs
  · exact Pursued.setTimer h.quits hset
  · exact ⟨h.known, h.quits, h.next⟩

theorem Pursued.scan {decode : Decoder} (h : w.Pursued) (hset : o.setTimer = true)
    (hv : w.scan decode o = some v) :
    v.Pursued := by
  rcases scan_cases hv with ⟨_, _, -, rfl⟩ | ⟨_, _, _, _, -, -, -, rfl⟩ | ⟨_, _, _, x, -, -, -, -, rfl⟩
  · exact ⟨h.known, h.quits, h.next⟩
  · exact ⟨h.known, h.quits, h.next⟩
  · have hx : { w with controls := x }.Pursued := ⟨h.known, h.quits, h.next⟩
    exact hx.endScan hset

/-- A tick that finds the dialog open is remembered. -/
theorem Pursued.postpone (h : w.Pursued) (hdlg : w.inDlg = true) :
    { w.killTimer with autoScanRequestWhileBusy := true, timerId := false }.Pursued := by
  refine ⟨fun ha => ?_, h.quits, fun _ _ _ => .inr ⟨hdlg, rfl⟩⟩
  exact absurd ((unset_of_known h.known).symm.trans ha) (by simp)

/-- Only a tick that is still to be made up for leaves the dialog open. -/
theorem Pursued.openDlg (h : w.Pursued) (hdlg : w.inDlg = false) (p : Fin maxServers × Fin maxPlayers) :
    { w with inDlg := true, pPlayer := some p }.Pursued := by
  refine ⟨h.known, h.quits, fun ha hs hc => ?_⟩
  rcases h.next ha hs hc with harmed | ⟨hopen, -⟩
  · exact .inl harmed
  · exact absurd (hdlg.symm.trans hopen) (by simp)

theorem LosesTimer.dead (h : w.Pursued) {decode : Decoder} {a : Action × Outcomes} (hl : w.LosesTimer a)
    (hv : w.step decode a = some v) : ¬ v.Alive := by
  obtain ⟨a, o⟩ := a
  obtain ⟨hbegin, hdlg, hs, hauto, ht⟩ := hl
  rw [Window.step] at hv
  split_ifs at hv with hc
  have hclosed : w.closed = false := by simpa using hc
  have hrefresh : w.refresh o = w.beginScan o := by
    rw [Window.refresh, if_neg (by simp [hdlg]), if_neg (by simp [hs])]
  have hbegun : v = w.beginScan o := by
    rcases hbegin with rfl | rfl
    · exact (Option.some.inj hv).symm.trans hrefresh
    · rcases (timer_cases hv).2 with ⟨hopen, -⟩ | ⟨-, rfl⟩
      · exact absurd (hdlg.symm.trans hopen) (by simp)
      · exact hrefresh
  rw [hbegun]
  exact beginScan_dead h.known (h.idle_quitting hclosed hs) hclosed hdlg hauto ht

theorem Pursued.step {decode : Decoder} {a : Action × Outcomes} (h : w.Pursued) (hset : a.2.setTimer = true)
    (hl : ¬ w.LosesTimer a) (hv : w.step decode a = some v) : v.Pursued := by
  obtain ⟨a, o⟩ := a
  obtain ⟨hclosed, ⟨rfl, hscan⟩ | ⟨m, rfl, he⟩⟩ := step_cases hv
  · exact h.scan hset hscan
  · cases he with
    | refresh => exact h.refresh hclosed fun hdlg hs hauto ht => hl ⟨.inl rfl, hdlg, hs, hauto, ht⟩
    | tick => exact h.refresh hclosed fun hdlg hs hauto ht => hl ⟨.inr rfl, hdlg, hs, hauto, ht⟩
    | postpone _ hdlg => exact h.postpone hdlg
    | close => exact h.close
    | openDlg p hdlg => exact h.openDlg hdlg p
    | leaveDlg _ _ hv => exact hv.pursued (h.leaveDlg hset)
    | selects _ hv => exact hv.pursued h
    | clickAutoScan => exact h.clickAutoScan hset
    | apply input => exact h.clickAutoScanTimeApply hset

theorem start_losesTimer (registry : Registry) (autoNickSave autoScan : Bool) (delay : UInt32) (o : Outcomes) :
    (start registry autoNickSave autoScan delay).LosesTimer (.ui .refresh, o) ↔ autoScan = true ∧
      o.createThread = none := by
  simp [LosesTimer, start]

theorem startUp_pursued (registry : Registry) (autoNickSave autoScan : Bool) (delay : UInt32)
    (hl : ¬ (start registry autoNickSave autoScan delay).LosesTimer (.ui .refresh, o)) :
    (startUp registry autoNickSave autoScan delay o).Pursued := by
  rw [start_losesTimer] at hl
  cases autoScan with
  | false => exact start_pursued registry autoNickSave delay
  | true =>
    exact beginScan_pursued (w := start registry autoNickSave true delay) (by simp [start]) rfl
      fun _ ht => hl ⟨rfl, ht⟩

theorem startUp_dead (registry : Registry) (autoNickSave autoScan : Bool) (delay : UInt32)
    (hl : (start registry autoNickSave autoScan delay).LosesTimer (.ui .refresh, o)) :
    ¬ (startUp registry autoNickSave autoScan delay o).Alive := by
  obtain ⟨rfl, ht⟩ := (start_losesTimer registry autoNickSave autoScan delay o).mp hl
  exact beginScan_dead (w := start registry autoNickSave true delay) (by simp [start]) rfl rfl rfl rfl ht

end Window

/-- In a run in which every timer can be set, auto-scan stays alive exactly if no scan that begins
while it is on is left without its thread. -/
theorem autoScan_alive_iff {decode : Decoder} {registry : Registry} {autoNickSave autoScan : Bool}
    {delay : UInt32} {o : Outcomes} {moves : List (Move Window (Action × Outcomes))} {v : Window}
    (h : Run (Window.step decode) (.startUp registry autoNickSave autoScan delay o) moves v)
    (hset : ∀ m ∈ moves, m.action.2.setTimer = true) :
    ((Window.startUp registry autoNickSave autoScan delay o).Alive ∧ ∀ m ∈ moves, m.target.Alive) ↔
      ¬ (Window.start registry autoNickSave autoScan delay).LosesTimer (.ui .refresh, o) ∧
        ∀ m ∈ moves, ¬ m.source.LosesTimer m.action := by
  by_cases hl : (Window.start registry autoNickSave autoScan delay).LosesTimer (.ui .refresh, o)
  · simp [Window.startUp_dead _ _ _ _ hl, hl]
  · have hstart := Window.startUp_pursued registry autoNickSave autoScan delay hl
    have hrun := h.forall_target_iff (I := Window.Pursued) (Q := Window.Alive) (P := fun w a => ¬ w.LosesTimer a)
      (E := fun _ a => a.2.setTimer = true) ?_ hstart hset
    · simp [hstart.alive, hl, hrun]
    · intro w a v hw ha hv
      refine ⟨fun hkeeps => hw.step ha hkeeps hv, fun halive hloses => hloses.dead hw hv halive, fun hkeeps => ?_⟩
      exact (hw.step ha hkeeps hv).alive

def threadCreated : Outcomes := { idle with createThread := some (playerFile steamPlayer) }

/-- The scan of the start-up to its end, and the tick behind it. -/
def firstTick (o : Outcomes) : List (Action × Outcomes) := List.replicate 5 (.scan, idle) ++ [(.ui .timer, o)]

theorem firstTick_mem {o : Outcomes} {a : Action × Outcomes} (h : a ∈ firstTick o) :
    a = (.scan, idle) ∨ a = (.ui .timer, o) := by
  rcases List.mem_append.mp h with hscan | htick
  · exact .inl (List.eq_of_mem_replicate hscan)
  · exact .inr (List.mem_singleton.mp htick)

set_option maxRecDepth 100000 in
theorem firstTick_runs :
    (exec (Window.step fun _ _ => none) (.startUp emptyRegistry true true 60 threadCreated)
      (firstTick threadCreated)).isSome := by
  decide +kernel

set_option maxRecDepth 100000 in
theorem firstTick_dies :
    ∃ r ∈ exec (Window.step fun _ _ => none) (.startUp emptyRegistry true true 60 threadCreated) (firstTick idle),
      ∃ m ∈ r.1, ¬ m.target.Alive := by
  decide +kernel

theorem autoScan_alive_iff_firstTick : ∃ moves v,
    Run (Window.step fun _ _ => none) (.startUp emptyRegistry true true 60 threadCreated) moves v ∧
      moves.map Move.action = firstTick threadCreated ∧
      (Window.startUp emptyRegistry true true 60 threadCreated).Alive ∧ ∀ m ∈ moves, m.target.Alive := by
  obtain ⟨⟨moves, v⟩, hr⟩ := Option.isSome_iff_exists.mp firstTick_runs
  have hactions : moves.map Move.action = firstTick threadCreated := exec_actions hr
  have hmem : ∀ m ∈ moves, m.action = (.scan, idle) ∨ m.action = (.ui .timer, threadCreated) := fun m hm =>
    firstTick_mem (hactions ▸ List.mem_map_of_mem hm)
  refine ⟨moves, v, exec_run hr, hactions, (autoScan_alive_iff (exec_run hr) ?_).mpr ⟨?_, ?_⟩⟩
  · intro m hm
    rcases hmem m hm with he | he <;> rw [he] <;> rfl
  · rw [Window.start_losesTimer]
    simp [threadCreated]
  · rintro m hm ⟨hbegin, -, -, -, ht⟩
    rcases hmem m hm with he | he <;> rw [he] at hbegin ht
    · simp at hbegin
    · simp [threadCreated] at ht

/-- The tick kills the timer for a scan whose thread cannot be created. -/
theorem failed_thread_ends_autoScan : ∃ moves v,
    Run (Window.step fun _ _ => none) (.startUp emptyRegistry true true 60 threadCreated) moves v ∧
      (∀ m ∈ moves, m.action.2.setTimer = true) ∧ ∃ m ∈ moves, ¬ m.target.Alive := by
  obtain ⟨⟨moves, v⟩, hr, hdead⟩ := firstTick_dies
  have hactions : moves.map Move.action = firstTick idle := exec_actions hr
  refine ⟨moves, v, exec_run hr, fun m hm => ?_, hdead⟩
  have hmem : m.action ∈ firstTick idle := hactions ▸ List.mem_map_of_mem hm
  rcases firstTick_mem hmem with he | he <;> rw [he] <;> rfl

end BzccScanner
