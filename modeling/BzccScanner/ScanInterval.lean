import BzccScanner.AutoRefresh

/-! The interval of the timer. Every call of `SetTimer` multiplies the delay that
is in force by 1000 in 32 bits. The delay is bounded below where it is typed, but
not where it is loaded, and it is bounded above nowhere. -/

namespace BzccScanner

open CString Runs

abbrev autoScanDelay : UInt32 := 60

/-- `value` is what the local variable of `LoadSettingDWORD` holds before it is assigned. -/
def loadAutoScanDelay (registry : Registry) (value : List Byte) : UInt32 :=
  loadSettingDWORD registry (text "AUTO_SCAN_DELAY") autoScanDelay value

/-- The largest delay whose milliseconds fit 32 bits. -/
abbrev maxScanDelay : Nat := (2 ^ 32 - 1) / 1000

/-- The interval is the delay in milliseconds, and not less than that of the least delay. -/
def Timed (delay elapse : UInt32) : Prop :=
  elapse.toNat = 1000 * delay.toNat ∧ 1000 * minScanDelay.toNat ≤ elapse.toNat

/-- Where the delay in force comes from. -/
inductive DelayEntry
  | loaded (delay : UInt32)
  | typed (input : List TChar)

namespace DelayEntry

def delay : DelayEntry → UInt32
  | loaded delay => delay
  | typed input => scanDelay input

/-- No lower bound is asked of what is typed: what is too little is replaced. -/
def InRange : DelayEntry → Prop
  | loaded delay => minScanDelay ≤ delay ∧ delay.toNat ≤ maxScanDelay
  | typed input => (ttoi input).toNat ≤ maxScanDelay

def next (e : DelayEntry) : Action → DelayEntry
  | .ui (.clickAutoScanTimeApply input) => typed input
  | _ => e

end DelayEntry

theorem timed_iff (d : UInt32) : Timed d (d * 1000) ↔ minScanDelay ≤ d ∧ d.toNat ≤ maxScanDelay := by
  have hd := d.toNat_lt
  have hprod : (d * 1000).toNat = d.toNat * 1000 % 2 ^ 32 := UInt32.toNat_mul d 1000
  have hmin : minScanDelay.toNat = 1 := rfl
  rw [Timed, hprod, UInt32.le_iff_toNat_le, hmin, maxScanDelay]
  constructor
  · rintro ⟨hexact, hleast⟩
    omega
  · rintro ⟨hleast, hmost⟩
    rw [Nat.mod_eq_of_lt (by omega)]
    omega

theorem scanDelay_toNat (input : List TChar) :
    (scanDelay input).toNat = max minScanDelay.toNat (ttoi input).toNat := by
  rw [scanDelay]
  split_ifs with h
  · exact (Nat.max_eq_left (Nat.le_of_lt (UInt32.lt_iff_toNat_lt.mp h))).symm
  · exact (Nat.max_eq_right (Nat.le_of_not_lt fun hlt => h (UInt32.lt_iff_toNat_lt.mpr hlt))).symm

theorem DelayEntry.timed_iff (e : DelayEntry) : Timed e.delay (e.delay * 1000) ↔ e.InRange := by
  rw [BzccScanner.timed_iff]
  cases e with
  | loaded delay => exact Iff.rfl
  | typed input =>
    have hmin : minScanDelay.toNat = 1 := rfl
    rw [delay, InRange, UInt32.le_iff_toNat_le, scanDelay_toNat, hmin, maxScanDelay]
    omega

theorem ttoi_digits {ds : List Byte} (hd : ds.all isDigit = true) (hlen : ds.length ≤ 7) :
    ttoi (ds.map UInt8.toUInt16) = UInt32.ofNat (min (digitsValue ds) intMax) := by
  have hascii : ∀ c ∈ ds.map UInt8.toUInt16, decide (c < 0x80) = true := by
    intro c hc
    obtain ⟨b, hb, rfl⟩ := List.mem_map.mp hc
    have hdigit := List.all_eq_true.mp hd b hb
    simp only [isDigit, Bool.and_eq_true, decide_eq_true_eq, UInt8.le_iff_toNat_le] at hdigit
    simp only [decide_eq_true_eq, UInt16.lt_iff_toNat_lt, UInt8.toNat_toUInt16]
    simp at hdigit ⊢
    omega
  have hback : (ds.map UInt8.toUInt16).map UInt16.toUInt8 = ds := by
    rw [List.map_map]
    exact List.map_id'' (fun c => UInt8.toUInt8_toUInt16 c) ds
  rw [ttoi, List.take_of_length_le (by simpa using hlen), List.takeWhile_eq_self_iff.mpr hascii, hback,
    ofInt_atoi_digits hd]

/-- What digits are typed is in range if the number that they write is. -/
theorem typed_digits_inRange {ds : List Byte} (hd : ds.all isDigit = true) (hlen : ds.length ≤ 7) :
    (DelayEntry.typed (ds.map UInt8.toUInt16)).InRange ↔ digitsValue ds ≤ maxScanDelay := by
  have hle : min (digitsValue ds) intMax ≤ intMax := Nat.min_le_right _ _
  have hsize : intMax < UInt32.size := by decide
  rw [DelayEntry.InRange, ttoi_digits hd hlen, UInt32.toNat_ofNat_of_lt' (Nat.lt_of_le_of_lt hle hsize),
    maxScanDelay, intMax]
  omega

namespace Window

/-- The step calls `SetTimer`: at the end of a scan, from the preferences, or where the rename
dialog makes up for a tick. -/
def CallsSetTimer (w : Window) : Action → Prop
  | .scan => ∃ s, w.thread = some (.scanning s) ∧ s.todo = [] ∧ w.quitting = false ∧ w.autoScan = true
  | a => w.SetsTimer a

/-- Every interval that is passed between the two windows is right for the delay in force. -/
def IntervalsTimed (w v : Window) : Prop :=
  Emits (fun e => ∀ elapse, e = .setTimer elapse → Timed v.autoScanDelay elapse) w v

/-- The timer is set for the delay in force if `P` holds, and else not at all. -/
def Sets (w v : Window) (P : Prop) : Prop :=
  ∃ new, v.log = w.log ++ new ∧ ∀ elapse, .setTimer elapse ∈ new ↔ P ∧ elapse = v.autoScanDelay * 1000

def Quiet : Window → Window → Prop := Emits fun e => ∀ elapse, e ≠ .setTimer elapse

variable {o : Outcomes} {u v w : Window} {P : Prop}

theorem Quiet.sets (h : Quiet w v) : w.Sets v False := by
  obtain ⟨new, hnew, hquiet⟩ := h
  exact ⟨new, hnew, fun elapse => by simpa using fun hmem => hquiet _ hmem elapse rfl⟩

theorem Sets.congr {Q : Prop} (h : w.Sets v P) (hPQ : P ↔ Q) : w.Sets v Q := by
  obtain ⟨new, hnew, hiff⟩ := h
  exact ⟨new, hnew, fun elapse => by rw [hiff, hPQ]⟩

theorem Quiet.trans_sets (h : Quiet w v) (h' : v.Sets u P) : w.Sets u P := by
  obtain ⟨new, hnew, hquiet⟩ := h
  obtain ⟨more, hmore, hiff⟩ := h'
  refine ⟨new ++ more, by rw [hmore, hnew, List.append_assoc], fun elapse => ?_⟩
  rw [List.mem_append, hiff]
  exact or_iff_right fun hmem => hquiet _ hmem elapse rfl

theorem Sets.trans_quiet (h : w.Sets v P) (h' : Quiet v u) (hdelay : u.autoScanDelay = v.autoScanDelay) :
    w.Sets u P := by
  obtain ⟨new, hnew, hiff⟩ := h
  obtain ⟨more, hmore, hquiet⟩ := h'
  refine ⟨new ++ more, by rw [hmore, hnew, List.append_assoc], fun elapse => ?_⟩
  rw [List.mem_append, hiff, hdelay]
  exact or_iff_left fun hmem => hquiet _ hmem elapse rfl

/-- One call is right exactly if the delay is in range. -/
theorem Sets.intervalsTimed_iff (h : w.Sets v P) :
    w.IntervalsTimed v ↔ (P → Timed v.autoScanDelay (v.autoScanDelay * 1000)) := by
  obtain ⟨new, hnew, hiff⟩ := h
  constructor
  · rintro ⟨more, hmore, hall⟩ hP
    obtain rfl := List.append_cancel_left (hnew.symm.trans hmore)
    exact hall _ ((hiff _).mpr ⟨hP, rfl⟩) _ rfl
  · intro htimed
    refine ⟨new, hnew, fun e he elapse hset => ?_⟩
    obtain ⟨hP, rfl⟩ := (hiff elapse).mp (hset ▸ he)
    exact htimed hP

theorem setTimer_sets (o : Outcomes) (w : Window) : w.Sets (w.setTimer o) True :=
  ⟨[.setTimer (w.autoScanDelay * 1000)], rfl, by simp [setTimer]⟩

theorem silent_quiet (h : v.log = w.log) : Quiet w v := .silent h

theorem killTimer_quiet (w : Window) : Quiet w w.killTimer := .one rfl (by simp)

theorem Emits.scan_quiet (h : Emits (fun e => e = .killTimer ∨ e = .beginScan) w v) : Quiet w v :=
  h.imp fun e he elapse hset => by simp [hset] at he

theorem Emits.nick_quiet (h : Emits (·.userId.isSome) w v) : Quiet w v :=
  h.imp fun e he elapse hset => by simp [hset, Event.userId] at he

theorem Selects.autoScanDelay_eq (h : w.Selects v) : v.autoScanDelay = w.autoScanDelay := by
  obtain ⟨_, _, _, _, _, _, _, _, rfl⟩ := h
  rfl

theorem leaveDlg_autoScanDelay (o : Outcomes) (w : Window) : (w.leaveDlg o).autoScanDelay = w.autoScanDelay := by
  rcases leaveDlg_cases o w with ⟨-, -, he⟩ | he
  · rw [he]
    rfl
  · rw [he]

theorem leaveDlg_sets (o : Outcomes) (w : Window) :
    w.Sets (w.leaveDlg o) (w.autoScanRequestWhileBusy = true ∧ w.autoScan = true) := by
  rw [leaveDlg]
  dsimp only
  split_ifs with hbusy hauto
  · exact (setTimer_sets o w).congr (by simp [hbusy, hauto])
  · exact (silent_quiet rfl).sets.congr (by simp [hauto])
  · exact (silent_quiet rfl).sets.congr (by simp [hbusy])

theorem closeRenameDlg_sets {input : List TChar} (h : w.closeRenameDlg o input = some v) :
    w.Sets v (w.inDlg = true ∧ w.autoScanRequestWhileBusy = true ∧ w.autoScan = true) := by
  rcases closeRenameDlg_cases h with ⟨hclosed, rfl⟩ | ⟨hdlg, -, rfl⟩ | ⟨hdlg, -, x, hx, hv⟩
  · exact (silent_quiet rfl).sets.congr (by simp [hclosed])
  · exact (leaveDlg_sets o w).congr (by simp [hdlg])
  · have hquiet : Quiet (w.leaveDlg o) v :=
      (submitRename_nicks hx).nick_quiet.trans (updatePlayerList_nicks hv).nick_quiet
    have hdelay := ((submitRename_selects hx).trans (updatePlayerList_selects hv)).autoScanDelay_eq
    exact ((leaveDlg_sets o w).trans_quiet hquiet hdelay).congr (by simp [hdlg])

theorem endScan_sets (o : Outcomes) (w : Window) :
    w.Sets (w.endScan o) (w.quitting = false ∧ w.autoScan = true) := by
  rcases endScan_cases o w with ⟨hq, he⟩ | ⟨hq, ha, he⟩ | ⟨hq, ha, he⟩ <;> rw [he]
  · exact (silent_quiet rfl).sets.congr (by simp [hq])
  · have hset := setTimer_sets o { w with hScan := false, thread := none }
    exact Sets.congr hset (by simp [hq, ha])
  · exact (silent_quiet rfl).sets.congr (by simp [ha])

theorem clickAutoScan_sets (o : Outcomes) (w : Window) : w.Sets (w.clickAutoScan o) (w.autoScan = false) := by
  rw [clickAutoScan]
  dsimp only
  split_ifs with hon hid
  · have hset := setTimer_sets o { w with autoScan := !w.autoScan }
    exact Sets.congr hset (by simpa using hon)
  · exact (killTimer_quiet w).sets.congr (by simpa using hon)
  · exact (silent_quiet rfl).sets.congr (by simpa using hon)

theorem clickAutoScanTimeApply_sets (o : Outcomes) (input : List TChar) (w : Window) :
    w.Sets (w.clickAutoScanTimeApply o input) (w.autoScan = true) := by
  rw [clickAutoScanTimeApply]
  dsimp only
  split_ifs with hon
  · have hset := (killTimer_quiet { w with autoScanDelay := scanDelay input }).trans_sets (setTimer_sets o _)
    exact Sets.congr hset (by simp [hon])
  · exact (silent_quiet rfl).sets.congr (by simp [hon])

theorem scan_sets {decode : Decoder} (h : w.scan decode o = some v) : w.Sets v (w.CallsSetTimer .scan) := by
  rcases scan_cases h with ⟨_, _, ht, rfl⟩ | ⟨s, k, todo, r, ht, htodo, -, rfl⟩ |
    ⟨s, _, _, x, ht, htodo, -, -, rfl⟩
  · exact (silent_quiet rfl).sets.congr (by simp [CallsSetTimer, ht])
  · exact (silent_quiet rfl).sets.congr (by simp [CallsSetTimer, ht, htodo])
  · have hend := endScan_sets o { w with controls := x }
    exact Sets.congr hend (by simp [CallsSetTimer, ht, htodo])

/-- What one step passes to `SetTimer`. -/
theorem step_sets {decode : Decoder} {a : Action × Outcomes} (h : w.step decode a = some v) :
    w.Sets v (w.CallsSetTimer a.1) := by
  obtain ⟨a, o⟩ := a
  rw [step] at h
  split_ifs at h
  cases a with
  | scan => exact scan_sets h
  | ui m =>
    cases m with
    | refresh =>
      obtain rfl := Option.some.inj h
      exact (refresh_emits o w).scan_quiet.sets
    | timer =>
      simp only [handle] at h
      split_ifs at h
      obtain rfl := Option.some.inj h
      exact (timer_emits o w).scan_quiet.sets
    | close =>
      obtain rfl := Option.some.inj h
      rcases close_cases w with he | he <;> rw [he] <;> exact (silent_quiet rfl).sets
    | renameDlg => exact (handle_nicks (m := .renameDlg) trivial id h).nick_quiet.sets
    | renOk input => exact closeRenameDlg_sets (w := { w with submit := true }) h
    | renDelete => exact closeRenameDlg_sets (w := { w with submit := true }) h
    | renClose input => exact closeRenameDlg_sets h
    | selectGame i => exact (handle_nicks (m := .selectGame i) trivial id h).nick_quiet.sets
    | selectPlayer item => exact (handle_nicks (m := .selectPlayer item) trivial id h).nick_quiet.sets
    | clickLocalNames => exact (handle_nicks (m := .clickLocalNames) trivial id h).nick_quiet.sets
    | clickAutoCreateNicks => exact (handle_nicks (m := .clickAutoCreateNicks) trivial id h).nick_quiet.sets
    | clickAutoScan =>
      obtain rfl := Option.some.inj h
      exact clickAutoScan_sets o w
    | clickAutoScanTimeApply input =>
      obtain rfl := Option.some.inj h
      exact clickAutoScanTimeApply_sets o input w

theorem refresh_autoScanDelay (o : Outcomes) (w : Window) : (w.refresh o).autoScanDelay = w.autoScanDelay := by
  rw [refresh]
  split_ifs
  · rfl
  · rfl
  · rfl
  · obtain ⟨log, he⟩ := beginScan_eq o w
    rw [he]

theorem scan_autoScanDelay {decode : Decoder} (h : w.scan decode o = some v) :
    v.autoScanDelay = w.autoScanDelay := by
  rcases scan_cases h with ⟨_, _, -, rfl⟩ | ⟨_, _, _, _, -, -, -, rfl⟩ | ⟨_, _, _, x, -, -, -, -, rfl⟩
  · rfl
  · rfl
  · rcases endScan_cases o { w with controls := x } with ⟨-, he⟩ | ⟨-, -, he⟩ | ⟨-, -, he⟩ <;> rw [he]
    rfl

theorem next_of_selects {m : Msg} (hm : m.Selects) (e : DelayEntry) : e.next (.ui m) = e := by
  cases m with
  | clickAutoScanTimeApply input => exact hm.elim
  | _ => rfl

/-- Nothing but what is applied in the preferences replaces the delay. -/
theorem step_autoScanDelay {decode : Decoder} {a : Action × Outcomes} {e : DelayEntry}
    (he : w.autoScanDelay = e.delay) (h : w.step decode a = some v) : v.autoScanDelay = (e.next a.1).delay := by
  obtain ⟨a, o⟩ := a
  rcases step_cases h with ⟨-, ⟨rfl, hscan⟩ | ⟨m, rfl, heffect⟩⟩
  · exact (scan_autoScanDelay hscan).trans he
  · cases heffect with
    | refresh => exact (refresh_autoScanDelay o w).trans he
    | tick => exact (refresh_autoScanDelay o w).trans he
    | postpone => exact he
    | close => rcases close_cases w with hc | hc <;> rw [hc] <;> exact he
    | openDlg p => exact he
    | leaveDlg hm _ hv =>
      rw [next_of_selects hm.selects]
      exact (hv.autoScanDelay_eq.trans (leaveDlg_autoScanDelay o w)).trans he
    | selects hm hv =>
      rw [next_of_selects hm]
      exact hv.autoScanDelay_eq.trans he
    | clickAutoScan =>
      obtain ⟨id, armed, log, hc⟩ := clickAutoScan_eq o w
      rw [hc]
      exact he
    | apply input =>
      obtain ⟨id, armed, log, hc⟩ := clickAutoScanTimeApply_eq o input w
      rw [hc]
      rfl

end Window

/-- Each call of `SetTimer` in the run finds an entry in range. -/
def EntriesInRange : DelayEntry → List (Move Window (Action × Outcomes)) → Prop
  | _, [] => True
  | e, m :: moves =>
    (m.source.CallsSetTimer m.action.1 → (e.next m.action.1).InRange) ∧ EntriesInRange (e.next m.action.1) moves

variable {decode : Decoder} {registry : Registry} {autoNickSave autoScan : Bool} {value : List Byte}
  {moves : List (Move Window (Action × Outcomes))} {v w : Window}

theorem intervalsTimed_iff {e : DelayEntry} (h : Run (Window.step decode) w moves v)
    (he : w.autoScanDelay = e.delay) :
    (∀ m ∈ moves, m.source.IntervalsTimed m.target) ↔ EntriesInRange e moves := by
  induction h generalizing e with
  | nil => simp [EntriesInRange]
  | cons hmove _ ih =>
    have hdelay := Window.step_autoScanDelay he hmove
    rw [List.forall_mem_cons, EntriesInRange, ih hdelay, (Window.step_sets hmove).intervalsTimed_iff, hdelay,
      DelayEntry.timed_iff]

/-- In a run, every interval is the delay in force in milliseconds, and not too short, if and only if
every call of `SetTimer` finds a delay that was loaded between the least and the largest delay, or typed
up to the largest. -/
theorem scanIntervals_iff
    (h : Run (Window.step decode) (.start registry autoNickSave autoScan (loadAutoScanDelay registry value))
      moves v) :
    (∀ m ∈ moves, m.source.IntervalsTimed m.target) ↔
      EntriesInRange (.loaded (loadAutoScanDelay registry value)) moves :=
  intervalsTimed_iff h rfl

theorem DelayEntry.InRange.next {e : DelayEntry} {a : Action} (he : e.InRange)
    (htyped : ∀ input, a = .ui (.clickAutoScanTimeApply input) → (typed input).InRange) : (e.next a).InRange := by
  cases a with
  | scan => exact he
  | ui m =>
    cases m with
    | clickAutoScanTimeApply input => exact htyped input rfl
    | _ => exact he

/-- It is enough that what is loaded and what is typed is in range. -/
theorem entriesInRange_of_inputs {e : DelayEntry} (he : e.InRange)
    (htyped : ∀ m ∈ moves, ∀ input, m.action.1 = .ui (.clickAutoScanTimeApply input) →
      (DelayEntry.typed input).InRange) :
    EntriesInRange e moves := by
  induction moves generalizing e with
  | nil => trivial
  | cons m moves ih =>
    rw [List.forall_mem_cons] at htyped
    have hnext := he.next htyped.1
    exact ⟨fun _ => hnext, ih hnext htyped.2⟩

/-- A start without auto-scan, with what is loaded into a variable that holds 0. -/
def startSaved (registry : Registry) : Window :=
  .start registry false false (loadAutoScanDelay registry (List.replicate 4 0))

/-- Auto-scan is switched on, and then another delay is typed. -/
def retimed (w : Window) (input : List TChar) : List (Move Window (Action × Outcomes)) :=
  let v := w.clickAutoScan idle
  [⟨w, (.ui .clickAutoScan, idle), v⟩,
    ⟨v, (.ui (.clickAutoScanTimeApply input), idle), v.clickAutoScanTimeApply idle input⟩]

theorem retimed_run (registry : Registry) (input : List TChar) : ∃ v,
    Run (Window.step fun _ _ => none) (startSaved registry) (retimed (startSaved registry) input) v ∧
      v.log = [.setTimer ((startSaved registry).autoScanDelay * 1000), .killTimer,
        .setTimer (scanDelay input * 1000)] :=
  ⟨_, .cons rfl (.cons rfl (.nil _)), rfl⟩

theorem retimed_inRange_iff (registry : Registry) (input : List TChar) (e : DelayEntry) :
    EntriesInRange e (retimed (startSaved registry) input) ↔ e.InRange ∧ (DelayEntry.typed input).InRange := by
  have hswitch : (startSaved registry).CallsSetTimer (.ui .clickAutoScan) := rfl
  have happly : ((startSaved registry).clickAutoScan idle).CallsSetTimer (.ui (.clickAutoScanTimeApply input)) :=
    rfl
  simp only [retimed, EntriesInRange, DelayEntry.next, hswitch, happly, forall_const, and_true]

theorem scanIntervals_iff_retimed : ∃ moves v,
    Run (Window.step fun _ _ => none)
      (.start emptyRegistry false false (loadAutoScanDelay emptyRegistry (List.replicate 4 0))) moves v ∧
    v.log = [.setTimer 60000, .killTimer, .setTimer 10000] ∧ ∀ m ∈ moves, m.source.IntervalsTimed m.target := by
  obtain ⟨v, hrun, hlog⟩ := retimed_run emptyRegistry (text "10")
  refine ⟨_, v, hrun, hlog, (scanIntervals_iff hrun).mpr ((retimed_inRange_iff _ _ _).mpr ⟨?_, ?_⟩)⟩
  · exact ⟨by decide, by decide⟩
  · exact (by decide : (ttoi (text "10")).toNat ≤ maxScanDelay)

def savedDelay (d : UInt32) : Registry := (saveSettingDWORD emptyRegistry (text "AUTO_SCAN_DELAY") d).2

/-- Any number can be what is loaded. -/
theorem loadAutoScanDelay_savedDelay (d : UInt32) :
    loadAutoScanDelay (savedDelay d) (List.replicate 4 0) = d := by
  rw [loadAutoScanDelay, savedDelay, loadSettingDWORD, saveSettingDWORD]
  exact Registry.loadSettingDWORD_saved rfl rfl rfl autoScanDelay rfl

/-- A delay of 0 that is loaded sets the timer to 0, and one of 4294968 that is typed sets it to 704. -/
theorem interval_short_or_wrapped :
    (∃ moves v, Run (Window.step fun _ _ => none)
        (.start (savedDelay 0) false false (loadAutoScanDelay (savedDelay 0) (List.replicate 4 0))) moves v ∧
      v.log = [.setTimer 0, .killTimer, .setTimer 10000] ∧ ¬ ∀ m ∈ moves, m.source.IntervalsTimed m.target) ∧
    ∃ moves v, Run (Window.step fun _ _ => none)
        (.start emptyRegistry false false (loadAutoScanDelay emptyRegistry (List.replicate 4 0))) moves v ∧
      v.log = [.setTimer 60000, .killTimer, .setTimer 704] ∧ ¬ ∀ m ∈ moves, m.source.IntervalsTimed m.target := by
  constructor
  · have hzero : (startSaved (savedDelay 0)).autoScanDelay = 0 := loadAutoScanDelay_savedDelay 0
    obtain ⟨v, hrun, hlog⟩ := retimed_run (savedDelay 0) (text "10")
    rw [hzero] at hlog
    refine ⟨_, v, hrun, hlog, fun htimed => ?_⟩
    obtain ⟨⟨hleast, -⟩, -⟩ :=
      (retimed_inRange_iff _ _ _).mp ((intervalsTimed_iff (e := .loaded 0) hrun hzero).mp htimed)
    exact absurd hleast (by decide)
  · obtain ⟨v, hrun, hlog⟩ := retimed_run emptyRegistry (text "4294968")
    refine ⟨_, v, hrun, hlog, fun htimed => ?_⟩
    obtain ⟨-, hmost⟩ := (retimed_inRange_iff _ _ _).mp
      ((intervalsTimed_iff (e := .loaded 60) hrun rfl).mp htimed)
    exact absurd (show (ttoi (text "4294968")).toNat ≤ maxScanDelay from hmost) (by decide)

end BzccScanner
