import BzccScanner.RenameDialog

/-! The players that a scan counts. At a server's last member those counted for
it are added to the total, unless a player is selected at that time. -/

namespace BzccScanner

open Runs

/-- The players of the servers that the members flush, up to the first one that is refused. -/
def countPlayers (decode : Decoder) : List Item → KeyValueInfo → WindowControls → Nat
  | [], _, _ => 0
  | k :: todo, e, w =>
    match processSessionInfo decode (k.kvi e) w with
    | .error _ => 0
    | .ok r =>
      if r.code = 0 then
        (if displayed w r.data = [] then 0 else r.data.scanCountPlayers) + countPlayers decode todo r.kvi r.data
      else 0

/-- The players counted for the server that the step flushes. -/
def flushed (m : Move Window (Action × Outcomes)) : Nat :=
  if displayed m.source.controls m.target.controls = [] then 0 else m.target.controls.scanCountPlayers

/-- Those of them that are left out of the total. -/
def lost (m : Move Window (Action × Outcomes)) : Nat := if m.source.selectedPlayer = none then 0 else flushed m

namespace Window

/-- The players counted so far for the server that the next call is to flush. -/
def flushing (w : Window) : Nat :=
  match w.thread with
  | some (.scanning ⟨k :: _, _, _⟩) =>
    if k.depth ≠ 5 ∧ k.status = .last ∧ (Int32.ofNat k.serverIndex).toInt < w.controls.scanCountServers then
      w.controls.scanCountPlayers else 0
  | _ => 0

/-- The next call is the last, with `KVI_STATUS_COMPLETE`. -/
def Completes (w : Window) : Prop := ∃ s m, w.thread = some (.scanning s) ∧ s.todo = [] ∧ s.ending = .ok (0, m)

/-- What the scan is still to count, if it is not cancelled. -/
def remaining (decode : Decoder) (w : Window) : Nat :=
  match w.thread with
  | none => 0
  | some (.created source garbage) =>
    countPlayers decode (Scanning.start source garbage).todo (Scanning.start source garbage).kvi
      w.controls.beginScan.prepare
  | some (.scanning s) => countPlayers decode s.todo s.kvi w.controls.beginScan

def Refused (w : Window) : Prop := ∃ s, w.thread = some (.scanning s) ∧ s.todo = [] ∧ s.ending = .ok (1, none)

/-- What the user does leaves the scan as it is, but for a cancellation. -/
structure Passes (w v : Window) : Prop where
  thread : v.thread = w.thread
  total : v.totalPlayerCount = w.totalPlayerCount
  controls : ∃ b, v.controls = { w.controls with iContinueScan := b }

end Window

/-- A scan that `u` begins, with what the user does during the scan, up to its last call. -/
structure CompleteScan (decode : Decoder) (u : Window) (o : Outcomes)
    (moves : List (Move Window (Action × Outcomes))) (v : Window) : Prop where
  idle : u.hScan = false
  undisturbed : u.inDlg = false
  created : o.createThread.isSome = true
  scanned : ∃ w e, Run (Window.step decode) (u.beginScan o) moves w ∧ (∀ m ∈ moves, m.target.hScan = true) ∧
    w.Completes ∧ w.step decode (.scan, e) = some v

namespace Window

variable {decode : Decoder} {o : Outcomes} {u v w : Window} {s t : Scanning} {k : Item} {todo : List Item}
  {x : WindowControls}

theorem Passes.refl (w : Window) : w.Passes w := ⟨rfl, rfl, _, rfl⟩

theorem Passes.trans (h : w.Passes v) (h' : v.Passes u) : w.Passes u := by
  obtain ⟨b, hb⟩ := h.controls
  obtain ⟨b', hb'⟩ := h'.controls
  exact ⟨h'.thread.trans h.thread, h'.total.trans h.total, b', by rw [hb', hb]⟩

theorem Selects.passes (h : w.Selects v) : w.Passes v := by
  obtain ⟨_, _, _, _, _, _, _, _, rfl⟩ := h
  exact ⟨rfl, rfl, _, rfl⟩

theorem refresh_passes (hs : w.hScan = true) : w.Passes (w.refresh o) := by
  rw [refresh, if_pos hs]
  split_ifs
  · exact .refl w
  · exact ⟨rfl, rfl, false, rfl⟩
  · exact .refl w

theorem leaveDlg_passes (o : Outcomes) (w : Window) : w.Passes (w.leaveDlg o) := by
  rcases leaveDlg_cases o w with ⟨-, -, he⟩ | he <;> rw [he] <;> exact ⟨rfl, rfl, _, rfl⟩

theorem handle_passes {m : Msg} (hs : w.hScan = true) (h : w.handle o m = some v) : w.Passes v := by
  cases handle_effect h with
  | refresh => exact refresh_passes hs
  | tick => exact refresh_passes hs
  | postpone => exact ⟨rfl, rfl, _, rfl⟩
  | close =>
    rcases close_cases w with he | he
    · rw [he]
      exact ⟨rfl, rfl, false, rfl⟩
    · rw [he]
      exact ⟨rfl, rfl, _, rfl⟩
  | openDlg p => exact ⟨rfl, rfl, _, rfl⟩
  | leaveDlg _ _ hv => exact (leaveDlg_passes o w).trans hv.passes
  | selects _ hv => exact hv.passes
  | clickAutoScan =>
    obtain ⟨i, armed, log, he⟩ := clickAutoScan_eq o w
    rw [he]
    exact ⟨rfl, rfl, _, rfl⟩
  | apply input =>
    obtain ⟨i, armed, log, he⟩ := clickAutoScanTimeApply_eq o input w
    rw [he]
    exact ⟨rfl, rfl, _, rfl⟩

theorem passes_displayed (h : w.Passes v) : displayed w.controls v.controls = [] := by
  obtain ⟨b, hb⟩ := h.controls
  rw [hb]
  exact displayed_eq_nil (List.append_nil _).symm (by simp)

theorem Passes.remaining (h : w.Passes v) : v.remaining decode = w.remaining decode := by
  obtain ⟨b, hb⟩ := h.controls
  rw [Window.remaining, Window.remaining, h.thread, hb]
  rfl

end Window

section members

variable {decode : Decoder} {k : KeyValueInfo} {w v : WindowControls} {r : Reply WindowControls}

theorem processPlayer_silent {j : Int} {hj : j < maxPlayers} (h : processPlayer decode k j hj w = .ok r) :
    r.data.notices = w.notices := by
  rw [processPlayer] at h
  split at h
  · obtain rfl := Except.ok.inj h
    rfl
  · rename_i g hg
    cases ho : w.openPlayer g j hj with
    | none =>
      rw [ho] at h
      obtain rfl := Except.ok.inj h
      rfl
    | some v =>
      rw [ho] at h
      obtain ⟨u, hu, h⟩ := bind_eq_ok.mp h
      have hv : v.notices = w.notices := by
        rw [WindowControls.openPlayer] at ho
        split_ifs at ho <;> obtain rfl := Option.some.inj ho <;> rfl
      have huv : u.notices = w.notices := by
        rw [writePlayer] at hu
        split at hu
        · obtain rfl := Except.ok.inj hu
          exact hv
        · split at hu
          · cases hu
          · obtain rfl := Except.ok.inj hu
            exact hv
      split_ifs at h <;> obtain rfl := Except.ok.inj h <;> exact huv

theorem writeServer_keeps (h : writeServer decode k w = .ok v) :
    v.notices = w.notices ∧ v.scanCountPlayers = w.scanCountPlayers := by
  rw [writeServer] at h
  split at h
  · obtain rfl := Except.ok.inj h
    exact ⟨rfl, rfl⟩
  · split at h
    · cases h
    · obtain rfl := Except.ok.inj h
      exact ⟨rfl, rfl⟩

/-- A server's last member shows one row, and no other member of it shows anything. -/
theorem processServer_shows (h : processServer decode k w = .ok r) :
    r.data.scanCountPlayers = w.scanCountPlayers ∧ (displayed w r.data = [] ↔ k.status ≠ .last) := by
  obtain ⟨u, hu, h⟩ := bind_eq_ok.mp h
  obtain ⟨hnotices, hplayers⟩ := writeServer_keeps hu
  split_ifs at h with hlast
  · obtain ⟨v, hv, h⟩ := bind_eq_ok.mp h
    obtain rfl := Except.ok.inj h
    cases hg : u.scanGame with
    | none => simp [flushServer, hg] at hv
    | some g =>
      have hplayers' : v.scanCountPlayers = u.scanCountPlayers := by
        rw [flushServer, hg] at hv
        obtain ⟨_, -, hv⟩ := bind_eq_ok.mp hv
        obtain ⟨_, -, hv⟩ := bind_eq_ok.mp hv
        obtain rfl := Except.ok.inj hv
        rfl
      obtain ⟨-, hgame, -, more, hmore, -⟩ := flushServer_content hg hv
      refine ⟨hplayers'.trans hplayers, iff_of_false ?_ (not_not.mpr hlast)⟩
      rw [displayed, hmore, hnotices, List.drop_left, List.filter_cons_of_pos rfl, hgame]
      simp
  · obtain rfl := Except.ok.inj h
    exact ⟨hplayers, iff_of_true (displayed_eq_nil (hnotices.trans (List.append_nil _).symm) (by simp)) hlast⟩

theorem openServer_keeps {i : Int} {hi : i < maxServers} (h : w.openServer i hi = some v) :
    v.notices = w.notices ∧
    v.scanCountPlayers = if i < w.scanCountServers then w.scanCountPlayers else 0 := by
  rw [WindowControls.openServer] at h
  split_ifs at h with hge
  · obtain rfl := Option.some.inj h
    exact ⟨rfl, (if_neg (by omega)).symm⟩
  · obtain rfl := Option.some.inj h
    exact ⟨rfl, (if_pos (by omega)).symm⟩

/-- What an accepted member shows, and the players that its flush adds. -/
theorem processSessionInfo_shows (hk : ¬ (k.status = .complete ∨ k.status = .error)) (hc : w.iContinueScan = true)
    (hr : processSessionInfo decode k w = .ok r) (h0 : r.code = 0) :
    (displayed w r.data = [] ↔ ¬ (k.isPlayer = false ∧ k.status = .last)) ∧ (k.isPlayer = false →
      r.data.scanCountPlayers = if k.serverIndex.toInt < w.scanCountServers then w.scanCountPlayers else 0) := by
  rcases processSessionInfo_cases hk hc hr with ⟨hcode, -⟩ | ⟨hi, hj, v, hopen, hm⟩
  · exact absurd (hcode.symm.trans h0) (by decide)
  · obtain ⟨hnotices, hplayers⟩ := openServer_keeps hopen
    by_cases hp : k.isPlayer = true
    · rw [if_pos hp] at hm
      have hsame := (processPlayer_silent hm).trans hnotices
      exact ⟨iff_of_true (displayed_eq_nil (hsame.trans (List.append_nil _).symm) (by simp)) (by simp [hp]),
        by simp [hp]⟩
    · rw [if_neg hp] at hm
      obtain ⟨hkept, hrow⟩ := processServer_shows hm
      refine ⟨?_, fun _ => hkept.trans hplayers⟩
      rw [displayed, ← hnotices, ← displayed, hrow]
      simp [hp]

end members

namespace Window

variable {decode : Decoder} {o : Outcomes} {u v w : Window} {a : Action}

/-- What a step is to the count of a scan that is not refused anything. -/
structure Counted (decode : Decoder) (m : Move Window (Action × Outcomes)) : Prop where
  remaining : m.source.remaining decode = flushed m + m.target.remaining decode
  total : m.target.totalPlayerCount + lost m = m.source.totalPlayerCount + flushed m
  flushing : flushed m = if m.action.1 = .scan then m.source.flushing else 0

theorem Passes.counted (h : w.Passes v) (ha : a ≠ .scan) : Counted decode ⟨w, (a, o), v⟩ := by
  have hflushed : flushed ⟨w, (a, o), v⟩ = 0 := if_pos (passes_displayed h)
  have hlost : lost ⟨w, (a, o), v⟩ = 0 := by
    rw [lost, hflushed, ite_self]
  refine ⟨?_, ?_, ?_⟩
  · rw [hflushed, h.remaining, Nat.zero_add]
  · rw [hlost, hflushed]
    exact h.total
  · rw [hflushed, if_neg ha]

theorem prepare_counted {source : Source} {garbage : KeyValueInfo}
    (ht : w.thread = some (.created source garbage))
    (hv : v = { w with controls := w.controls.prepare, thread := some (.scanning (.start source garbage)) }) :
    Counted decode ⟨w, (.scan, o), v⟩ := by
  have hflushed : flushed ⟨w, (.scan, o), v⟩ = 0 := by
    rw [hv]
    exact if_pos (displayed_eq_nil (List.append_nil _).symm (by simp))
  have hlost : lost ⟨w, (.scan, o), v⟩ = 0 := by
    rw [lost, hflushed, ite_self]
  refine ⟨?_, ?_, ?_⟩
  · rw [hflushed, Nat.zero_add, hv, Window.remaining, ht]
    rfl
  · rw [hlost, hflushed, hv]
  · rw [hflushed, if_pos rfl, Window.flushing, ht]

theorem report_counted {s : Scanning} {k : Item} {todo : List Item} {r : Scanning × WindowControls}
    (ht : w.thread = some (.scanning s)) (htodo : s.todo = k :: todo) (hk : k.status = .normal ∨ k.status = .last)
    (hr : s.report decode k todo w.controls = .ok r) :
    (w.reported r.1 r.2).Refused ∨ Counted decode ⟨w, (.scan, o), w.reported r.1 r.2⟩ := by
  have hnt : ¬ ((k.kvi s.kvi).status = .complete ∨ (k.kvi s.kvi).status = .error) := by
    rcases hk with hk | hk <;> simp [Item.kvi, hk]
  cases hp : processSessionInfo decode (k.kvi s.kvi) w.controls with
  | error f => simp [Scanning.report, hp, bind, Except.bind] at hr
  | ok q =>
    rw [Scanning.report_of_reply hp] at hr
    obtain rfl := Except.ok.inj hr
    by_cases h0 : q.code = 0
    swap
    · rw [if_neg h0]
      exact .inl ⟨_, rfl, rfl, rfl⟩
    have hc : w.controls.iContinueScan = true := by
      by_contra hc
      have hcf : w.controls.iContinueScan = false := by simpa using hc
      rw [processSessionInfo, if_neg hnt, if_pos hcf] at hp
      rw [← Except.ok.inj hp] at h0
      exact absurd (show (1 : Int) = 0 from h0) (by decide)
    have hbegun : w.controls.beginScan = w.controls := by rw [WindowControls.beginScan, ← hc]
    have hbegun' : q.data.beginScan = q.data := by
      have hcont := (processSessionInfo_continues hp).trans hc
      rw [WindowControls.beginScan, ← hcont]
    obtain ⟨hshown, hplayers⟩ := processSessionInfo_shows hnt hc hp h0
    have hplayer : (k.kvi s.kvi).isPlayer = false ↔ k.depth ≠ 5 := by simp [Item.kvi]
    have hlast : (k.kvi s.kvi).status = .last ↔ k.status = .last := Iff.rfl
    rw [hplayer, hlast] at hshown
    rw [if_pos h0]
    have hflushed : flushed ⟨w, (.scan, o), w.reported ⟨todo, s.ending, q.kvi⟩ q.data⟩ =
        if displayed w.controls q.data = [] then 0 else q.data.scanCountPlayers := rfl
    refine .inr ⟨?_, ?_, ?_⟩
    · rw [hflushed, Window.remaining, ht]
      dsimp only
      rw [htodo, countPlayers, hbegun, hp]
      dsimp only
      rw [if_pos h0]
      show _ = _ + countPlayers decode todo q.kvi q.data.beginScan
      rw [hbegun']
    · show (if displayed w.controls q.data ≠ [] ∧ w.selectedPlayer = none
        then w.totalPlayerCount + q.data.scanCountPlayers
        else w.totalPlayerCount) + (if w.selectedPlayer = none then 0 else _) = w.totalPlayerCount + flushed _
      rw [flushed]
      by_cases hnone : displayed w.controls q.data = []
      · simp [hnone, reported]
      · by_cases hsel : w.selectedPlayer = none <;> simp [hnone, hsel, reported]
    · rw [hflushed, if_pos rfl, flushing, ht]
      obtain ⟨todo', ending, kvi⟩ := s
      obtain rfl : todo' = k :: todo := htodo
      dsimp only
      by_cases hrow : k.depth ≠ 5 ∧ k.status = .last
      · rw [if_neg (by simp [hshown, hrow]), hplayers (hplayer.mpr hrow.1)]
        simp only [hrow, ne_eq, not_false_eq_true, true_and]
        rfl
      · rw [if_pos (hshown.mpr hrow), if_neg fun hlast => hrow ⟨hlast.1, hlast.2.1⟩]

/-- A thread is there while a scan is, and what it has left to report are members. -/
structure Tells (w : Window) : Prop where
  running : w.hScan = w.thread.isSome
  members : ∀ s, w.thread = some (.scanning s) → ∀ k ∈ s.todo, k.status = .normal ∨ k.status = .last

theorem start_tells (registry : Registry) (autoNickSave autoScan : Bool) (delay : UInt32) :
    (start registry autoNickSave autoScan delay).Tells :=
  ⟨rfl, by simp [start]⟩

theorem Tells.congr (h : w.Tells) (hs : v.hScan = w.hScan) (ht : v.thread = w.thread) : v.Tells := by
  refine ⟨by rw [hs, ht, h.running], ?_⟩
  rw [ht]
  exact h.members

theorem beginScan_tells (o : Outcomes) (w : Window) : (w.beginScan o).Tells := by
  obtain ⟨log, he⟩ := beginScan_eq o w
  rw [he]
  refine ⟨Option.isSome_map.symm, fun s hs => ?_⟩
  obtain ⟨c, -, hc⟩ := Option.map_eq_some_iff.mp hs
  cases hc

theorem Tells.refresh (h : w.Tells) (o : Outcomes) : (w.refresh o).Tells := by
  rw [Window.refresh]
  split_ifs
  · exact h
  · exact h.congr rfl rfl
  · exact h
  · exact beginScan_tells o w

theorem Tells.scan (h : w.Tells) (hv : w.scan decode o = some v) : v.Tells := by
  rcases scan_cases hv with ⟨source, garbage, ht, rfl⟩ | ⟨s, k, todo, r, ht, htodo, hr, rfl⟩ |
    ⟨s, code, m, x, ht, htodo, -, hx, rfl⟩
  · refine ⟨by rw [h.running, ht]; rfl, fun s hs => ?_⟩
    cases hs
    exact Scanning.start_status source garbage
  · refine ⟨by rw [reported, h.running, ht]; rfl, fun t hs => ?_⟩
    cases hs
    obtain ⟨reply, -, hr⟩ := bind_eq_ok.mp hr
    split_ifs at hr <;> obtain rfl := Except.ok.inj hr
    · simp
    · exact fun l hl => h.members s ht l (by simp [htodo, hl])
  · have hended : { w with controls := x, hScan := false, thread := none }.Tells := ⟨rfl, by simp⟩
    rcases endScan_cases o { w with controls := x } with ⟨-, he⟩ | ⟨-, -, he⟩ | ⟨-, -, he⟩ <;> rw [he] <;>
      exact hended.congr rfl rfl

theorem Tells.step {a : Action × Outcomes} (h : w.Tells) (hv : w.step decode a = some v) : v.Tells := by
  obtain ⟨a, o⟩ := a
  rcases step_cases hv with ⟨-, ⟨-, hscan⟩ | ⟨m, -, he⟩⟩
  · exact h.scan hscan
  · cases he with
    | refresh => exact h.refresh o
    | tick => exact h.refresh o
    | postpone => exact h.congr rfl rfl
    | close => rcases close_cases w with he | he <;> rw [he] <;> exact h.congr rfl rfl
    | openDlg p => exact h.congr rfl rfl
    | leaveDlg _ _ hv =>
      have hlists := hv.lists
      rcases leaveDlg_cases o w with ⟨-, -, he⟩ | he <;> rw [he] at hlists <;>
        exact h.congr hlists.hScan hlists.thread
    | selects _ hv => exact h.congr hv.lists.hScan hv.lists.thread
    | clickAutoScan =>
      obtain ⟨i, armed, log, he⟩ := clickAutoScan_eq o w
      rw [he]
      exact h.congr rfl rfl
    | apply input =>
      obtain ⟨i, armed, log, he⟩ := clickAutoScanTimeApply_eq o input w
      rw [he]
      exact h.congr rfl rfl

theorem step_counted {a : Action × Outcomes} (htells : w.Tells) (hs : w.hScan = true)
    (hv : w.step decode a = some v) (hgoing : v.hScan = true) : v.Refused ∨ Counted decode ⟨w, a, v⟩ := by
  obtain ⟨a, o⟩ := a
  rw [Window.step] at hv
  split_ifs at hv
  cases a with
  | ui m => exact .inr ((handle_passes hs hv).counted (by simp))
  | scan =>
    rcases scan_cases hv with ⟨source, garbage, ht, he⟩ | ⟨s, k, todo, r, ht, htodo, hr, rfl⟩ |
      ⟨-, -, -, x, -, -, -, -, rfl⟩
    · exact .inr (prepare_counted ht he)
    · exact report_counted ht htodo (htells.members s ht k (by simp [htodo])) hr
    · exact absurd ((endScan_keeps o _).2.2.2.2.symm.trans hgoing) (by simp)

/-- Behind a member that is refused nothing is left but the last call. -/
theorem Refused.step {a : Action × Outcomes} (h : w.Refused) (hs : w.hScan = true) (hv : w.step decode a = some v)
    (hgoing : v.hScan = true) : v.Refused := by
  obtain ⟨a, o⟩ := a
  obtain ⟨s, ht, htodo, hend⟩ := h
  rw [Window.step] at hv
  split_ifs at hv
  cases a with
  | ui m => exact ⟨s, (handle_passes hs hv).thread.trans ht, htodo, hend⟩
  | scan =>
    rcases scan_cases hv with ⟨_, _, ht', -⟩ | ⟨t, k, todo, r, ht', htodo', -, -⟩ | ⟨-, -, -, x, -, -, -, -, rfl⟩
    · exact absurd (ht.symm.trans ht') (by simp)
    · obtain rfl := ScanThread.scanning.inj (Option.some.inj (ht.symm.trans ht'))
      exact absurd (htodo.symm.trans htodo') (by simp)
    · exact absurd ((endScan_keeps o _).2.2.2.2.symm.trans hgoing) (by simp)

theorem Refused.run {moves : List (Move Window (Action × Outcomes))} (h : Run (Window.step decode) w moves v)
    (hw : w.Refused) (hs : w.hScan = true) (hgoing : ∀ m ∈ moves, m.target.hScan = true) : v.Refused := by
  induction h with
  | nil => exact hw
  | cons hmove _ ih =>
    obtain ⟨hfirst, hrest⟩ := List.forall_mem_cons.mp hgoing
    exact ih (hw.step hs hmove hfirst) hfirst hrest

theorem Refused.not_completes (h : w.Refused) : ¬ w.Completes := by
  obtain ⟨s, ht, -, hend⟩ := h
  rintro ⟨t, m, ht', -, hend'⟩
  obtain rfl := ScanThread.scanning.inj (Option.some.inj (ht.symm.trans ht'))
  simp [hend] at hend'

/-- Every step of a scan that completes is counted. -/
theorem run_counted {moves : List (Move Window (Action × Outcomes))} (h : Run (Window.step decode) w moves v)
    (hw : w.Tells) (hs : w.hScan = true) (hgoing : ∀ m ∈ moves, m.target.hScan = true) (hc : v.Completes) :
    ∀ m ∈ moves, Counted decode m := by
  induction h with
  | nil => simp
  | cons hmove hrun ih =>
    obtain ⟨hfirst, hrest⟩ := List.forall_mem_cons.mp hgoing
    rcases step_counted hw hs hmove hfirst with hrefused | hcounted
    · exact absurd hc (Refused.run hrun hrefused hfirst hrest).not_completes
    · exact List.forall_mem_cons.mpr ⟨hcounted, ih (hw.step hmove) hfirst hrest hc⟩

theorem Completes.total {e : Outcomes} (h : w.Completes) (hv : w.step decode (.scan, e) = some v) :
    v.totalPlayerCount = w.totalPlayerCount := by
  obtain ⟨s, m, ht, htodo, -⟩ := h
  rw [Window.step] at hv
  split_ifs at hv
  rcases scan_cases hv with ⟨_, _, ht', -⟩ | ⟨t, k, todo, r, ht', htodo', -, -⟩ | ⟨-, -, -, x, -, -, -, -, rfl⟩
  · exact absurd (ht.symm.trans ht') (by simp)
  · obtain rfl := ScanThread.scanning.inj (Option.some.inj (ht.symm.trans ht'))
    exact absurd (htodo.symm.trans htodo') (by simp)
  · exact (endScan_keeps e { w with controls := x }).2.2.2.1

theorem Completes.remaining (h : w.Completes) : w.remaining decode = 0 := by
  obtain ⟨s, m, ht, htodo, -⟩ := h
  rw [Window.remaining, ht]
  dsimp only
  rw [htodo, countPlayers]

theorem Counted.lost_eq_zero {m : Move Window (Action × Outcomes)} (h : Counted decode m) :
    lost m = 0 ↔ (m.action.1 = .scan → m.source.selectedPlayer.isSome = true → m.source.flushing = 0) := by
  rw [lost, h.flushing]
  cases m.source.selectedPlayer <;> simp

end Window

variable {decode : Decoder} {o : Outcomes} {moves : List (Move Window (Action × Outcomes))} {u v : Window}

theorem CompleteScan.counted (h : CompleteScan decode u o moves v) :
    (∀ m ∈ moves, Window.Counted decode m) ∧ v.totalPlayerCount + (moves.map lost).sum = (moves.map flushed).sum ∧
      (moves.map flushed).sum = (u.beginScan o).remaining decode := by
  obtain ⟨-, -, hcreated, w, e, hrun, hgoing, hend, hv⟩ := h
  have hcounted := Window.run_counted hrun (Window.beginScan_tells o u) hcreated hgoing hend
  have htotal := hrun.sum_eq (f := Window.totalPlayerCount) fun m hm => (hcounted m hm).total
  have hleft : ∀ m ∈ moves, m.target.remaining decode + flushed m = m.source.remaining decode + (fun _ => 0) m :=
    fun m hm => by
    rw [(hcounted m hm).remaining, Nat.add_comm, Nat.add_zero]
  have hremaining := hrun.sum_eq hleft
  refine ⟨hcounted, ?_, ?_⟩
  · rw [hend.total hv, htotal]
    exact Nat.zero_add _
  · simpa [hend.remaining] using hremaining

/-- `{"G":[{"p":[{"i":"S1","t":1}],"k":1},{"p":[{"i":"S1","t":1}],"k":1}]}` -/
def twoTeams : Source × KeyValueInfo :=
  (.file (.ok [.data ([0x7b, 0x22, 0x47, 0x22, 0x3a, 0x5b, 0x7b, 0x22, 0x70, 0x22, 0x3a, 0x5b, 0x7b] ++
    steamPlayer ++ [0x7d, 0x5d, 0x2c, 0x22, 0x6b, 0x22, 0x3a, 0x31, 0x7d, 0x2c, 0x7b, 0x22, 0x70, 0x22,
    0x3a, 0x5b, 0x7b] ++ steamPlayer ++ [0x7d, 0x5d, 0x2c, 0x22, 0x6b, 0x22, 0x3a, 0x31, 0x7d, 0x5d, 0x7d])]),
    .zero)

def twoTeamsCreated : Outcomes := { idle with createThread := some twoTeams }

/-- The player of the first game is selected until `rest`. -/
def selecting (rest : List (Action × Outcomes)) : List (Action × Outcomes) :=
  List.replicate 4 (.scan, idle) ++ [(.ui (.selectGame firstGame), idle),
    (.ui (.selectPlayer (some 0)), idle)] ++ rest

/-- The player is deselected in front of the second flush. -/
def deselected : List (Action × Outcomes) :=
  selecting [(.scan, idle), (.scan, idle), (.ui (.selectPlayer none), idle), (.scan, idle)]

def Window.completing (w : Window) : Bool :=
  match w.thread with
  | some (.scanning ⟨[], .ok (0, _), _⟩) => true
  | _ => false

theorem Window.completes_of_completing {w : Window} (h : w.completing = true) : w.Completes := by
  rw [completing] at h
  split at h
  · rename_i m kvi ht
    exact ⟨_, m, ht, rfl, rfl⟩
  · cases h

theorem CompleteScan.of_exec {as : List (Action × Outcomes)} {r : List (Move Window (Action × Outcomes)) × Window}
    {e : Outcomes} (hidle : u.hScan = false ∧ u.inDlg = false ∧ o.createThread.isSome = true)
    (hr : exec (Window.step decode) (u.beginScan o) as = some r) (hgoing : ∀ m ∈ r.1, m.target.hScan = true)
    (hc : r.2.completing = true) (hv : r.2.step decode (.scan, e) = some v) : CompleteScan decode u o r.1 v :=
  ⟨hidle.1, hidle.2.1, hidle.2.2, r.2, e, exec_run hr, hgoing, Window.completes_of_completing hc, hv⟩

set_option maxRecDepth 100000 in
theorem deselected_runs :
    ∃ r ∈ exec (Window.step fun _ _ => none) ((Window.start emptyRegistry true false 60).beginScan
    twoTeamsCreated) deselected, (∀ m ∈ r.1, m.target.hScan = true) ∧ r.2.completing = true ∧
      (r.2.step (fun _ _ => none) (.scan, idle)).isSome = true ∧
      (∃ m ∈ r.1, m.action.1 = .scan ∧ m.source.selectedPlayer.isSome = true) ∧
      ∀ m ∈ r.1, m.action.1 = .scan → m.source.selectedPlayer.isSome = true → m.source.flushing = 0 := by
  decide +kernel

set_option maxRecDepth 100000 in
theorem selected_runs :
    ∃ r ∈ exec (Window.step fun _ _ => none) ((Window.start emptyRegistry true false 60).beginScan
    twoTeamsCreated) (selecting (List.replicate 3 (.scan, idle))), (∀ m ∈ r.1, m.target.hScan = true) ∧
      r.2.completing = true ∧ ∃ v ∈ r.2.step (fun _ _ => none) (.scan, idle),
        v.totalPlayerCount = 1 ∧ (r.1.map flushed).sum = 2 := by
  decide +kernel

end BzccScanner
