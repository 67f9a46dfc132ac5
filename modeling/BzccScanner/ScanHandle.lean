import BzccScanner.PlayerTotal
import BzccScanner.ScanThreads

/-! `BeginScan` stores the scan's handle when the scan thread is already
running. The thread waits for the window's messages where it shows a row or an
error, so it comes to its test of the handle in front of the store only if it
shows neither. -/

namespace BzccScanner

open Runs

def Item.Flushes (k : Item) : Prop := k.depth ≠ 5 ∧ k.status = .last

instance (k : Item) : Decidable k.Flushes := inferInstanceAs (Decidable (_ ≠ _ ∧ _ = _))

/-- The scan does not read its input to the end, is refused a member, or flushes a server. -/
def Source.Shows (source : Source) : Prop :=
  (∀ m, (Scanning.start source .zero).ending ≠ .ok (0, m)) ∨ ¬ Complete (Scanning.start source .zero).todo ∨
    ∃ k ∈ (Scanning.start source .zero).todo, k.Flushes

/-- No index of a member that the scan reaches, if it is not cancelled, has wrapped past the tests
of the range. -/
def Source.Indexed (source : Source) : Prop :=
  ∀ k ∈ Counters.reached (fun _ => false) 0 ⟨0, 0⟩ (Scanning.start source .zero).todo, k.Indexed

instance : DecidablePred Source.Indexed := fun source =>
  inferInstanceAs (Decidable (∀ k ∈ Counters.reached (fun _ => false) 0 ⟨0, 0⟩ (Scanning.start source .zero).todo,
    k.Indexed))

theorem Counters.reached_append {n : Nat} {c d : Counters} {done : List Item}
    (h : done.foldlM Counters.step c = some d) (rest : List Item) :
    reached (fun _ => false) n c (done ++ rest) = done ++ reached (fun _ => false) (n + done.length) d rest := by
  induction done generalizing n c with
  | nil =>
    obtain rfl := Option.some.inj h
    rfl
  | cons k done ih =>
    rw [List.foldlM_cons] at h
    obtain ⟨e, he, h⟩ := Option.bind_eq_some_iff.mp h
    rw [List.cons_append, reached_cons_accept rfl he, ih h, List.length_cons, Nat.add_right_comm, Nat.add_assoc,
      List.cons_append]

namespace Scanning

variable {decode : Decoder} {source : Source} {garbage : KeyValueInfo} {done todo : List Item} {s t : Scanning}
  {w v : WindowControls} {k : Item} {code : Int} {m : Option Message}

/-- The scan comes to `EndScan` by calls that show nothing. -/
inductive Quiet (decode : Decoder) : Scanning → WindowControls → Prop
  | last {s : Scanning} {w v : WindowControls} {code : Int} {m : Option Message} (htodo : s.todo = [])
      (hend : s.ending = .ok (code, m)) (hv : s.terminal decode code m w = .ok v)
      (hquiet : code = 0 ∨ w.iContinueScan = false) : Quiet decode s w
  | call {s t : Scanning} {w v : WindowControls} {k : Item} {todo : List Item} (htodo : s.todo = k :: todo)
      (hr : s.report decode k todo w = .ok (t, v)) (hshown : displayed w v = []) (h : Quiet decode t v) :
      Quiet decode s w

theorem Quiet.of_nil (h : s.Quiet decode w) (htodo : s.todo = []) :
    ∃ code m, s.ending = .ok (code, m) ∧ (code = 0 ∨ w.iContinueScan = false) := by
  cases h with
  | last _ hend _ hquiet => exact ⟨_, _, hend, hquiet⟩
  | call htodo' => exact absurd (htodo.symm.trans htodo') (by simp)

theorem start_garbage (source : Source) (garbage : KeyValueInfo) :
    (start source garbage).todo = (start source .zero).todo ∧
    (start source garbage).ending = (start source .zero).ending := by
  rw [start, start]
  cases source.opened <;> exact ⟨rfl, rfl⟩

theorem start_ordered (source : Source) : (start source .zero).todo.Pairwise Item.Precedes := by
  have h : (start source .zero).Stands (fun _ _ => none) [] [] _ :=
    start_stands source .zero WindowControls.zero_sound (b := true)
  simpa using h.ordered

/-- The members `done` are accepted, and no row is shown for them. -/
structure Unseen (decode : Decoder) (source : Source) (done : List Item) (s : Scanning)
    (w : WindowControls) : Prop where
  split : done ++ s.todo = (start source .zero).todo
  ending : s.ending = (start source .zero).ending
  standing : ∃ x, Standing decode x done w
  counted : done.foldlM Counters.step ⟨0, 0⟩ = some w.counters
  rowless : ∀ k ∈ done, ¬ k.Flushes

theorem start_unseen (hw : w.Sound) : (start source garbage).Unseen decode source [] w.beginScan.prepare := by
  obtain ⟨htodo, hend⟩ := start_garbage source garbage
  exact ⟨htodo, hend, ⟨w.beginScan.prepare, .initial decode hw⟩, rfl, by simp⟩

/-- The next call is refused, or accepted, and it shows a row, or crashes, only for a server's last member. -/
theorem Unseen.report (hi : source.Indexed) (h : s.Unseen decode source done w) (htodo : s.todo = k :: todo) :
    (∃ t v, s.report decode k todo w = .ok (t, v) ∧
      ((w.counters.step k = none ∧ t.todo = [] ∧ t.ending = .ok (1, none) ∧ v.iContinueScan = true) ∨
        (∃ c, w.counters.step k = some c) ∧ t.todo = todo ∧ (displayed w v = [] ↔ ¬ k.Flushes) ∧
          (¬ k.Flushes → t.Unseen decode source (done ++ [k]) v))) ∨
    (k.Flushes ∧ s.report decode k todo w = .error .gameType) := by
  obtain ⟨x, hx⟩ := h.standing
  have hsplit := h.split
  rw [htodo] at hsplit
  have ho := getLast?_precedes (start_ordered source) hsplit.symm
  have hst := start_status source .zero k (by rw [← hsplit]; simp)
  have hindexed : k.Indexed := by
    refine hi k ?_
    rw [← hsplit, Counters.reached_append h.counted]
    exact List.mem_append_right _ (Counters.mem_reached_cons rfl todo)
  have hw : cancelled (fun _ => false) ⟨.ok w, done.length⟩ w = w := if_neg (by simp)
  rcases hx.step s.kvi (fun _ => false) ho hst (fun _ => hindexed) with ⟨r, hp, hstep⟩ | ⟨hp, hcrash⟩
  swap
  · rw [hw] at hp
    exact .inr ⟨⟨hcrash.server, hcrash.last⟩, by simp [Scanning.report, hp, bind, Except.bind]⟩
  rw [hw] at hp
  refine .inl ?_
  by_cases h0 : r.code = 0
  · obtain ⟨-, hcount, hstanding⟩ := hstep.accept h0
    refine ⟨⟨todo, s.ending, r.kvi⟩, r.data, ?_, .inr ⟨⟨_, hcount⟩, rfl, ?_, fun hrow => ?_⟩⟩
    · rw [report_of_reply hp, if_pos h0]
    · exact hstep.shows.displayed_eq_nil_iff h0
    · refine ⟨by simpa using hsplit, h.ending, ⟨x, hstanding⟩, ?_, ?_⟩
      · rw [List.foldlM_append, h.counted]
        simp [hcount]
      · intro l hl
        rcases List.mem_append.mp hl with hl | hl
        · exact h.rowless l hl
        · rwa [List.mem_singleton.mp hl]
  · obtain ⟨-, hcount⟩ := hstep.refuse h0
    refine ⟨⟨[], .ok (1, none), r.kvi⟩, r.data, ?_, .inl ⟨?_, rfl, rfl, ?_⟩⟩
    · rw [report_of_reply hp, if_neg h0]
    · rw [Counters.accepted, if_neg (by simp)] at hcount
      cases hk : w.counters.step k with
      | none => rfl
      | some d => simp [hk] at hcount
    · exact (processSessionInfo_continues hp).trans hx.continues

/-- A scan whose calls show nothing has nothing to show. -/
theorem Unseen.hidden (hi : source.Indexed) (h : s.Unseen decode source done w) (hq : s.Quiet decode w) :
    ¬ source.Shows := by
  induction hq generalizing done with
  | @last s w v code m htodo hend hv hquiet =>
    obtain ⟨x, hx⟩ := h.standing
    have hzero : code = 0 := hquiet.resolve_right (by simp [hx.continues])
    have hdone : done = (start source .zero).todo := by simpa [htodo] using h.split
    rintro (hfail | hskip | ⟨k, hk, hrow⟩)
    · exact hfail m (by rw [← h.ending, hend, hzero])
    · rcases Counters.run_cases (start_ordered source) with ⟨hcomplete, -⟩ | ⟨-, hrun⟩
      · exact hskip hcomplete
      · rw [← hdone, h.counted] at hrun
        cases hrun
    · exact h.rowless k (hdone ▸ hk) hrow
  | @call s t w v k todo htodo hr hshown hq ih =>
    rcases h.report hi htodo with ⟨t', v', hr', hcases⟩ | ⟨-, hr'⟩
    · obtain ⟨rfl, rfl⟩ := Prod.mk.inj (Except.ok.inj (hr.symm.trans hr'))
      rcases hcases with ⟨-, hnil, hend, hcont⟩ | ⟨-, -, hrow, hunseen⟩
      · obtain ⟨code, m, he, hquiet⟩ := hq.of_nil hnil
        obtain ⟨rfl, -⟩ := Prod.mk.inj (Except.ok.inj (hend.symm.trans he))
        simp [hcont] at hquiet
      · exact ih (hunseen (hrow.mp hshown))
    · cases hr.symm.trans hr'

/-- A scan that has nothing to show is quiet. -/
theorem Unseen.quiet (hi : source.Indexed) (hs : ¬ source.Shows) (h : s.Unseen decode source done w) :
    s.Quiet decode w := by
  obtain ⟨⟨m, hm⟩, hcomplete, hrowless⟩ : (∃ m, (start source .zero).ending = .ok (0, m)) ∧
      Complete (start source .zero).todo ∧ ∀ k ∈ (start source .zero).todo, ¬ k.Flushes := by
    simpa [Source.Shows] using hs
  generalize htodo : s.todo = todo
  induction todo generalizing s w done with
  | nil =>
    obtain ⟨x, hx⟩ := h.standing
    obtain ⟨shown, hv⟩ := terminal_ok (s := s) hx.sound 0 m
    exact .last htodo (h.ending.trans hm) hv (.inl rfl)
  | cons k todo ih =>
    have hrow : ¬ k.Flushes := hrowless k (by rw [← h.split, htodo]; simp)
    obtain ⟨t, x, hr, hcases⟩ := (h.report hi htodo).resolve_right fun hcrash => hrow hcrash.1
    rcases hcases with ⟨hnone, -⟩ | ⟨-, htodo', hshown, hunseen⟩
    · rcases Counters.run_cases (start_ordered source) with ⟨-, c, hc, -⟩ | ⟨hskip, -⟩
      · rw [← h.split, htodo, List.foldlM_append, h.counted] at hc
        simp [hnone] at hc
      · exact absurd hcomplete hskip
    · exact .call htodo hr (hshown.mpr hrow) (ih (hunseen hrow) htodo')

theorem quiet_iff (hw : w.Sound) (hi : source.Indexed) (decode : Decoder) (garbage : KeyValueInfo) :
    (start source garbage).Quiet decode w.beginScan.prepare ↔ ¬ source.Shows :=
  ⟨(start_unseen hw).hidden hi, fun hs => (start_unseen hw).quiet hi hs⟩

end Scanning

/-- What is left for the scan thread to do shows nothing. -/
def Window.EndsUnseen (decode : Decoder) (w : Window) : Prop :=
  match w.thread with
  | none => False
  | some (.created source garbage) => (Scanning.start source garbage).Quiet decode w.controls.prepare
  | some (.scanning s) => s.Quiet decode w.controls

namespace Window

variable {decode : Decoder} {o : Outcomes} {v w : Window}

theorem EndsUnseen.congr (h : v.EndsUnseen decode) (ht : v.thread = w.thread) (hc : v.controls = w.controls) :
    w.EndsUnseen decode := by
  rw [EndsUnseen, ht, hc] at h
  exact h

theorem EndsUnseen.call (hv : w.scan decode o = some v) (hshown : displayed w.controls v.controls = [])
    (hnext : ∀ s, w.thread = some (.scanning s) → s.todo ≠ []) (h : v.EndsUnseen decode) :
    w.EndsUnseen decode := by
  rcases scan_cases hv with ⟨source, garbage, ht, rfl⟩ | ⟨s, k, todo, r, ht, htodo, hr, rfl⟩ |
    ⟨s, -, -, -, ht, htodo, -⟩
  · rw [EndsUnseen, ht]
    exact h
  · rw [EndsUnseen, ht]
    exact .call htodo hr hshown h
  · exact absurd htodo (hnext s ht)

theorem scan_keeps (h : w.scan decode o = some v) (hnext : ∀ s, w.thread = some (.scanning s) → s.todo ≠ []) :
    v.hScan = w.hScan ∧ v.inDlg = w.inDlg := by
  rcases scan_cases h with ⟨-, -, -, rfl⟩ | ⟨-, -, -, -, -, -, -, rfl⟩ | ⟨s, -, -, -, ht, htodo, -⟩
  · exact ⟨rfl, rfl⟩
  · exact ⟨rfl, rfl⟩
  · exact absurd htodo (hnext s ht)

end Window

namespace Threads

variable {decode : Decoder} {o : Outcomes} {a : Turn × Outcomes} {x y : Threads} {v w : Window}

/-- However the threads' steps come, the scan that is beginning leaves no handle, and the next
refresh begins a scan. -/
def Frees (decode : Decoder) (x : Threads) : Prop :=
  ∀ moves y, Run (step decode) x moves y → (∀ m ∈ moves, ∀ msg, m.action.1 ≠ .ui msg) → y.phase = .returned →
    y.stage = .ended → y.window.hScan = false ∧ ∀ o, y.refresh o = y.beginScan

/-- The order of the threads' steps that a scan keeps which waits for the window. -/
structure Orderly (decode : Decoder) (x : Threads) : Prop where
  phase : x.phase = .created true ∨ x.phase = .stored ∨ x.phase = .returned
  early : x.phase ≠ .returned → x.stage = .scanning ∧ ¬ x.window.EndsUnseen decode
  held : x.phase ≠ .created true → x.stage ≠ .ended → x.window.hScan = true
  freed : x.stage = .ended → x.window.hScan = false
  undisturbed : x.window.inDlg = false

theorem Orderly.beginStep (h : x.Orderly decode) (hy : x.beginStep o = some y) : y.Orderly decode := by
  rcases h.phase with hp | hp | hp
  · rw [Threads.beginStep, hp] at hy
    obtain rfl := Option.some.inj hy
    obtain ⟨hstage, hloud⟩ := h.early (by simp [hp])
    refine ⟨.inr (.inl rfl), fun _ => ⟨hstage, fun hq => hloud (hq.congr rfl rfl)⟩, fun _ _ => rfl, fun hs => ?_,
      h.undisturbed⟩
    exact absurd (hstage.symm.trans hs) (by simp)
  · rw [Threads.beginStep, hp] at hy
    obtain rfl := Option.some.inj hy
    exact ⟨.inr (.inr rfl), fun hn => absurd rfl hn, fun _ => h.held (by simp [hp]), h.freed, h.undisturbed⟩
  · rw [Threads.beginStep, hp] at hy
    cases hy

theorem Orderly.scanStep (h : x.Orderly decode) (hy : x.scanStep decode o = some y) : y.Orderly decode := by
  rcases scanStep_cases hy with ⟨hstage, v, hv, rfl, hshown, hnext⟩ |
    ⟨hstage, s, code, m, v, ht, htodo, hend, hv, hquiet, rfl⟩ | ⟨hstage, rfl⟩
  · obtain ⟨hsame, hdlg⟩ := Window.scan_keeps hv hnext
    have hrunning : x.stage ≠ .ended := by simp [hstage]
    refine ⟨h.phase, fun hp => ⟨hstage, fun hq => ?_⟩, fun hp _ => hsame.trans (h.held hp hrunning),
      fun hs => absurd hs hrunning, hdlg.trans h.undisturbed⟩
    exact (h.early hp).2 (hq.call hv (hshown.resolve_right hp) hnext)
  · have hreturned : x.phase = .returned := by
      by_contra hp
      have hlast : x.window.EndsUnseen decode := by
        rw [Window.EndsUnseen, ht]
        exact .last htodo hend hv (hquiet.imp_right fun hq => hq.resolve_right hp)
      exact (h.early hp).2 hlast
    refine ⟨h.phase, fun hp => absurd hreturned hp, fun hp _ => h.held hp (by simp [hstage]), fun hs => ?_,
      h.undisturbed⟩
    simp at hs
  · have hreturned : x.phase = .returned := by
      by_contra hp
      simp [(h.early hp).1] at hstage
    exact ⟨h.phase, fun hp => absurd hreturned hp, fun _ hs => absurd rfl hs, fun _ => rfl, h.undisturbed⟩

theorem Orderly.endStep {i : Nat} (h : x.Orderly decode) (hy : x.endStep o i = some y) : y.Orderly decode := by
  obtain ⟨ends, (rfl | ⟨-, hquit, rfl⟩) | ⟨-, rfl⟩⟩ := endStep_cases hy
  · exact ⟨h.phase, h.early, h.held, h.freed, h.undisturbed⟩
  · rw [Window.close, if_neg (by simp [hquit])]
    exact ⟨h.phase, fun hp => ⟨(h.early hp).1, fun hq => (h.early hp).2 (hq.congr rfl rfl)⟩, h.held, h.freed,
      h.undisturbed⟩
  · exact ⟨h.phase, fun hp => ⟨(h.early hp).1, fun hq => (h.early hp).2 (hq.congr rfl rfl)⟩, h.held, h.freed,
      h.undisturbed⟩

theorem Orderly.step (h : x.Orderly decode) (ha : ∀ msg, a.1 ≠ .ui msg) (hy : x.step decode a = some y) :
    y.Orderly decode := by
  obtain ⟨-, ⟨m, hm, -⟩ | ⟨-, hy⟩ | ⟨-, hy⟩ | ⟨i, -, hy⟩ | ⟨-, -, rfl⟩⟩ := step_cases hy
  · exact absurd hm (ha m)
  · exact h.beginStep hy
  · exact h.scanStep hy
  · exact h.endStep hy
  · exact ⟨h.phase, h.early, h.held, h.freed, h.undisturbed⟩

/-- A scan that shows something frees its handle. -/
theorem Orderly.frees (h : x.Orderly decode) : x.Frees decode := by
  intro moves y hrun hparties _ hended
  have hy := (hrun.invariant (I := Orderly decode) (P := fun _ a => ∀ msg, a.1 ≠ .ui msg)
    (fun _ _ _ hx ha hs => hx.step ha hs) h hparties).1
  have hfree := hy.freed hended
  exact ⟨hfree, fun o => refresh_of_idle (by simp [hfree, hy.undisturbed])⟩

/-- A call that shows nothing comes at any time. -/
theorem scanStep_silent {ends : List EndStage} {queued : Bool} {phase : BeginPhase}
    (hscan : w.scan decode o = some v) (hnext : ∀ s, w.thread = some (.scanning s) → s.todo ≠ [])
    (hshown : displayed w.controls v.controls = []) :
    scanStep decode o ⟨w, phase, .scanning, ends, queued⟩ = some ⟨v, phase, .scanning, ends, queued⟩ := by
  rw [scanStep]
  dsimp only
  split
  · rename_i ending kvi ht
    exact absurd rfl (hnext _ ht)
  · rw [hscan]
    show (if waits _ _ then none else some _) = some _
    rw [if_neg (by simp [waits, hshown])]

/-- The thread comes to `EndScan` by its own steps. -/
def ComesToEnd (decode : Decoder) (x : Threads) : Prop :=
  ∃ moves v, Run (step decode) x moves { x with window := v, stage := .ending } ∧
    (∀ m ∈ moves, m.action.1 = .scan) ∧ v.closed = false

theorem ComesToEnd.cons (hs : x.step decode (.scan, o) = some { x with window := v })
    (h : { x with window := v }.ComesToEnd decode) : x.ComesToEnd decode := by
  obtain ⟨moves, u, hrun, hmoves, hopen⟩ := h
  exact ⟨_, u, .cons hs hrun, List.forall_mem_cons.mpr ⟨rfl, hmoves⟩, hopen⟩

theorem comesToEnd_of_scanning {s : Scanning} {c : WindowControls} {phase : BeginPhase} {ends : List EndStage}
    {queued : Bool} (h : s.Quiet decode c) (ht : w.thread = some (.scanning s)) (hc : w.controls = c)
    (hopen : w.closed = false) (o : Outcomes) : ComesToEnd decode ⟨w, phase, .scanning, ends, queued⟩ := by
  induction h generalizing w with
  | @last s c v code m htodo hend hv hquiet =>
    have hlast : scanStep decode o ⟨w, phase, .scanning, ends, queued⟩ =
        some ⟨{ w with controls := v }, phase, .ending, ends, queued⟩ := by
      obtain ⟨todo, ending, kvi⟩ := s
      obtain rfl : todo = [] := htodo
      obtain rfl : ending = .ok (code, m) := hend
      subst hc
      rw [scanStep]
      simp only [ht, waits, Except.toOption]
      rcases hquiet with rfl | h
      · simp [hv]
      · simp [h, hv]
    exact ⟨_, { w with controls := v }, .cons (a := (.scan, o)) ((step_scan hopen).trans hlast) (.nil _),
      by simp, hopen⟩
  | @call s t c v k todo htodo hr hshown _ ih =>
    subst hc
    have hscan : w.scan decode o = some (w.reported t v) := by
      rw [Window.scan, ht]
      simp only [htodo, hr]
      rfl
    refine .cons ((step_scan hopen).trans (scanStep_silent hscan (fun s' hs' => ?_) hshown)) (ih rfl rfl hopen)
    obtain rfl := ScanThread.scanning.inj (Option.some.inj (ht.symm.trans hs'))
    simp [htodo]

theorem comesToEnd_of_quiet {phase : BeginPhase} {ends : List EndStage} {queued : Bool} (h : w.EndsUnseen decode)
    (hopen : w.closed = false) (o : Outcomes) : ComesToEnd decode ⟨w, phase, .scanning, ends, queued⟩ := by
  rw [Window.EndsUnseen] at h
  split at h
  · exact h.elim
  · rename_i source garbage ht
    let v : Window := { w with
      controls := w.controls.prepare
      thread := some (.scanning (.start source garbage)) }
    have hscan : w.scan decode o = some v := by rw [Window.scan, ht]
    have hshown : displayed w.controls v.controls = [] := displayed_eq_nil (List.append_nil _).symm (by simp)
    refine .cons ((step_scan hopen).trans (scanStep_silent hscan (fun s hs => ?_) hshown))
      (comesToEnd_of_scanning (w := v) h rfl rfl hopen o)
    exact absurd (ht.symm.trans hs) (by simp)
  · rename_i s ht
    exact comesToEnd_of_scanning h ht rfl hopen o

/-- The handle of the ended scan is stored behind its test. -/
theorem quiet_holds (hp : x.phase = .created true) (hstage : x.stage = .scanning)
    (hopen : x.window.closed = false) (h : x.window.EndsUnseen decode) (o : Outcomes) : ¬ x.Frees decode := by
  obtain ⟨w, phase, stage, ends, queued⟩ := x
  obtain rfl : phase = .created true := hp
  obtain rfl : stage = .scanning := hstage
  have hend : ComesToEnd decode ⟨w, .created true, .scanning, ends, queued⟩ := comesToEnd_of_quiet h hopen o
  obtain ⟨moves, v, hrun, hmoves, hv⟩ := hend
  have hfree : step decode ⟨v, .created true, .ending, ends, queued⟩ (.scan, o) =
      some ⟨v.freeScan, .created true, .ended, ends ++ [.freed], queued⟩ := step_scan hv
  have hstore : step decode ⟨v.freeScan, .created true, .ended, ends ++ [.freed], queued⟩ (.beginScan, o) =
      some ⟨{ v.freeScan with hScan := true }, .stored, .ended, ends ++ [.freed], queued⟩ := step_beginScan hv
  have hreturn : step decode ⟨{ v.freeScan with hScan := true }, .stored, .ended, ends ++ [.freed], queued⟩
      (.beginScan, o) = some ⟨{ v.freeScan with hScan := true }, .returned, .ended, ends ++ [.freed], queued⟩ :=
    step_beginScan hv
  intro hfrees
  have hlate := (hfrees _ _ (hrun.append (.cons hfree (.cons hstore (.cons hreturn (.nil _)))))
    (fun m hm msg => ?_)
    rfl rfl).1
  · cases hlate
  · rcases List.mem_append.mp hm with hm | hm
    · simp [hmoves m hm]
    · simp only [List.mem_cons, List.not_mem_nil, or_false] at hm
      rcases hm with rfl | rfl | rfl <;> simp

/-- `BeginScan` is only under way while the rename dialog is closed. -/
def Undisturbed (x : Threads) : Prop := x.phase ≠ .returned → x.window.inDlg = false

theorem refresh_undisturbed (hp : x.phase = .returned) (o : Outcomes) : (x.refresh o).Undisturbed := by
  by_cases hb : x.window.inDlg = true ∨ x.window.hScan = true
  · rw [refresh_of_busy hb]
    exact fun hn => absurd hp hn
  · have hdlg : x.window.inDlg = false := by
      rw [not_or] at hb
      simpa using hb.1
    rw [refresh_of_idle hb, Threads.beginScan]
    split_ifs
    · exact fun _ => hdlg
    · exact fun _ => hdlg

theorem handle_undisturbed {m : Msg} (hp : x.phase = .returned) (hy : x.handle o m = some y) : y.Undisturbed := by
  rcases handle_cases hy with ⟨-, rfl⟩ | ⟨-, -, rfl⟩ | ⟨-, v, -, rfl⟩
  · exact refresh_undisturbed hp o
  · rw [Threads.timer]
    split_ifs
    · exact fun hn => absurd hp hn
    · exact refresh_undisturbed (x := { x with queued := false }) hp o
  · exact fun hn => absurd hp hn

theorem Undisturbed.beginStep (h : x.Undisturbed) (hy : x.beginStep o = some y) : y.Undisturbed := by
  rw [Threads.beginStep] at hy
  split at hy
  case h_4 =>
    obtain rfl := Option.some.inj hy
    exact fun hn => absurd rfl hn
  case h_5 => cases hy
  all_goals
    rename_i hp
    obtain rfl := Option.some.inj hy
    exact fun _ => h (by simp [hp])

theorem Undisturbed.step (h : x.Undisturbed) (hy : x.step decode a = some y) : y.Undisturbed := by
  obtain ⟨-, ⟨m, -, hp, hy⟩ | ⟨-, hy⟩ | ⟨-, hy⟩ | ⟨i, -, hy⟩ | ⟨-, -, rfl⟩⟩ := step_cases hy
  · exact handle_undisturbed hp hy
  · exact h.beginStep hy
  · rcases scanStep_cases hy with ⟨-, v, hv, rfl, -, hnext⟩ | ⟨-, s, code, m, v, -, -, -, -, -, rfl⟩ | ⟨-, rfl⟩
    · exact fun hp => (Window.scan_keeps hv hnext).2.trans (h hp)
    · exact h
    · exact h
  · obtain ⟨ends, (rfl | ⟨hp, -, rfl⟩) | ⟨-, rfl⟩⟩ := endStep_cases hy
    · exact h
    · exact fun hn => absurd hp hn
    · exact h
  · exact h

/-- The index of the member that the thread's step is about has not wrapped past the tests of the range. -/
def Indexed (x : Threads) (t : Turn) : Prop := t = .scan → x.window.Indexed .scan

instance (x : Threads) (t : Turn) : Decidable (x.Indexed t) :=
  inferInstanceAs (Decidable (t = .scan → x.window.Indexed .scan))

theorem refresh_shows (h : x.window.Shows decode) (o : Outcomes) : (x.refresh o).window.Shows decode := by
  by_cases hb : x.window.inDlg = true ∨ x.window.hScan = true
  · rw [refresh_of_busy hb]
    exact h.refresh o
  · rw [refresh_of_idle hb, Threads.beginScan]
    split_ifs
    · exact h.congr rfl rfl rfl id rfl rfl rfl
    · exact h

theorem handle_shows {m : Msg} (h : x.window.Shows decode) (hopen : x.window.closed = false)
    (hy : x.handle o m = some y) : y.window.Shows decode := by
  rcases handle_cases hy with ⟨-, rfl⟩ | ⟨-, -, rfl⟩ | ⟨-, v, hv, rfl⟩
  · exact refresh_shows h o
  · rw [Threads.timer]
    split_ifs with hdlg
    · show (x.window.timer o).Shows decode
      rw [Window.timer, if_pos hdlg]
      exact h.congr rfl rfl rfl id rfl rfl rfl
    · exact refresh_shows (x := { x with queued := false }) h o
  · have hstep : x.window.step decode (.ui m, o) = some v := (if_neg (by simp [hopen])).trans hv
    exact h.step (fun ha => by cases ha) hstep

theorem beginStep_shows (h : x.window.Shows decode) (hx : x.Undisturbed) (hy : x.beginStep o = some y) :
    y.window.Shows decode := by
  rw [Threads.beginStep] at hy
  split at hy
  case h_2 hp =>
    obtain rfl := Option.some.inj hy
    obtain ⟨log, he⟩ := Window.beginScan_eq o x.window
    have hbegun := h.beginScan o (hx (by simp [hp]))
    rw [he] at hbegun
    exact hbegun.congr rfl rfl rfl id rfl rfl rfl
  case h_5 => cases hy
  all_goals
    obtain rfl := Option.some.inj hy
    exact h.congr rfl rfl rfl id rfl rfl rfl

theorem scanStep_shows (h : x.window.Shows decode) (hi : x.window.Indexed .scan)
    (hy : x.scanStep decode o = some y) :
    y.window.Shows decode := by
  rcases scanStep_cases hy with ⟨-, v, hv, rfl, -, -⟩ | ⟨-, s, code, m, v, ht, htodo, -, hv, -, rfl⟩ | ⟨-, rfl⟩
  · exact h.scan hi hv
  · refine ⟨(Scanning.terminal_sound h.sound hv).1, h.game, h.player, h.dialog, h.created, fun t hs => .inl ?_⟩
    obtain rfl := ScanThread.scanning.inj (Option.some.inj (ht.symm.trans hs))
    exact htodo
  · refine ⟨h.sound, h.game, h.player, h.dialog, ?_, ?_⟩
    · simp [Window.freeScan]
    · simp [Window.freeScan]

theorem step_shows (h : x.window.Shows decode) (hx : x.Undisturbed) (hi : x.Indexed a.1)
    (hy : x.step decode a = some y) : y.window.Shows decode := by
  obtain ⟨hopen, ⟨m, -, -, hy⟩ | ⟨-, hy⟩ | ⟨ha, hy⟩ | ⟨i, -, hy⟩ | ⟨-, -, rfl⟩⟩ := step_cases hy
  · exact handle_shows h hopen hy
  · exact beginStep_shows h hx hy
  · exact scanStep_shows h (hi ha) hy
  · obtain ⟨ends, (rfl | ⟨-, hquit, rfl⟩) | ⟨-, rfl⟩⟩ := endStep_cases hy
    · exact h
    · rw [Window.close, if_neg (by simp [hquit])]
      exact h.congr rfl rfl rfl id rfl rfl rfl
    · exact h.congr rfl rfl rfl id rfl rfl rfl
  · exact h

theorem created_frees_iff {source : Source} {garbage : KeyValueInfo} (hx : x.Undisturbed)
    (hp : x.phase = .beginning) (ho : o.createThread = some (source, garbage))
    (hy : x.step decode (.beginScan, o) = some y) :
    y.Frees decode ↔ ¬ (Scanning.start source garbage).Quiet decode x.window.controls.beginScan.prepare := by
  obtain ⟨hopen, ⟨_, hm, -⟩ | ⟨-, hy⟩ | ⟨ha, -⟩ | ⟨_, ha, -⟩ | ⟨ha, -⟩⟩ := step_cases hy
  · cases hm
  · rw [Threads.beginStep, hp] at hy
    obtain rfl := Option.some.inj hy
    have hhandle : o.createThread.isSome = true := by rw [ho]; rfl
    have hthread : (x.window.createScan o).thread = some (.created source garbage) := by
      rw [Window.createScan, ho]
      rfl
    have hquiet : (x.window.createScan o).EndsUnseen decode =
        (Scanning.start source garbage).Quiet decode x.window.controls.beginScan.prepare := by
      rw [Window.EndsUnseen, hthread]
      rfl
    rw [← hquiet]
    constructor
    · intro hfrees hq
      exact absurd hfrees (quiet_holds (congrArg BeginPhase.created hhandle) (if_pos hhandle) hopen hq o)
    · intro hloud
      refine Orderly.frees ⟨.inl (congrArg BeginPhase.created hhandle), fun _ => ⟨if_pos hhandle, hloud⟩,
        fun hn => ?_, fun hs => ?_, hx (by simp [hp])⟩
      · exact absurd (congrArg BeginPhase.created hhandle) hn
      · exact absurd ((if_pos hhandle).symm.trans hs) (by simp)
  · cases ha
  · cases ha
  · cases ha

end Threads

variable {decode : Decoder} {registry : Registry} {autoNickSave autoScan : Bool} {delay : UInt32} {o : Outcomes}
  {before : List (Move Threads (Turn × Outcomes))} {x y : Threads} {source : Source} {garbage : KeyValueInfo}

/-- Every order of the steps leaves the scanner free exactly if the scan does not come quietly to
its end: a quiet scan may be over before its handle is stored. -/
theorem scan_frees_iff
    (hx : Run (Threads.step decode) (.start (.start registry autoNickSave autoScan delay)) before x)
    (hp : x.phase = .beginning) (ho : o.createThread = some (source, garbage))
    (hy : x.step decode (.beginScan, o) = some y) :
    (y.Frees decode ↔ ¬ (Scanning.start source garbage).Quiet decode x.window.controls.beginScan.prepare) ∧
      ((∀ m ∈ before, m.source.Indexed m.action.1) → source.Indexed → (y.Frees decode ↔ source.Shows)) := by
  have hidle := (hx.invariant (I := Threads.Undisturbed) (P := fun _ _ => True)
    (fun _ _ _ h _ hstep => h.step hstep) (fun _ => rfl) fun _ _ => trivial).1
  have hfrees := Threads.created_frees_iff hidle hp ho hy
  refine ⟨hfrees, fun hbefore hindexed => ?_⟩
  have hshows := (hx.invariant (I := fun x => x.window.Shows decode ∧ x.Undisturbed)
    (P := fun x a => x.Indexed a.1)
    (fun _ _ _ h hi hstep => ⟨Threads.step_shows h.1 h.2 hi hstep, h.2.step hstep⟩)
    ⟨Window.start_shows decode registry autoNickSave autoScan delay, fun _ => rfl⟩ hbefore).1.1
  rw [hfrees, Scanning.quiet_iff hshows.sound hindexed, not_not]

/-- The first refresh, in front of the thread's creation. -/
def refreshed : Threads := ⟨.start emptyRegistry true true 60, .beginning, .ended, [], false⟩

theorem refreshed_run (decode : Decoder) : Run (Threads.step decode) (.start (.start emptyRegistry true true 60))
    [⟨.start (.start emptyRegistry true true 60), (.ui .refresh, idle), refreshed⟩] refreshed :=
  .cons rfl (.nil _)

/-- A scan that flushes two servers. -/
theorem scan_frees_iff_twoTeams : ∃ y, refreshed.step (fun _ _ => none) (.beginScan, twoTeamsCreated) = some y ∧
    y.Frees fun _ _ => none := by
  have hthread : twoTeamsCreated.createThread = some (twoTeams.1, twoTeams.2) := rfl
  refine ⟨_, rfl, ((scan_frees_iff (refreshed_run _) rfl hthread rfl).2 ?_ ?_).mpr (.inr (.inr ?_))⟩
  · simp [Threads.Indexed]
  · decide +kernel
  · decide +kernel

def emptyFileCreated : Outcomes := { idle with createThread := some (.file (.ok []), .zero) }

/-- The thread comes behind its test of `hScan`, and then the handle is stored. -/
def storedLate : List (Turn × Outcomes) :=
  [(.ui .refresh, idle), (.beginScan, emptyFileCreated)] ++ List.replicate 3 (.scan, idle) ++
    List.replicate 2 (.beginScan, idle)

theorem storedLate_runs :
    ∃ r ∈ exec (Threads.step fun _ _ => none) (.start (.start emptyRegistry true true 60)) storedLate,
    r.2.phase = .returned ∧ r.2.stage = .ended ∧ r.2.window.hScan = true ∧ r.2.window.inDlg = false ∧
      r.2.window.controls.iContinueScan = true := by
  decide +kernel

/-- Of an empty file nothing is shown: the handle of the ended scan is kept, and a refresh only
cancels that scan. -/
theorem empty_file_keeps_handle : ∃ moves x,
    Run (Threads.step fun _ _ => none) (.start (.start emptyRegistry true true 60)) moves x ∧
      moves.map Move.action = storedLate ∧ x.phase = .returned ∧ x.stage = .ended ∧ x.window.hScan = true ∧
      ∀ e, x.refresh e = { x with window := x.window.cancelScan } := by
  obtain ⟨⟨moves, x⟩, hr, hphase, hstage, hheld, hdlg, hcont⟩ := storedLate_runs
  have hopen : ¬ x.window.inDlg = true := ne_true_of_eq_false hdlg
  refine ⟨moves, x, exec_run hr, exec_actions hr, hphase, hstage, hheld, fun e => ?_⟩
  rw [Threads.refresh_of_busy (.inr hheld), Window.refresh, if_neg hopen, if_pos hheld, if_pos hcont]

end BzccScanner
