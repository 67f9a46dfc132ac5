import BzccScanner.Capacity
import BzccScanner.LobbyGames
import BzccScanner.PlayerNotices
import BzccScanner.PlayerTotal
import BzccScanner.ScreenOrder

/-! What the screen lists when a scan of a lobby document is complete, whatever
the user did during the scan: one row for each server that ends at a scalar,
with what the document says about the server. -/

namespace BzccScanner

open CString Keyed Runs

/-- The member is the last one of its server, and displays it. -/
def Item.ends (k : Item) : Bool := k.depth != 5 && k.status == .last

/-- What the user is told of a displayed game, with the games of the scan before. -/
def lobbyNews (old : List GameInfo) (game : GameInfo) : List Notice :=
  if game.uniqueIdentifier = 0 then []
  else comparison GameInfo.uniqueIdentifier old (fun game => [.gameNew game])
    (fun game before => if before.playerlimit ≤ before.playerCount ∧ game.playerCount < game.playerlimit then
      [.gameOpen game] else []) game

def rowNotices (old : List GameInfo) (game : GameInfo) : List Notice := .row game :: lobbyNews old game

/-- The members of a scan, as `parse_data` reports them. -/
structure Item.Orderly (all : List Item) : Prop where
  ordered : all.Pairwise Item.Precedes
  settled : all.Pairwise Item.Settles
  delivered : ∀ k ∈ all, k.delivered = true
  status : ∀ k ∈ all, k.status = .normal ∨ k.status = .last

/-- Where a scan stands that began with `start` and has accepted the members `done`. It may be cancelled. -/
structure Reaches (decode : Decoder) (start : WindowControls) (done : List Item) (rows : List (Fin maxServers))
    (w : WindowControls) : Prop where
  standing : ∃ v, Standing decode start done v ∧ (w = v ∨ w = { v with iContinueScan := false })
  notices : w.notices = start.notices ++ rows.flatMap fun g => rowNotices start.previous (w.game g)
  rows : rows.map Fin.val = (done.filter Item.ends).map Item.serverIndex
  slots : ∀ k ∈ done, k.serverIndex < maxServers ∧ k.playerIndex < maxPlayers
  tallies : w.counters.Tallies done

/-- The thread is on the way through the members `all`. -/
def Window.Progress (decode : Decoder) (start : WindowControls) (all : List Item) (w : Window) : Prop :=
  match w.thread with
  | none => False
  | some (.created source garbage) =>
    (Scanning.start source garbage).todo = all ∧ w.rows = [] ∧ w.controls.Sound ∧
      w.controls.beginScan.prepare = start
  | some (.scanning s) => ∃ done, done ++ s.todo = all ∧ Reaches decode start done w.rows w.controls

section steps

variable {decode : Decoder} {all done todo : List Item} {rows : List (Fin maxServers)}
    {start w v : WindowControls}
  {s t : Scanning} {k : Item}

theorem Item.ends_iff : k.ends = true ↔ k.depth ≠ 5 ∧ k.status = .last := by
  simp [Item.ends]

theorem Counters.step_slot {c d : Counters} (h : c.step k = some d) :
    k.serverIndex < maxServers ∧ k.playerIndex < maxPlayers := by
  constructor <;> by_contra hge
  · rw [Counters.step, Counters.advance_eq_none (.inl (by omega))] at h
    cases h
  · rw [Counters.step, Counters.advance_eq_none (.inr (.inl (by omega)))] at h
    cases h

theorem openServer_news {i : Int} {hi : i < maxServers} (h : w.openServer i hi = some v) :
    v.notices = w.notices ∧ v.gameinfoPrev = w.gameinfoPrev ∧ v.gameinfoPrevCount = w.gameinfoPrevCount := by
  rw [WindowControls.openServer] at h
  split_ifs at h <;> obtain rfl := Option.some.inj h <;> exact ⟨rfl, rfl, rfl⟩

theorem writeServer_notices {e : KeyValueInfo} (h : writeServer decode e w = .ok v) :
    v.notices = w.notices ∧ v.gameinfoPrev = w.gameinfoPrev ∧ v.gameinfoPrevCount = w.gameinfoPrevCount := by
  rw [writeServer] at h
  split at h
  · obtain rfl := Except.ok.inj h
    exact ⟨rfl, rfl, rfl⟩
  · split at h
    · cases h
    · obtain rfl := Except.ok.inj h
      exact ⟨rfl, rfl, rfl⟩

theorem serverNotices_eq (hw : w.gameinfoPrevCount ≤ maxServers) (game : GameInfo) :
    serverNotices w game = .ok (rowNotices w.previous game) := by
  rw [serverNotices, findGame_eq _ hw, rowNotices, lobbyNews, comparison, WindowControls.previous]
  by_cases h0 : game.uniqueIdentifier = 0
  · rw [if_pos h0, if_pos h0]
    rfl
  · rw [if_neg h0, if_neg h0]
    simp only [bind, Except.bind]
    cases lookup GameInfo.uniqueIdentifier (counted w.gameinfoPrev w.gameinfoPrevCount) game.uniqueIdentifier with
    | none => rfl
    | some before =>
      dsimp only
      split_ifs <;> rfl

theorem flushServer_notices (hw : w.gameinfoPrevCount ≤ maxServers) (h : flushServer w = .ok v) :
    ∃ game, v.notices = w.notices ++ rowNotices w.previous game := by
  rw [flushServer] at h
  split at h
  · cases h
  · rename_i g _
    obtain ⟨_, -, h⟩ := bind_eq_ok.mp h
    obtain ⟨shown, hs, h⟩ := bind_eq_ok.mp h
    obtain rfl := Except.ok.inj h
    have hrow := serverNotices_eq (w := w.modifyGame g GameInfo.nameMods) hw
      ((w.modifyGame g GameInfo.nameMods).game g)
    obtain rfl := Except.ok.inj (hs.symm.trans hrow)
    exact ⟨_, rfl⟩

theorem processSessionInfo_notices {e : KeyValueInfo} {r : Reply WindowControls}
    (hw : w.gameinfoPrevCount ≤ maxServers) (hc : w.iContinueScan = true) (hk : k.ends = true)
    (hr : processSessionInfo decode (k.kvi e) w = .ok r) (h0 : r.code = 0) :
    ∃ game, r.data.notices = w.notices ++ rowNotices w.previous game := by
  obtain ⟨hdepth, hlast⟩ := Item.ends_iff.mp hk
  have hstatus : (k.kvi e).status = .last := hlast
  have hplayer : (k.kvi e).isPlayer = false := beq_eq_false_iff_ne.mpr hdepth
  rcases processSessionInfo_cases (by simp [hstatus]) hc hr with ⟨hcode, -⟩ | ⟨hi, hj, v, hopen, hm⟩
  · exact absurd (hcode.symm.trans h0) (by decide)
  · rw [if_neg (by simp [hplayer])] at hm
    obtain ⟨u, hu, hm⟩ := bind_eq_ok.mp hm
    rw [if_pos hstatus] at hm
    obtain ⟨x, hx, hm⟩ := bind_eq_ok.mp hm
    obtain rfl := Except.ok.inj hm
    obtain ⟨hnotices, hprev, hcount⟩ := openServer_news hopen
    obtain ⟨hnotices', hprev', hcount'⟩ := writeServer_notices hu
    obtain ⟨game, hgame⟩ := flushServer_notices (by rw [hcount', hcount]; exact hw) hx
    refine ⟨game, ?_⟩
    rw [show x.notices = _ from hgame, hnotices', hnotices, WindowControls.previous, hprev', hcount',
      hprev, hcount]
    rfl

/-- An accepted member that ends its server shows the row of the game, and what is new about it. -/
theorem ShowsRow.notices {e : KeyValueInfo} {r : Reply WindowControls} (h : ShowsRow k w r)
    (hw : w.gameinfoPrevCount ≤ maxServers) (hc : w.iContinueScan = true) (hk : k.ends = true)
    (hr : processSessionInfo decode (k.kvi e) w = .ok r) (h0 : r.code = 0) :
    ∃ i : Fin maxServers, i.val = k.serverIndex ∧ BzccScanner.displayed w r.data = [i] ∧
      r.data.notices = w.notices ++ rowNotices w.previous (r.data.game i) := by
  have hends := Item.ends_iff.mp hk
  obtain ⟨i, hi, hg, -, more, hmore, -⟩ := h.row ⟨h0, hends⟩
  obtain ⟨j, hj, hone⟩ := h.displayed_of_last ⟨h0, hends⟩
  obtain rfl : i = j := Fin.ext (hi.trans hj.symm)
  obtain ⟨game, hgame⟩ := processSessionInfo_notices hw hc hk hr h0
  refine ⟨i, hi, hone, ?_⟩
  rw [hgame] at hmore ⊢
  have hsame := List.append_cancel_left hmore
  rw [rowNotices, List.cons.injEq, Notice.row.injEq] at hsame
  rw [hsame.1]

theorem Reaches.withContinue (h : Reaches decode start done rows w) (b : Bool) :
    Reaches decode start done rows { w with iContinueScan := b } := by
  obtain ⟨⟨u, hu, hw⟩, hnotices, hrows, hslots, htallies⟩ := h
  refine ⟨⟨u, hu, ?_⟩, hnotices, hrows, hslots, htallies⟩
  have hcont := hu.continues
  cases b with
  | false => exact .inr (by rcases hw with rfl | rfl <;> rfl)
  | true =>
    refine .inl ?_
    rcases hw with rfl | rfl <;> rw [← hcont]

theorem Reaches.beyond (h : Reaches decode start done rows w) (hall : Item.Orderly (done ++ k :: todo))
    {g : Fin maxServers} (hg : g ∈ rows) : g.val < k.serverIndex := by
  have hmem := List.mem_map_of_mem (f := Fin.val) hg
  rw [h.rows] at hmem
  obtain ⟨l, hl, hlg⟩ := List.mem_map.mp hmem
  obtain ⟨hl, hends⟩ := List.mem_filter.mp hl
  obtain ⟨hdepth, hlast⟩ := Item.ends_iff.mp hends
  have hdelivered := hall.delivered l (List.mem_append_left _ hl)
  have h3 : l.depth = 3 := by simpa [Item.delivered, hdepth] using hdelivered
  rw [← hlg]
  exact (List.pairwise_append.mp hall.settled).2.2 l hl k List.mem_cons_self h3 hlast

theorem Reaches.report (h : Reaches decode start done rows w) (hall : Item.Orderly (done ++ k :: todo))
    (hindexed : w.iContinueScan = true → k.Indexed) (hr : s.report decode k todo w = .ok (t, v)) :
    (t.todo = [] ∧ t.ending = .ok (1, none)) ∨
      (t.todo = todo ∧ Reaches decode start (done ++ [k]) (rows ++ displayed w v) v) := by
  have hbeyond := fun {g} => h.beyond hall (g := g)
  obtain ⟨⟨u, hu, hw⟩, hnotices, hrows, hslots, htallies⟩ := h
  obtain ⟨cancels, rfl, hcont⟩ : ∃ cancels, w = cancelled cancels ⟨.ok u, done.length⟩ u ∧
      (cancels done.length = false → w.iContinueScan = true) := by
    rcases hw with rfl | rfl
    · exact ⟨fun _ => false, rfl, fun _ => hu.continues⟩
    · exact ⟨fun _ => true, rfl, fun h => Bool.noConfusion h⟩
  obtain ⟨r, hp, hstep⟩ | ⟨hp, -⟩ := hu.step s.kvi cancels (getLast?_precedes hall.ordered rfl)
    (hall.status k (by simp)) fun h => hindexed (hcont h)
  swap
  · simp [Scanning.report, hp, bind, Except.bind] at hr
  rw [Scanning.report_of_reply hp] at hr
  obtain ⟨rfl, rfl⟩ := Prod.mk.inj (Except.ok.inj hr)
  by_cases h0 : r.code = 0
  · obtain ⟨hcancel, hcount, hstanding⟩ := hstep.accept h0
    have hsame : cancelled cancels ⟨.ok u, done.length⟩ u = u := if_neg (by simp [hcancel])
    rw [hsame] at hp hnotices htallies
    rw [if_pos h0, hsame]
    have hgames : ∀ g ∈ rows, r.data.game g = u.game g := fun g hg =>
      hstep.others g.val g.isLt (Nat.ne_of_lt (hbeyond hg))
    have hkept : (rows.flatMap fun g => rowNotices start.previous (r.data.game g)) =
        rows.flatMap fun g => rowNotices start.previous (u.game g) :=
      List.flatMap_congr fun g hg => by rw [hgames g hg]
    have hprevious : u.previous = start.previous := by
      rw [WindowControls.previous, WindowControls.previous, hu.prev, hu.prevCount]
    have hslot : ∀ l ∈ done ++ [k], l.serverIndex < maxServers ∧ l.playerIndex < maxPlayers := by
      rw [List.forall_mem_append, List.forall_mem_singleton]
      exact ⟨hslots, Counters.step_slot hcount⟩
    have htally : r.data.counters.Tallies (done ++ [k]) := by
      have hbefore : ∀ l ∈ done, l.Precedes k := fun l hl =>
        (List.pairwise_append.mp hall.ordered).2.2 l hl k List.mem_cons_self
      rcases htallies.step hbefore with ⟨-, d, hd, htally⟩ | ⟨-, hnone⟩
      · obtain rfl := Option.some.inj (hd.symm.trans hcount)
        exact htally
      · exact absurd (hnone.symm.trans hcount) (by simp)
    by_cases hends : k.ends = true
    · obtain ⟨i, hi, hone, hnews⟩ := hstep.shows.notices hu.sound.prev_le hu.continues hends hp h0
      refine .inr ⟨rfl, ⟨r.data, hstanding, .inl rfl⟩, ?_, ?_, hslot, htally⟩
      · rw [hone, List.flatMap_append, List.flatMap_singleton, hkept, hnews, hnotices, hprevious,
          List.append_assoc]
      · rw [hone, List.map_append, hrows, List.filter_append, List.map_append, List.filter_cons_of_pos hends,
          List.map_singleton, hi]
        rfl
    · have hsilent : ¬ (r.code = 0 ∧ k.depth ≠ 5 ∧ k.status = .last) :=
        fun hrow => hends (Item.ends_iff.mpr hrow.2)
      refine .inr ⟨rfl, ⟨r.data, hstanding, .inl rfl⟩, ?_, ?_, hslot, htally⟩ <;>
        rw [hstep.shows.displayed_of_silent hsilent]
      · rw [List.append_nil, hkept, hstep.shows.silent hsilent, hnotices]
      · rw [List.map_append, hrows, List.filter_append, List.map_append, List.filter_cons_of_neg hends]
        rfl
  · rw [if_neg h0]
    exact .inl ⟨rfl, rfl⟩

theorem start_reaches (decode : Decoder) (hw : w.Sound) :
    Reaches decode w.beginScan.prepare [] [] w.beginScan.prepare :=
  ⟨⟨_, .initial decode hw, .inl rfl⟩, (List.append_nil _).symm, rfl, by simp, Counters.tallies_nil⟩

end steps

namespace Window

variable {decode : Decoder} {o : Outcomes} {start : WindowControls} {all : List Item} {v w : Window}

theorem handle_rows_going {m : Msg} (hs : w.hScan = true) (h : w.handle o m = some v) : v.rows = w.rows := by
  have hrefresh : (w.refresh o).rows = w.rows := by
    rw [refresh, if_pos hs]
    split_ifs <;> rfl
  by_cases hm : m = .refresh
  · subst hm
    obtain rfl := Option.some.inj h
    exact hrefresh
  by_cases ht : m = .timer
  · subst ht
    obtain ⟨-, ⟨-, rfl⟩ | ⟨-, rfl⟩⟩ := timer_cases h
    · rfl
    · exact hrefresh
  exact (handle_rows ⟨hm, ht⟩ h).1

theorem Passes.progress (h : w.Passes v) (hrows : v.rows = w.rows) (hw : w.Progress decode start all) :
    v.Progress decode start all := by
  obtain ⟨b, hb⟩ := h.controls
  rw [Progress] at hw ⊢
  rw [h.thread, hrows, hb]
  cases ht : w.thread with
  | none => simp [ht] at hw
  | some c =>
    rw [ht] at hw
    cases c with
    | created source garbage => exact ⟨hw.1, hw.2.1, hw.2.2.1.withContinue b, hw.2.2.2⟩
    | scanning s =>
      obtain ⟨done, hdone, hreaches⟩ := hw
      exact ⟨done, hdone, hreaches.withContinue b⟩

theorem Progress.scan (h : w.Progress decode start all) (hall : Item.Orderly all) (hi : w.Indexed .scan)
    (hv : w.scan decode o = some v) (hgoing : v.hScan = true) : v.Refused ∨ v.Progress decode start all := by
  rw [Progress] at h
  rcases scan_cases hv with ⟨source, garbage, ht, rfl⟩ | ⟨s, k, todo, r, ht, htodo, hr, rfl⟩ |
    ⟨-, -, -, x, -, -, -, -, rfl⟩
  · rw [ht] at h
    obtain ⟨hall, hrows, hsound, rfl⟩ := h
    refine .inr ⟨[], hall, ?_⟩
    rw [hrows]
    exact (start_reaches decode hsound).withContinue w.controls.iContinueScan
  · rw [ht] at h
    obtain ⟨done, hdone, hreaches⟩ := h
    rw [htodo] at hdone
    rcases hreaches.report (by rw [hdone]; exact hall) (fun hc => hi rfl s ht hc k (by simp [htodo])) hr
      with ⟨hnil, hend⟩ | ⟨hrest, hnext⟩
    · exact .inl ⟨r.1, rfl, hnil, hend⟩
    · refine .inr ⟨done ++ [k], ?_, hnext⟩
      rw [hrest, List.append_assoc, List.singleton_append, hdone]
  · exact absurd ((endScan_keeps o _).2.2.2.2.symm.trans hgoing) (by simp)

theorem Progress.step {a : Action × Outcomes} (h : w.Progress decode start all) (hall : Item.Orderly all)
    (hi : w.Indexed a.1) (hs : w.hScan = true) (hv : w.step decode a = some v) (hgoing : v.hScan = true) :
    v.Refused ∨ v.Progress decode start all := by
  obtain ⟨a, o⟩ := a
  rw [Window.step] at hv
  split_ifs at hv
  cases a with
  | ui m => exact .inr ((handle_passes hs hv).progress (handle_rows_going hs hv) h)
  | scan => exact h.scan hall hi hv hgoing

theorem Progress.run {moves : List (Move Window (Action × Outcomes))} (hrun : Run (Window.step decode) w moves v)
    (h : w.Progress decode start all) (hall : Item.Orderly all) (hs : w.hScan = true)
    (hindexed : ∀ m ∈ moves, m.source.Indexed m.action.1) (hgoing : ∀ m ∈ moves, m.target.hScan = true)
    (hc : v.Completes) : v.Progress decode start all := by
  induction hrun with
  | nil => exact h
  | cons hmove hrest ih =>
    obtain ⟨hfirst, hlater⟩ := List.forall_mem_cons.mp hgoing
    obtain ⟨hi, hindexed⟩ := List.forall_mem_cons.mp hindexed
    rcases h.step hall hi hs hmove hfirst with hrefused | hnext
    · exact absurd hc (Refused.run hrest hrefused hfirst hlater).not_completes
    · exact ih hnext hfirst hindexed hlater hc

/-- What is listed and shown behind the last call of a scan that is complete. -/
structure Listed (decode : Decoder) (start : WindowControls) (all : List Item) (w : Window) : Prop where
  rows : w.rows.map Fin.val = (all.filter Item.ends).map Item.serverIndex
  holds : w.controls.Holds decode (all.map Item.report)
  slots : ∀ k ∈ all, k.serverIndex < maxServers ∧ k.playerIndex < maxPlayers
  tallies : w.controls.counters.Tallies all
  previous : w.controls.previous = start.previous
  notices : w.controls.notices = start.notices ++
    ((w.rows.map w.controls.game).flatMap (rowNotices start.previous) ++ gameChanges w.controls)

theorem Listed.game {g : Fin maxServers} (h : w.Listed decode start all) (hg : g ∈ w.rows) :
    w.controls.game g = gameOf decode g (all.map Item.report) := by
  obtain ⟨k, hk, hkg⟩ := List.mem_map.mp (h.rows ▸ List.mem_map_of_mem hg)
  have hbegun := h.holds.begun k.report (List.mem_map_of_mem (List.mem_of_mem_filter hk))
  have hindex : k.report.server = g.val := (k.report_server (hkg ▸ g.isLt)).trans hkg
  exact h.holds.games g.val g.isLt (hindex ▸ hbegun)

theorem Progress.completes {e : Outcomes} (h : w.Progress decode start all) (hc : w.Completes)
    (hv : w.step decode (.scan, e) = some v) : v.Listed decode start all := by
  obtain ⟨s, m, ht, htodo, hend⟩ := hc
  rw [Progress, ht] at h
  obtain ⟨done, hdone, ⟨u, hu, hw⟩, hnotices, hrows, hslots, htallies⟩ := h
  rw [htodo, List.append_nil] at hdone
  subst hdone
  rw [Window.step] at hv
  split_ifs at hv
  rcases scan_cases hv with ⟨_, _, ht', -⟩ | ⟨t, k, todo, r, ht', htodo', -, -⟩ |
    ⟨t, code, n, x, ht', -, hend', hx, rfl⟩
  · exact absurd (ht.symm.trans ht') (by simp)
  · obtain rfl := ScanThread.scanning.inj (Option.some.inj (ht.symm.trans ht'))
    exact absurd (htodo.symm.trans htodo') (by simp)
  · obtain rfl := ScanThread.scanning.inj (Option.some.inj (ht.symm.trans ht'))
    obtain ⟨rfl, rfl⟩ := Prod.mk.inj (Except.ok.inj (hend.symm.trans hend'))
    have hsound : w.controls.Sound := by
      rcases hw with hw | hw <;> rw [hw]
      · exact hu.sound
      · exact hu.sound.cancel
    have hholds : w.controls.Holds decode (done.map Item.report) := by
      rcases hw with hw | hw <;> rw [hw]
      · exact hu.holds
      · exact hu.stopped.cancel.holds
    have hprevious : w.controls.previous = start.previous := by
      rcases hw with hw | hw <;>
        rw [hw, WindowControls.previous, WindowControls.previous, ← hu.prev, ← hu.prevCount]
    obtain rfl := Except.ok.inj ((Scanning.terminal_silent hsound (.inl rfl) m).symm.trans hx)
    have hkeep := endScan_rows e { w with controls :=
      { w.controls with notices := w.controls.notices ++ gameChanges w.controls } }
    have hcontrols := (endScan_keeps e { w with controls :=
      { w.controls with notices := w.controls.notices ++ gameChanges w.controls } }).1
    refine ⟨by rw [hkeep]; exact hrows, ?_, hslots, ?_, ?_, ?_⟩ <;> rw [hcontrols]
    · exact ⟨hholds.games, hholds.begun, hholds.fresh⟩
    · exact htallies
    · exact hprevious
    · rw [hkeep, List.flatMap_map, ← List.append_assoc]
      exact congrArg (· ++ gameChanges w.controls) hnotices

theorem beginScan_progress {source : Source} {garbage : KeyValueInfo} (hw : w.controls.Sound)
    (ho : o.createThread = some (source, garbage)) :
    (w.beginScan o).Progress decode w.controls.beginScan.prepare (Scanning.start source garbage).todo := by
  have hthread : (w.beginScan o).thread = some (.created source garbage) := by
    rw [beginScan]
    simp [ho]
  have hcontrols : (w.beginScan o).controls = { w.controls with iContinueScan := true } := by
    rw [beginScan]
    dsimp only
    split_ifs <;> rfl
  rw [Progress, hthread, hcontrols]
  exact ⟨rfl, rfl, hw.withContinue true, rfl⟩

end Window

/-- A scan that completes has accepted all that its source contains. -/
theorem CompleteScan.listed {decode : Decoder} {o : Outcomes} {u v : Window} {source : Source}
    {garbage : KeyValueInfo} {moves : List (Move Window (Action × Outcomes))}
    (h : CompleteScan decode u o moves v) (hu : u.controls.Sound) (ho : o.createThread = some (source, garbage))
    (hindexed : ∀ m ∈ moves, m.source.Indexed m.action.1) :
    v.Listed decode u.controls.beginScan.prepare (Scanning.start source garbage).todo := by
  obtain ⟨-, -, hcreated, w, e, hrun, hgoing, hend, hv⟩ := h
  have hstands : (Scanning.start source garbage).Stands decode [] [] _ :=
    Scanning.start_stands source garbage hu (b := true)
  have hall : Item.Orderly (Scanning.start source garbage).todo :=
    ⟨hstands.ordered, hstands.settled, hstands.delivered, hstands.status⟩
  have hprogress := Window.Progress.run hrun (Window.beginScan_progress hu ho) hall hcreated hindexed hgoing hend
  exact hprogress.completes hend hv

namespace Lobby

variable {decode : Decoder} {l : Lobby}

theorem delivery_todo (t : Delivery l) (d : Division t.text) (garbage : KeyValueInfo) :
    (Scanning.start (t.scan d garbage).source garbage).todo = l.placed.map Placed.item := by
  obtain ⟨out, ho, -⟩ := l.run_delivery t
  have hitems : ((Client.init t.usingHttp).run t.text).1 = l.placed.map Placed.item := congrArg (fun x => x.1) ho
  have hstart : (Scanning.start (t.scan d garbage).source garbage).todo =
      ((Client.init t.usingHttp).run (received d.reads)).1.filter Item.delivered := by
    cases t <;> rfl
  rw [hstart, received_division, hitems]
  exact List.filter_eq_self.mpr fun i hi => by
    obtain ⟨p, -, rfl⟩ := List.mem_map.mp hi
    exact item_delivered p

theorem readable {p : Placed} (hfit : l.Fits) (hbare : l.FinalsBare) (hp : p ∈ l.placed)
    (hslot : p.item.playerIndex < maxPlayers) : p.Readable :=
  ⟨(hfit p hp).1, (hfit p hp).2, hbare p hp, fun _ => hslot⟩

theorem ends_iff {p : Placed} (h : p.Readable) : p.item.ends = (!p.isPlayer && p.isFinal) := by
  have hstatus := p.status_eq_iff.mpr h.bare
  rw [Item.ends, hstatus]
  cases hp : p.isPlayer <;> cases hf : p.isFinal <;> simp [Placed.item, hp]

/-- The games of the list, in the order in which they were displayed, are what the document says
about the servers that end at a scalar. -/
theorem listed_games {w : Window} {start : WindowControls} (hfit : l.Fits) (hbare : l.FinalsBare)
    (h : w.Listed decode start (l.placed.map Placed.item)) :
    w.rows.map w.controls.game = (l.servers.toList.filter Server.shown).map (Server.info decode) := by
  have hread : ∀ p ∈ l.placed, p.Readable := fun p hp =>
    readable hfit hbare hp (h.slots p.item (List.mem_map_of_mem hp)).2
  have hrows : w.rows.map Fin.val = (l.servers.toList.zipIdx.filter fun x => x.1.shown).map Prod.snd := by
    rw [h.rows, ← placeServers_ends, List.filter_map, List.map_map, ← Lobby.placed]
    refine congrArg _ (List.filter_congr fun p hp => ?_)
    exact ends_iff (hread p hp)
  calc w.rows.map w.controls.game
      = (w.rows.map Fin.val).map fun n => gameOf decode n (l.placed.map fun p => p.item.report) := by
        rw [List.map_map]
        refine List.map_congr_left fun g hg => ?_
        rw [h.game hg, List.map_map]
        rfl
    _ = (l.servers.toList.zipIdx.filter fun x => x.1.shown).map fun x => x.1.info decode := by
        rw [hrows, List.map_map]
        refine List.map_congr_left fun x hx => ?_
        exact gameOf_lobby hread
          (fun p hp => (h.slots p.item (List.mem_map_of_mem hp)).1)
            (List.mem_zipIdx_iff_getElem?.mp (List.mem_of_mem_filter hx))
    _ = (l.servers.toList.filter Server.shown).map (Server.info decode) := by
        conv_rhs => rw [← List.zipIdx_map_fst 0 l.servers.toList]
        rw [List.filter_map, List.map_map]
        rfl

end Lobby

/-- A scan of the document `l` that the step from `a` begins, with what the user does during the
scan, up to its last call, which leaves `d`. -/
structure ScansLobby (p : Platform) (l : Lobby) (a d : Screen)
    (moves : List (Move Screen (ScreenAction × Outcomes))) :
    Prop where
  idle : a.window.hScan = false
  undisturbed : a.window.inDlg = false
  scanned : ∃ (m : Msg) (o e : Outcomes) (b c : Screen) (during : List (Move Screen (ScreenAction × Outcomes)))
    (t : Delivery l) (bytes : Division t.text) (garbage : KeyValueInfo),
    (m = .refresh ∨ m = .timer) ∧ o.createThread = some ((t.scan bytes garbage).source, garbage) ∧
    a.step p (.ui (.window m), o) = some b ∧ Run (Screen.step p) b during c ∧
    (∀ x ∈ during, x.target.window.hScan = true) ∧ c.window.Completes ∧ c.step p (.scan, e) = some d ∧
    moves = ⟨a, (.ui (.window m), o), b⟩ :: (during ++ [⟨c, (.scan, e), d⟩])

section screens

variable {p : Platform} {l : Lobby} {a b d s : Screen} {o : Outcomes}
    {moves : List (Move Screen (ScreenAction × Outcomes))}

theorem Screen.begin_window {m : Msg} (hm : m = .refresh ∨ m = .timer) (hidle : a.window.hScan = false)
    (hdlg : a.window.inDlg = false) (h : a.step p (.ui (.window m), o) = some b) :
    b.window = a.window.beginScan o := by
  have hrefresh : a.window.refresh o = a.window.beginScan o := by
    rw [Window.refresh, if_neg (by simp [hdlg]), if_neg (by simp [hidle])]
  have hstep : a.window.step p.decode (.ui m, o) = some b.window := Screen.step_window h
  rw [Window.step] at hstep
  split_ifs at hstep
  rcases hm with rfl | rfl
  · exact (Option.some.inj hstep).symm.trans hrefresh
  · obtain ⟨-, ⟨hopen, -⟩ | ⟨-, he⟩⟩ := Window.timer_cases hstep
    · exact absurd (hdlg.symm.trans hopen) (by simp)
    · exact he.trans hrefresh

theorem ScansLobby.run (h : ScansLobby p l a d moves) : Run (Screen.step p) a moves d := by
  obtain ⟨-, -, m, o, e, b, c, during, t, bytes, garbage, -, -, hbegin, hduring, -, -, hlast, rfl⟩ := h
  exact .cons hbegin (hduring.append (.cons hlast (.nil d)))

theorem ScansLobby.listed (h : ScansLobby p l a d moves) (ha : a.window.Shows p.decode)
    (hindexed : ∀ x ∈ moves, x.source.Indexed x.action.1) :
    d.window.Listed p.decode a.window.controls.beginScan.prepare (l.placed.map Placed.item) := by
  obtain ⟨hidle, hdlg, m, o, e, b, c, during, t, bytes, garbage, hm, ho, hbegin, hduring, hgoing, hend,
      hlast, rfl⟩ := h
  have hpart : Run (Window.step p.decode) b.window _ c.window :=
    hduring.project Screen.window (fun x => x.1.toWindow.map (·, x.2)) fun _ _ _ ht => Screen.step_window ht
  rw [Screen.begin_window hm hidle hdlg hbegin] at hpart
  have hcomplete : CompleteScan p.decode a.window o _ d.window := {
    idle := hidle
    undisturbed := hdlg
    created := by rw [ho]; rfl
    scanned := by
      refine ⟨c.window, e, hpart, fun x hx => ?_, hend, Screen.step_window hlast⟩
      obtain ⟨y, hy, hxy⟩ := List.mem_filterMap.mp hx
      obtain ⟨act, -, rfl⟩ := Option.map_eq_some_iff.mp hxy
      exact hgoing y hy }
  rw [← Lobby.delivery_todo t bytes garbage]
  refine hcomplete.listed ha.sound ho fun x hx => ?_
  obtain ⟨y, hy, hxy⟩ := List.mem_filterMap.mp hx
  obtain ⟨act, hact, rfl⟩ := Option.map_eq_some_iff.mp hxy
  obtain ⟨action, haction, rfl⟩ := Option.map_eq_some_iff.mp hact
  exact (hindexed y (by simp [hy])).window haction

end screens

/-- `{"G":[{"p":[{"n":1}],"n":1}]}` -/
def barePlayer : Lobby :=
  oneServer <| .items (.players ⟨[], keyP, [], []⟩ (.items ⟨[], .items bareField [], []⟩ []) [])
    [.field bareField]

def barePlayerCreated : Outcomes := { idle with createThread := some (barePlayer.fileScan.source, .zero) }

set_option maxRecDepth 100000 in
theorem barePlayer_runs : ∃ b ∈ emptyScreen.step plain (.ui (.window .refresh), barePlayerCreated),
    ∃ r ∈ exec (Screen.step plain) b (List.replicate 3 (.scan, idle)),
      ((∀ m ∈ r.1, m.source.Indexed m.action.1) ∧ r.2.Indexed .scan) ∧ (∀ m ∈ r.1, m.target.window.hScan = true) ∧
      r.2.window.completing = true ∧ ∃ d ∈ r.2.step plain (.scan, idle),
        d.items.map (fun it => it.texts[3]?) = [some [0x31, 0x2f, 0x30]] := by
  decide +kernel

end BzccScanner
