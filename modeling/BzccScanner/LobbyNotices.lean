import BzccScanner.ScreenLobby
import BzccScanner.PromptEnd

/-! What the user is told between two lobby documents. A scan compares its games
with those of the scan before, one by one as they are displayed, and all of them
in its last call, so that behind two scans in a row the notices say what has
changed between the two documents. -/

namespace BzccScanner

open CString Keyed Runs

/-- The servers that have a scalar, with what the document says about them. -/
def Lobby.games (decode : Decoder) (l : Lobby) : List GameInfo :=
  (l.servers.toList.filter Server.delivers).map (Server.info decode)

/-- Each game has an identifier of its own, and so does each player of a game. -/
structure Distinguishable (gs : List GameInfo) : Prop where
  games : Identified GameInfo.uniqueIdentifier 0 gs
  players : ∀ g ∈ gs, Identified PlayerInfo.uniqueIdentifier 0 g.players

/-- The games that are gone, and what has changed about the players of those that stayed. -/
def lobbyChanges (old new : List GameInfo) : List Notice :=
  ((old.filter (lacks GameInfo.uniqueIdentifier 0 new)).map .gameQuit) ++
    (pairs GameInfo.uniqueIdentifier 0 old new).flatMap fun g => expectedPlayers g.1 g.2

section changes

variable {old new : GameInfo} {w : WindowControls}

theorem playerChanges_identified (ho : Identified PlayerInfo.uniqueIdentifier 0 old.players)
    (hn : Identified PlayerInfo.uniqueIdentifier 0 new.players) :
    (playerChanges old new).Perm (expectedPlayers old new) := by
  have hnone : unknownPlayers old new = [] := unknownPlayers_eq_nil.mpr
    ⟨fun p hp h0 => absurd h0 (ho.known p hp), fun p hp h0 => absurd h0 (hn.known p hp)⟩
  simpa only [hnone, List.append_nil] using playerChanges_perm ho.distinct hn.distinct

theorem gameChanges_identified (ho : Distinguishable w.previous) (hn : Distinguishable w.current) :
    (gameChanges w).Perm (lobbyChanges w.previous w.current) := by
  rw [lobbyChanges, List.map_eq_flatMap]
  refine (hn.games.distinct.flatMap_comparison_known ho.games.known
    (fun g => [.gameQuit g]) playerChanges).trans ?_
  refine List.Perm.append_left _ (List.Perm.flatMap_left _ fun g hg => ?_)
  rw [pairs, List.mem_flatMap] at hg
  obtain ⟨old, hold, hg⟩ := hg
  obtain ⟨new, hnew, rfl⟩ := List.mem_map.mp hg
  exact playerChanges_identified (ho.players old hold) (hn.players new (List.mem_of_mem_filter hnew))

end changes

theorem filter_eq_take_of_at {α : Type} {f : α → Bool} {l : List α} {c : Nat} (h : ∀ n, At f l n ↔ n < c) :
    l.filter f = l.take c := by
  induction l generalizing c with
  | nil => simp
  | cons a l ih =>
    have h0 := h 0
    rw [at_cons_zero] at h0
    cases c with
    | zero =>
      rw [List.filter_cons_of_neg (fun hf => absurd (h0.mp hf) (by omega)), List.take_zero,
        ← List.take_zero (l := l)]
      apply ih
      intro n
      rw [← at_cons_succ (a := a), h]
      omega
    | succ c =>
      rw [List.filter_cons_of_pos (h0.mpr (by omega)), List.take_succ_cons]
      refine congrArg _ (ih fun n => ?_)
      rw [← at_cons_succ (a := a), h]
      omega

namespace Lobby

variable {decode : Decoder} {l : Lobby} {w : Window} {start : WindowControls}

theorem listed_current (hfit : l.Fits) (hbare : l.FinalsBare)
    (h : w.Listed decode start (l.placed.map Placed.item)) (hsound : w.controls.Sound) :
    w.controls.current = l.games decode := by
  have hread : ∀ p ∈ l.placed, p.Readable := fun p hp =>
    readable hfit hbare hp (h.slots p.item (List.mem_map_of_mem hp)).2
  have hcount : ∀ n, At Server.delivers l.servers.toList n ↔ n < w.controls.scanCountServers := fun n => by
    rw [← exists_server, ← show w.controls.counters.servers = w.controls.scanCountServers from rfl,
      ← h.tallies.servers, exists_item]
    rfl
  rw [games, filter_eq_take_of_at hcount, WindowControls.current]
  refine List.ext_getElem? fun n => ?_
  by_cases hn : n < w.controls.scanCountServers
  · have hmax : n < maxServers := lt_of_lt_of_le hn hsound.servers_le
    obtain ⟨s, hs, -⟩ := (hcount n).mpr hn
    have hgame := h.holds.games n hmax hn
    rw [List.map_map, show (Item.report ∘ Placed.item) = fun p : Placed => p.item.report from rfl,
      gameOf_lobby hread (fun p hp => (h.slots p.item (List.mem_map_of_mem hp)).1) hs] at hgame
    rw [counted, List.getElem?_take_of_lt hn, List.getElem?_map, List.getElem?_take_of_lt hn, hs,
      Option.map_some, ← hgame, Vector.getElem?_toList, Vector.getElem?_eq_getElem hmax]
  · rw [List.getElem?_eq_none, List.getElem?_eq_none]
    · simp only [List.length_map, List.length_take]
      omega
    · simp only [counted, List.length_take]
      omega

end Lobby

namespace Window

variable {decode : Decoder} {o : Outcomes} {v w : Window}

/-- Of what scans write, the user changes `iContinueScan` alone. -/
theorem handle_controls {m : Msg} (h : w.handle o m = some v) :
    ∃ b, v.controls = { w.controls with iContinueScan := b } := by
  have hrefresh : ∃ b, (w.refresh o).controls = { w.controls with iContinueScan := b } := by
    rw [refresh]
    split_ifs
    · exact ⟨_, rfl⟩
    · exact ⟨false, rfl⟩
    · exact ⟨_, rfl⟩
    · obtain ⟨log, he⟩ := beginScan_eq o w
      exact ⟨true, by rw [he]; rfl⟩
  cases handle_effect h with
  | refresh => exact hrefresh
  | tick => exact hrefresh
  | postpone => exact ⟨_, rfl⟩
  | close => rcases close_cases w with he | he <;> rw [he] <;> exact ⟨_, rfl⟩
  | openDlg => exact ⟨_, rfl⟩
  | leaveDlg _ _ hv =>
    rw [hv.lists.controls, leaveDlg_controls]
    exact ⟨_, rfl⟩
  | selects _ hv =>
    rw [hv.lists.controls]
    exact ⟨_, rfl⟩
  | clickAutoScan =>
    obtain ⟨id, armed, log, he⟩ := clickAutoScan_eq o w
    rw [he]
    exact ⟨_, rfl⟩
  | apply input =>
    obtain ⟨id, armed, log, he⟩ := clickAutoScanTimeApply_eq o input w
    rw [he]
    exact ⟨_, rfl⟩

theorem Tells.rests {moves : List (Move Window (Action × Outcomes))} (h : w.Tells)
    (hrun : Run (Window.step decode) w moves v) (hs : w.hScan = false)
    (hidle : ∀ m ∈ moves, m.target.hScan = false) :
    ∃ b, v.controls = { w.controls with iContinueScan := b } := by
  refine (hrun.keeps (I := fun u => u.Tells ∧ u.hScan = false ∧
    ∃ b, u.controls = { w.controls with iContinueScan := b })
    (P := fun m => m.target.hScan = false) ?_ ⟨h, hs, _, rfl⟩ hidle).1.2.2
  rintro u ⟨a, o⟩ x ⟨hu, hnone, b, hb⟩ hx hstep
  refine ⟨hu.step hstep, hx, ?_⟩
  rw [Window.step] at hstep
  split_ifs at hstep
  cases a with
  | ui m =>
    obtain ⟨c, hc⟩ := handle_controls hstep
    exact ⟨c, by rw [hc, hb]⟩
  | scan =>
    have hthread : u.thread = none := by simpa [hnone] using hu.running
    rw [Window.scan, hthread] at hstep
    cases hstep

end Window

section screens

variable {p : Platform} {l : Lobby} {a b c d : Screen}
    {moves between : List (Move Screen (ScreenAction × Outcomes))}

theorem ScansLobby.ended (h : ScansLobby p l a d moves) : d.window.hScan = false := by
  obtain ⟨-, -, m, o, e, b, c, during, t, bytes, garbage, -, -, -, -, -, hend, hlast, -⟩ := h
  obtain ⟨s, n, ht, htodo, -⟩ := hend
  have hstep : c.window.step p.decode (.scan, e) = some d.window := Screen.step_window hlast
  rw [Window.step] at hstep
  split_ifs at hstep
  rcases Window.scan_cases hstep with ⟨_, _, ht', -⟩ | ⟨r, k, todo, q, ht', htodo', -, -⟩ |
    ⟨-, -, -, x, -, -, -, -, he⟩
  · exact absurd (ht.symm.trans ht') (by simp)
  · obtain rfl := ScanThread.scanning.inj (Option.some.inj (ht.symm.trans ht'))
    exact absurd (htodo.symm.trans htodo') (by simp)
  · rw [he]
    exact (Window.endScan_keeps e _).2.2.2.2

theorem Screen.rests (hw : a.window.Tells) (h : Run (Screen.step p) a between b) (hs : a.window.hScan = false)
    (hidle : ∀ m ∈ between, m.target.window.hScan = false) :
    ∃ x, b.window.controls = { a.window.controls with iContinueScan := x } := by
  have hpart := h.project Screen.window (fun x => x.1.toWindow.map (·, x.2)) fun _ _ _ ht => Screen.step_window ht
  refine hw.rests hpart hs fun x hx => ?_
  obtain ⟨y, hy, hxy⟩ := List.mem_filterMap.mp hx
  obtain ⟨act, -, rfl⟩ := Option.map_eq_some_iff.mp hxy
  exact hidle y hy

theorem Screen.step_tells {x : ScreenAction × Outcomes} (hw : a.window.Tells) (h : a.step p x = some b) :
    b.window.Tells := by
  have hwindow := Screen.step_window h
  cases hact : x.1.toWindow with
  | none =>
    rw [hact] at hwindow
    rw [show b.window = a.window from hwindow]
    exact hw
  | some y =>
    rw [hact] at hwindow
    exact hw.step hwindow

end screens

instance (gs : List GameInfo) : Decidable (Distinguishable gs) :=
  decidable_of_iff (Identified GameInfo.uniqueIdentifier 0 gs ∧ ∀ g ∈ gs,
    Identified PlayerInfo.uniqueIdentifier 0 g.players)
    ⟨fun h => ⟨h.1, h.2⟩, fun h => ⟨h.1, h.2⟩⟩

/-- `"g":"c"` -/
def gameField : Field := .tight ⟨[0x67], by simp, by decide⟩ (.quoted [.plain 0x63 (by decide)]) (by decide)

/-- `"i":"d"` -/
def firstPlayer : Field := .tight keyI (.quoted [.plain 0x64 (by decide)]) (by decide)

/-- `"i":"b"` -/
def secondPlayer : Field := .tight keyI (.quoted [.plain 0x62 (by decide)]) (by decide)

/-- `{"G":[{"g":"c","p":[{"i":"d","n":1}],"n":1}]}`, with the player's identifier. -/
def playedBy (player : Field) : Lobby :=
  oneServer <| .items (.field gameField)
    [.players ⟨[], keyP, [], []⟩ (.items ⟨[], .items player [bareField], []⟩ []) [], .field bareField]

def playedCreated (player : Field) : Outcomes :=
  { idle with createThread := some ((playedBy player).fileScan.source, .zero) }

/-- A scan of the document, from the click to its end, behind which `P` holds. -/
def Played (player : Field) (a : Screen) (P : Screen → Prop) : Prop :=
  ∃ b ∈ a.step plain (.ui (.window .refresh), playedCreated player),
    ∃ r ∈ exec (Screen.step plain) b (List.replicate 5 (.scan, idle)),
      ((∀ m ∈ r.1, m.source.Indexed m.action.1) ∧ r.2.Indexed .scan) ∧ (∀ m ∈ r.1, m.target.window.hScan = true) ∧
      r.2.window.completing = true ∧ ∃ d ∈ r.2.step plain (.scan, idle), P d

instance (player : Field) (a : Screen) (P : Screen → Prop) [DecidablePred P] : Decidable (Played player a P) :=
  inferInstanceAs (Decidable (∃ b ∈ a.step plain _, ∃ r ∈ exec (Screen.step plain) b _, (_ ∧ _) ∧ _ ∧ _ ∧
    ∃ d ∈ r.2.step plain _, P d))

theorem Played.scansLobby {player : Field} {a : Screen} {P : Screen → Prop} (h : Played player a P)
    (ha : a.window.hScan = false ∧ a.window.inDlg = false) :
    ∃ d moves, ScansLobby plain (playedBy player) a d moves ∧
      (∀ m ∈ moves, m.source.Indexed m.action.1) ∧ P d := by
  obtain ⟨b, hb, r, hr, ⟨hduring, hlast⟩, hgoing, hend, d, hd, hp⟩ := h
  refine ⟨d, _, ⟨ha.1, ha.2, .refresh, playedCreated player, idle, b, r.2, r.1, .file, .single _, .zero,
    .inl rfl, rfl, hb, exec_run hr, hgoing, Window.completes_of_completing hend, hd, rfl⟩, ?_, hp⟩
  rw [List.forall_mem_cons, List.forall_mem_append, List.forall_mem_singleton]
  exact ⟨trivial, hduring, hlast⟩

theorem playedBy_fits : (playedBy firstPlayer).Fits ∧ (playedBy secondPlayer).Fits := by
  simp only [Lobby.Fits, playedBy, oneServer, Lobby.placed, Listing.toList, placeServers, placeMembers,
    placePlayers, placeFields]
  decide

theorem playedBy_bare : (playedBy firstPlayer).FinalsBare ∧ (playedBy secondPlayer).FinalsBare := by
  simp only [Lobby.FinalsBare, playedBy, oneServer, Lobby.placed, Listing.toList, placeServers, placeMembers,
    placePlayers, placeFields]
  decide

set_option maxRecDepth 100000 in
theorem playedBy_distinguishable : Distinguishable ((playedBy firstPlayer).games plain.decode) ∧
    Distinguishable ((playedBy secondPlayer).games plain.decode) := by
  decide +kernel

set_option maxRecDepth 100000 in
theorem playedBy_changes :
    ((((playedBy secondPlayer).servers.toList.filter Server.shown).map (Server.info plain.decode)).flatMap
      (rowNotices ((playedBy firstPlayer).games plain.decode))).length = 1 ∧
    (lobbyChanges ((playedBy firstPlayer).games plain.decode)
      ((playedBy secondPlayer).games plain.decode)).length = 2 := by
  decide +kernel

set_option maxRecDepth 100000 in
theorem played_runs : Played firstPlayer emptyScreen fun c =>
    (c.window.hScan = false ∧ c.window.inDlg = false) ∧ Played secondPlayer c fun _ => True := by
  decide +kernel

end BzccScanner
