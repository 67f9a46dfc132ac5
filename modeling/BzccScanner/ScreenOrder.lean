import BzccScanner.Comparison
import BzccScanner.ScreenView

/-! The rows of the game list: which games they show, and that they are in the
order that the user has chosen. New rows are put on top, and are sorted in only
if the order is remembered. -/

namespace BzccScanner

open CString Comparator Runs

theorem Scanning.Stands.displayed_next {decode : Decoder} {rows : List (Fin maxServers)} {done todo : List Item}
    {s t : Scanning} {w v : WindowControls} {k : Item} (h : s.Stands decode rows done w) (hindexed : s.Indexed w)
    (htodo : s.todo = k :: todo) (hr : s.report decode k todo w = .ok (t, v)) : BzccScanner.displayed w v = [] ∨
      ∃ i : Fin maxServers, i ∉ rows ∧ BzccScanner.displayed w v = [i] ∧ (v.game i).playerCount ≤ maxPlayers := by
  have hbeyond : ∀ i ∈ rows, i.val < k.serverIndex := fun i hi => h.beyond hi (by simp [htodo])
  obtain ⟨start, u, cancels, hu, rfl, ⟨r, hp, hstep⟩ | ⟨hp, -⟩⟩ := h.call hindexed htodo
  swap
  · simp [Scanning.report, hp, bind, Except.bind] at hr
  rw [report_of_reply hp] at hr
  obtain ⟨-, rfl⟩ := Prod.mk.inj (Except.ok.inj hr)
  have hsame : BzccScanner.displayed (BzccScanner.cancelled cancels ⟨.ok u, done.length⟩ u) r.data =
      BzccScanner.displayed u r.data := by
    obtain ⟨b, hb⟩ := cancelled_eq cancels ⟨.ok u, done.length⟩ u
    rw [hb]
    rfl
  rw [hsame]
  by_cases h0 : r.code = 0
  · rcases hstep.shows.displayed with hnone | ⟨-, -, i, hi, hrows⟩
    · exact .inl hnone
    · obtain ⟨-, -, hstanding⟩ := hstep.accept h0
      refine .inr ⟨i, fun hmem => ?_, hrows, ?_⟩
      · have hlt := hbeyond i hmem
        omega
      · have hsync := hstanding.synced
        rw [List.getLast?_concat] at hsync
        exact hstanding.sound.counted i.val i.isLt (by rw [hsync.1]; omega)
  · exact .inl (hstep.shows.displayed_of_silent fun hrow => h0 hrow.1)

theorem Window.Shows.scan_rows {decode : Decoder} {w : Window} {u : Scanning} {k : Item} {todo : List Item}
    {r : Scanning × WindowControls} (h : w.Shows decode) (hi : w.Indexed .scan)
    (hu : w.thread = some (.scanning u)) (htodo : u.todo = k :: todo)
    (hr : u.report decode k todo w.controls = .ok r) : displayed w.controls r.2 = [] ∨
      ∃ i : Fin maxServers, i ∉ w.rows ∧ displayed w.controls r.2 = [i] ∧
      (r.2.game i).playerCount ≤ maxPlayers := by
  obtain hnil | ⟨done, hst⟩ := h.scanning u hu
  · simp [htodo] at hnil
  · exact hst.displayed_next (hi rfl u hu) htodo hr

/-- The list control sorts, and the strings are ordered. -/
structure Platform.Orders (p : Platform) : Prop where
  strings : StringOrder p.compareString
  sorts : Sorts p.sortItems

theorem Window.endScan_rows (o : Outcomes) (w : Window) : (w.endScan o).rows = w.rows := by
  rcases endScan_cases o w with ⟨-, he⟩ | ⟨-, -, he⟩ | ⟨-, -, he⟩
  · rw [he]
  · rw [he]
    rfl
  · rw [he]

theorem Window.handle_rows {o : Outcomes} {m : Msg} {w v : Window} (hm : m ≠ .refresh ∧ m ≠ .timer)
    (h : w.handle o m = some v) : v.rows = w.rows ∧ v.controls.gameinfo = w.controls.gameinfo := by
  have hlists : ∀ {u : Window}, u.Selects v → v.rows = u.rows ∧
      v.controls.gameinfo = u.controls.gameinfo := fun hs =>
    ⟨hs.lists.rows, by rw [hs.lists.controls]⟩
  cases handle_effect h with
  | refresh => exact absurd rfl hm.1
  | tick => exact absurd rfl hm.2
  | postpone => exact absurd rfl hm.2
  | close => rcases close_cases w with he | he <;> rw [he] <;> exact ⟨rfl, rfl⟩
  | openDlg => exact ⟨rfl, rfl⟩
  | leaveDlg _ _ hv =>
    obtain ⟨hrows, hgames⟩ := hlists hv
    refine ⟨hrows.trans ?_, hgames.trans (by rw [leaveDlg_controls])⟩
    rcases leaveDlg_cases o w with ⟨-, -, he⟩ | he
    · rw [he]
      rfl
    · rw [he]
  | selects _ hv => exact hlists hv
  | clickAutoScan =>
    obtain ⟨id, armed, log, he⟩ := clickAutoScan_eq o w
    rw [he]
    exact ⟨rfl, rfl⟩
  | apply input =>
    obtain ⟨id, armed, log, he⟩ := clickAutoScanTimeApply_eq o input w
    rw [he]
    exact ⟨rfl, rfl⟩

namespace Screen

def game (s : Screen) (it : ListItem) : GameInfo := s.window.controls.game it.game

/-- The rows are the games that are displayed, each once, and each with the texts that its game has now. -/
structure ListsGames (s : Screen) : Prop where
  rows : (s.items.map ListItem.game).Perm s.window.rows
  once : s.window.rows.Nodup
  texts : ∀ it ∈ s.items, gameInfoToRow true (s.game it) = .ok (some it.texts)
  counted : ∀ it ∈ s.items, (s.game it).playerCount ≤ maxPlayers

/-- No row belongs in front of one that is above it. -/
def Ordered (p : Platform) (s : Screen) : Prop :=
  s.items.Pairwise fun a b => ∃ n, s.compareItems p a b = .ok n ∧ n ≤ 0

/-- Pings are compared by differences that wrap. -/
def PingsNear (s : Screen) : Prop := s.lastColSortIndex.toInt = colPing → ∃ r, PingsFrom r (s.items.map s.game)

/-- The rows are in the order of the column that is chosen. -/
def InOrder (p : Platform) (s : Screen) : Prop := 0 ≤ s.lastColSortIndex → s.PingsNear → s.Ordered p

variable {p : Platform} {Q : Prop} {o : Outcomes} {s t : Screen}

theorem ListsGames.frame (h : s.ListsGames) (hitems : t.items = s.items) (hrows : t.window.rows = s.window.rows)
    (hgames : ∀ it ∈ s.items, t.game it = s.game it) : t.ListsGames := by
  refine ⟨by rw [hitems, hrows]; exact h.rows, by rw [hrows]; exact h.once, fun it hit => ?_, fun it hit => ?_⟩
  · rw [hitems] at hit
    rw [hgames it hit]
    exact h.texts it hit
  · rw [hitems] at hit
    rw [hgames it hit]
    exact h.counted it hit

theorem InOrder.frame (h : s.InOrder p) (horder : t.order = s.order)
    (hgames : ∀ it ∈ s.items, t.game it = s.game it) :
    t.InOrder p := by
  simp only [order, Prod.mk.injEq] at horder
  obtain ⟨hitems, hcol, hrev⟩ := horder
  intro h0 hnear
  rw [hcol] at h0
  have hmap : t.items.map t.game = s.items.map s.game := by
    rw [hitems]
    exact List.map_congr_left hgames
  have hold := h h0 fun hping => by
    rw [← hmap]
    exact hnear (by rw [hcol]; exact hping)
  rw [Ordered, hitems]
  refine hold.imp_of_mem fun {a b} ha hb => ?_
  rintro ⟨n, hn, hle⟩
  refine ⟨n, ?_, hle⟩
  have hga : t.window.controls.game a.game = s.window.controls.game a.game := hgames a ha
  have hgb : t.window.controls.game b.game = s.window.controls.game b.game := hgames b hb
  rw [compareItems, hcol, hrev, hga, hgb]
  exact hn

/-- The comparison of two rows orders the list, as long as the pings are near. -/
theorem ListsGames.consistent (h : s.ListsGames) (hp : p.Orders) (hnear : s.PingsNear) :
    Consistent (fun a b => (s.compareItems p a b).toOption.getD 0) s.items := by
  have hlisted : ∀ g ∈ s.items.map s.game, ListedType g.gametype ∧ g.playerCount ≤ maxPlayers := by
    intro g hg
    obtain ⟨it, hit, rfl⟩ := List.mem_map.mp hg
    exact ⟨gameInfoToRow_ok_iff.mp ⟨_, h.texts it hit⟩, h.counted it hit⟩
  have hdescribed : ∀ g ∈ s.items.map s.game, ∃ d, getGameTypeDescription g.gametype = .ok d := fun g hg =>
    ⟨gameTypeText g.gametype, by rw [getGameTypeDescription_eq, if_pos (hlisted g hg).1]⟩
  have horder := (compareFunc_consistentOrder_iff hp.strings hdescribed
    (fun g hg => Nat.lt_of_le_of_lt (hlisted g hg).2 (by decide))).mpr hnear
  obtain ⟨n, hn, hcons⟩ := horder.order s.reverseSort
  refine hcons.of_map.congr fun a ha b hb => ?_
  have hab := hn _ (List.mem_map_of_mem ha) _ (List.mem_map_of_mem hb)
  exact congrArg (fun x => x.toOption.getD 0) hab

theorem ListsGames.sort (h : s.ListsGames) (hp : p.Orders) (ht : s.sort p = some t) :
    t.ListsGames ∧ t.InOrder p := by
  obtain ⟨hok, rfl⟩ := sort_eq ht
  have hperm := hp.sorts.perm (fun a b => (s.compareItems p a b).toOption.getD 0) s.items
  refine ⟨⟨(hperm.map _).trans h.rows, h.once, fun it hit => h.texts it (hperm.subset hit),
    fun it hit => h.counted it (hperm.subset hit)⟩, fun _ hnear => ?_⟩
  have hnear' : s.PingsNear := by
    intro hping
    obtain ⟨r, hr⟩ := hnear hping
    exact ⟨r, fun g hg => hr g ((hperm.map s.game).symm.subset hg)⟩
  refine (hp.sorts.ordered _ _ (h.consistent hp hnear')).imp_of_mem fun {a b} ha hb hle => ?_
  obtain ⟨n, hn⟩ := hok a (hperm.subset ha) b (hperm.subset hb)
  refine ⟨n, hn, ?_⟩
  rw [hn] at hle
  exact hle

theorem ListsGames.addRow {w : Window} {g : Fin maxServers} (h : s.ListsGames) (hp : p.Orders)
    (hrows : w.rows = s.window.rows ++ [g]) (hnew : g ∉ s.window.rows)
    (hgames : ∀ it ∈ s.items, w.controls.game it.game = s.game it)
    (hcount : (w.controls.game g).playerCount ≤ maxPlayers) (ht : { s with window := w }.addRow p g = some t) :
    t.ListsGames ∧ (s.rememberSort = true ∨ s.lastColSortIndex < 0 → t.InOrder p) := by
  obtain ⟨texts, htexts, hcases⟩ := addRow_cases ht
  have hlists : { s with window := w, items := ⟨g, texts⟩ :: s.items }.ListsGames := by
    refine ⟨?_, ?_, ?_, ?_⟩
    · rw [hrows]
      exact (h.rows.cons g).trans (List.perm_append_singleton g _).symm
    · rw [hrows, List.nodup_append]
      refine ⟨h.once, List.nodup_singleton g, fun a ha b hb => ?_⟩
      rintro rfl
      exact hnew (List.mem_singleton.mp hb ▸ ha)
    · intro it hit
      rcases List.mem_cons.mp hit with rfl | hit
      · exact htexts
      · have hsame := hgames it hit
        exact (congrArg (gameInfoToRow true) hsame).trans (h.texts it hit)
    · intro it hit
      rcases List.mem_cons.mp hit with rfl | hit
      · exact hcount
      · have hsame := hgames it hit
        exact (congrArg GameInfo.playerCount hsame).trans_le (h.counted it hit)
  rcases hcases with ⟨-, -, hsort⟩ | ⟨hunsorted, rfl⟩
  · obtain ⟨ht, horder⟩ := hlists.sort hp hsort
    exact ⟨ht, fun _ => horder⟩
  · refine ⟨hlists, fun hsorted h0 _ => ?_⟩
    rcases hsorted with hremember | hcol
    · exact absurd ⟨hremember, h0⟩ hunsorted
    · exact absurd h0 (Int32.not_le.mpr hcol)

/-- The rows are those of the window, and in order if `Q` holds. -/
structure Arranged (p : Platform) (Q : Prop) (s : Screen) : Prop where
  lists : s.ListsGames
  inOrder : Q → s.InOrder p

theorem Arranged.frame (h : s.Arranged p Q) (horder : t.order = s.order) (hrows : t.window.rows = s.window.rows)
    (hgames : ∀ g ∈ s.window.rows, t.window.controls.game g = s.window.controls.game g) : t.Arranged p Q := by
  have hitems : ∀ it ∈ s.items, t.game it = s.game it := fun it hit =>
    hgames it.game (h.lists.rows.subset (List.mem_map_of_mem hit))
  exact ⟨h.lists.frame (congrArg Prod.fst horder) hrows hitems, fun hQ => (h.inOrder hQ).frame horder hitems⟩

theorem Arranged.beginScan (p : Platform) (Q : Prop) (o : Outcomes) (s : Screen) :
    (s.beginScan o).Arranged p Q := by
  obtain ⟨log, he⟩ := Window.beginScan_eq o s.window
  have hrows : (s.beginScan o).window.rows = [] := by rw [beginScan_window, he]
  refine ⟨⟨?_, ?_, ?_, ?_⟩, fun _ _ _ => List.Pairwise.nil⟩
  · rw [hrows]
    rfl
  · rw [hrows]
    exact List.nodup_nil
  · intro it hit
    cases hit
  · intro it hit
    cases hit

theorem Arranged.refresh (h : s.Arranged p Q) (o : Outcomes) : (s.refresh o).Arranged p Q := by
  rw [Screen.refresh]
  split_ifs
  · exact h
  · exact h.frame rfl rfl fun _ _ => rfl
  · exact h
  · exact .beginScan p Q o s

theorem Arranged.timer (h : s.Arranged p Q) (o : Outcomes) : (s.timer o).Arranged p Q := by
  rw [Screen.timer]
  split_ifs with hdlg
  · have hw : s.window.timer o =
        { s.window.killTimer with autoScanRequestWhileBusy := true, timerId := false } := by
      rw [Window.timer, if_pos hdlg]
    refine h.frame rfl ?_ fun g _ => ?_
    · rw [hw]
      rfl
    · rw [hw]
      rfl
  · exact h.refresh o

theorem Arranged.scan (h : s.Arranged p Q) (hs : s.window.Shows p.decode) (hi : s.window.Indexed .scan)
    (hp : p.Orders) (harrives : Q → s.items.length < t.items.length → s.rememberSort = true ∨
      s.lastColSortIndex < 0)
    (ht : s.scan p o = some t) : t.Arranged p Q := by
  have hspares : ∀ g ∈ s.window.rows, t.window.controls.game g = s.window.controls.game g := fun g hg =>
    (hs.scan_spares hi (scan_window ht) hg).1
  rcases scan_cases ht with ⟨source, garbage, w, hthread, hw, rfl⟩ | ⟨u, k, todo, r, hu, htodo, hr, hadd⟩ |
    ⟨u, code, m, x, hu, htodo, he, hx, rfl⟩
  · rw [Window.scan, hthread] at hw
    obtain rfl := Option.some.inj hw
    exact h.frame rfl rfl hspares
  · have hwindow := addRows_window hadd
    rcases hs.scan_rows hi hu htodo hr with hnone | ⟨g, hnew, hone, hcount⟩
    · rw [hnone] at hadd
      obtain rfl := Option.some.inj hadd
      refine h.frame rfl ?_ hspares
      exact (congrArg (s.window.rows ++ ·) hnone).trans (List.append_nil _)
    · rw [hone] at hadd
      obtain ⟨v, hv, hadd⟩ := Option.bind_eq_some_iff.mp hadd
      obtain rfl := Option.some.inj hadd
      have hgames : ∀ it ∈ s.items, (s.window.reported r.1 r.2).controls.game it.game = s.game it := by
        intro it hit
        rw [← show v.window = s.window.reported r.1 r.2 from hwindow]
        exact hspares it.game (h.lists.rows.subset (List.mem_map_of_mem hit))
      have hrows : (s.window.reported r.1 r.2).rows = s.window.rows ++ [g] := congrArg (s.window.rows ++ ·) hone
      obtain ⟨hlists, horder⟩ := h.lists.addRow hp hrows hnew hgames hcount hv
      have hmore : s.items.length < v.items.length := by
        have hold := h.lists.rows.length_eq
        have hlen := hlists.rows.length_eq
        rw [hwindow, List.length_map] at hlen
        rw [List.length_map] at hold
        rw [hlen, hold]
        exact (Nat.lt_succ_self _).trans_eq (by rw [hrows, List.length_append]; rfl)
      exact ⟨hlists, fun hQ => horder (harrives hQ hmore)⟩
  · refine h.frame (endScan_order o _) ?_ hspares
    rw [endScan_window, Window.endScan_rows]

theorem Arranged.columnClick {iSubItem : Int32} (h : s.Arranged p Q) (hp : p.Orders)
    (ht : s.columnClick p iSubItem = some t) :
    t.Arranged p Q := by
  rw [Screen.columnClick] at ht
  obtain ⟨hlists, horder⟩ := ListsGames.sort (h.lists.frame (by split_ifs <;> rfl) (by split_ifs <;> rfl)
    (by intro it _; split_ifs <;> rfl)) hp ht
  exact ⟨hlists, fun _ => horder⟩

theorem Arranged.step {a : ScreenAction × Outcomes} (h : s.Arranged p Q) (hs : s.window.Shows p.decode)
    (hi : s.Indexed a.1) (hp : p.Orders)
    (harrives : Q → s.items.length < t.items.length → s.rememberSort = true ∨ s.lastColSortIndex < 0)
    (ht : s.step p a = some t) : t.Arranged p Q := by
  obtain ⟨a, o⟩ := a
  rw [Screen.step] at ht
  split_ifs at ht
  cases a with
  | scan => exact h.scan hs hi hp harrives ht
  | ui m =>
    cases m with
    | window m =>
      by_cases hrefresh : m = .refresh
      · subst hrefresh
        obtain rfl := Option.some.inj ht
        exact h.refresh o
      by_cases htimer : m = .timer
      · subst htimer
        simp only [handle] at ht
        split_ifs at ht
        obtain rfl := Option.some.inj ht
        exact h.timer o
      have hm : m ≠ .refresh ∧ m ≠ .timer := ⟨hrefresh, htimer⟩
      obtain ⟨hrows, hgames⟩ := Window.handle_rows hm (handle_window ht)
      exact h.frame (handle_order hm ht) hrows fun g _ => congrArg (·[g]) hgames
    | columnClick iSubItem => exact h.columnClick hp ht
    | clickRememberSort =>
      obtain rfl := Option.some.inj ht
      have hw := clickRememberSort_window s
      refine h.frame ?_ (by rw [hw]) fun g _ => by rw [hw]
      rw [clickRememberSort]
      dsimp only
      split_ifs <;> rfl
    | clickRememberWindow =>
      obtain rfl := Option.some.inj ht
      exact h.frame rfl rfl fun _ _ => rfl
    | clickHostApply addr port file =>
      obtain rfl := Option.some.inj ht
      have hw := clickHostApply_window addr port file s
      refine h.frame ?_ (by rw [hw]) fun g _ => by rw [hw]
      simp only [clickHostApply, save, order]
    | clickUrl =>
      obtain rfl := Option.some.inj ht
      have hw := clickUrl_window s
      refine h.frame ?_ (by rw [hw]) fun g _ => by rw [hw]
      rw [clickUrl]
      split <;> rfl
    | sizeMove rect =>
      obtain rfl := Option.some.inj ht
      exact h.frame rfl rfl fun _ _ => rfl

theorem start_arranged (p : Platform) (Q : Prop) (reg : Registry) (value : Setting → List Byte)
    (client : Int32 × Int32 → Int32 × Int32) : (start reg value client).Arranged p Q := by
  refine ⟨⟨.refl _, List.nodup_nil, fun it hit => ?_, fun it hit => ?_⟩, fun _ _ _ => List.Pairwise.nil⟩
  · cases hit
  · cases hit

end Screen

/-- A row that arrives while the rows are in the order of a column is sorted in. -/
def ArrivesSorted (m : Move Screen (ScreenAction × Outcomes)) : Prop :=
  m.source.items.length < m.target.items.length → m.source.rememberSort = true ∨ m.source.lastColSortIndex < 0

theorem plain_orders : plain.Orders := ⟨compareUnits_order, sorts_insertionSort⟩

/-- Both games are listed, and then sorted by their players, in the opposite order. -/
def sortedByPlayers : List (ScreenAction × Outcomes) :=
  playerSelected ++ List.replicate 2 (.scan, idle) ++ List.replicate 2 (.ui (.columnClick 3), idle)

set_option maxRecDepth 100000 in
theorem sortedByPlayers_runs : ∃ r ∈ exec (Screen.step plain) emptyScreen sortedByPlayers,
    ((∀ m ∈ r.1, m.source.Indexed m.action.1) ∧ ∀ m ∈ r.1, m.source.rememberSort = true) ∧
    r.2.items.map ListItem.game = [0, 1] ∧ r.2.lastColSortIndex = 3 := by
  decide +kernel

end BzccScanner
