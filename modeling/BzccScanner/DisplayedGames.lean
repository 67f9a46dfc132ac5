import BzccScanner.NoStaleData
import BzccScanner.PlayerNotices

/-! A game that is displayed is final. The UI gets a pointer to it with its
row, so no later call of the scan may write to it. -/

namespace BzccScanner

open CString Keyed

namespace Call

def shown (c : Call Session) : List Notice :=
  match c.before.controls, c.after.controls with
  | .ok w, .ok v => v.notices.drop w.notices.length
  | _, _ => []

def rows (c : Call Session) : List (Fin maxServers) :=
  match c.before.controls, c.after.controls with
  | .ok w, .ok v => displayed w v
  | _, _ => []

/-- The call writes no field of the game `i`. -/
def Keeps (c : Call Session) (i : Fin maxServers) : Prop :=
  ∀ w v, c.before.controls = .ok w → c.after.controls = .ok v → v.game i = w.game i

theorem shown_eq {c : Call Session} {w v : WindowControls} {more : List Notice} (hw : c.before.controls = .ok w)
    (hv : c.after.controls = .ok v) (h : v.notices = w.notices ++ more) : c.shown = more := by
  simp only [shown, hw, hv, h, List.drop_left]

theorem rows_eq {c : Call Session} {w v : WindowControls} (hw : c.before.controls = .ok w)
    (hv : c.after.controls = .ok v) : c.rows = displayed w v := by
  simp only [rows, hw, hv]

end Call

/-- Each game is displayed at most once, and is not written to behind that. -/
structure DisplaysFinal (calls : List (Call Session)) : Prop where
  once : (calls.flatMap Call.rows).Nodup
  final : calls.Pairwise fun c d => ∀ i ∈ c.rows, d.Keeps i

/-- A call about a member of the scan, which has its number. -/
structure Call.OfMember (members : List Item) (c : Call Session) (k : Item) : Prop where
  member : members[c.before.calls]? = some k
  rows : c.rows = [] ∨ k.depth ≠ 5 ∧ k.status = .last ∧ ∃ i : Fin maxServers, i.val = k.serverIndex ∧ c.rows = [i]
  others : ∀ i : Fin maxServers, i.val ≠ k.serverIndex → c.Keeps i

section calls

variable {decode : Decoder} {r : ScanRun} {w x y : WindowControls} {v : World Session} {code : Int}
    {c d : Call Session}
  {k l : Item} {all : List Item} {members : List (Call Session)} {last : Call Session}

theorem isRow_gameChanges (w : WindowControls) : ∀ m ∈ gameChanges w, m.isRow = false := by
  intro m hm
  rw [gameChanges, List.mem_flatMap] at hm
  obtain ⟨old, -, hm⟩ := hm
  rw [comparison] at hm
  split at hm
  · rw [List.mem_singleton.mp hm, Notice.isRow]
    rintro _ ⟨⟩
  · have hp := isPlayer_playerChanges m hm
    cases m <;> first | rfl | cases hp

theorem Finished.terminal_shows {P : Call Session → Prop} (h : Finished decode r w P v members last y x) :
    ∃ box, x.notices = y.notices ++ (box ++ gameChanges y) ∧ ∀ m ∈ box, ∃ err, m = .messageBox err := by
  obtain ⟨b, hb⟩ := cancelled_eq r.cancels last.before y
  have hy := h.stopped.sound.bounded
  have hbounded : { y with iContinueScan := b }.Bounded := ⟨hy.1, hy.2, hy.3, hy.4⟩
  have hend := h.ended
  rw [hb, processEnd_changes hbounded] at hend
  have hx : x = _ := (congrArg Reply.data (Except.ok.inj hend)).symm
  refine ⟨_, by rw [hx, ← List.append_assoc]; rfl, ?_⟩
  intro m hm
  split_ifs at hm
  · exact ⟨_, List.mem_singleton.mp hm⟩
  · simp at hm

theorem Finished.terminal_rows {P : Call Session → Prop} (h : Finished decode r w P v members last y x) :
    last.rows = [] := by
  obtain ⟨box, hs, hbox⟩ := h.terminal_shows
  rw [Call.rows_eq h.before h.after]
  refine displayed_eq_nil hs fun m hm => ?_
  rcases List.mem_append.mp hm with hm | hm
  · obtain ⟨err, rfl⟩ := hbox m hm
    rfl
  · exact isRow_gameChanges y m hm

theorem Finished.terminal_keeps {P : Call Session → Prop} (h : Finished decode r w P v members last y x)
    (i : Fin maxServers) : last.Keeps i := by
  intro a b ha hb
  obtain rfl := Except.ok.inj (h.before.symm.trans ha)
  obtain rfl := Except.ok.inj (h.after.symm.trans hb)
  obtain ⟨_, _, he⟩ := h.data
  rw [he]

theorem Call.OfMember.keeps (hall : all.Pairwise Item.Settles) (hdelivered : ∀ k ∈ all, k.delivered = true)
    (hlt : c.before.calls < d.before.calls) (hc : c.OfMember all k) (hd : d.OfMember all l) :
    ∀ i ∈ c.rows, i ∉ d.rows ∧ d.Keeps i := by
  intro i hi
  rcases hc.rows with hnone | ⟨hdepth, hlast, j, hj, hrows⟩
  · simp [hnone] at hi
  · rw [hrows, List.mem_singleton] at hi
    subst hi
    obtain ⟨hcn, hck⟩ := List.getElem?_eq_some_iff.mp hc.member
    obtain ⟨hdn, hdl⟩ := List.getElem?_eq_some_iff.mp hd.member
    have hsettles := List.pairwise_iff_getElem.mp hall _ _ hcn hdn hlt
    have hdel := hdelivered k (hck ▸ List.getElem_mem hcn)
    have h3 : k.depth = 3 := by simpa [Item.delivered, hdepth] using hdel
    rw [hck, hdl] at hsettles
    have hserver := hsettles h3 hlast
    refine ⟨?_, hd.others i (by omega)⟩
    rcases hd.rows with hnone | ⟨-, -, m, hm, hrows'⟩
    · simp [hnone]
    · rw [hrows', List.mem_singleton]
      rintro rfl
      omega

theorem always_ofMember (decode : Decoder) (cancels : Nat → Bool) (start : WindowControls) (all : List Item) :
    Standing.Always decode cancels start all fun c => ∃ k, c.OfMember all k where
  step := by
    intro done k rest u e q hsplit _ _ hstep
    refine ⟨k, by simp [hsplit], hstep.shows.displayed, fun i hi a b ha hb => ?_⟩
    obtain rfl := Except.ok.inj ha
    obtain rfl := Except.ok.inj hb
    exact hstep.others i.val i.isLt hi
  crash := by
    intro done k rest u e hsplit _ _
    refine ⟨k, by simp [hsplit], .inl rfl, fun i _ a b _ hb => ?_⟩
    cases hb

/-- The calls of a scan: those about its members, in order, and a last one that displays and writes nothing. -/
theorem scanThread_members (hw : w.Sound) (hi : r.Indexed) (h : scanThread decode r w.beginScan = .ok (code, v)) :
    ∃ members last, v.calls = members ++ [last] ∧ (last.rows = [] ∧ ∀ i, last.Keeps i) ∧
      (∃ n, members.map (fun c => c.before.calls) = List.range n) ∧ ∀ c ∈ members, ∃ k,
      c.OfMember r.members k := by
  obtain ⟨members, last, ⟨y, x, hf⟩ | ⟨done, k, hf⟩⟩ := scanThread_ends hw hi h (always_ofMember decode _ _ _)
  · exact ⟨members, last, hf.calls, ⟨hf.terminal_rows, hf.terminal_keeps⟩, hf.numbered, hf.members_all⟩
  · have hbefore : last.before.controls = .error .gameType := by rw [hf.before, hf.session.1]
    refine ⟨members, last, hf.calls, ⟨by simp only [Call.rows, hbefore], fun i a b ha _ => ?_⟩, hf.numbered,
      hf.members_all⟩
    cases hbefore.symm.trans ha

/-- A displayed game is final, and displayed once. -/
theorem displaysFinal (hw : w.Reachable decode) (hi : r.Indexed)
    (h : scanThread decode r w.beginScan = .ok (code, v)) :
    DisplaysFinal v.calls := by
  obtain ⟨members, last, hcalls, ⟨hrows, hkeeps⟩, ⟨n, hn⟩, hmembers⟩ := scanThread_members hw.sound hi h
  have hsettled : r.members.Pairwise Item.Settles := ((Client.init _).run_settled _).filter _
  have hdelivered : ∀ k ∈ r.members, k.delivered = true := fun k hk => (List.mem_filter.mp hk).2
  have hlater : members.Pairwise fun c d => ∀ i ∈ c.rows, i ∉ d.rows ∧ d.Keeps i := by
    have hnumbers : members.Pairwise fun c d => c.before.calls < d.before.calls := by
      rw [← List.pairwise_map (f := fun c : Call Session => c.before.calls) (R := (· < ·)), hn]
      exact List.pairwise_lt_range
    refine hnumbers.imp_of_mem ?_
    intro c d hc hd hlt
    obtain ⟨k, hk⟩ := hmembers c hc
    obtain ⟨l, hl⟩ := hmembers d hd
    exact hk.keeps hsettled hdelivered hlt hl
  rw [hcalls]
  refine ⟨?_, ?_⟩
  · rw [List.flatMap_append, List.flatMap_singleton, hrows, List.append_nil, List.nodup_flatMap]
    refine ⟨?_, hlater.imp fun h i hi hd => (h i hi).1 hd⟩
    intro c hc
    obtain ⟨k, hk⟩ := hmembers c hc
    rcases hk.rows with hnone | ⟨-, -, i, -, hrows⟩ <;> simp [*]
  · rw [List.pairwise_append]
    refine ⟨hlater.imp fun h i hi => (h i hi).2, List.pairwise_singleton _ _, ?_⟩
    intro c _ d hd i _
    rw [List.mem_singleton.mp hd]
    exact hkeeps i

end calls

/-- `{"G":[{"k":1},{"k":1}]}` -/
def lockedServers : ScanRun :=
  .ofFile [0x7b, 0x22, 0x47, 0x22, 0x3a, 0x5b, 0x7b, 0x22, 0x6b, 0x22, 0x3a, 0x31, 0x7d, 0x2c, 0x7b,
    0x22, 0x6b, 0x22, 0x3a, 0x31, 0x7d, 0x5d, 0x7d]

set_option maxRecDepth 100000 in
theorem lockedServers_rows :
    ∃ out ∈ (scanThread (fun _ _ => none) lockedServers WindowControls.zero.beginScan).toOption,
    out.2.calls.flatMap Call.rows = [⟨0, by decide⟩, ⟨1, by decide⟩] := by
  decide +kernel

theorem lockedServers_indexed : lockedServers.Indexed := by decide +kernel

theorem displaysFinal_lockedServers : ∃ code v,
    scanThread (fun _ _ => none) lockedServers WindowControls.zero.beginScan = .ok (code, v) ∧
      v.calls.flatMap Call.rows = [⟨0, by decide⟩, ⟨1, by decide⟩] ∧ DisplaysFinal v.calls := by
  obtain ⟨⟨code, v⟩, hr, hrows⟩ := lockedServers_rows
  cases h : scanThread (fun _ _ => none) lockedServers WindowControls.zero.beginScan with
  | error f => simp [h, Except.toOption] at hr
  | ok out =>
    obtain rfl : out = (code, v) := by simpa [h, Except.toOption] using hr
    exact ⟨code, v, rfl, hrows, displaysFinal .start lockedServers_indexed h⟩

/-- `"k":1` -/
def lockedField : Field := .tight keyK one one_lt

/-- `{"G":[{"k":1},{},…,{},{"k":1}]}` with 2^31 - 1 empty servers. -/
def farGames : Lobby := farServers 2147483647 (.items (.field lockedField) []) (.items (.field lockedField) [])

/-- The servers of `farGames`: the last one is told with the index -2^31. -/
def farGamesItems : List Item := [⟨.last, [0x6b], [0x31], 3, 0, 0⟩, ⟨.last, [0x6b], [0x31], 3, 2147483648, 0⟩]

theorem farGames_items : farGames.placed.map Placed.item = farGamesItems := by
  rw [farGames, farServers_placed]
  rfl

set_option maxRecDepth 100000 in
theorem farGames_rows : ∃ u ∈ (farGamesItems.foldlM (deliver (sessionCallback (fun _ _ => none) fun _ => false))
    (World.init ⟨.ok WindowControls.zero.beginScan.prepare, 0⟩)).toOption,
    (reportEnd (sessionCallback (fun _ _ => none) fun _ => false) 0 u).2.calls.flatMap Call.rows =
      [⟨0, by decide⟩, ⟨0, by decide⟩] := by
  decide +kernel

/-- The first game is written to behind its row, and is displayed again. -/
theorem farGames_not_final : ∃ code v,
    scanThread (fun _ _ => none) farGames.fileScan WindowControls.zero.beginScan = .ok (code, v) ∧
      ¬ DisplaysFinal v.calls := by
  obtain ⟨u, hu, hrows⟩ := farGames_rows
  have hfold := toOption_eq_some.mp hu
  rw [← farGames_items] at hfold
  refine ⟨_, _, Lobby.scanThread_fileScan hfold, fun h => ?_⟩
  exact absurd (hrows ▸ h.once) (by decide)

end BzccScanner
