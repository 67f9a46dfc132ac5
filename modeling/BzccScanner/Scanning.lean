import BzccScanner.ScanStore

/-! The scan thread between two calls of its callback. Other steps may come in
between, but of what a scan writes they only clear `iContinueScan`. -/

namespace BzccScanner

def Source.opened : Source → Except Message (List Read)
  | file opened => opened.mapError .createFileFailed
  | http connection => connection.mapError ConnectError.message

/-- How `parse_data` ends behind its members: what it returns, and the error that it sets. -/
def parseEnding (failed : Option Message) : Except Stop Client → Except Fault (Int × Option Message)
  | .ok _ =>
    match failed with
    | none => .ok (0, none)
    | some m => .ok (1, some m)
  | .error (.ret code m) => .ok (code, m)
  | .error (.fault f) => .error f

/-- The members that are not reported yet, and what comes behind them. -/
structure Scanning where
  todo : List Item
  ending : Except Fault (Int × Option Message)
  kvi : KeyValueInfo

section continues

variable {decode : Decoder} {k : KeyValueInfo} {w v : WindowControls} {r : Reply WindowControls}

theorem writePlayer_continues (h : writePlayer decode k w = .ok v) : v.iContinueScan = w.iContinueScan := by
  rw [writePlayer] at h
  split at h
  · obtain rfl := Except.ok.inj h
    rfl
  · split at h
    · cases h
    · obtain rfl := Except.ok.inj h
      rfl

theorem processPlayer_continues {j : Int} {hj : j < maxPlayers} (h : processPlayer decode k j hj w = .ok r) :
    r.data.iContinueScan = w.iContinueScan := by
  rw [processPlayer] at h
  split at h
  · obtain rfl := Except.ok.inj h
    rfl
  · rename_i g hg
    cases ho : w.openPlayer g j hj with
    | none =>
      rw [ho] at h
      obtain rfl := Except.ok.inj h
      rfl
    | some v =>
      rw [ho] at h
      obtain ⟨u, hu, h⟩ := bind_eq_ok.mp h
      have hv : v.iContinueScan = w.iContinueScan := by
        rw [WindowControls.openPlayer] at ho
        split_ifs at ho <;> obtain rfl := Option.some.inj ho <;> rfl
      have huv := (writePlayer_continues hu).trans hv
      split_ifs at h <;> obtain rfl := Except.ok.inj h <;> exact huv

theorem processServer_continues (h : processServer decode k w = .ok r) :
    r.data.iContinueScan = w.iContinueScan := by
  obtain ⟨u, hu, h⟩ := bind_eq_ok.mp h
  have huw : u.iContinueScan = w.iContinueScan := by
    rw [writeServer] at hu
    split at hu
    · obtain rfl := Except.ok.inj hu
      rfl
    · split at hu
      · cases hu
      · obtain rfl := Except.ok.inj hu
        rfl
  split_ifs at h
  · obtain ⟨v, hv, h⟩ := bind_eq_ok.mp h
    obtain rfl := Except.ok.inj h
    rw [flushServer] at hv
    split at hv
    · cases hv
    · obtain ⟨_, -, hv⟩ := bind_eq_ok.mp hv
      obtain ⟨shown, -, hv⟩ := bind_eq_ok.mp hv
      obtain rfl := Except.ok.inj hv
      exact huw
  · obtain rfl := Except.ok.inj h
    exact huw

/-- What a call about a member does: nothing, or a server is opened and it goes to one of the two branches. -/
theorem processSessionInfo_cases (hk : ¬ (k.status = .complete ∨ k.status = .error)) (hc : w.iContinueScan = true)
    (hr : processSessionInfo decode k w = .ok r) : (r.code = 1 ∧ r.data = w) ∨
      ∃ (hi : k.serverIndex.toInt < maxServers) (hj : k.playerIndex.toInt < maxPlayers) (v : WindowControls),
        w.openServer k.serverIndex.toInt hi = some v ∧
        (if k.isPlayer then processPlayer decode k k.playerIndex.toInt hj v
          else processServer decode k v) = .ok r := by
  rw [processSessionInfo, if_neg hk, if_neg (by simp [hc])] at hr
  by_cases hrange : k.serverIndex.toInt ≥ maxServers ∨ k.playerIndex.toInt ≥ maxPlayers
  · rw [dif_pos hrange] at hr
    obtain rfl := Except.ok.inj hr
    exact .inl ⟨rfl, rfl⟩
  · rw [dif_neg hrange] at hr
    cases ho : w.openServer k.serverIndex.toInt (by omega) with
    | none =>
      simp only [ho] at hr
      obtain rfl := Except.ok.inj hr
      exact .inl ⟨rfl, rfl⟩
    | some v =>
      simp only [ho] at hr
      exact .inr ⟨by omega, by omega, v, ho, hr⟩

/-- Only the user clears `iContinueScan`. -/
theorem processSessionInfo_continues (h : processSessionInfo decode k w = .ok r) :
    r.data.iContinueScan = w.iContinueScan := by
  by_cases hend : k.status = .complete ∨ k.status = .error
  · rw [processSessionInfo, if_pos hend] at h
    obtain ⟨changes, -, he⟩ := processEnd_eq h
    rw [he]
  · by_cases hc : w.iContinueScan = true
    · rcases processSessionInfo_cases hend hc h with ⟨-, he⟩ | ⟨hi, hj, v, ho, hr⟩
      · rw [he]
      · have hv : v.iContinueScan = w.iContinueScan := by
          rw [WindowControls.openServer] at ho
          split_ifs at ho <;> obtain rfl := Option.some.inj ho <;> rfl
        split_ifs at hr
        · exact (processPlayer_continues hr).trans hv
        · exact (processServer_continues hr).trans hv
    · rw [processSessionInfo, if_neg hend, if_pos (by simpa using hc)] at h
      obtain rfl := Except.ok.inj h
      rfl

end continues

/-- A refused member may have begun its server. -/
theorem Counters.refused_cases {cancels : Nat → Bool} {n : Nat} {c d : Counters} {k : Item}
    (h : Counters.accepted cancels n c [k] = ([], d)) : d = c ∨ d = ⟨k.serverIndex + 1, 0⟩ := by
  rw [Counters.accepted] at h
  split_ifs at h with hc
  · exact .inl (Prod.mk.inj h).2.symm
  · cases hk : c.step k with
    | none =>
      rw [hk] at h
      rw [← (Prod.mk.inj h).2, Counters.refuse]
      split_ifs
      · exact .inl rfl
      · exact .inr rfl
    | some e => simp [hk] at h

theorem WindowControls.Sound.withContinue {w : WindowControls} (h : w.Sound) (b : Bool) :
    { w with iContinueScan := b }.Sound :=
  ⟨h.servers_le, h.players_le, h.game, h.player, h.counted, h.current, h.prev_le, h.prev_counted⟩

namespace Scanning

def start (source : Source) (garbage : KeyValueInfo) : Scanning :=
  match source.opened with
  | .error m => ⟨[], .ok (1, some m), garbage⟩
  | .ok reads =>
    let out := (Client.init source.usingHttp).run (received reads)
    ⟨out.1.filter Item.delivered, parseEnding (failure reads) out.2, .zero⟩

/-- The call about the member `k`, behind which `todo` is left. A refusal ends `parse_data`. -/
def report (decode : Decoder) (s : Scanning) (k : Item) (todo : List Item) (w : WindowControls) :
    Except ScanFault (Scanning × WindowControls) := do
  let r ← processSessionInfo decode (k.kvi s.kvi) w
  if r.code ≠ 0 then
    return (⟨[], .ok (1, none), r.kvi⟩, r.data)
  return (⟨todo, s.ending, r.kvi⟩, r.data)

def terminal (decode : Decoder) (s : Scanning) (code : Int) (m : Option Message) (w : WindowControls) :
    Except ScanFault WindowControls := do
  let r ← processSessionInfo decode
    { s.kvi with err := m <|> s.kvi.err, status := if code = 0 then .complete else .error } w
  return r.data

/-- Where a scan stands that may have been cancelled: the members `done` are accepted, and
the games `rows` are displayed. -/
structure Stands (decode : Decoder) (rows : List (Fin maxServers)) (done : List Item) (s : Scanning)
    (w : WindowControls) : Prop where
  ordered : (done ++ s.todo).Pairwise Item.Precedes
  settled : (done ++ s.todo).Pairwise Item.Settles
  delivered : ∀ k ∈ done ++ s.todo, k.delivered = true
  status : ∀ k ∈ s.todo, k.status = .normal ∨ k.status = .last
  standing : ∃ start v, Standing decode start done v ∧ (w = v ∨ w = { v with iContinueScan := false })
  displayed : ∀ i ∈ rows, ∃ k ∈ done, k.depth ≠ 5 ∧ k.status = .last ∧ k.serverIndex = i.val

variable {decode : Decoder} {rows : List (Fin maxServers)} {done todo : List Item} {s t : Scanning}
    {w v : WindowControls}
  {k : Item} {i : Fin maxServers}

theorem start_status (source : Source) (garbage : KeyValueInfo) :
    ∀ k ∈ (start source garbage).todo, k.status = .normal ∨ k.status = .last := by
  rw [start]
  cases source.opened with
  | error m => simp
  | ok reads => exact fun k hk => (Client.init _).run_item_status _ k (List.mem_of_mem_filter hk)

theorem start_stands (source : Source) (garbage : KeyValueInfo) (hw : w.Sound) {b : Bool} :
    (start source garbage).Stands decode [] [] { w.beginScan.prepare with iContinueScan := b } := by
  have hstanding : ∃ start v, Standing decode start [] v ∧ ({ w.beginScan.prepare with iContinueScan := b } = v ∨
      { w.beginScan.prepare with iContinueScan := b } = { v with iContinueScan := false }) := by
    refine ⟨w.beginScan.prepare, w.beginScan.prepare,
      .initial decode hw, ?_⟩
    cases b
    · exact .inr rfl
    · exact .inl rfl
  cases h : source.opened with
  | error m =>
    have hs : (start source garbage).todo = [] := by rw [start, h]
    exact ⟨by simp [hs], by simp [hs], by simp [hs], start_status source garbage, hstanding, by simp⟩
  | ok reads =>
    have hs : (start source garbage).todo =
        ((Client.init source.usingHttp).run (received reads)).1.filter Item.delivered := by rw [start, h]
    refine ⟨?_, ?_, ?_, start_status source garbage, hstanding, by simp⟩
    · rw [hs, List.nil_append]
      exact ((Client.init _).run_ordered _).filter _
    · rw [hs, List.nil_append]
      exact ((Client.init _).run_settled _).filter _
    · rw [hs, List.nil_append]
      exact fun k hk => (List.mem_filter.mp hk).2

theorem Stands.cancel (h : s.Stands decode rows done w) :
    s.Stands decode rows done { w with iContinueScan := false } := by
  refine ⟨h.ordered, h.settled, h.delivered, h.status, ?_, h.displayed⟩
  obtain ⟨start, v, hv, rfl | rfl⟩ := h.standing
  · exact ⟨start, w, hv, .inr rfl⟩
  · exact ⟨start, v, hv, .inr rfl⟩

theorem Stands.beyond (h : s.Stands decode rows done w) (hi : i ∈ rows) (hk : k ∈ s.todo) :
    i.val < k.serverIndex := by
  obtain ⟨l, hl, hdepth, hlast, hserver⟩ := h.displayed i hi
  have hdel := h.delivered l (List.mem_append_left _ hl)
  have h3 : l.depth = 3 := by simpa [Item.delivered, hdepth] using hdel
  rw [← hserver]
  exact (List.pairwise_append.mp h.settled).2.2 l hl k hk h3 hlast

/-- An accepted member is left behind, and behind a refused one nothing is left but the last call. -/
theorem report_of_reply {r : Reply WindowControls} (hp : processSessionInfo decode (k.kvi s.kvi) w = .ok r) :
    s.report decode k todo w =
      .ok (if r.code = 0 then ⟨todo, s.ending, r.kvi⟩ else ⟨[], .ok (1, none), r.kvi⟩, r.data) := by
  rw [report, hp]
  by_cases h0 : r.code = 0
  · rw [if_pos h0]
    exact if_neg (not_not.mpr h0)
  · rw [if_neg h0]
    exact if_pos h0

structure Writes (k : Item) (w v : WindowControls) : Prop where
  sound : v.Sound
  others : ∀ i (_ : i < maxServers), i ≠ k.serverIndex → v.gameinfo[i] = w.gameinfo[i]
  server : w.scanCountServers < v.scanCountServers → ∃ g, v.scanGame = some g ∧ g.val = k.serverIndex
  player : w.scanCountPlayers < v.scanCountPlayers → ∃ g j, v.scanPlayer = some (g, j) ∧ g.val = k.serverIndex

theorem Stands.cancelled (h : s.Stands decode rows done w) : ∃ start v cancels, Standing decode start done v ∧
    w = BzccScanner.cancelled cancels ⟨.ok v, done.length⟩ v ∧
    (cancels done.length = false → w.iContinueScan = true) := by
  obtain ⟨start, v, hv, rfl | rfl⟩ := h.standing
  · exact ⟨start, w, fun _ => false, hv, rfl, fun _ => hv.continues⟩
  · exact ⟨start, v, fun _ => true, hv, rfl, fun h => absurd h (by simp)⟩

theorem Stands.ordered_next (h : s.Stands decode rows done w) (htodo : s.todo = k :: todo) :
    ∀ l ∈ done.getLast?, l.Precedes k := by
  have hordered := h.ordered
  rw [htodo] at hordered
  exact getLast?_precedes hordered rfl

/-- The member that is reported next has no index that has wrapped past the
tests of the range, or is not looked at any more. -/
def Indexed (s : Scanning) (w : WindowControls) : Prop := w.iContinueScan = true → ∀ k ∈ s.todo.head?, k.Indexed

instance (s : Scanning) (w : WindowControls) : Decidable (s.Indexed w) :=
  inferInstanceAs (Decidable (_ → ∀ k ∈ s.todo.head?, k.Indexed))

/-- The call about the next member: it is a step, or it crashes. -/
theorem Stands.call (h : s.Stands decode rows done w) (hi : s.Indexed w) (htodo : s.todo = k :: todo) :
    ∃ start v cancels, Standing decode start done v ∧ w = BzccScanner.cancelled cancels ⟨.ok v, done.length⟩ v ∧
      ((∃ r, processSessionInfo decode (k.kvi s.kvi) w = .ok r ∧ Standing.Step decode cancels start done k v r) ∨
      (processSessionInfo decode (k.kvi s.kvi) w = .error .gameType ∧
        Standing.Crash decode cancels done k v)) := by
  obtain ⟨start, v, cancels, hv, rfl, hcont⟩ := h.cancelled
  have hindexed : cancels done.length = false → k.Indexed := fun hc => hi (hcont hc) k (by simp [htodo])
  exact ⟨start, v, cancels, hv, rfl,
    hv.step s.kvi cancels (h.ordered_next htodo) (h.status k (by simp [htodo])) hindexed⟩

theorem Stands.report (h : s.Stands decode rows done w) (hindexed : s.Indexed w) (htodo : s.todo = k :: todo)
    (hr : s.report decode k todo w = .ok (t, v)) :
    Writes k w v ∧ (t.todo = [] ∨ t.Stands decode (rows ++ BzccScanner.displayed w v) (done ++ [k]) v) := by
  obtain ⟨start, u, cancels, hu, rfl, ⟨r, hp, hstep⟩ | ⟨hp, -⟩⟩ := h.call hindexed htodo
  swap
  · simp [Scanning.report, hp, bind, Except.bind] at hr
  rw [report_of_reply hp] at hr
  obtain ⟨rfl, rfl⟩ := Prod.mk.inj (Except.ok.inj hr)
  by_cases h0 : r.code = 0
  · obtain ⟨hcancel, -, hstanding⟩ := hstep.accept h0
    have hw : BzccScanner.cancelled cancels ⟨.ok u, done.length⟩ u = u := if_neg (by simp [hcancel])
    rw [hw, if_pos h0]
    have hservers : r.data.scanCountServers = k.serverIndex + 1 := by
      have hsync := hstanding.synced
      rw [List.getLast?_concat] at hsync
      exact hsync.1
    refine ⟨⟨hstanding.sound, hstep.others, ?_, ?_⟩, .inr ?_⟩
    · intro _
      obtain ⟨g, hg, hsucc⟩ := hstanding.sound.game (by omega)
      exact ⟨g, hg, by omega⟩
    · intro hlt
      obtain ⟨g, j, hg, hj, -⟩ := hstanding.sound.player (by omega)
      obtain ⟨g', hg', hsucc⟩ := hstanding.sound.game (by omega)
      obtain rfl := Option.some.inj (hg.symm.trans hg')
      exact ⟨g, j, hj, by omega⟩
    · have hsplit : done ++ [k] ++ todo = done ++ s.todo := by simp [htodo]
      refine ⟨hsplit ▸ h.ordered, hsplit ▸ h.settled, hsplit ▸ h.delivered, ?_,
        ⟨start, r.data, hstanding, .inl rfl⟩, ?_⟩
      · exact fun l hl => h.status l (by simp [htodo, hl])
      · intro i hi
        rcases List.mem_append.mp hi with hi | hi
        · obtain ⟨l, hl, hshown⟩ := h.displayed i hi
          exact ⟨l, List.mem_append_left _ hl, hshown⟩
        · rcases hstep.shows.displayed with hnone | ⟨hdepth, hlast, j, hj, hrows⟩
          · simp [hnone] at hi
          · rw [hrows, List.mem_singleton] at hi
            exact ⟨k, by simp, hdepth, hlast, by rw [hi, hj]⟩
  · obtain ⟨hstopped, hcount⟩ := hstep.refuse h0
    obtain ⟨b, hb⟩ := cancelled_eq cancels ⟨.ok u, done.length⟩ u
    have hservers : u.scanCountServers < r.data.scanCountServers →
        r.data.scanCountServers = k.serverIndex + 1 := by
      rcases Counters.refused_cases hcount with he | he
      · exact fun hlt => absurd (congrArg Counters.servers he) (Nat.ne_of_gt hlt)
      · exact fun _ => congrArg Counters.servers he
    have hplayers : r.data.scanCountPlayers ≤ u.scanCountPlayers := by
      rcases Counters.refused_cases hcount with he | he
      · exact Nat.le_of_eq (congrArg Counters.players he)
      · exact Nat.le_trans (Nat.le_of_eq (congrArg Counters.players he)) (Nat.zero_le _)
    rw [hb, if_neg h0]
    refine ⟨⟨hstopped.sound, hstep.others, fun hlt => ?_, fun hlt => absurd hlt (Nat.not_lt.mpr hplayers)⟩,
      .inl rfl⟩
    obtain ⟨g, hg, hsucc⟩ := hstopped.sound.game (Nat.zero_lt_of_lt hlt)
    exact ⟨g, hg, Nat.succ.inj (hsucc.trans (hservers hlt))⟩

theorem terminal_ok (hw : w.Sound) (code : Int) (m : Option Message) :
    ∃ shown, s.terminal decode code m w = .ok { w with notices := shown } := by
  generalize he : ({ s.kvi with err := m <|> s.kvi.err, status := if code = 0 then .complete else .error } :
    KeyValueInfo) = e
  have hstatus : e.status = .complete ∨ e.status = .error := by
    rw [← he]
    by_cases h0 : code = 0 <;> simp [h0]
  obtain ⟨shown, hp⟩ := processEnd_ok hw e
  have hp' : processSessionInfo decode e w = _ := (if_pos hstatus).trans hp
  exact ⟨shown, by rw [Scanning.terminal, he, hp']; rfl⟩

theorem terminal_silent (hw : w.Sound) {code : Int} (h : code = 0 ∨ w.iContinueScan = false)
    (m : Option Message) :
    s.terminal decode code m w = .ok { w with notices := w.notices ++ gameChanges w } := by
  generalize he : ({ s.kvi with err := m <|> s.kvi.err, status := if code = 0 then .complete else .error } :
    KeyValueInfo) = e
  have hends : e.status = .complete ∨ e.status = .error := by
    rw [← he]
    by_cases h0 : code = 0 <;> simp [h0]
  have hsilent : ¬ (e.status = .error ∧ w.iContinueScan = true) := by
    rw [← he]
    rcases h with h0 | hc <;> simp [*]
  have hp : processSessionInfo decode e w = .ok ⟨1, e, { w with notices := w.notices ++ gameChanges w }⟩ := by
    rw [processSessionInfo, if_pos hends, processEnd_changes hw.bounded, if_neg hsilent, List.append_nil]
  rw [terminal, he, hp]
  rfl

theorem terminal_sound (hw : w.Sound) {code : Int} {m : Option Message} (h : s.terminal decode code m w = .ok v) :
    v.Sound ∧ v.gameinfo = w.gameinfo := by
  obtain ⟨shown, hok⟩ := terminal_ok (s := s) hw code m
  obtain rfl := Except.ok.inj (hok.symm.trans h)
  exact ⟨hw.withNotices shown, rfl⟩

theorem report_continues (h : s.report decode k todo w = .ok (t, v)) : v.iContinueScan = w.iContinueScan := by
  obtain ⟨r, hr, h⟩ := bind_eq_ok.mp h
  have hcont := processSessionInfo_continues hr
  split_ifs at h <;> obtain ⟨-, rfl⟩ := Prod.mk.inj (Except.ok.inj h) <;> exact hcont

theorem terminal_continues {code : Int} {m : Option Message} (h : s.terminal decode code m w = .ok v) :
    v.iContinueScan = w.iContinueScan := by
  obtain ⟨r, hr, h⟩ := bind_eq_ok.mp h
  obtain rfl := Except.ok.inj h
  exact processSessionInfo_continues hr

end Scanning

end BzccScanner
