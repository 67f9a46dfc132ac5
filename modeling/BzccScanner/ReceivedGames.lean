import BzccScanner.ScanContent

/-! A whole scan from any window: which of the members it reads it accepts is
decided by the bytes and by where the user cancels, and the window holds what
they say. -/

namespace BzccScanner

open CString

/-- The members that are accepted from a state of the counters on, and the
counters behind the last call. `n` calls were made before. -/
def Counters.accepted (cancels : Nat → Bool) : Nat → Counters → List Item → List Item × Counters
  | _, c, [] => ([], c)
  | n, c, k :: ks =>
    if cancels n then ([], c)
    else
      match c.step k with
      | none => ([], c.refuse k.serverIndex k.playerIndex)
      | some d => (k :: (accepted cancels (n + 1) d ks).1, (accepted cancels (n + 1) d ks).2)

/-- The members that the callback is told before the scan is cancelled, up to
the first one that is refused. -/
def Counters.reached (cancels : Nat → Bool) : Nat → Counters → List Item → List Item
  | _, _, [] => []
  | n, c, k :: ks =>
    if cancels n then []
    else
      k :: match c.step k with
        | none => []
        | some d => reached cancels (n + 1) d ks

namespace Source

def usingHttp : Source → Bool
  | file _ => false
  | http _ => true

def reads : Source → List Read
  | file (.ok reads) => reads
  | http (.ok reads) => reads
  | _ => []

end Source

namespace ScanRun

/-- The members that are read, if the callback accepts them all. -/
def members (r : ScanRun) : List Item :=
  ((Client.init r.source.usingHttp).run (received r.source.reads)).1.filter Item.delivered

def accepted (r : ScanRun) : List Item := (Counters.accepted r.cancels 0 ⟨0, 0⟩ r.members).1

def counters (r : ScanRun) : Counters := (Counters.accepted r.cancels 0 ⟨0, 0⟩ r.members).2

/-- No index of a member that is reached has wrapped past the tests of the range. -/
def Indexed (r : ScanRun) : Prop := ∀ k ∈ Counters.reached r.cancels 0 ⟨0, 0⟩ r.members, k.Indexed

instance : DecidablePred Indexed :=
  fun r => inferInstanceAs (Decidable (∀ k ∈ Counters.reached r.cancels 0 ⟨0, 0⟩ r.members, k.Indexed))

end ScanRun

variable {decode : Decoder} {cancels : Nat → Bool} {start w v : WindowControls} {done : List Item} {k : Item}

/-- Every row that the members show has a text for the type of its game. -/
def ListedRows (decode : Decoder) (done : List Item) : Prop :=
  ∀ front k rest, done = front ++ k :: rest → k.depth ≠ 5 → k.status = .last →
    ListedType (gameOf decode k.serverIndex ((front ++ [k]).map Item.report)).gametype

theorem listedRows_nil (decode : Decoder) : ListedRows decode [] := by simp [ListedRows]

theorem ListedRows.concat (h : ListedRows decode done) (hk : k.depth ≠ 5 → k.status = .last →
    ListedType (gameOf decode k.serverIndex ((done ++ [k]).map Item.report)).gametype) :
    ListedRows decode (done ++ [k]) := by
  intro front l rest hsplit
  rcases rest.eq_nil_or_concat with rfl | ⟨rest, m, rfl⟩
  · obtain ⟨rfl, he⟩ := List.append_inj' hsplit rfl
    obtain rfl := List.singleton_inj.mp he
    exact hk
  · rw [List.concat_eq_append, ← List.cons_append, ← List.append_assoc] at hsplit
    obtain ⟨hdone, -⟩ := List.append_inj' hsplit rfl
    exact h front l rest hdone

/-- Where a scan stands behind the accepted members `done`. -/
structure Standing (decode : Decoder) (start : WindowControls) (done : List Item)
    (w : WindowControls) : Prop where
  sound : w.Sound
  synced : w.Synced done.getLast?
  continues : w.iContinueScan = true
  holds : w.Holds decode (done.map Item.report)
  prev : w.gameinfoPrev = start.gameinfoPrev
  prevCount : w.gameinfoPrevCount = start.gameinfoPrevCount
  listed : ListedRows decode done

/-- Where a scan stands behind its last call about a member. -/
structure Stopped (decode : Decoder) (start : WindowControls) (done : List Item) (w : WindowControls) : Prop where
  sound : w.Sound
  holds : w.Holds decode (done.map Item.report)
  prev : w.gameinfoPrev = start.gameinfoPrev
  prevCount : w.gameinfoPrevCount = start.gameinfoPrevCount
  listed : ListedRows decode done

theorem Standing.stopped (h : Standing decode start done w) : Stopped decode start done w :=
  ⟨h.sound, h.holds, h.prev, h.prevCount, h.listed⟩

theorem Standing.initial (decode : Decoder) (hw : w.Sound) :
    Standing decode w.beginScan.prepare [] w.beginScan.prepare :=
  ⟨hw.prepare, ⟨rfl, rfl⟩, rfl, WindowControls.prepare_holds decode w, rfl, rfl, listedRows_nil decode⟩

theorem Stopped.cancel (h : Stopped decode start done w) :
    Stopped decode start done { w with iContinueScan := false } :=
  ⟨h.sound.cancel, ⟨h.holds.games, h.holds.begun, h.holds.fresh⟩, h.prev, h.prevCount, h.listed⟩

/-- What one call about a member does to the window. -/
structure Standing.Step (decode : Decoder) (cancels : Nat → Bool) (start : WindowControls)
    (done : List Item) (k : Item) (w : WindowControls) (r : Reply WindowControls) : Prop where
  others : ∀ n (_ : n < maxServers), n ≠ k.serverIndex → r.data.gameinfo[n] = w.gameinfo[n]
  shows : ShowsRow k w r
  stores : r.code = 0 → Stores (k.kvi .zero) w r.data
  accept : r.code = 0 → cancels done.length = false ∧ w.counters.step k = some r.data.counters ∧
    Standing decode start (done ++ [k]) r.data
  refuse : r.code ≠ 0 → Stopped decode start done r.data ∧
    Counters.accepted cancels done.length w.counters [k] = ([], r.data.counters)

/-- The call shows a row for a game whose type has no description. -/
structure Standing.Crash (decode : Decoder) (cancels : Nat → Bool) (done : List Item) (k : Item)
    (w : WindowControls) :
    Prop where
  uncancelled : cancels done.length = false
  server : k.depth ≠ 5
  last : k.status = .last
  accept : ∃ c, w.counters.step k = some c
  unlisted : ¬ ListedType (gameOf decode k.serverIndex ((done ++ [k]).map Item.report)).gametype

theorem Standing.crash {e : KeyValueInfo} (h : Standing decode start done w) (hc : cancels done.length = false)
    (hk : k.Crashes decode e w) : Standing.Crash decode cancels done k w := by
  obtain ⟨i, v, u, hi, hopen, ho, hu, hl⟩ := hk.game
  refine ⟨hc, hk.server, hk.last, hk.counters, ?_⟩
  have hserver : k.report.server = k.serverIndex := k.report_server (hi ▸ i.isLt)
  have hplayer : k.report.isPlayer = false := by simp [Item.report, Item.kvi, KeyValueInfo.report, hk.server]
  have hlast : k.report.status = .last := hk.last
  have hgame : v.game i = gameOf decode i (done.map Item.report) := by
    refine (h.holds.openSlot hopen).games i i.isLt ?_
    rw [ho.servers]
    exact Nat.lt_succ_self _
  obtain ⟨u', hu', hgu, -⟩ := writeServer_content decode (k.kvi e) ho.game
  obtain rfl := Except.ok.inj (hu'.symm.trans hu)
  rw [List.map_append, List.map_singleton, gameOf_append_same hserver, GameInfo.receive_server hplayer,
    GameInfo.receiveServer, if_pos hlast, GameInfo.nameMods_gametype, hi, ← hgame, ← k.kvi_report e, ← hgu]
  exact hl

theorem Standing.step (e : KeyValueInfo) (cancels : Nat → Bool) (h : Standing decode start done w)
    (ho : ∀ l ∈ done.getLast?, l.Precedes k) (hst : k.status = .normal ∨ k.status = .last)
    (hi : cancels done.length = false → k.Indexed) :
    (∃ r, processSessionInfo decode (k.kvi e) (cancelled cancels ⟨.ok w, done.length⟩ w) = .ok r ∧
      Standing.Step decode cancels start done k w r) ∨
    (processSessionInfo decode (k.kvi e) (cancelled cancels ⟨.ok w, done.length⟩ w) = .error .gameType ∧
      Standing.Crash decode cancels done k w) := by
  have hst' : k.status ≠ .complete ∧ k.status ≠ .error := by rcases hst with hs | hs <;> simp [hs]
  by_cases hcancel : cancels done.length = true
  · have hw : cancelled cancels ⟨.ok w, done.length⟩ w = { w with iContinueScan := false } := if_pos hcancel
    refine .inl ⟨⟨1, k.kvi e, { w with iContinueScan := false }⟩, ?_, fun _ _ _ => rfl,
      ⟨by simp, fun _ => rfl⟩, ?_, ?_, ?_⟩
    · have hnt : ¬ ((k.kvi e).status = .complete ∨ (k.kvi e).status = .error) := not_or.mpr hst'
      rw [hw, processSessionInfo, if_neg hnt, if_pos rfl]
    · exact fun h0 => absurd h0 (by simp)
    · exact fun h0 => absurd h0 (by simp)
    · refine fun _ => ⟨h.stopped.cancel, ?_⟩
      rw [Counters.accepted, if_pos hcancel]
      rfl
  have hcf : cancels done.length = false := by simpa using hcancel
  have hw : cancelled cancels ⟨.ok w, done.length⟩ w = w := if_neg hcancel
  rw [hw]
  rcases processItem_spec decode e h.sound h.synced ho hst' h.continues (hi hcf) with
    ⟨r, hr, hsound, hcont, hwithin, hspec⟩ | hcrash
  swap
  · exact .inr ⟨hcrash.crash, h.crash hcf hcrash⟩
  have hrec := processItem_received h.sound h.synced ho hst' h.continues (hi hcf) h.holds hr
  have hholds := hrec.holds
  have hprev := hwithin.prev.trans h.prev
  have hcount := hwithin.prev_count.trans h.prevCount
  refine .inl ⟨r, hr, ?_⟩
  cases ha : w.counters.advance (k.depth == 5) k.serverIndex k.playerIndex with
  | none =>
    rw [ha] at hspec
    have hstep : w.counters.step k = none := ha
    have hne : r.code ≠ 0 := by simp [hspec.1]
    rw [if_neg hne] at hholds
    refine ⟨hwithin.others, hrec.shows, fun h0 => absurd h0 hne, fun h0 => absurd h0 hne, fun _ =>
      ⟨⟨hsound, hholds, hprev, hcount, h.listed⟩, ?_⟩⟩
    rw [Counters.accepted, if_neg hcancel, hstep, hspec.2]
  | some c =>
    rw [ha] at hspec
    obtain ⟨h0, hsync, rfl, hstores⟩ := hspec
    rw [if_pos h0] at hholds
    refine ⟨hwithin.others, hrec.shows, fun _ => hstores,
      fun _ => ⟨hcf, ha, hsound, ?_, hcont, ?_, hprev, hcount, ?_⟩, fun hne => absurd h0 hne⟩
    · rw [List.getLast?_concat]
      exact hsync
    · simpa using hholds
    · refine h.listed.concat fun hd hl => ?_
      obtain ⟨i, hi, -, hlisted, -⟩ := hrec.shows.row ⟨h0, hd, hl⟩
      have hgame := hholds.games i i.isLt (by rw [hsync.1]; omega)
      rw [← hi, List.map_append, List.map_singleton, ← hgame]
      exact hlisted

theorem Counters.accepted_cons_accept {n : Nat} {c d : Counters} (hc : cancels n = false) (hk : c.step k = some d)
    (ks : List Item) : accepted cancels n c (k :: ks) =
      (k :: (accepted cancels (n + 1) d ks).1, (accepted cancels (n + 1) d ks).2) := by
  rw [accepted, if_neg (by simp [hc]), hk]

theorem Counters.accepted_cons_refuse {n : Nat} {c d : Counters} (h : accepted cancels n c [k] = ([], d))
    (ks : List Item) : accepted cancels n c (k :: ks) = ([], d) := by
  rw [accepted] at h ⊢
  split_ifs at h ⊢ with hc
  · exact h
  · cases hk : c.step k with
    | none =>
      rw [hk] at h
      exact h
    | some e => simp [hk] at h

theorem Counters.reached_cons_accept {n : Nat} {c d : Counters} (hc : cancels n = false) (hk : c.step k = some d)
    (ks : List Item) : reached cancels n c (k :: ks) = k :: reached cancels (n + 1) d ks := by
  rw [reached, if_neg (by simp [hc]), hk]

theorem Counters.mem_reached_cons {n : Nat} {c : Counters} (hc : cancels n = false) (ks : List Item) :
    k ∈ reached cancels n c (k :: ks) := by
  rw [reached, if_neg (by simp [hc])]
  exact List.mem_cons_self ..

theorem Counters.mem_of_reached {n : Nat} {c : Counters} {ks : List Item} (h : k ∈ reached cancels n c ks) :
    k ∈ ks := by
  induction ks generalizing n c with
  | nil => exact h
  | cons l ks ih =>
    rw [reached] at h
    split_ifs at h
    · cases h
    · rcases List.mem_cons.mp h with rfl | h
      · exact List.mem_cons_self
      · cases hl : c.step l with
        | none => simp [hl] at h
        | some d =>
          rw [hl] at h
          exact List.mem_cons_of_mem _ (ih h)

/-- The property holds of every call about a member, wherever a scan may stand. -/
structure Standing.Always (decode : Decoder) (cancels : Nat → Bool) (start : WindowControls) (all : List Item)
    (P : Call Session → Prop) : Prop where
  step : ∀ done k rest w e r, all = done ++ k :: rest → Standing decode start done w →
    processSessionInfo decode (k.kvi e) (cancelled cancels ⟨.ok w, done.length⟩ w) = .ok r →
    Standing.Step decode cancels start done k w r →
    P ⟨k.kvi e, ⟨.ok w, done.length⟩, r.code, ⟨.ok r.data, done.length + 1⟩⟩
  crash : ∀ done k rest w e, all = done ++ k :: rest → Standing decode start done w →
    Standing.Crash decode cancels done k w →
    P ⟨k.kvi e, ⟨.ok w, done.length⟩, 1, ⟨.error .gameType, done.length + 1⟩⟩

theorem Standing.Always.trivial (decode : Decoder) (cancels : Nat → Bool) (start : WindowControls)
    (all : List Item) :
    Standing.Always decode cancels start all fun _ => True :=
  ⟨by simp, by simp⟩

section runs

variable {P : Call Session → Prop} {items : List Item}

def Session.Accepted (decode : Decoder) (cancels : Nat → Bool) (start : WindowControls) (P : Call Session → Prop)
    (done : List Item) (v : World Session) : Prop :=
  (∃ w, v.data = ⟨.ok w, done.length⟩ ∧ Standing decode start done w ∧
    (∀ rest, Counters.accepted cancels 0 ⟨0, 0⟩ (done ++ rest) =
      (done ++ (Counters.accepted cancels done.length w.counters rest).1,
        (Counters.accepted cancels done.length w.counters rest).2)) ∧
    ∀ rest, Counters.reached cancels 0 ⟨0, 0⟩ (done ++ rest) =
    done ++ Counters.reached cancels done.length w.counters rest) ∧
  v.calls.map (fun c => c.before.calls) = List.range done.length ∧
  (v.calls.filter fun c => c.code == 0).map (fun c => c.kvi.report) = done.map Item.report ∧ ∀ c ∈ v.calls, P c

/-- A scan has crashed over the last member that it was told. -/
def Session.Crashed (decode : Decoder) (cancels : Nat → Bool) (start : WindowControls)
    (done : List Item) (k : Item) (s : Session) : Prop :=
  s.controls = .error .gameType ∧ ∃ w, Standing decode start done w ∧ Standing.Crash decode cancels done k w

def Session.Refused (decode : Decoder) (cancels : Nat → Bool) (start : WindowControls) (P : Call Session → Prop)
    (done : List Item) (k : Item) (v : World Session) : Prop :=
  ((∃ w, v.data.controls = .ok w ∧ Stopped decode start done w ∧
    ∀ rest, Counters.accepted cancels 0 ⟨0, 0⟩ (done ++ k :: rest) = (done, w.counters)) ∨
    v.data.Crashed decode cancels start done k) ∧
  v.calls.map (fun c => c.before.calls) = List.range (done.length + 1) ∧
  (v.calls.filter fun c => c.code == 0).map (fun c => c.kvi.report) = done.map Item.report ∧ ∀ c ∈ v.calls, P c

/-- One call of a run from where the scan stands: it is a step, or the crash. -/
theorem Session.Accepted.call (hitems : items.Pairwise Item.Precedes)
    (hst : ∀ k ∈ items, k.status = .normal ∨ k.status = .last)
    (hi : ∀ k ∈ Counters.reached cancels 0 ⟨0, 0⟩ (items.filter Item.delivered), k.Indexed)
    (hP : Standing.Always decode cancels start (items.filter Item.delivered) P) {rest : List Item}
    {v : World Session} (hsplit : items.filter Item.delivered = done ++ k :: rest)
    (hv : Session.Accepted decode cancels start P done v) :
    P ⟨k.kvi v.kvi, v.data, (sessionCallback decode cancels (k.kvi v.kvi) v.data).code,
        (sessionCallback decode cancels (k.kvi v.kvi) v.data).data⟩ ∧
      ((∃ w r, v.data = ⟨.ok w, done.length⟩ ∧
        sessionCallback decode cancels (k.kvi v.kvi) v.data = ⟨r.code, r.kvi, ⟨.ok r.data, done.length + 1⟩⟩ ∧
        Standing.Step decode cancels start done k w r) ∨
      (v.data.calls = done.length ∧ (sessionCallback decode cancels (k.kvi v.kvi) v.data).code = 1 ∧
        (sessionCallback decode cancels (k.kvi v.kvi) v.data).data.Crashed decode cancels start done k)) := by
  have hordered : (items.filter Item.delivered).Pairwise Item.Precedes := hitems.filter _
  obtain ⟨⟨w, hw, hs, -, hreached⟩, -⟩ := hv
  have hk : k ∈ items := List.mem_of_mem_filter (p := Item.delivered) (by rw [hsplit]; simp)
  have hindexed : cancels done.length = false → k.Indexed := by
    intro hc
    refine hi k ?_
    rw [hsplit, hreached]
    exact List.mem_append_right _ (Counters.mem_reached_cons hc rest)
  rcases hs.step v.kvi cancels (getLast?_precedes hordered hsplit) (hst k hk) hindexed
    with ⟨r, hr, hrs⟩ | ⟨hr, hcrash⟩
  · have hcall : sessionCallback decode cancels (k.kvi v.kvi) v.data =
        ⟨r.code, r.kvi, ⟨.ok r.data, done.length + 1⟩⟩ := by
      rw [hw]
      exact sessionCallback_ok rfl hr
    refine ⟨?_, .inl ⟨w, r, hw, hcall, hrs⟩⟩
    rw [hcall, hw]
    exact hP.step done k rest w v.kvi r hsplit hs hr hrs
  · have hcall : sessionCallback decode cancels (k.kvi v.kvi) v.data =
        ⟨1, k.kvi v.kvi, ⟨.error .gameType, done.length + 1⟩⟩ := by
      rw [hw]
      exact sessionCallback_crash rfl hr
    refine ⟨?_, .inr ⟨by rw [hw], by rw [hcall], by rw [hcall], w, hs, hcrash⟩⟩
    rw [hcall, hw]
    exact hP.crash done k rest w v.kvi hsplit hs hcrash

/-- How a run over the members ends: all of them are accepted, or the call
about one of them is refused or crashes. -/
inductive Session.Ends (decode : Decoder) (cancels : Nat → Bool) (start : WindowControls) (all : List Item)
    (u : World Session) : Loop Session (World Session) → List Item → Prop
  | accepted {w : WindowControls} (hw : u.data.controls = .ok w) (hs : Stopped decode start all w)
      (hc : Counters.accepted cancels 0 ⟨0, 0⟩ all = (all, w.counters)) (hcodes : ∀ c ∈ u.calls, c.code = 0) :
      Ends decode cancels start all u (.ok u) all
  | refused {done rest : List Item} {k : Item} (hsplit : all = done ++ k :: rest) {w : WindowControls}
      (hw : u.data.controls = .ok w) (hs : Stopped decode start done w)
      (hc : Counters.accepted cancels 0 ⟨0, 0⟩ all = (done, w.counters)) (hcode : ∃ c ∈ u.calls, c.code ≠ 0) :
      Ends decode cancels start all u (.error (.ret 1 u)) done
  | crashed {done rest : List Item} {k : Item} (hsplit : all = done ++ k :: rest)
      (hs : u.data.Crashed decode cancels start done k) (hcode : ∃ c ∈ u.calls, c.code ≠ 0) :
      Ends decode cancels start all u (.error (.ret 1 u)) done

/-- A run over the members accepts what the counters accept, or crashes over one of them. -/
theorem foldlM_deliver_received (hitems : items.Pairwise Item.Precedes)
    (hst : ∀ k ∈ items, k.status = .normal ∨ k.status = .last) (hstart : Standing decode start [] start)
    (hzero : start.counters = ⟨0, 0⟩)
    (hi : ∀ k ∈ Counters.reached cancels 0 ⟨0, 0⟩ (items.filter Item.delivered), k.Indexed)
    (hP : Standing.Always decode cancels start (items.filter Item.delivered) P) : ∃ u done,
      Session.Ends decode cancels start (items.filter Item.delivered) u
        (items.foldlM (deliver (sessionCallback decode cancels)) (World.init ⟨.ok start, 0⟩)) done ∧
      (∃ n, u.calls.map (fun c => c.before.calls) = List.range n) ∧
      (u.calls.filter fun c => c.code == 0).map (fun c => c.kvi.report) = done.map Item.report ∧
      ∀ c ∈ u.calls, P c := by
  have hrule := foldlM_deliver_rule (sessionCallback decode cancels)
    (J := fun done v => Session.Accepted decode cancels start P done v ∧ ∀ c ∈ v.calls, c.code = 0)
    (K := fun done k v => Session.Refused decode cancels start P done k v ∧ ∃ c ∈ v.calls, c.code ≠ 0)
    (w := World.init ⟨.ok start, 0⟩) items (fun _ _ _ h => h) ?_ ?_ ?_
  · rcases hrule with ⟨v, hv, ⟨⟨w, hw, hs, hacc, -⟩, hn, hcalls, hall⟩, hcodes⟩ |
      ⟨done, k, rest, v, hsplit, hv, ⟨hend, hn, hcalls, hall⟩, hcode⟩
    · have hacc := hacc []
      simp only [List.append_nil, Counters.accepted] at hacc
      rw [hv]
      exact ⟨v, _, .accepted (congrArg Session.controls hw) hs.stopped hacc hcodes, ⟨_, hn⟩, hcalls, hall⟩
    · rw [hv]
      refine ⟨v, done, ?_, ⟨_, hn⟩, hcalls, hall⟩
      rcases hend with ⟨w, hw, hs, hacc⟩ | hcrash
      · exact .refused hsplit hw hs (by rw [hsplit]; exact hacc rest) hcode
      · exact .crashed hsplit hcrash hcode
  · rintro done k rest v hsplit ⟨hv, hcodes⟩ hcode
    obtain ⟨hp, ⟨w, r, hw, hr, hrs⟩ | ⟨-, hr, -⟩⟩ := hv.call hitems hst hi hP hsplit
    swap
    · exact absurd (hr.symm.trans hcode) (by decide)
    obtain ⟨⟨w', hw', -, hacc, hreached⟩, hn, hcalls, hall⟩ := hv
    obtain rfl : w = w' := by simpa [hw] using hw'
    have h0 : r.code = 0 := by simpa [hr] using hcode
    obtain ⟨hc, hk, hst'⟩ := hrs.accept h0
    refine ⟨⟨⟨r.data, ?_, hst', ?_, ?_⟩, ?_, ?_, forall_invoke_calls hall hp⟩, forall_invoke_calls hcodes hcode⟩
    · simp [World.invoke, hr]
    · intro rest
      rw [List.append_assoc, List.singleton_append, hacc, Counters.accepted_cons_accept hc hk]
      simp
    · intro rest
      rw [List.append_assoc, List.singleton_append, hreached, Counters.reached_cons_accept hc hk]
      simp
    · rw [invoke_calls, List.map_append, hn, List.map_singleton, hw, List.length_append, List.length_singleton,
        List.range_succ]
    · rw [invoke_calls, List.filter_append, List.map_append, hcalls, List.map_append]
      simp [hcode, Item.kvi_report]
  · rintro done k rest v hsplit ⟨hv, -⟩ hcode
    have hcase := hv.call hitems hst hi hP hsplit
    obtain ⟨⟨w, hw, -, hacc, -⟩, hn, hcalls, hall⟩ := hv
    refine ⟨⟨?_, ?_, ?_, forall_invoke_calls hall hcase.1⟩,
      ⟨_, List.mem_append_right _ (List.mem_singleton_self _), hcode⟩⟩
    · rcases hcase.2 with ⟨w', r, hw', hr, hrs⟩ | ⟨-, -, hcrash⟩
      · obtain rfl : w = w' := by simpa [hw] using hw'
        obtain ⟨hs, hk⟩ := hrs.refuse (by simpa [hr] using hcode)
        refine .inl ⟨r.data, by simp [World.invoke, hr], hs, fun rest => ?_⟩
        rw [hacc, Counters.accepted_cons_refuse hk]
        simp
      · exact .inr hcrash
    · rw [invoke_calls, List.map_append, hn, List.map_singleton, hw, List.range_succ]
    · rw [invoke_calls, List.filter_append, List.map_append, hcalls]
      simp [hcode]
  · refine ⟨⟨⟨start, rfl, hstart, fun rest => ?_, fun rest => ?_⟩, rfl, rfl, by simp [World.init]⟩,
      by simp [World.init]⟩
    · rw [hzero]
      rfl
    · rw [hzero]
      rfl

end runs

/-- A scan that has ended: its calls about members, and the last call, which
finds the window `y` and leaves the window `x`. -/
structure Finished (decode : Decoder) (r : ScanRun) (w : WindowControls) (P : Call Session → Prop)
    (v : World Session) (members : List (Call Session)) (last : Call Session) (y x : WindowControls) : Prop where
  calls : v.calls = members ++ [last]
  before : last.before.controls = .ok y
  after : last.after.controls = .ok x
  window : v.data.controls = .ok x
  refused : last.code = 1
  terminal : last.kvi.status = .complete ∨ last.kvi.status = .error
  ended : processEnd last.kvi (cancelled r.cancels last.before y) = .ok ⟨1, last.kvi, x⟩
  stopped : Stopped decode w.beginScan.prepare r.accepted y
  counters : y.counters = r.counters
  accepted : (members.filter fun c => c.code == 0).map (fun c => c.kvi.report) = r.accepted.map Item.report
  numbered : ∃ n, members.map (fun c => c.before.calls) = List.range n
  members_all : ∀ c ∈ members, P c

/-- A scan that has crashed over the member `k`, behind the accepted members
`done`. The last call is not made any more. -/
structure Crashed (decode : Decoder) (r : ScanRun) (w : WindowControls) (P : Call Session → Prop)
    (v : World Session) (members : List (Call Session)) (last : Call Session) (done : List Item)
    (k : Item) : Prop where
  calls : v.calls = members ++ [last]
  session : v.data.Crashed decode r.cancels w.beginScan.prepare done k
  before : last.before = v.data
  after : last.after = v.data
  refused : last.code = 1
  terminal : last.kvi.status = .error
  told : ∃ rest, r.members = done ++ k :: rest
  accepted : (members.filter fun c => c.code == 0).map (fun c => c.kvi.report) = done.map Item.report
  numbered : ∃ n, members.map (fun c => c.before.calls) = List.range n
  members_all : ∀ c ∈ members, P c

theorem cancelled_eq (cancels : Nat → Bool) (s : Session) (w : WindowControls) :
    ∃ b, cancelled cancels s w = { w with iContinueScan := b } := by
  rw [cancelled]
  split_ifs
  · exact ⟨false, rfl⟩
  · exact ⟨w.iContinueScan, rfl⟩

theorem processEnd_eq {e : KeyValueInfo} {r : Reply WindowControls} (h : processEnd e w = .ok r) : ∃ changes,
    collect (gameChange w) w.gameinfoPrevCount = .ok changes ∧ r.data = { w with notices := w.notices ++
      (if e.status = .error ∧ w.iContinueScan then [.messageBox e.errText] else []) ++ changes } := by
  obtain ⟨changes, hc, h⟩ := bind_eq_ok.mp h
  obtain rfl := Except.ok.inj h
  exact ⟨changes, hc, rfl⟩

section finished

variable {r : ScanRun} {P : Call Session → Prop} {members : List (Call Session)} {last : Call Session}
  {x y : WindowControls} {u : World Session}

theorem Finished.data (h : Finished decode r w P u members last y x) :
    ∃ b shown, x = { y with iContinueScan := b, notices := y.notices ++ shown } := by
  obtain ⟨b, hb⟩ := cancelled_eq r.cancels last.before y
  obtain ⟨changes, -, hd⟩ := processEnd_eq h.ended
  rw [hb, List.append_assoc] at hd
  exact ⟨b, _, hd⟩

theorem Finished.result (h : Finished decode r w P u members last y x) :
    Stopped decode w.beginScan.prepare r.accepted x ∧ x.counters = r.counters := by
  obtain ⟨b, shown, rfl⟩ := h.data
  have hs := h.stopped
  have hh := hs.holds
  refine ⟨⟨?_, ⟨hh.games, hh.begun, hh.fresh⟩, hs.prev, hs.prevCount, hs.listed⟩, h.counters⟩
  have := hs.sound
  exact ⟨this.servers_le, this.players_le, this.game, this.player, this.counted, this.current, this.prev_le,
    this.prev_counted⟩

theorem finish (decode : Decoder) (r : ScanRun) (w : WindowControls) (P : Call Session → Prop) (e : KeyValueInfo)
    (s : Session) (members : List (Call Session)) (hv : v.Sound) (hs : s.controls = .ok v)
    (hstop : Stopped decode w.beginScan.prepare r.accepted v)
    (hcount : v.counters = r.counters)
    (hacc : (members.filter fun c => c.code == 0).map (fun c => c.kvi.report) = r.accepted.map Item.report)
    (hn : ∃ n, members.map (fun c => c.before.calls) = List.range n) (hall : ∀ c ∈ members, P c)
    (he : e.status = .complete ∨ e.status = .error) : ∃ last x,
      Finished decode r w P (World.invoke (sessionCallback decode r.cancels) ⟨e, s, members⟩).2 members
        last v x := by
  obtain ⟨shown, hp⟩ := processEnd_ok (cancelled_sound r.cancels s hv) e
  have hp' : processSessionInfo decode e (cancelled r.cancels s v) = _ := (if_pos he).trans hp
  have hcall := sessionCallback_ok hs hp'
  refine ⟨_, _, ⟨invoke_calls _ _, hs, ?_, ?_, ?_, he, hp, hstop, hcount, hacc, hn, hall⟩⟩
  · rw [hcall]
  · simp [World.invoke, hcall]
  · rw [hcall]

theorem crashed_last {e : KeyValueInfo} {s : Session} {done : List Item} {k : Item}
    (hs : s.Crashed decode r.cancels w.beginScan.prepare done k) (he : e.status = .error)
    (htold : ∃ rest, r.members = done ++ k :: rest)
    (hacc : (members.filter fun c => c.code == 0).map (fun c => c.kvi.report) = done.map Item.report)
    (hn : ∃ n, members.map (fun c => c.before.calls) = List.range n) (hall : ∀ c ∈ members, P c) : ∃ last,
      Crashed decode r w P (World.invoke (sessionCallback decode r.cancels) ⟨e, s, members⟩).2 members
        last done k := by
  have hcall := sessionCallback_crashed decode r.cancels e hs.1
  refine ⟨_, invoke_calls _ _, ?_, ?_, ?_, ?_, he, htold, hacc, hn, hall⟩ <;> simp only [World.invoke, hcall]
  exact hs

theorem scan_ends (hw : w.Sound) {usingHttp : Bool} {garbage : KeyValueInfo} {opened : Except Message (List Read)}
    {code : Int} (husing : r.source.usingHttp = usingHttp)
    (hreads : r.source.reads = match opened with | .ok reads => reads | .error _ => []) (hi : r.Indexed)
    (h : scan (sessionCallback decode r.cancels) usingHttp garbage ⟨.ok w.beginScan.prepare, 0⟩ opened =
      .ok (code, u))
    (hP : Standing.Always decode r.cancels w.beginScan.prepare r.members P) : ∃ members last,
      (∃ y x, Finished decode r w P u members last y x) ∨ ∃ done k,
      Crashed decode r w P u members last done k := by
  have hstart := Standing.initial decode hw
  cases opened with
  | error m =>
    obtain ⟨-, rfl⟩ := Prod.mk.inj (Except.ok.inj h)
    have hmembers : r.members = [] := by rw [ScanRun.members, hreads]; rfl
    have hacc : r.accepted = [] := by rw [ScanRun.accepted, hmembers]; rfl
    have hcount : r.counters = ⟨0, 0⟩ := by rw [ScanRun.counters, hmembers]; rfl
    obtain ⟨last, x, hf⟩ := finish decode r w P { garbage with err := some m, status := .error }
      ⟨.ok w.beginScan.prepare, 0⟩ [] hw.prepare rfl (by rw [hacc]; exact hstart.stopped) (by rw [hcount]; rfl)
        (by rw [hacc]; rfl)
      ⟨0, rfl⟩ (by simp) (.inr rfl)
    exact ⟨[], last, .inl ⟨_, x, hf⟩⟩
  | ok reads =>
    rw [scan] at h
    cases hd : parseData (sessionCallback decode r.cancels) usingHttp ⟨.ok w.beginScan.prepare, 0⟩ reads with
    | error f => simp [hd, Except.map] at h
    | ok out =>
      obtain ⟨n, z⟩ := out
      simp only [hd, Except.map, Except.ok.injEq, reportEnd, Prod.mk.injEq] at h
      obtain ⟨-, rfl⟩ := h
      obtain ⟨t, ht, hcalls, hdata⟩ := parseData_calls hd
      have hmembers : ((Client.init usingHttp).run (received reads)).1.filter Item.delivered = r.members := by
        rw [ScanRun.members, husing, hreads]
      obtain ⟨t', done, hend, hnum, hacc, hall⟩ := foldlM_deliver_received (P := P)
        ((Client.init usingHttp).run_ordered (received reads))
          ((Client.init usingHttp).run_item_status _) hstart rfl
        (by rw [hmembers]; exact hi) (by rw [hmembers]; exact hP)
      rw [hmembers] at hend
      generalize ((Client.init usingHttp).run (received reads)).1.foldlM
        (deliver (sessionCallback decode r.cancels)) (World.init ⟨.ok w.beginScan.prepare, 0⟩) = out at hend ht
      have hfinish : ∀ {y : WindowControls}, t'.data.controls = .ok y → t' = t →
          Stopped decode w.beginScan.prepare done y →
          Counters.accepted r.cancels 0 ⟨0, 0⟩ r.members = (done, y.counters) → ∃ last x, Finished decode r w P
            (World.invoke (sessionCallback decode r.cancels)
              ⟨{ z.kvi with status := if n = 0 then .complete else .error }, z.data, z.calls⟩).2 z.calls
                last y x := by
        rintro y hy rfl hs hc
        have hrun : r.accepted = done ∧ r.counters = y.counters := by
          simp [ScanRun.accepted, ScanRun.counters, hc]
        rw [← hcalls] at hacc hnum hall
        exact finish decode r w P _ z.data z.calls hs.sound (hdata ▸ hy) (hrun.1 ▸ hs) hrun.2.symm
          (hrun.1 ▸ hacc) hnum
          hall (by by_cases hn : n = 0 <;> simp [hn])
      cases hend with
      | accepted hy hs hc =>
        obtain ⟨last, x, hf⟩ := hfinish hy (by simpa using ht) hs hc
        exact ⟨_, last, .inl ⟨_, x, hf⟩⟩
      | refused hsplit hy hs hc =>
        have hsame : t' = t ∧ n = 1 := by simpa using ht
        obtain ⟨last, x, hf⟩ := hfinish hy hsame.1 hs hc
        exact ⟨_, last, .inl ⟨_, x, hf⟩⟩
      | crashed hsplit hs =>
        obtain ⟨rfl, hone⟩ : t' = t ∧ n = 1 := by simpa using ht
        rw [← hdata] at hs
        rw [← hcalls] at hacc hnum hall
        obtain ⟨last, hf⟩ := crashed_last (e := { z.kvi with status := if n = 0 then .complete else .error }) hs
          (by simp [hone]) ⟨_, hsplit⟩ hacc hnum hall
        exact ⟨_, last, .inr ⟨_, _, hf⟩⟩

/-- Every scan ends with what its accepted members say in the window, or crashes. -/
theorem scanThread_ends (hw : w.Sound) {code : Int} (hi : r.Indexed)
    (h : scanThread decode r w.beginScan = .ok (code, u))
    (hP : Standing.Always decode r.cancels w.beginScan.prepare r.members P) : ∃ members last,
      (∃ y x, Finished decode r w P u members last y x) ∨ ∃ done k,
      Crashed decode r w P u members last done k := by
  rw [scanThread] at h
  cases hs : r.source with
  | file opened =>
    rw [hs] at h
    refine scan_ends hw (by rw [hs]; rfl) ?_ hi h hP
    rw [hs]
    cases opened <;> rfl
  | http connection =>
    rw [hs] at h
    refine scan_ends hw (by rw [hs]; rfl) ?_ hi h hP
    rw [hs]
    cases connection <;> rfl

theorem scanThread_finished (hw : w.Sound) {code : Int} (hi : r.Indexed)
    (h : scanThread decode r w.beginScan = .ok (code, u)) {v : WindowControls} (hu : u.data.controls = .ok v)
    (hP : Standing.Always decode r.cancels w.beginScan.prepare r.members P) :
    ∃ members last y, Finished decode r w P u members last y v := by
  obtain ⟨members, last, ⟨y, x, hf⟩ | ⟨done, k, hf⟩⟩ := scanThread_ends hw hi h hP
  · obtain rfl := Except.ok.inj (hf.window.symm.trans hu)
    exact ⟨members, last, y, hf⟩
  · cases hf.session.1.symm.trans hu

end finished

end BzccScanner
