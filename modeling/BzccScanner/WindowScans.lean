import BzccScanner.Runs
import BzccScanner.Window

/-! The scans of the window are those of `scanThread`: what the user does in
between amounts to a cancellation in front of one of the calls. -/

namespace BzccScanner

open Runs

theorem Item.kvi_congr (k : Item) {a b : KeyValueInfo} (h : a.err = b.err) : k.kvi a = k.kvi b := by
  simp only [Item.kvi, h]

theorem Source.reads_of_opened {source : Source} {reads : List Read} (h : source.opened = .ok reads) :
    source.reads = reads := by
  rcases source with (m | r) | (m | r) <;> cases h <;> rfl

theorem Source.reads_of_failed {source : Source} {m : Message} (h : source.opened = .error m) :
    source.reads = [] := by
  rcases source with (m | r) | (m | r) <;> cases h <;> rfl

theorem Counters.mem_reached_refuse {cancels : Nat → Bool} {n : Nat} {c d : Counters} {k l : Item}
    {ks : List Item} (h : Counters.accepted cancels n c [k] = ([], d))
    (hl : l ∈ Counters.reached cancels n c (k :: ks)) :
    cancels n = false ∧ l = k := by
  rw [Counters.reached] at hl
  rw [Counters.accepted] at h
  split_ifs at h hl with hc
  · cases hl
  · cases hk : c.step k with
    | none =>
      rw [hk] at hl
      exact ⟨by simpa using hc, List.mem_singleton.mp hl⟩
    | some e => simp [hk] at h

theorem scanThread_eq (decode : Decoder) (r : ScanRun) (w : WindowControls) : scanThread decode r w =
    scan (sessionCallback decode r.cancels) r.source.usingHttp r.garbage ⟨.ok w.prepare, 0⟩ r.source.opened := by
  rw [scanThread]
  cases r.source <;> rfl

/-- Of the record the last call reads the status and the error. -/
theorem processEnd_congr {e f : KeyValueInfo} (hs : f.status = e.status) (he : f.err = e.err) {w : WindowControls}
    {r : Reply WindowControls} (h : processEnd e w = .ok r) : processEnd f w = .ok ⟨1, f, r.data⟩ := by
  obtain ⟨changes, hc, hd⟩ := processEnd_eq h
  have htext : f.errText = e.errText := by rw [KeyValueInfo.errText, he, KeyValueInfo.errText]
  rw [hd, processEnd, hc, hs, htext]
  rfl

theorem foldlM_deliver_skips {σ : Type} (cb : Callback σ) {items : List Item}
    (h : ∀ k ∈ items, k.delivered = false) (w : World σ) :
    ∃ e : KeyValueInfo, items.foldlM (deliver cb) w = .ok { w with kvi := e } ∧ e.err = w.kvi.err := by
  induction items generalizing w with
  | nil => exact ⟨w.kvi, rfl, rfl⟩
  | cons k items ih =>
    obtain ⟨a, ha, herr⟩ := deliver_skip cb (h k (by simp)) w
    obtain ⟨e, he, herr'⟩ := ih (fun l hl => h l (by simp [hl])) { w with kvi := a }
    refine ⟨e, ?_, herr'.trans herr⟩
    rw [List.foldlM_cons, ha]
    exact he

/-- The window in front of a call, which the user may have cancelled. -/
def Pending (b : Bool) (x w : WindowControls) : Prop := w = if b then { x with iContinueScan := false } else x

theorem Pending.cancelled {b : Bool} {x w : WindowControls} (h : Pending b x w) {cancels : Nat → Bool}
    {s : Session} (hb : cancels s.calls = b) : BzccScanner.cancelled cancels s x = w := by
  rw [BzccScanner.cancelled, hb]
  exact h.symm

theorem Pending.cancel {b : Bool} {x w : WindowControls} (h : Pending b x w) :
    Pending true x { w with iContinueScan := false } := by
  rw [Pending] at h
  cases b <;> rw [h] <;> rfl

/-- The cancellations in front of the first `n` calls are those of `c`. -/
def Agrees (n : Nat) (c cancels : Nat → Bool) : Prop := ∀ i < n, cancels i = c i

/-- The cancellations `c`, and behind the first `n` calls one if `b` is set. -/
def cancelNext (n : Nat) (b : Bool) (c : Nat → Bool) : Nat → Bool := fun i => if i = n then b else c i

theorem Agrees.of_next {n : Nat} {b : Bool} {c cancels : Nat → Bool}
    (h : Agrees (n + 1) (cancelNext n b c) cancels) :
    Agrees n c cancels ∧ cancels n = b := by
  refine ⟨fun i hi => ?_, ?_⟩
  · rw [h i (by omega), cancelNext, if_neg (by omega)]
  · rw [h n (by omega), cancelNext, if_pos rfl]

namespace Scanning

/-- The members `told` are those that every scan with these cancellations
reaches first, and it accepts them. -/
structure Shared (decode : Decoder) (start : WindowControls) (n : Nat) (c : Nat → Bool) (told : List Item)
    (x : WindowControls) : Prop where
  standing : Standing decode start told x
  count : told.length = n
  indexed : ∀ k ∈ told, k.Indexed
  reached : ∀ cancels, Agrees n c cancels → ∀ rest,
    Counters.reached cancels 0 ⟨0, 0⟩ (told ++ rest) = told ++ Counters.reached cancels n x.counters rest

/-- `parse_data` is between two reads, or between two calls: `done` is delivered. -/
def Midway (decode : Decoder) (start : WindowControls) (usingHttp : Bool) (reads : List Read) (s : Scanning)
    (w : WindowControls) : Prop :=
  ∃ done rest n c x b, ((Client.init usingHttp).run (received reads)).1 = done ++ rest ∧
    s.todo = rest.filter Item.delivered ∧
    s.ending = parseEnding (failure reads) ((Client.init usingHttp).run (received reads)).2 ∧ Pending b x w ∧
    Shared decode start n c (done.filter Item.delivered) x ∧
    ∀ cancels, Agrees n c cancels → ∃ u,
      done.foldlM (deliver (sessionCallback decode cancels)) (World.init ⟨.ok start, 0⟩) = .ok u ∧
        u.data = ⟨.ok x, n⟩ ∧ u.kvi.err = s.kvi.err

/-- Nothing but the last call is left. -/
def AtEnd (decode : Decoder) (start : WindowControls) (source : Source) (garbage : KeyValueInfo) (s : Scanning)
    (w : WindowControls) : Prop :=
  s.todo = [] ∧ ∀ code m, s.ending = .ok (code, m) → ∃ n c x b, Pending b x w ∧
    ∀ cancels, Agrees n c cancels → ScanRun.Indexed ⟨source, garbage, cancels⟩ ∧ ∃ z : World Session,
      scan (sessionCallback decode cancels) source.usingHttp garbage ⟨.ok start, 0⟩ source.opened =
        .ok (code, (z.invoke (sessionCallback decode cancels)).2) ∧
      z.data = ⟨.ok x, n⟩ ∧ z.kvi.err = (m <|> s.kvi.err) ∧ z.kvi.status = if code = 0 then .complete else .error

variable {decode : Decoder} {start w v : WindowControls} {usingHttp : Bool} {reads : List Read} {s t : Scanning}
  {k : Item} {todo : List Item} {source : Source} {garbage : KeyValueInfo}

theorem Midway.cancel (h : s.Midway decode start usingHttp reads w) :
    s.Midway decode start usingHttp reads { w with iContinueScan := false } := by
  obtain ⟨done, rest, n, c, x, b, hsplit, htodo, hend, hb, hreach, hu⟩ := h
  exact ⟨done, rest, n, c, x, true, hsplit, htodo, hend, hb.cancel, hreach, hu⟩

theorem AtEnd.cancel (h : s.AtEnd decode start source garbage w) :
    s.AtEnd decode start source garbage { w with iContinueScan := false } := by
  refine ⟨h.1, fun code m he => ?_⟩
  obtain ⟨n, c, x, b, hb, hz⟩ := h.2 code m he
  exact ⟨n, c, x, true, hb.cancel, hz⟩

theorem members_of_opened (hopen : source.opened = .ok reads) (garbage : KeyValueInfo) (cancels : Nat → Bool) :
    ScanRun.members ⟨source, garbage, cancels⟩ =
      ((Client.init source.usingHttp).run (received reads)).1.filter Item.delivered := by
  rw [ScanRun.members, Source.reads_of_opened hopen]

/-- Behind the last member `parse_data` returns what the run over the bytes ends with. -/
theorem Midway.atEnd (h : s.Midway decode start source.usingHttp reads w) (hopen : source.opened = .ok reads)
    (hnil : s.todo = []) : s.AtEnd decode start source garbage w := by
  obtain ⟨done, rest, n, c, x, b, hsplit, htodo, hend, hb, hreach, hu⟩ := h
  refine ⟨hnil, fun code m he => ⟨n, c, x, b, hb, fun cancels hc => ⟨?_, ?_⟩⟩⟩
  · rw [ScanRun.Indexed, members_of_opened hopen, hsplit, List.filter_append, ← htodo, hnil,
      hreach.reached cancels hc]
    simpa [Counters.reached] using hreach.indexed
  obtain ⟨u, hfold, hdata, herr⟩ := hu cancels hc
  obtain ⟨e, hskip, herr'⟩ := foldlM_deliver_skips (sessionCallback decode cancels)
    (fun k hk => by simpa using List.filter_eq_nil_iff.mp (htodo.symm.trans hnil) k hk) u
  have hall : ((Client.init source.usingHttp).run (received reads)).1.foldlM
      (deliver (sessionCallback decode cancels))
      (World.init ⟨.ok start, 0⟩) = .ok { u with kvi := e } := by
    rw [hsplit, List.foldlM_append, hfold]
    exact hskip
  have hs : e.err = s.kvi.err := herr'.trans herr
  rw [hend] at he
  rw [hopen, scan, parseData_received, drain, hall]
  cases hout : ((Client.init source.usingHttp).run (received reads)).2 with
  | ok q =>
    rw [hout] at he
    cases hf : failure reads with
    | none =>
      rw [hf] at he
      obtain ⟨rfl, rfl⟩ := Prod.mk.inj (Except.ok.inj he)
      exact ⟨_, rfl, hdata, hs, rfl⟩
    | some f =>
      rw [hf] at he
      obtain ⟨rfl, rfl⟩ := Prod.mk.inj (Except.ok.inj he)
      exact ⟨_, rfl, hdata, rfl, rfl⟩
  | error e' =>
    rw [hout] at he
    rcases e' with ⟨ret, _ | f⟩ | f
    · obtain ⟨rfl, rfl⟩ := Prod.mk.inj (Except.ok.inj he)
      exact ⟨_, rfl, hdata, hs, rfl⟩
    · obtain ⟨rfl, rfl⟩ := Prod.mk.inj (Except.ok.inj he)
      exact ⟨_, rfl, hdata, rfl, rfl⟩
    · cases he

/-- The next member, of which the index is looked at only in a scan that is not cancelled. -/
theorem Shared.step {n : Nat} {c : Nat → Bool} {told : List Item} {x : WindowControls} {b : Bool}
    {r : Reply WindowControls} {e : KeyValueInfo} (h : Shared decode start n c told x) (hb : Pending b x w)
    (ho : ∀ l ∈ told.getLast?, l.Precedes k) (hst : k.status = .normal ∨ k.status = .last)
    (hi : w.iContinueScan = true → k.Indexed) (hp : processSessionInfo decode (k.kvi e) w = .ok r) :
    (r.code = 0 → Shared decode start (n + 1) (cancelNext n b c) (told ++ [k]) r.data) ∧
    (r.code ≠ 0 → ∀ cancels, Agrees (n + 1) (cancelNext n b c) cancels → ∀ rest,
      ∀ l ∈ Counters.reached cancels 0 ⟨0, 0⟩ (told ++ k :: rest), l.Indexed) := by
  have hindexed : ∀ cancels, Agrees (n + 1) (cancelNext n b c) cancels → cancels told.length = false →
      k.Indexed := by
    intro cancels hc hfalse
    rw [h.count, hc.of_next.2] at hfalse
    rw [Pending, hfalse] at hb
    exact hi (hb ▸ h.standing.continues)
  have hstep : ∀ cancels, Agrees (n + 1) (cancelNext n b c) cancels →
      Standing.Step decode cancels start told k x r := by
    intro cancels hc
    have hw : cancelled cancels ⟨.ok x, told.length⟩ x = w := hb.cancelled (by rw [h.count, hc.of_next.2])
    rcases h.standing.step e cancels ho hst (hindexed cancels hc) with ⟨r', hp', hs⟩ | ⟨hp', -⟩ <;> rw [hw] at hp'
    · obtain rfl := Except.ok.inj (hp'.symm.trans hp)
      exact hs
    · cases hp'.symm.trans hp
  refine ⟨fun h0 => ?_, fun h0 cancels hc rest l hl => ?_⟩
  · have hself : Agrees (n + 1) (cancelNext n b c) (cancelNext n b c) := fun i _ => rfl
    obtain ⟨hfalse, -, hs⟩ := (hstep _ hself).accept h0
    refine ⟨hs, by simp [h.count], ?_, fun cancels hc rest => ?_⟩
    · rw [List.forall_mem_append, List.forall_mem_singleton]
      exact ⟨h.indexed, hindexed _ hself hfalse⟩
    · obtain ⟨hfalse, hk, -⟩ := (hstep cancels hc).accept h0
      rw [h.count] at hfalse
      rw [List.append_assoc, List.singleton_append, h.reached cancels hc.of_next.1,
        Counters.reached_cons_accept hfalse hk, List.append_assoc, List.singleton_append]
  · rw [h.reached cancels hc.of_next.1] at hl
    rcases List.mem_append.mp hl with hl | hl
    · exact h.indexed l hl
    · have hrefuse := ((hstep cancels hc).refuse h0).2
      rw [h.count] at hrefuse
      obtain ⟨hfalse, rfl⟩ := Counters.mem_reached_refuse hrefuse hl
      exact hindexed cancels hc (by rw [h.count, hfalse])

theorem Midway.report (h : s.Midway decode start source.usingHttp reads w) (hopen : source.opened = .ok reads)
    (hindexed : s.Indexed w) (htodo : s.todo = k :: todo) (hr : s.report decode k todo w = .ok (t, v)) :
    t.Midway decode start source.usingHttp reads v ∨ t.AtEnd decode start source garbage v := by
  obtain ⟨done, rest, n, c, x, b, hsplit, hrest, hend, hb, hreach, hu⟩ := h
  obtain ⟨skipped, rest, rfl, hskipped, hk, rfl⟩ := List.filter_eq_cons_iff.mp (hrest.symm.trans htodo)
  obtain ⟨r, hp, hr⟩ := bind_eq_ok.mp hr
  have hall := hsplit
  have htold : (done ++ skipped ++ [k]).filter Item.delivered = done.filter Item.delivered ++ [k] := by
    simp [List.filter_eq_nil_iff.mpr hskipped, hk]
  have hordered := ((Client.init source.usingHttp).run_ordered (received reads)).filter Item.delivered
  have hstatus := (Client.init source.usingHttp).run_item_status (received reads) k (by rw [hsplit]; simp)
  rw [hsplit, List.filter_append, ← hrest, htodo] at hordered
  obtain ⟨haccept, hrefuse⟩ := hreach.step hb (getLast?_precedes hordered rfl) hstatus
    (fun hc => hindexed hc k (by simp [htodo])) hp
  -- The window's call is the one that the callback makes of the scan.
  have hcall : ∀ cancels, Agrees (n + 1) (cancelNext n b c) cancels → ∃ u,
      (done ++ skipped).foldlM (deliver (sessionCallback decode cancels)) (World.init ⟨.ok start, 0⟩) = .ok u ∧
        sessionCallback decode cancels (k.kvi u.kvi) u.data = ⟨r.code, r.kvi, ⟨.ok r.data, n + 1⟩⟩ := by
    intro cancels hc
    obtain ⟨hbefore, hnext⟩ := hc.of_next
    obtain ⟨u, hfold, hdata, herr⟩ := hu cancels hbefore
    obtain ⟨e, hskip, herr'⟩ := foldlM_deliver_skips (sessionCallback decode cancels)
      (fun l hl => by simpa using hskipped l hl) u
    refine ⟨{ u with kvi := e }, ?_, ?_⟩
    · rw [List.foldlM_append, hfold]
      exact hskip
    · have hw : cancelled cancels ⟨.ok x, n⟩ x = w := hb.cancelled hnext
      rw [k.kvi_congr (herr'.trans herr), hdata]
      exact sessionCallback_ok rfl (hw.symm ▸ hp)
  have hsplit' : ((Client.init source.usingHttp).run (received reads)).1 = (done ++ skipped ++ [k]) ++ rest := by
    rw [hsplit]
    simp
  by_cases h0 : r.code = 0
  · rw [if_neg (by simpa using h0)] at hr
    obtain ⟨rfl, rfl⟩ := Prod.mk.inj (Except.ok.inj hr)
    refine .inl ⟨done ++ skipped ++ [k], rest, n + 1, cancelNext n b c, r.data, false, hsplit', rfl, hend, rfl,
      htold ▸ haccept h0, ?_⟩
    intro cancels hc
    obtain ⟨u, hfold, hcb⟩ := hcall cancels hc
    refine ⟨({ u with kvi := k.kvi u.kvi }.invoke (sessionCallback decode cancels)).2, ?_, ?_, ?_⟩
    · rw [List.foldlM_append, hfold]
      show List.foldlM (deliver (sessionCallback decode cancels)) u [k] = _
      rw [List.foldlM_cons, deliver_call hk, hcb, if_neg (by simpa using h0)]
      rfl
    · simp [World.invoke, hcb]
    · simp [World.invoke, hcb]
  · rw [if_pos h0] at hr
    obtain ⟨rfl, rfl⟩ := Prod.mk.inj (Except.ok.inj hr)
    refine .inr ⟨rfl, fun code m he => ?_⟩
    obtain ⟨rfl, rfl⟩ := Prod.mk.inj (Except.ok.inj he)
    refine ⟨n + 1, cancelNext n b c, r.data, false, rfl, fun cancels hc => ⟨?_, ?_⟩⟩
    · rw [ScanRun.Indexed, members_of_opened hopen, hall, List.filter_append, ← hrest, htodo]
      exact hrefuse h0 cancels hc _
    obtain ⟨u, hfold, hcb⟩ := hcall cancels hc
    have hall : ((Client.init source.usingHttp).run (received reads)).1.foldlM
      (deliver (sessionCallback decode cancels))
        (World.init ⟨.ok start, 0⟩) =
          .error (.ret 1 ({ u with kvi := k.kvi u.kvi }.invoke (sessionCallback decode cancels)).2) := by
      rw [hsplit', List.append_assoc, List.foldlM_append, hfold]
      show List.foldlM (deliver (sessionCallback decode cancels)) u (k :: rest) = _
      rw [List.foldlM_cons, deliver_call hk, hcb, if_pos h0]
      rfl
    rw [hopen, scan, parseData_received, drain, hall]
    refine ⟨_, rfl, ?_, ?_, rfl⟩
    · simp [World.invoke, hcb]
    · simp [World.invoke, hcb]

/-- The last call of the window's scan ends a scan of `scanThread`. -/
theorem AtEnd.terminal {code : Int} {m : Option Message} {x : WindowControls}
    (h : s.AtEnd decode x.beginScan.prepare source garbage w) (he : s.ending = .ok (code, m))
    (ht : s.terminal decode code m w = .ok v) : ∃ cancels ret u, ScanRun.Indexed ⟨source, garbage, cancels⟩ ∧
      scanThread decode ⟨source, garbage, cancels⟩ x.beginScan = .ok (ret, u) ∧ u.data.controls = .ok v := by
  obtain ⟨n, c, y, b, hb, hz⟩ := h.2 code m he
  have hagrees : Agrees n c (cancelNext n b c) := fun i hi => by rw [cancelNext, if_neg (by omega)]
  obtain ⟨hindexed, z, hscan, hdata, herr, hstatus⟩ := hz (cancelNext n b c) hagrees
  obtain ⟨r, hp, ht⟩ := bind_eq_ok.mp ht
  obtain rfl := Except.ok.inj ht
  have hends : z.kvi.status = .complete ∨ z.kvi.status = .error := by
    rw [hstatus]
    by_cases h0 : code = 0 <;> simp [h0]
  have hp : processEnd _ w = .ok r := (if_pos (hstatus ▸ hends)).symm.trans hp
  have hcongr : processSessionInfo decode z.kvi w = .ok ⟨1, z.kvi, r.data⟩ :=
    (if_pos hends).trans (processEnd_congr hstatus herr hp)
  refine ⟨cancelNext n b c, code, _, hindexed, (scanThread_eq _ _ _).trans hscan, ?_⟩
  have hw : cancelled (cancelNext n b c) ⟨.ok y, n⟩ y = w := hb.cancelled (if_pos rfl)
  have hcall : sessionCallback decode (cancelNext n b c) z.kvi ⟨.ok y, n⟩ = ⟨1, z.kvi, ⟨.ok r.data, n + 1⟩⟩ :=
    sessionCallback_ok rfl (hw.symm ▸ hcongr)
  simp [World.invoke, hdata, hcall]

/-- A scan of `scanThread` from the window `x`, which has come to `s` and the window `w`. -/
def Follows (decode : Decoder) (x : WindowControls) (s : Scanning) (w : WindowControls) : Prop :=
  ∃ source garbage, (∃ reads, source.opened = .ok reads ∧
      s.Midway decode x.beginScan.prepare source.usingHttp reads w) ∨
    s.AtEnd decode x.beginScan.prepare source garbage w

variable {x : WindowControls}

theorem start_follows (source : Source) (garbage : KeyValueInfo) (hx : x.Sound) (b : Bool) :
    (Scanning.start source garbage).Follows decode x { x.beginScan.prepare with iContinueScan := b } := by
  have hb : Pending (!b) x.beginScan.prepare { x.beginScan.prepare with iContinueScan := b } := by
    cases b <;> rfl
  refine ⟨source, garbage, ?_⟩
  rw [Scanning.start]
  cases hopen : source.opened with
  | ok reads =>
    refine .inl ⟨reads, rfl, [], _, 0, fun _ => false, x.beginScan.prepare, !b, rfl, rfl, rfl, hb,
      ⟨.initial decode hx, rfl, by simp, fun _ _ _ => rfl⟩, fun cancels _ => ?_⟩
    exact ⟨_, rfl, rfl, rfl⟩
  | error m =>
    refine .inr ⟨rfl, fun code m' he => ?_⟩
    obtain ⟨rfl, rfl⟩ := Prod.mk.inj (Except.ok.inj he)
    refine ⟨0, fun _ => false, x.beginScan.prepare, !b, hb, fun cancels _ => ⟨?_, ?_⟩⟩
    · have hmembers : ScanRun.members ⟨source, garbage, cancels⟩ = [] := by
        rw [ScanRun.members, Source.reads_of_failed hopen]
        rfl
      simp [ScanRun.Indexed, hmembers, Counters.reached]
    rw [hopen]
    exact ⟨_, rfl, rfl, rfl, rfl⟩

theorem Follows.cancel (h : s.Follows decode x w) : s.Follows decode x { w with iContinueScan := false } := by
  obtain ⟨source, garbage, ⟨reads, hopen, hmid⟩ | hend⟩ := h
  · exact ⟨source, garbage, .inl ⟨reads, hopen, hmid.cancel⟩⟩
  · exact ⟨source, garbage, .inr hend.cancel⟩

theorem Follows.report (h : s.Follows decode x w) (hindexed : s.Indexed w) (htodo : s.todo = k :: todo)
    (hr : s.report decode k todo w = .ok (t, v)) : t.Follows decode x v := by
  obtain ⟨source, garbage, ⟨reads, hopen, hmid⟩ | hend⟩ := h
  · exact ⟨source, garbage, (hmid.report hopen hindexed htodo hr).imp_left fun hmid => ⟨reads, hopen, hmid⟩⟩
  · exact absurd (hend.1.symm.trans htodo) (by simp)

theorem Follows.terminal {code : Int} {m : Option Message} (h : s.Follows decode x w) (htodo : s.todo = [])
    (he : s.ending = .ok (code, m)) (ht : s.terminal decode code m w = .ok v) (hx : x.Reachable decode) :
    v.Reachable decode := by
  obtain ⟨source, garbage, hscan⟩ := h
  have hend : s.AtEnd decode x.beginScan.prepare source garbage w := by
    rcases hscan with ⟨reads, hopen, hmid⟩ | hend
    · exact hmid.atEnd hopen htodo
    · exact hend
  obtain ⟨cancels, ret, u, hi, hu, hv⟩ := hend.terminal he ht
  exact hx.scan hi hu hv

end Scanning

/-- Between the scans the window is one that `scanThread` leaves, and in a scan it follows one. -/
structure Window.Scans (decode : Decoder) (w : Window) : Prop where
  running : w.hScan = w.thread.isSome
  before : (∀ s, w.thread ≠ some (.scanning s)) →
    ∃ (x : WindowControls) (b : Bool), x.Reachable decode ∧ w.controls = { x with iContinueScan := b }
  scanning : ∀ s, w.thread = some (.scanning s) →
    ∃ x : WindowControls, x.Reachable decode ∧ s.Follows decode x w.controls

namespace Window

variable {decode : Decoder} {o : Outcomes} {v w : Window}

theorem start_scans (decode : Decoder) (registry : Registry) (autoNickSave autoScan : Bool) (delay : UInt32) :
    (start registry autoNickSave autoScan delay).Scans decode :=
  ⟨rfl, fun _ => ⟨.zero, false, .start, rfl⟩, by simp [start]⟩

theorem Scans.congr (h : w.Scans decode) (hc : v.controls = w.controls) (ht : v.thread = w.thread)
    (hs : v.hScan = w.hScan) : v.Scans decode := by
  refine ⟨?_, ?_, ?_⟩
  · rw [hs, ht]
    exact h.running
  · rw [ht, hc]
    exact h.before
  · rw [ht, hc]
    exact h.scanning

theorem Lists.scans (hl : w.Lists v) (h : w.Scans decode) :
    v.Scans decode := h.congr hl.controls hl.thread hl.hScan

theorem Scans.cancelScan (h : w.Scans decode) : w.cancelScan.Scans decode := by
  refine ⟨h.running, fun ht => ?_, fun s ht => ?_⟩
  · obtain ⟨x, b, hx, hw⟩ := h.before ht
    exact ⟨x, false, hx, by rw [Window.cancelScan, hw]⟩
  · obtain ⟨x, hx, hf⟩ := h.scanning s ht
    exact ⟨x, hx, hf.cancel⟩

theorem Scans.beginScan (o : Outcomes) (h : w.Scans decode) (hs : w.hScan = false) :
    (w.beginScan o).Scans decode := by
  obtain ⟨log, he⟩ := beginScan_eq o w
  have hnone : w.thread = none := by
    rw [h.running] at hs
    simpa using hs
  rw [he]
  refine ⟨Option.isSome_map.symm, fun _ => ?_, fun s ht => ?_⟩
  · obtain ⟨x, b, hx, hw⟩ := h.before (by simp [hnone])
    exact ⟨x, true, hx, by rw [hw]; rfl⟩
  · obtain ⟨c, -, hc⟩ := Option.map_eq_some_iff.mp ht
    cases hc

theorem Scans.refresh (o : Outcomes) (h : w.Scans decode) : (w.refresh o).Scans decode := by
  rw [Window.refresh]
  split_ifs with _ hs
  · exact h
  · exact h.cancelScan
  · exact h
  · exact h.beginScan o (by simpa using hs)

theorem Scans.leaveDlg (o : Outcomes) (h : w.Scans decode) : (w.leaveDlg o).Scans decode := by
  rcases leaveDlg_cases o w with ⟨-, -, he⟩ | he <;> rw [he] <;> exact h.congr rfl rfl rfl

theorem Scans.scan (h : w.Scans decode) (hi : w.Indexed .scan) (hv : w.scan decode o = some v) :
    v.Scans decode := by
  rcases scan_cases hv with ⟨source, garbage, ht, rfl⟩ | ⟨s, k, todo, r, ht, htodo, hr, rfl⟩ |
    ⟨s, code, m, x, ht, htodo, he, hx, rfl⟩
  · obtain ⟨y, b, hy, hw⟩ := h.before (by simp [ht])
    refine ⟨by rw [h.running, ht]; rfl, fun hs => absurd rfl (hs _), fun s hs => ⟨y, hy, ?_⟩⟩
    cases hs
    rw [hw]
    exact Scanning.start_follows source garbage hy.sound b
  · obtain ⟨y, hy, hf⟩ := h.scanning s ht
    refine ⟨by rw [reported, h.running, ht]; rfl, fun hs => absurd rfl (hs _), fun t hs => ⟨y, hy, ?_⟩⟩
    cases hs
    exact hf.report (hi rfl s ht) htodo hr
  · obtain ⟨y, hy, hf⟩ := h.scanning s ht
    have hends := hf.terminal htodo he hx hy
    have hended : { w with controls := x, hScan := false, thread := none }.Scans decode :=
      ⟨rfl, fun _ => ⟨x, x.iContinueScan, hends, rfl⟩, fun _ hs => by cases hs⟩
    rcases endScan_cases o { w with controls := x } with ⟨-, he⟩ | ⟨-, -, he⟩ | ⟨-, -, he⟩ <;> rw [he]
    · exact hended.congr rfl rfl rfl
    · exact hended.congr rfl rfl rfl
    · exact hended

theorem Scans.step {a : Action × Outcomes} (h : w.Scans decode) (hi : w.Indexed a.1)
    (hv : w.step decode a = some v) : v.Scans decode := by
  obtain ⟨a, o⟩ := a
  rcases step_cases hv with ⟨-, ⟨rfl, hscan⟩ | ⟨m, rfl, he⟩⟩
  · exact h.scan hi hscan
  · cases he with
    | refresh => exact h.refresh o
    | tick => exact h.refresh o
    | postpone => exact h.congr rfl rfl rfl
    | close =>
      rcases close_cases w with he | he
      · rw [he]
        exact h.cancelScan.congr rfl rfl rfl
      · rw [he]
        exact h.congr rfl rfl rfl
    | openDlg p => exact h.congr rfl rfl rfl
    | leaveDlg _ _ hv => exact hv.lists.scans (h.leaveDlg o)
    | selects _ hv => exact hv.lists.scans h
    | clickAutoScan =>
      obtain ⟨i, armed, log, he⟩ := clickAutoScan_eq o w
      rw [he]
      exact h.congr rfl rfl rfl
    | apply input =>
      obtain ⟨i, armed, log, he⟩ := clickAutoScanTimeApply_eq o input w
      rw [he]
      exact h.congr rfl rfl rfl

end Window

/-- In every run, the games that the window has between two scans are what scans of `scanThread` leave. -/
theorem run_reachable {decode : Decoder} {registry : Registry} {autoNickSave autoScan : Bool} {delay : UInt32}
    {moves : List (Move Window (Action × Outcomes))} {v : Window}
    (h : Run (Window.step decode) (.start registry autoNickSave autoScan delay) moves v)
    (hindexed : ∀ m ∈ moves, m.source.Indexed m.action.1) (hidle : v.thread = none) :
    ∃ (x : WindowControls) (b : Bool), x.Reachable decode ∧ v.controls = { x with iContinueScan := b } := by
  have hscans := (h.invariant (P := fun w a => w.Indexed a.1) (fun _ _ _ hs hi hstep => hs.step hi hstep)
    (Window.start_scans decode registry autoNickSave autoScan delay) hindexed).1
  exact hscans.before (by simp [hidle])

end BzccScanner
