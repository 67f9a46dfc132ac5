import BzccScanner.ParserSafety

/-! A stream in pieces: however it is divided into reads, `parse_data` is the
reader's run over the whole stream followed by the delivery of its items. -/

namespace BzccScanner

open CString Mealy

/-- A way to receive `bytes`: non-empty reads that fit the receive buffer. -/
structure Division (bytes : List Byte) where
  chunks : List (List Byte)
  sized : ∀ b ∈ chunks, b ≠ [] ∧ b.length ≤ recvBuflen
  joined : chunks.flatten = bytes

def Division.reads {bytes : List Byte} (d : Division bytes) : List Read := d.chunks.map .data

def Division.single (bytes : List Byte) : Division bytes where
  chunks := bytes.map fun c => [c]
  sized := by simp [recvBuflen]
  joined := by induction bytes with
    | nil => rfl
    | cons c bytes ih => simp [ih]

variable {σ : Type} {cb : Callback σ}

def finishLoop : Loop σ (Parser × World σ) → Ending σ
  | .ok q => .eof q.1 q.2
  | .error e => .exit e

theorem readLoop_chunks (q : Parser × World σ) (chunks : List (List Byte)) (hne : ∀ b ∈ chunks, b ≠ []) :
    readLoop cb q (chunks.map .data) = finishLoop (chunks.flatten.foldlM (readByte cb) q) := by
  induction chunks generalizing q with
  | nil => rfl
  | cons b chunks ih =>
    obtain ⟨c, bs, rfl⟩ := List.exists_cons_of_ne_nil (hne b (by simp))
    rw [List.map_cons, readLoop, List.flatten_cons, List.foldlM_append]
    cases (c :: bs).foldlM (readByte cb) q with
    | error e => rfl
    | ok q' => exact ih q' fun b hb => hne b (by simp [hb])

def drain (cb : Callback σ) (data : σ) (out : List Item × Except Stop Client) : Loop σ (Client × World σ) := do
  let w ← out.1.foldlM (deliver cb) (World.init data)
  match out.2 with
  | .ok s => .ok (s, w)
  | .error e => .error (e.exit w)

theorem foldlM_driveByte (s : Client) (data : σ) (bytes : List Byte) :
    bytes.foldlM (driveByte cb) (s, World.init data) = drain cb data (s.run bytes) := by
  rw [drain, driveByte, foldlM_drive]
  cases (s.run bytes).1.foldlM (deliver cb) (World.init data) with
  | error e => rfl
  | ok w => cases (s.run bytes).2 <;> rfl

theorem drain_eq_ok {data : σ} {out : List Item × Except Stop Client} {q : Client × World σ} :
    drain cb data out = .ok q ↔ out.1.foldlM (deliver cb) (World.init data) = .ok q.2 ∧ out.2 = .ok q.1 := by
  rw [drain]
  cases out.1.foldlM (deliver cb) (World.init data) with
  | error e => simp [bind, Except.bind]
  | ok w =>
    cases out.2 with
    | error e => simp [bind, Except.bind]
    | ok s => simp [bind, Except.bind, Prod.ext_iff, and_comm]

/-- However a stream is divided, `parse_data` ends as the delivery of the run over it does. -/
theorem parseDataEnding_cases (cb : Callback σ) (usingHttp : Bool) (data : σ) {bytes : List Byte}
    (d : Division bytes) :
    (∃ p s w, parseDataEnding cb usingHttp data d.reads = .eof p w ∧ Refines p s ∧
      drain cb data ((Client.init usingHttp).run bytes) = .ok (s, w)) ∨
    ∃ e, parseDataEnding cb usingHttp data d.reads = .exit e ∧
      drain cb data ((Client.init usingHttp).run bytes) = .error e := by
  have hne : ∀ b ∈ d.chunks, b ≠ [] := fun b hb => (d.sized b hb).1
  have hx : parseDataEnding cb usingHttp data d.reads = finishLoop (bytes.foldlM (readByte cb) _) :=
    d.joined ▸ readLoop_chunks _ _ hne
  have ha := Agree.foldlM (fun _ _ c h => readByte_tracks cb h c) (init_tracks usingHttp data) bytes
  rw [foldlM_driveByte] at ha
  generalize drain cb data ((Client.init usingHttp).run bytes) = y at ha ⊢
  generalize bytes.foldlM (readByte cb) _ = x at ha hx
  cases ha with
  | error e => exact .inr ⟨e, hx, rfl⟩
  | @ok q t h =>
    refine .inl ⟨q.1, t.1, q.2, hx, h.1.1, ?_⟩
    rw [h.1.2]

def conclude : Loop σ (Client × World σ) → Except Fault (Int × World σ)
  | .ok t => .ok (0, t.2)
  | .error e => (Ending.exit e).result

theorem parseData_eq (cb : Callback σ) (usingHttp : Bool) (data : σ) {bytes : List Byte}
    (d : Division bytes) : parseData cb usingHttp data d.reads =
      conclude (drain cb data ((Client.init usingHttp).run bytes)) := by
  rcases parseDataEnding_cases cb usingHttp data d with ⟨p, s, w, hx, -, hd⟩ | ⟨e, hx, hd⟩
  · rw [parseData, hx, hd]
    rfl
  · rw [parseData, hx, hd]
    rfl

/-- What the callback is told, apart from the error text. -/
structure Report where
  status : Status
  isPlayer : Bool
  key : List Byte
  value : List Byte
  serverIndex : Int32
  playerIndex : Int32
  deriving DecidableEq, Repr

def KeyValueInfo.report (k : KeyValueInfo) : Report :=
  ⟨k.status, k.isPlayer, cstr k.keyStr.toList, cstr k.valueStr.toList, k.serverIndex, k.playerIndex⟩

namespace Item

def delivered (i : Item) : Bool := i.depth == 3 || i.depth == 5

def kvi (i : Item) (k : KeyValueInfo) : KeyValueInfo where
  status := i.status
  err := k.err
  isPlayer := i.depth == 5
  keyStr := strncpy keyStrLen i.key
  valueStr := strncpy valueStrLen i.value
  serverIndex := Int32.ofNat i.serverIndex
  playerIndex := Int32.ofNat i.playerIndex

def report (i : Item) : Report := (i.kvi .zero).report

theorem kvi_report (i : Item) (k : KeyValueInfo) : (i.kvi k).report = i.report := rfl

end Item

theorem deliver_skip (cb : Callback σ) {i : Item} (h : i.delivered = false) (w : World σ) : ∃ k : KeyValueInfo,
    deliver cb w i = .ok { w with kvi := k } ∧ k.err = w.kvi.err := by
  simp only [Item.delivered, Bool.or_eq_false_iff, beq_eq_false_iff_ne] at h
  have hd : ¬ ((i.depth : Int) = 3 ∨ (i.depth : Int) = 5) := by omega
  rw [deliver, World.report, if_neg hd]
  exact ⟨_, rfl, rfl⟩

theorem deliver_call {i : Item} (h : i.delivered = true) (w : World σ) :
    deliver cb w i = if ((cb (i.kvi w.kvi) w.data).code) ≠ 0
      then .error (.ret 1 ({ w with kvi := i.kvi w.kvi }.invoke cb).2)
      else .ok ({ w with kvi := i.kvi w.kvi }.invoke cb).2 := by
  simp only [Item.delivered, Bool.or_eq_true, beq_iff_eq] at h
  have hd : (i.depth : Int) = 3 ∨ (i.depth : Int) = 5 := by omega
  have hp : ((i.depth : Int) == 5) = (i.depth == 5) := by
    rw [Bool.eq_iff_iff, beq_iff_eq, beq_iff_eq]
    omega
  rw [deliver, World.report, if_pos hd]
  simp only [hp]
  rfl

theorem invoke_calls (cb : Callback σ) (w : World σ) :
    (w.invoke cb).2.calls = w.calls ++ [⟨w.kvi, w.data, (cb w.kvi w.data).code, (cb w.kvi w.data).data⟩] := rfl

theorem forall_invoke_calls {cb : Callback σ} {w : World σ} {P : Call σ → Prop} (h : ∀ c ∈ w.calls, P c)
    (hlast : P ⟨w.kvi, w.data, (cb w.kvi w.data).code, (cb w.kvi w.data).data⟩) :
    ∀ c ∈ (w.invoke cb).2.calls, P c := by
  rw [invoke_calls, List.forall_mem_append, List.forall_mem_singleton]
  exact ⟨h, hlast⟩

/-- `J` holds between the calls when the accepted ones keep it; `K` holds behind a refused one. -/
theorem foldlM_deliver_rule (cb : Callback σ) {J : List Item → World σ → Prop}
    {K : List Item → Item → World σ → Prop} (items : List Item)
    (hskip : ∀ done w e, J done w → J done { w with kvi := e })
    (haccept : ∀ done k rest w, items.filter Item.delivered = done ++ k :: rest → J done w →
      (cb (k.kvi w.kvi) w.data).code = 0 → J (done ++ [k]) ({ w with kvi := k.kvi w.kvi }.invoke cb).2)
    (hrefuse : ∀ done k rest w, items.filter Item.delivered = done ++ k :: rest → J done w →
      (cb (k.kvi w.kvi) w.data).code ≠ 0 → K done k ({ w with kvi := k.kvi w.kvi }.invoke cb).2)
    {w : World σ} (h : J [] w) :
    (∃ v, items.foldlM (deliver cb) w = .ok v ∧ J (items.filter Item.delivered) v) ∨
    ∃ done k rest v, items.filter Item.delivered = done ++ k :: rest ∧
      items.foldlM (deliver cb) w = .error (.ret 1 v) ∧ K done k v := by
  generalize hall : items.filter Item.delivered = all at haccept hrefuse ⊢
  obtain ⟨done, hsplit, hdone⟩ : ∃ done, all = done ++ items.filter Item.delivered ∧ J done w :=
    ⟨[], by simp [hall], h⟩
  clear hall h
  induction items generalizing w done with
  | nil => exact .inl ⟨w, rfl, by simpa [hsplit] using hdone⟩
  | cons k items ih =>
    rw [List.foldlM_cons]
    by_cases hk : k.delivered = true
    · rw [List.filter_cons_of_pos hk] at hsplit
      rw [deliver_call hk]
      by_cases hc : (cb (k.kvi w.kvi) w.data).code = 0
      · rw [if_neg (by simp [hc])]
        exact ih (done ++ [k]) (by simp [hsplit]) (haccept done k _ w hsplit hdone hc)
      · rw [if_pos hc]
        exact .inr ⟨done, k, _, _, hsplit, rfl, hrefuse done k _ w hsplit hdone hc⟩
    · obtain ⟨e, he, -⟩ := deliver_skip cb (by simpa using hk) w
      rw [List.filter_cons_of_neg hk] at hsplit
      rw [he]
      exact ih done hsplit (hskip done w e hdone)

/-- Items are delivered in order until a call is refused; the calls so far are
those of the delivered items, and only the last one may be a refusal. -/
theorem foldlM_deliver_spec (cb : Callback σ) (items : List Item) (w : World σ) :
    (∃ v new, items.foldlM (deliver cb) w = .ok v ∧ v.calls = w.calls ++ new ∧ (∀ c ∈ new, c.code = 0) ∧
      new.map (fun c => c.kvi.report) = (items.filter Item.delivered).map Item.report) ∨
    ∃ v new c, items.foldlM (deliver cb) w = .error (.ret 1 v) ∧ v.calls = w.calls ++ (new ++ [c]) ∧
      (∀ c ∈ new, c.code = 0) ∧ (c.code ≠ 0 ∧ c.code = (cb c.kvi c.before).code) ∧
      (new ++ [c]).map (fun c => c.kvi.report) <+: (items.filter Item.delivered).map Item.report := by
  let J := fun (done : List Item) (v : World σ) => ∃ new, v.calls = w.calls ++ new ∧ (∀ c ∈ new, c.code = 0) ∧
    new.map (fun c => c.kvi.report) = done.map Item.report
  let K := fun (done : List Item) (k : Item) (v : World σ) => ∃ new c, v.calls = w.calls ++ (new ++ [c]) ∧
    (∀ c ∈ new, c.code = 0) ∧ (c.code ≠ 0 ∧ c.code = (cb c.kvi c.before).code) ∧
    (new ++ [c]).map (fun c => c.kvi.report) = (done ++ [k]).map Item.report
  have hrule := foldlM_deliver_rule cb (J := J) (K := K) (w := w) items (fun _ _ _ h => h) ?_ ?_
    ⟨[], by simp, by simp, rfl⟩
  · rcases hrule with ⟨v, hv, new, hn, hz, hr⟩ | ⟨done, k, rest, v, hsplit, hv, new, c, hn, hz, hc, hr⟩
    · exact .inl ⟨v, new, hv, hn, hz, hr⟩
    · refine .inr ⟨v, new, c, hv, hn, hz, hc, ?_⟩
      rw [hr, hsplit]
      exact ⟨rest.map Item.report, by simp⟩
  · rintro done k rest v - ⟨new, hn, hz, hr⟩ hc
    refine ⟨new ++ [_], by rw [invoke_calls, hn, List.append_assoc], ?_, ?_⟩
    · intro c hm
      rcases List.mem_append.mp hm with hm | hm
      · exact hz c hm
      · rw [List.mem_singleton.mp hm]
        exact hc
    · rw [List.map_append, List.map_append, hr]
      rfl
  · rintro done k rest v - ⟨new, hn, hz, hr⟩ hc
    refine ⟨new, _, by rw [invoke_calls, hn, List.append_assoc], hz, ⟨hc, rfl⟩, ?_⟩
    rw [List.map_append, List.map_append, hr]
    rfl

theorem foldlM_deliver_zero (hcb : ∀ k d, (cb k d).code = 0) (items : List Item) (w : World σ) :
    ∃ v, items.foldlM (deliver cb) w = .ok v ∧ v.calls.map (fun c => c.kvi.report) =
      w.calls.map (fun c => c.kvi.report) ++ (items.filter Item.delivered).map Item.report := by
  rcases foldlM_deliver_spec cb items w with ⟨v, new, hv, hn, -, hr⟩ | ⟨-, -, c, -, -, -, hc, -⟩
  · exact ⟨v, hv, by rw [hn, List.map_append, hr]⟩
  · exact absurd (hc.2.trans (hcb _ _)) hc.1

end BzccScanner
