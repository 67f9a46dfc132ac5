import BzccScanner.Delivery

/-! The reader without positions. Positions only reach the error texts, so the
runs of the reader decide which items a stream gives and how it ends. -/

namespace BzccScanner

open CString Mealy

/-- The code a stop returns; `none` is a fault. -/
def Stop.code : Stop → Option Int
  | .ret code _ => some code
  | .fault _ => none

namespace Reader

def read (r : Reader) (c : Byte) : List Item × Except (Option Int) Reader :=
  ((r.step 0 c).1, (r.step 0 c).2.mapError Stop.code)

abbrev run : Reader → List Byte → List Item × Except (Option Int) Reader := Mealy.run read

variable {r t : Reader} {c : Byte}

theorem expectNext_code (r : Reader) (pos : UInt32) (c : Byte) :
    (r.expectNext pos c).mapError Stop.code = (r.expectNext 0 c).mapError Stop.code := by
  obtain ⟨_, _, _, _, _, stack, _, _⟩ := r
  rcases stack with _ | ⟨b, st⟩
  · rfl
  · cases b <;> simp only [expectNext] <;> split_ifs <;> rfl

theorem step_code (r : Reader) (pos : UInt32) (c : Byte) :
    ((r.step pos c).1, (r.step pos c).2.mapError Stop.code) = r.read c := by
  rw [read, step, step]
  cases r.jState with
  | expectRootStart =>
    simp only [expectRootStart]
    split_ifs <;> rfl
  | expectKeyName =>
    simp only [expectKeyName]
    split_ifs <;> first | rfl | exact Prod.ext rfl (expectNext_code _ pos c)
  | expectKeySep =>
    simp only [expectKeySep]
    split_ifs <;> rfl
  | expectValue =>
    simp only [expectValue]
    split_ifs <;> first | rfl | exact Prod.ext rfl (expectNext_code _ pos c)
  | expectReadValue =>
    simp only [expectReadValue]
    cases unescape c <;> split_ifs <;> first | rfl | exact Prod.ext rfl (expectNext_code _ pos c)
  | expectNext => exact Prod.ext rfl (expectNext_code _ pos c)
  | expectRootEnd =>
    simp only [expectRootEnd]
    split_ifs <;> rfl

theorem step_of_read (h : (r.read c).2 = .ok t) : (r.step 0 c).2 = .ok t := by
  cases hr : (r.step 0 c).2 with
  | error e => simp [read, hr, Except.mapError] at h
  | ok u => simpa [read, hr, Except.mapError] using h

theorem WF.read (h : r.WF) (ht : (r.read c).2 = .ok t) : t.WF := h.step (step_of_read ht)

end Reader

def observe (out : List Item × Except Stop Client) : List Item × Except (Option Int) Reader :=
  (out.1, (out.2.map Client.reader).mapError Stop.code)

theorem observe_eq_ok {out : List Item × Except Stop Client} {items : List Item} {t : Reader} :
    observe out = (items, .ok t) ↔ out.1 = items ∧ ∃ s : Client, out.2 = .ok s ∧ s.reader = t := by
  obtain ⟨o, e | s⟩ := out <;> simp [observe, Except.map, Except.mapError]

theorem observe_eq_error {out : List Item × Except Stop Client} {items : List Item} {code : Option Int} :
    observe out = (items, .error code) ↔ out.1 = items ∧ ∃ e : Stop, out.2 = .error e ∧ e.code = code := by
  obtain ⟨o, e | s⟩ := out <;> simp [observe, Except.map, Except.mapError]

namespace Client

variable {s t : Client} {c : Byte}

/-- The content length does not end the run within `n` more bytes. -/
def Unlimited (s : Client) (n : Nat) : Prop :=
  s.contentLength = 0 ∨ s.jsonLen.toNat + n < s.contentLength.toNat

theorem toNat_succ_of_lt {a b : UInt32} (h : a.toNat < b.toNat) : (a + 1).toNat = a.toNat + 1 := by
  have := b.toNat_lt
  rw [UInt32.toNat_add]
  simp only [UInt32.reduceToNat]
  omega

theorem Unlimited.step {n : Nat} (h : s.Unlimited (n + 1)) :
    ¬ (s.contentLength ≠ 0 ∧ s.contentLength ≤ s.jsonLen + 1) ∧
      ∀ r, { s with jsonLen := s.jsonLen + 1, reader := r }.Unlimited n := by
  rcases h with h | h
  · exact ⟨by simp [h], fun _ => .inl h⟩
  · have hs := toNat_succ_of_lt (Nat.lt_of_le_of_lt (Nat.le_add_right _ _) h)
    refine ⟨?_, fun _ => .inr ?_⟩
    · rw [UInt32.le_iff_toNat_le, hs]
      omega
    · simp only [hs]
      omega

theorem step_json (hs : s.state = .readingJson)
    (hl : ¬ (s.contentLength ≠ 0 ∧ s.contentLength ≤ s.jsonLen + 1)) : s.step c =
      ((s.reader.step (s.jsonLen + 1) c).1,
        (s.reader.step (s.jsonLen + 1) c).2.map
          fun r => { s with jsonLen := s.jsonLen + 1, reader := r }) := by
  simp only [step, hs, if_neg hl]

theorem run_reader (hs : s.state = .readingJson) (bytes : List Byte) (hl : s.Unlimited bytes.length) :
    observe (s.run bytes) = s.reader.run bytes := by
  induction bytes generalizing s with
  | nil => rfl
  | cons c bytes ih =>
    have hl' := hl.step
    have hstep := step_json (c := c) hs hl'.1
    have hcode := Reader.step_code s.reader (s.jsonLen + 1) c
    cases hr : s.reader.step (s.jsonLen + 1) c with
    | mk out res =>
      rw [hr] at hstep hcode
      cases res with
      | error e => rw [run, run_cons_error hstep, Reader.run, run_cons_error hcode.symm]; rfl
      | ok r =>
        have hi := ih (s := { s with jsonLen := s.jsonLen + 1, reader := r }) hs (hl'.2 r)
        have hitems := congrArg Prod.fst hi
        have hend := congrArg Prod.snd hi
        rw [run, run_cons_ok hstep, Reader.run, run_cons_ok hcode.symm]
        exact Prod.ext (congrArg (out ++ ·) hitems) hend

theorem run_state (hs : s.state = .readingJson) {bytes : List Byte} (h : (s.run bytes).2 = .ok t) :
    t.state = .readingJson := by
  refine run_invariant (I := fun s => s.state = .readingJson) ?_ hs h
  intro s c t hs ht
  simp only [step, hs] at ht
  split_ifs at ht
  cases hr : (s.reader.step (s.jsonLen + 1) c).2 with
  | error e => simp [hr, Except.map] at ht
  | ok r =>
    simp only [hr, Except.map, Except.ok.injEq] at ht
    exact ht ▸ rfl

end Client

variable {σ : Type} {cb : Callback σ}

def endCode : Except (Option Int) Reader → Option Int
  | .ok _ => some 0
  | .error code => code

theorem drain_code {data : σ} {out : List Item × Except Stop Client} {w : World σ} {code : Int}
    (hw : out.1.foldlM (deliver cb) (World.init data) = .ok w) (h : endCode (observe out).2 = some code) :
    ∃ v, conclude (drain cb data out) = .ok (code, v) ∧ v.calls = w.calls ∧ v.data = w.data := by
  obtain ⟨items, res⟩ := out
  rw [drain, hw]
  cases res with
  | ok s =>
    obtain rfl : 0 = code := Option.some.inj h
    exact ⟨w, rfl, rfl, rfl⟩
  | error e =>
    cases e with
    | ret k m =>
      obtain rfl : k = code := Option.some.inj h
      cases m <;> exact ⟨_, rfl, rfl, rfl⟩
    | fault f => exact absurd h (by simp [observe, endCode, Except.map, Except.mapError, Stop.code])

theorem Client.init_unlimited (usingHttp : Bool) (n : Nat) : (Client.init usingHttp).Unlimited n := .inl rfl

theorem Client.run_file (bytes : List Byte) : observe ((Client.init false).run bytes) = Reader.init.run bytes :=
  run_reader rfl bytes (init_unlimited false _)

theorem parseData_file {cb : Callback σ} (hcb : ∀ k d, (cb k d).code = 0) (data : σ) {bytes : List Byte}
    (d : Division bytes) {items : List Item} {out : Except (Option Int) Reader} {code : Int}
    (h : Reader.run .init bytes = (items, out)) (hc : endCode out = some code) :
    ∃ w, parseData cb false data d.reads = .ok (code, w) ∧
      w.calls.map (fun c => c.kvi.report) = (items.filter Item.delivered).map Item.report := by
  have ho := (Client.run_file bytes).trans h
  obtain ⟨v, hv, hcalls⟩ := foldlM_deliver_zero hcb ((Client.init false).run bytes).1 (World.init data)
  obtain ⟨u, hu, hcu, -⟩ := drain_code hv (by rw [ho]; exact hc)
  refine ⟨u, (parseData_eq cb false data d).trans hu, ?_⟩
  rw [hcu, hcalls, show ((Client.init false).run bytes).1 = items from congrArg Prod.fst ho]
  simp [World.init]

theorem parseDataEnding_eof (hcb : ∀ k d, (cb k d).code = 0) (data : σ) {bytes : List Byte}
    (d : Division bytes) {items : List Item} {t : Reader} (h : Reader.init.run bytes = (items, .ok t)) :
    ∃ p s w, parseDataEnding cb false data d.reads = .eof p w ∧ Refines p s ∧ s.state = .readingJson ∧
      s.reader = t := by
  obtain ⟨-, s, hs, ht⟩ := observe_eq_ok.mp ((Client.run_file bytes).trans h)
  obtain ⟨v, hv, -⟩ := foldlM_deliver_zero hcb ((Client.init false).run bytes).1 (World.init data)
  have hd : drain cb data ((Client.init false).run bytes) = .ok (s, v) := drain_eq_ok.mpr ⟨hv, hs⟩
  rcases parseDataEnding_cases cb false data d with ⟨p, u, w, hx, hr, hu⟩ | ⟨e, -, he⟩
  · obtain ⟨rfl, rfl⟩ := Prod.mk.inj (Except.ok.inj (hd.symm.trans hu))
    exact ⟨p, s, v, hx, hr, Client.run_state rfl hs, ht⟩
  · rw [hd] at he
    cases he

/-- Whatever the callback returns, a run to the end of the stream is a run of the reader. -/
theorem run_of_eof {data : σ} {bytes : List Byte} {d : Division bytes} {p : Parser} {w : World σ}
    (h : parseDataEnding cb false data d.reads = .eof p w) :
    ∃ items t, Reader.init.run bytes = (items, .ok t) ∧ p.jState = t.jState := by
  rcases parseDataEnding_cases cb false data d with ⟨q, s, v, hx, hr, hd⟩ | ⟨e, hx, -⟩
  · obtain ⟨rfl, -⟩ := Ending.eof.inj (h.symm.trans hx)
    obtain ⟨-, hs⟩ := drain_eq_ok.mp hd
    have ho := observe_eq_ok.mpr ⟨rfl, s, hs, rfl⟩
    exact ⟨_, s.reader, (Client.run_file bytes).symm.trans ho, hr.jState⟩
  · rw [h] at hx
    cases hx

theorem parseDataEnding_exit (hcb : ∀ k d, (cb k d).code = 0) (data : σ) {bytes : List Byte}
    (d : Division bytes) {items : List Item} {code : Int}
    (h : Reader.init.run bytes = (items, .error (some code))) :
    ∃ w, parseDataEnding cb false data d.reads = .exit (.ret code w) := by
  obtain ⟨-, e, he, hcode⟩ := observe_eq_error.mp ((Client.run_file bytes).trans h)
  obtain ⟨v, hv, -⟩ := foldlM_deliver_zero hcb ((Client.init false).run bytes).1 (World.init data)
  have hd : drain cb data ((Client.init false).run bytes) = .error (e.exit v) := by
    rw [drain, hv, he]
    rfl
  rcases parseDataEnding_cases cb false data d with ⟨p, u, w, -, -, hu⟩ | ⟨e', hx, he'⟩
  · rw [hd] at hu
    cases hu
  · obtain rfl := Except.error.inj (hd.symm.trans he')
    rcases e with ⟨k, _ | m⟩ | f
    · obtain rfl : k = code := Option.some.inj hcode
      exact ⟨_, hx⟩
    · obtain rfl : k = code := Option.some.inj hcode
      exact ⟨_, hx⟩
    · cases hcode

end BzccScanner
