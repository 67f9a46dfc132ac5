import BzccScanner.Scan

/-! The same body from a file and behind a head that declares its length. The
HTTP run stops in front of the last byte, so the two agree exactly when that
byte, if it is reached, neither completes a member nor is refused. -/

namespace BzccScanner

open CString Mealy

namespace Reader

def closes (st : List Bool) (c : Byte) : Bool :=
  match st with
  | [] => false
  | true :: _ => c == comma || c == rbracket
  | false :: _ => c == comma || c == rbrace

def reports (st : List Bool) : Bool := st.length == 3 || st.length == 5

def Silent (r : Reader) (c : Byte) : Bool :=
  match r.jState with
  | .expectRootStart => c == lbrace || isSpace c
  | .expectKeyName =>
    if r.inQuote then c == quote || (c != lf && c != cr && r.name.length + 1 < genericBuflen)
    else c == quote || isSpace c || c == rbrace
  | .expectKeySep => c == colon || isSpace c
  | .expectValue =>
    c == quote || isWordChar c || ((c == lbracket || c == lbrace) && r.stack.length + 1 < maxDepth) ||
      isSpace c || closes r.stack c
  | .expectReadValue =>
    if r.inQuote then
      if r.inEscape then (unescape c).isSome && r.value.length + 1 < genericBuflen
      else if c == quote then !reports r.stack
      else c == backslash || (c != lf && c != cr && r.value.length + 1 < genericBuflen)
    else (isWordChar c && r.value.length + 1 < genericBuflen) || isSpace c ||
      (closes r.stack c && !reports r.stack)
  | .expectNext => closes r.stack c || isSpace c
  | .expectRootEnd => isSpace c || c == rbrace

variable {r : Reader} {c : Byte}

def Quiet (out : List Item × Except (Option Int) Reader) : Prop :=
  out.1.filter Item.delivered = [] ∧ endCode out.2 = some 0

theorem quiet_ok (t : Reader) : Quiet ([], Except.mapError Stop.code (.ok t)) := ⟨rfl, rfl⟩

theorem not_quiet_fail (items : List Item) (m : Message) :
    ¬ Quiet (items, Except.mapError Stop.code (.error (.fail m))) := by
  rintro ⟨-, h⟩
  simp [Except.mapError, Stop.code, endCode] at h

theorem quiet_item {i : Item} {x : Except (Option Int) Reader} :
    Quiet ([i], x) ↔ i.delivered = false ∧ Quiet ([], x) := by
  cases h : i.delivered <;> simp [Quiet, h]

theorem item_delivered (r : Reader) (status : Status) : (r.item status).delivered = reports r.stack := rfl

theorem expectNext_quiet (hne : r.stack ≠ []) (c : Byte) :
    Quiet ([], (r.expectNext 0 c).mapError Stop.code) ↔ (closes r.stack c || isSpace c) = true := by
  obtain ⟨b, st, hst⟩ := List.exists_cons_of_ne_nil hne
  cases b
  · rw [expectNext_object hst, hst]
    split_ifs with hc hb hs <;> simp [quiet_ok, not_quiet_fail, closes, *]
  · rw [expectNext_array hst, hst]
    split_ifs with hc hb hs <;> simp [quiet_ok, not_quiet_fail, closes, *]

theorem closer_not_space {c : Byte} (h : c = comma ∨ c = rbrace ∨ c = rbracket) : isSpace c = false := by
  rcases h with rfl | rfl | rfl <;> rfl

theorem closes_of_not (st : List Bool) {c : Byte} (h : ¬ (c = comma ∨ c = rbrace ∨ c = rbracket)) :
    closes st c = false := by
  simp only [not_or] at h
  rcases st with _ | ⟨b, st⟩
  · rfl
  · cases b <;> simp [closes, h]

theorem appendValue_quiet (r : Reader) (c : Byte) :
    Quiet ([], (r.appendValue c).mapError Stop.code) ↔ r.value.length + 1 < genericBuflen := by
  rw [appendValue]
  split_ifs with h
  · simp only [not_quiet_fail, false_iff, Nat.not_lt]
    exact h
  · simp only [quiet_ok, true_iff]
    omega

theorem expectKeyName_quiet (h : r.WF) (hj : r.jState = .expectKeyName) :
    Quiet ([], (r.expectKeyName 0 c).mapError Stop.code) ↔ r.Silent c = true := by
  have hne := h.stack_ne_nil (by simp [hj]) (by simp [hj])
  have hobj := h.object (.inl hj)
  obtain ⟨b, st, hst⟩ := List.exists_cons_of_ne_nil hne
  obtain rfl : b = false := by simpa [hst] using hobj
  have hnext : Quiet ([], ({ r with jState := .expectNext }.expectNext 0 rbrace).mapError Stop.code) :=
    (expectNext_quiet (by exact hne) rbrace).mpr (by simp [hst, closes])
  cases hq : r.inQuote with
  | true =>
    simp only [expectKeyName, Silent, hj, hq, if_true, Bool.or_eq_true, Bool.and_eq_true, beq_iff_eq,
      bne_iff_ne, decide_eq_true_eq]
    split_ifs with hc hb hn
    · exact iff_of_true (quiet_ok _) (.inl hc)
    · exact iff_of_false (not_quiet_fail _ _) (by tauto)
    · exact iff_of_false (not_quiet_fail _ _) (by
        rintro (h | h)
        · exact hc h
        · exact absurd h.2 (Nat.not_lt.mpr hn))
    · exact iff_of_true (quiet_ok _) (.inr ⟨not_or.mp hb, Nat.lt_of_not_le hn⟩)
  | false =>
    simp only [expectKeyName, Silent, hj, hq, Bool.false_eq_true, if_false, Bool.or_eq_true, beq_iff_eq]
    split_ifs with hc hs hb
    · exact iff_of_true (quiet_ok _) (.inl (.inl hc))
    · exact iff_of_true (quiet_ok _) (.inl (.inr hs))
    · subst hb
      rw [← hq]
      exact iff_of_true hnext (.inr rfl)
    · exact iff_of_false (not_quiet_fail _ _) (by tauto)

theorem expectValue_quiet (h : r.WF) (hj : r.jState = .expectValue) :
    Quiet ([], (r.expectValue 0 c).mapError Stop.code) ↔ r.Silent c = true := by
  have hne := h.stack_ne_nil (by simp [hj]) (by simp [hj])
  have hnext := expectNext_quiet (r := { r with jState := .expectNext }) hne c
  simp only [expectValue, Silent, hj, Bool.or_eq_true, Bool.and_eq_true, beq_iff_eq, decide_eq_true_eq]
  split_ifs with hc hw ho hd hb hs hx
  · exact iff_of_true (quiet_ok _) (by tauto)
  · exact iff_of_true (quiet_ok _) (by tauto)
  · have hsp : isSpace c = false := by rcases ho with rfl | rfl <;> rfl
    have hcl : closes r.stack c = false := closes_of_not _ (by rcases ho with rfl | rfl <;> decide)
    exact iff_of_false (not_quiet_fail _ _) (by
      have : ¬ r.stack.length + 1 < maxDepth := Nat.not_lt.mpr hd
      simp only [hc, hw, this, hsp, hcl]
      tauto)
  · exact iff_of_true (quiet_ok _) (.inl (.inl (.inr ⟨ho, Nat.lt_of_not_le hd⟩)))
  · exact iff_of_true (quiet_ok _) (.inl (.inl (.inr ⟨ho, Nat.lt_of_not_le hd⟩)))
  · exact iff_of_true (quiet_ok _) (by tauto)
  · rw [hnext, Bool.or_eq_true]
    tauto
  · exact iff_of_false (not_quiet_fail _ _) (by
      have hcl := closes_of_not r.stack hx
      simp only [hcl]
      tauto)

theorem expectReadValue_quiet (h : r.WF) (hj : r.jState = .expectReadValue) :
    Quiet ((r.expectReadValue 0 c).1, (r.expectReadValue 0 c).2.mapError Stop.code) ↔ r.Silent c = true := by
  have hne := h.stack_ne_nil (by simp [hj]) (by simp [hj])
  have hnext := expectNext_quiet (r := r.completed) hne c
  cases hq : r.inQuote with
  | true =>
    cases he : r.inEscape with
    | true =>
      simp only [expectReadValue, Silent, hj, hq, he, if_true]
      cases hu : unescape c with
      | none => exact iff_of_false (not_quiet_fail _ _) (by simp)
      | some u =>
        simp only [Option.isSome_some, Bool.true_and, decide_eq_true_eq]
        exact appendValue_quiet _ u
    | false =>
      simp only [expectReadValue, Silent, hj, hq, he, if_true, Bool.false_eq_true, if_false, beq_iff_eq]
      by_cases hc : c = quote
      · rw [if_pos hc, if_pos hc, quiet_item, item_delivered]
        simp only [quiet_ok, and_true, Bool.not_eq_true']
      rw [if_neg hc, if_neg hc]
      simp only [Bool.or_eq_true, Bool.and_eq_true, beq_iff_eq, bne_iff_ne, decide_eq_true_eq]
      by_cases hb : c = lf ∨ c = cr
      · rw [if_pos hb]
        exact iff_of_false (not_quiet_fail _ _) (by
          rcases hb with rfl | rfl <;> simp)
      rw [if_neg hb]
      by_cases hs : c = backslash
      · rw [if_pos hs]
        exact iff_of_true (quiet_ok _) (.inl hs)
      · rw [if_neg hs, appendValue_quiet]
        tauto
  | false =>
    simp only [expectReadValue, Silent, hj, hq, Bool.false_eq_true, if_false, Bool.or_eq_true, Bool.and_eq_true,
      decide_eq_true_eq, Bool.not_eq_true']
    by_cases hw : isWordChar c = true
    · have hsp : isSpace c = false := by
        by_contra hs
        simp [isWordChar_space (by simpa using hs)] at hw
      have hcl : closes r.stack c = false := closes_of_not _ (by
        rintro (rfl | rfl | rfl) <;> exact absurd hw (by decide))
      rw [if_pos hw, appendValue_quiet]
      simp [hw, hsp, hcl]
    rw [if_neg hw]
    by_cases hs : isSpace c = true
    · rw [if_pos hs]
      exact iff_of_true (quiet_ok _) (.inl (.inr hs))
    rw [if_neg hs]
    by_cases hx : c = comma ∨ c = rbrace ∨ c = rbracket
    · have hst : r.completed.stack = r.stack := rfl
      rw [if_pos hx, quiet_item, item_delivered, hnext, hst, closer_not_space hx, Bool.or_false]
      tauto
    · rw [if_neg hx]
      exact iff_of_false (not_quiet_fail _ _) (by
        have hcl := closes_of_not r.stack hx
        simp [hw, hs, hcl])

theorem read_quiet (h : r.WF) (c : Byte) : Quiet (r.read c) ↔ r.Silent c = true := by
  rw [read, step]
  cases hj : r.jState with
  | expectRootStart =>
    simp only [expectRootStart, Silent, hj, Bool.or_eq_true, beq_iff_eq]
    split_ifs with hc hs
    · exact iff_of_true (quiet_ok _) (.inl hc)
    · exact iff_of_true (quiet_ok _) (.inr hs)
    · exact iff_of_false (not_quiet_fail _ _) (by tauto)
  | expectKeyName => exact expectKeyName_quiet h hj
  | expectKeySep =>
    simp only [expectKeySep, Silent, hj, Bool.or_eq_true, beq_iff_eq]
    split_ifs with hc hs
    · exact iff_of_true (quiet_ok _) (.inl hc)
    · exact iff_of_true (quiet_ok _) (.inr hs)
    · exact iff_of_false (not_quiet_fail _ _) (by tauto)
  | expectValue => exact expectValue_quiet h hj
  | expectReadValue => exact expectReadValue_quiet h hj
  | expectNext =>
    simp only [Silent, hj]
    exact expectNext_quiet (h.stack_ne_nil (by simp [hj]) (by simp [hj])) c
  | expectRootEnd =>
    simp only [expectRootEnd, Silent, hj, Bool.or_eq_true, beq_iff_eq]
    split_ifs with hs hc
    · exact iff_of_true (quiet_ok _) (.inl hs)
    · exact iff_of_true ⟨rfl, rfl⟩ (.inr hc)
    · exact iff_of_false (not_quiet_fail _ _) (by tauto)

theorem run_quiet (h : r.WF) (bytes : List Byte) : Quiet (r.run bytes) ↔
    ∀ q ∈ starts (fun r c => (read r c).2) r bytes, q.1.Silent q.2 = true := by
  induction bytes generalizing r with
  | nil => simp [Mealy.run, starts, Quiet, endCode]
  | cons c bytes ih =>
    rw [starts, List.forall_mem_cons, ← read_quiet h c]
    cases hr : r.read c with
    | mk out res =>
      cases res with
      | error code =>
        have : Mealy.run read r (c :: bytes) = (out, .error code) := run_cons_error hr bytes
        simp [Reader.run, this]
      | ok t =>
        have hrun : r.run (c :: bytes) = (out ++ (t.run bytes).1, (t.run bytes).2) := run_cons_ok hr bytes
        have hwf : t.WF := h.read (by rw [hr])
        rw [hrun, ← ih hwf]
        simp only [Quiet, List.filter_append, List.append_eq_nil_iff, endCode, and_true, and_assoc]

end Reader

/-- A response with a declared length. Of several `Content-Length` lines the
last counts, so none may follow `lengthLine`. -/
structure Response where
  status : StatusLine
  front : List HeaderLine
  lengthLine : HeaderLine
  back : List HeaderLine
  nonblank : ∀ l ∈ front ++ lengthLine :: back, l.Nonblank
  isContentLength : lengthLine.isContentLength = true
  others : ∀ l ∈ back, l.isContentLength = false
  digits : ∀ c ∈ lengthLine.value.dropWhile isSpace, isDigit c = true
  body : List Byte
  body_ne : body ≠ []
  length_eq : digitsValue (lengthLine.value.dropWhile isSpace) = body.length

namespace Response

def head (r : Response) : Head := ⟨r.status, r.front ++ r.lengthLine :: r.back, r.nonblank⟩

def text (r : Response) : List Byte := r.head.text ++ r.body

def limit (r : Response) : Nat := min r.body.length intMax - 1

theorem foldl_contentLength_others (n : UInt32) (lines : List HeaderLine)
    (h : ∀ l ∈ lines, l.isContentLength = false) : lines.foldl HeaderLine.contentLength n = n := by
  induction lines with
  | nil => rfl
  | cons l lines ih =>
    rw [List.foldl_cons, HeaderLine.contentLength, h l (by simp), if_neg (by simp)]
    exact ih fun m hm => h m (by simp [hm])

theorem contentLength_toNat (r : Response) : r.head.contentLength.toNat = r.limit + 1 := by
  have hne : r.lengthLine.value.dropWhile isSpace ≠ [] := r.nonblank _ (by simp)
  have hpos : 0 < r.body.length := List.length_pos_iff.mpr r.body_ne
  have hmax : intMax = 2147483647 := rfl
  have hl : r.head.contentLength = UInt32.ofInt (min r.body.length intMax : Nat) := by
    rw [Head.contentLength, head, List.foldl_append, List.foldl_cons,
      foldl_contentLength_others _ _ r.others, HeaderLine.contentLength, r.isContentLength, if_pos rfl,
      atoi_digits hne r.digits, r.length_eq]
  rw [hl, limit]
  simp only [UInt32.ofInt, UInt32.toNat_ofNat']
  omega

end Response

namespace Client

theorem run_counted {s t : Client} (hs : s.state = .readingJson) {bytes : List Byte}
    (hl : s.jsonLen.toNat + bytes.length < s.contentLength.toNat) (ht : (s.run bytes).2 = .ok t) :
    t.state = .readingJson ∧ t.contentLength = s.contentLength ∧
      t.jsonLen.toNat = s.jsonLen.toNat + bytes.length := by
  induction bytes generalizing s with
  | nil =>
    obtain rfl : s = t := Except.ok.inj ht
    exact ⟨hs, rfl, rfl⟩
  | cons c bytes ih =>
    have hu : s.Unlimited (bytes.length + 1) := .inr hl
    have hstep := step_json (c := c) hs hu.step.1
    cases hr : s.reader.step (s.jsonLen + 1) c with
    | mk out res =>
      rw [hr] at hstep
      cases res with
      | error e =>
        have : s.run (c :: bytes) = (out, .error e) := run_cons_error hstep bytes
        simp [this] at ht
      | ok r =>
        have hrun : s.run (c :: bytes) = _ := run_cons_ok hstep bytes
        rw [hrun] at ht
        have hn : (s.jsonLen + 1).toNat = s.jsonLen.toNat + 1 :=
          toNat_succ_of_lt (b := s.contentLength) (by omega)
        have hi := ih (s := { s with jsonLen := s.jsonLen + 1, reader := r }) hs
          (by simp only [List.length_cons] at hl; simp only [hn]; omega) ht
        refine ⟨hi.1, hi.2.1, hi.2.2.trans ?_⟩
        simp only [hn, List.length_cons]
        omega

end Client

namespace Response

/-- What the HTTP run shows: the items in front of the byte at the limit. -/
def cut : List Item × Except (Option Int) Reader → List Item × Except (Option Int) Reader
  | (items, .ok _) => (items, .error (some 0))
  | (items, .error code) => (items, .error code)

theorem observe_declared (head : Head) {body : List Byte} {n : Nat} (hcl : head.contentLength.toNat = n + 1)
    (hn : n < body.length) : observe ((Client.init true).run (head.text ++ body)) =
      cut (Reader.init.run (body.take n)) := by
  have hlen : (body.take n).length = n := by rw [List.length_take]; omega
  have hlim : (Client.atBody head.contentLength).jsonLen.toNat + (body.take n).length <
      (Client.atBody head.contentLength).contentLength.toNat := by
    rw [hlen]
    simp only [Client.atBody, UInt32.toNat_zero, hcl]
    omega
  have ho := Client.run_reader (s := Client.atBody head.contentLength) rfl _ (.inr hlim)
  rw [show (Client.atBody head.contentLength).reader = .init from rfl] at ho
  have hhead : (Client.init true).run (head.text ++ body) = (Client.atBody head.contentLength).run body :=
    run_append_silent (Client.run_head head) body
  rw [hhead, ← ho]
  obtain ⟨c, rest, hrest⟩ := List.exists_cons_of_ne_nil (l := body.drop n) (by simpa using hn)
  have hbody : body = body.take n ++ c :: rest := by rw [← hrest, List.take_append_drop]
  cases hr : (Client.atBody head.contentLength).run (body.take n) with
  | mk items res =>
    cases res with
    | error e =>
      have := run_append_error hr (c :: rest)
      rw [← hbody] at this
      rw [Client.run, this]
      rfl
    | ok t =>
      obtain ⟨hst, hclt, hcount⟩ := Client.run_counted rfl hlim (show _ = Except.ok t by rw [hr])
      rw [hlen] at hcount
      simp only [Client.atBody, UInt32.toNat_zero, Nat.zero_add] at hclt hcount
      have hstop : t.step c = ([], .error (.ret 0 none)) := by
        have hcond : t.contentLength ≠ 0 ∧ t.contentLength ≤ t.jsonLen + 1 := by
          have hs : (t.jsonLen + 1).toNat = t.jsonLen.toNat + 1 :=
            Client.toNat_succ_of_lt (b := t.contentLength) (by rw [hclt, hcount, hcl]; omega)
          rw [hclt, ← UInt32.toNat_inj.ne, UInt32.le_iff_toNat_le, hs, hcount, hcl]
          simp
        simp only [Client.step, hst, if_pos hcond]
      have := run_append hr (run_cons_error hstop rest)
      rw [← hbody, List.append_nil] at this
      rw [Client.run, this]
      rfl

theorem observe_run (r : Response) :
    observe ((Client.init true).run r.text) = cut (Reader.init.run (r.body.take r.limit)) := by
  have hpos : 0 < r.body.length := List.length_pos_iff.mpr r.body_ne
  have hmax : intMax = 2147483647 := rfl
  exact observe_declared r.head r.contentLength_toNat (by rw [limit]; omega)

end Response

variable {σ : Type}

def tally (code : Option Int) : Loop σ (World σ) → Option (Int × List (Call σ))
  | .ok w => code.map fun c => (c, w.calls)
  | .error (.ret c w) => some (c, w.calls)
  | .error (.fault _) => none

def outcome (cb : Callback σ) (data : σ) (out : List Item × Except (Option Int) Reader) :
    Option (Int × List (Call σ)) :=
  tally (endCode out.2) (out.1.foldlM (deliver cb) (World.init data))

def summary (r : Except Fault (Int × World σ)) : Option (Int × List (Call σ)) :=
  match r with
  | .ok (code, w) => some (code, w.calls)
  | .error _ => none

theorem summary_drain (cb : Callback σ) (data : σ) (out : List Item × Except Stop Client) :
    summary (conclude (drain cb data out)) = outcome cb data (observe out) := by
  obtain ⟨items, res⟩ := out
  rw [drain, outcome, observe]
  cases items.foldlM (deliver cb) (World.init data) with
  | error e => cases e <;> rfl
  | ok w =>
    cases res with
    | ok s => rfl
    | error e => rcases e with ⟨code, _ | m⟩ | f <;> rfl

theorem outcome_append_iff (cb : Callback σ) (data : σ) (items : List Item)
    (out : List Item × Except (Option Int) Reader) :
    outcome cb data (items, .error (some 0)) = outcome cb data (items ++ out.1, out.2) ↔
      ∀ w, items.foldlM (deliver cb) (World.init data) = .ok w → Reader.Quiet out := by
  rw [outcome, outcome, List.foldlM_append]
  cases hi : items.foldlM (deliver cb) (World.init data) with
  | error e =>
    refine iff_of_true ?_ (by simp)
    cases e <;> rfl
  | ok w =>
    simp only [Except.ok.injEq, forall_eq']
    change some (0, w.calls) = tally (endCode out.2) (out.1.foldlM (deliver cb) w) ↔ Reader.Quiet out
    by_cases hf : out.1.filter Item.delivered = []
    · rcases foldlM_deliver_spec cb out.1 w with ⟨v, new, hv, hn, -, hr⟩ | ⟨-, new, c, -, -, -, -, hr⟩
      · obtain rfl : new = [] := by simpa [hf] using hr
        rw [hv, tally, hn, List.append_nil, Reader.Quiet]
        cases endCode out.2 <;> simp [hf, eq_comm]
      · simp [hf] at hr
    · refine iff_of_false (fun h => ?_) fun h => hf h.1
      rcases foldlM_deliver_spec cb out.1 w with ⟨v, new, hv, hn, -, hr⟩ | ⟨v, new, c, hv, hn, -⟩
      · rw [hv, tally] at h
        obtain ⟨code, -, he⟩ := Option.map_eq_some_iff.mp h.symm
        obtain rfl : new = [] := List.self_eq_append_right.mp ((Prod.mk.inj he).2.symm.trans hn)
        exact hf (List.map_eq_nil_iff.mp hr.symm)
      · rw [hv, tally] at h
        have he := List.self_eq_append_right.mp ((Prod.mk.inj (Option.some.inj h)).2.trans hn)
        simp at he

theorem Reader.WF.run_endCode {r : Reader} (h : r.WF) (bytes : List Byte) :
    ∃ code, endCode (r.run bytes).2 = some code := by
  induction bytes generalizing r with
  | nil => exact ⟨0, rfl⟩
  | cons c bytes ih =>
    cases hr : r.read c with
    | mk out res =>
      cases res with
      | ok t =>
        have hrun : r.run (c :: bytes) = (out ++ (t.run bytes).1, (t.run bytes).2) := run_cons_ok hr bytes
        rw [hrun]
        exact ih (h.read (by rw [hr]))
      | error code =>
        have hrun : r.run (c :: bytes) = (out, .error code) := run_cons_error hr bytes
        rw [hrun]
        cases hs : (r.step 0 c).2 with
        | ok t => simp [Reader.read, hs, Except.mapError] at hr
        | error e =>
          cases e with
          | ret k m =>
            refine ⟨k, ?_⟩
            simp only [Reader.read, hs, Except.mapError, Stop.code, Prod.mk.injEq, Except.error.injEq] at hr
            exact hr.2.symm
          | fault f => exact absurd hs (h.step_ne_fault 0 c f)

theorem outcome_ne_none (cb : Callback σ) (data : σ) {out : List Item × Except (Option Int) Reader} {code : Int}
    (h : endCode out.2 = some code) : outcome cb data out ≠ none := by
  rw [outcome]
  rcases foldlM_deliver_spec cb out.1 (World.init data) with ⟨v, -, hv, -⟩ | ⟨v, -, -, hv, -⟩
  · simp [hv, h, tally]
  · simp [hv, tally]

def SameRun (cb : Callback σ) (data : σ) (http file : List Read) : Prop :=
  ∃ code w v, parseData cb true data http = .ok (code, w) ∧ parseData cb false data file = .ok (code, v) ∧
    w.calls = v.calls

theorem sameRun_iff_summary {cb : Callback σ} {data : σ} {http file : List Read}
    (h : summary (parseData cb false data file) ≠ none) : SameRun cb data http file ↔
      summary (parseData cb true data http) = summary (parseData cb false data file) := by
  rw [SameRun]
  cases hf : parseData cb false data file with
  | error f => exact absurd (by rw [hf]; rfl) h
  | ok r =>
    cases hh : parseData cb true data http with
    | error f => simp [summary]
    | ok q =>
      obtain ⟨a, w⟩ := q
      obtain ⟨b, v⟩ := r
      simp only [Except.ok.injEq, Prod.mk.injEq, summary, Option.some.injEq]
      constructor
      · rintro ⟨code, w', v', ⟨rfl, rfl⟩, ⟨rfl, rfl⟩, hc⟩
        exact ⟨rfl, hc⟩
      · rintro ⟨rfl, hc⟩
        exact ⟨_, _, _, ⟨rfl, rfl⟩, ⟨rfl, rfl⟩, hc⟩

/-- In every state that the run reaches from the byte at the limit on, with no
call refused so far, the byte completes no member and is not refused. For
bodies below 2^31 bytes this is one state: the one in front of the last byte. -/
def Response.QuietEnd (cb : Callback σ) (data : σ) (r : Response) : Prop :=
  ∀ items t w, Reader.init.run (r.body.take r.limit) = (items, .ok t) →
    items.foldlM (deliver cb) (World.init data) = .ok w →
      ∀ q ∈ starts (fun r c => (Reader.read r c).2) t (r.body.drop r.limit), q.1.Silent q.2 = true

theorem summary_http (cb : Callback σ) (data : σ) (r : Response) (d : Division r.text) :
    summary (parseData cb true data d.reads) =
      outcome cb data (Response.cut (Reader.init.run (r.body.take r.limit))) := by
  rw [parseData_eq, summary_drain, r.observe_run]

theorem summary_file (cb : Callback σ) (data : σ) {bytes : List Byte} (d : Division bytes) :
    summary (parseData cb false data d.reads) = outcome cb data (Reader.init.run bytes) := by
  rw [parseData_eq, summary_drain, Client.run_file]

theorem sameRun_iff_rest (cb : Callback σ) (data : σ) (r : Response) (d : Division r.text)
    (e : Division r.body) : SameRun cb data d.reads e.reads ↔
      ∀ items t w, Reader.init.run (r.body.take r.limit) = (items, .ok t) →
        items.foldlM (deliver cb) (World.init data) = .ok w → Reader.Quiet (t.run (r.body.drop r.limit)) := by
  obtain ⟨code, hcode⟩ := Reader.init_wf.run_endCode r.body
  have hne : summary (parseData cb false data e.reads) ≠ none := by
    rw [summary_file]
    exact outcome_ne_none cb data hcode
  rw [sameRun_iff_summary hne, summary_http, summary_file]
  cases hk : Reader.init.run (r.body.take r.limit) with
  | mk items res =>
    cases res with
    | error k =>
      have hb := run_append_error hk (r.body.drop r.limit)
      rw [List.take_append_drop] at hb
      simp [Response.cut, Reader.run, hb]
    | ok t =>
      have hb : Reader.init.run r.body =
          (items ++ (t.run (r.body.drop r.limit)).1, (t.run (r.body.drop r.limit)).2) := by
        have := run_append_ok hk (r.body.drop r.limit)
        rwa [List.take_append_drop] at this
      rw [hb, Response.cut, outcome_append_iff]
      simp only [Prod.mk.injEq, Except.ok.injEq, and_imp]
      constructor
      · rintro h _ _ w rfl rfl hw
        exact h w hw
      · intro h w hw
        exact h items t w rfl rfl hw

/-- `HTTP/1.1 200 OK`, `Content-Length: 13`, and the body `{"G":[{"n":1}` -/
def shortBody : Response where
  status := statusOk
  front := []
  lengthLine :=
    { name := contentLengthName
      name_plain := by simp [contentLengthName]
      name_lt := by decide
      value := [0x20, 0x31, 0x33]
      value_plain := by simp
      value_lt := by decide }
  back := []
  nonblank := by
    intro l hl
    rw [List.mem_singleton.mp hl, HeaderLine.Nonblank]
    decide
  isContentLength := by decide
  others := by simp
  digits := List.all_eq_true.mp (by decide)
  body := [0x7b, 0x22, 0x47, 0x22, 0x3a, 0x5b, 0x7b, 0x22, 0x6e, 0x22, 0x3a, 0x31, 0x7d]
  body_ne := by simp
  length_eq := by decide

end BzccScanner
