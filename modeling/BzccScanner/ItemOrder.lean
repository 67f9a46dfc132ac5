import BzccScanner.Delivery

/-! The order of the items of a run over any bytes. The slots only advance,
and a player's last member advances them, or the run ends there. -/

namespace BzccScanner

open CString Mealy

/-- The least player index that an item of the same server may have behind this one. -/
def Item.floor (i : Item) : Nat := if i.depth = 5 ∧ i.status = .last then i.playerIndex + 1 else i.playerIndex

def Item.Precedes (i k : Item) : Prop :=
  i.serverIndex < k.serverIndex ∨ (i.serverIndex = k.serverIndex ∧ i.floor ≤ k.playerIndex)

/-- The last member of a server closes its slot. -/
def Item.Settles (i k : Item) : Prop := i.depth = 3 → i.status = .last → i.serverIndex < k.serverIndex

theorem Item.playerIndex_le_floor (i : Item) : i.playerIndex ≤ i.floor := by
  rw [floor]
  split_ifs <;> omega

namespace Reader

def Upto (r t : Reader) : Prop :=
  r.serverSlot < t.serverSlot ∨ (r.serverSlot = t.serverSlot ∧ r.playerSlot ≤ t.playerSlot)

def Past (r : Reader) (i : Item) : Prop :=
  i.serverIndex < r.serverSlot ∨ (i.serverIndex = r.serverSlot ∧ i.floor ≤ r.playerSlot)

def Beyond (r : Reader) (i : Item) : Prop := i.depth = 3 → i.status = .last → i.serverIndex < r.serverSlot

variable {r t : Reader} {pos : UInt32} {c : Byte} {i k : Item}

theorem Upto.of_eq (hs : r.serverSlot = t.serverSlot) (hp : r.playerSlot = t.playerSlot) : r.Upto t :=
  .inr ⟨hs, Nat.le_of_eq hp⟩

theorem Past.upto (h : r.Past i) (ht : r.Upto t) : t.Past i := by
  simp only [Past, Upto] at h ht ⊢
  omega

theorem Beyond.upto (h : r.Beyond i) (ht : r.Upto t) : t.Beyond i := by
  intro hd hs
  have := h hd hs
  simp only [Upto] at ht
  omega

theorem closeObject_upto (r : Reader) (st : List Bool) : r.Upto (r.closeObject st) := by
  simp only [Upto, closeObject, closeSlots]
  split_ifs <;> simp

theorem expectNext_upto (h : r.expectNext pos c = .ok t) : r.Upto t := by
  cases hst : r.stack with
  | nil => simp [expectNext, hst] at h
  | cons b st =>
    cases b with
    | true =>
      rw [expectNext_array hst] at h
      split_ifs at h <;> obtain rfl := Except.ok.inj h <;> exact .of_eq rfl rfl
    | false =>
      rw [expectNext_object hst] at h
      split_ifs at h <;> obtain rfl := Except.ok.inj h
      · exact .of_eq rfl rfl
      · exact r.closeObject_upto st
      · exact .of_eq rfl rfl

theorem appendValue_upto (h : r.appendValue c = .ok t) : r.Upto t := by
  rw [appendValue] at h
  split_ifs at h
  obtain rfl := Except.ok.inj h
  exact .of_eq rfl rfl

theorem expectReadValue_upto (h : (r.expectReadValue pos c).2 = .ok t) : r.Upto t := by
  rw [expectReadValue] at h
  by_cases hq : r.inQuote = true
  · rw [if_pos hq] at h
    by_cases he : r.inEscape = true
    · rw [if_pos he] at h
      cases hu : unescape c with
      | none => simp [hu] at h
      | some u =>
        rw [hu] at h
        exact appendValue_upto (r := { r with inEscape := false }) h
    · rw [if_neg he] at h
      split_ifs at h
      · obtain rfl := Except.ok.inj h
        exact .of_eq rfl rfl
      · obtain rfl := Except.ok.inj h
        exact .of_eq rfl rfl
      · exact appendValue_upto h
  · rw [if_neg hq] at h
    split_ifs at h
    · exact appendValue_upto h
    · obtain rfl := Except.ok.inj h
      exact .of_eq rfl rfl
    all_goals exact expectNext_upto (r := r.completed) h

theorem step_upto (h : (r.step pos c).2 = .ok t) : r.Upto t := by
  rw [step] at h
  cases hj : r.jState with
  | expectRootStart =>
    simp only [hj, expectRootStart] at h
    split_ifs at h <;> obtain rfl := Except.ok.inj h <;> exact .of_eq rfl rfl
  | expectKeyName =>
    simp only [hj, expectKeyName] at h
    split_ifs at h
    all_goals first
      | exact expectNext_upto (r := { r with jState := .expectNext }) h
      | (obtain rfl := Except.ok.inj h; exact .of_eq rfl rfl)
  | expectKeySep =>
    simp only [hj, expectKeySep] at h
    split_ifs at h <;> obtain rfl := Except.ok.inj h <;> exact .of_eq rfl rfl
  | expectValue =>
    simp only [hj, expectValue] at h
    split_ifs at h
    all_goals first
      | exact expectNext_upto (r := { r with jState := .expectNext }) h
      | (obtain rfl := Except.ok.inj h; exact .of_eq rfl rfl)
  | expectReadValue => exact expectReadValue_upto (by simpa only [hj] using h)
  | expectNext => exact expectNext_upto (by simpa only [hj] using h)
  | expectRootEnd =>
    simp only [hj, expectRootEnd] at h
    split_ifs at h
    obtain rfl := Except.ok.inj h
    exact .of_eq rfl rfl

theorem step_items (r : Reader) (pos : UInt32) (c : Byte) :
    (r.step pos c).1 = [] ∨ ∃ status, (r.step pos c).1 = [r.item status] := by
  rw [step]
  cases r.jState with
  | expectReadValue =>
    simp only [expectReadValue]
    cases unescape c <;> split_ifs <;> first | exact .inl rfl | exact .inr ⟨_, rfl⟩
  | _ => exact .inl rfl

theorem step_item_status (r : Reader) (pos : UInt32) (c : Byte) :
    ∀ i ∈ (r.step pos c).1, i.status = .normal ∨ i.status = .last := by
  intro i hi
  rw [step] at hi
  cases hj : r.jState with
  | expectReadValue =>
    simp only [hj, expectReadValue] at hi
    split_ifs at hi
    all_goals try simp at hi
    · cases hu : unescape c <;> simp [hu] at hi
    all_goals
      subst hi
      simp [item]
  | _ => simp [hj] at hi

theorem past_item_normal (r : Reader) : r.Past (r.item .normal) :=
  .inr ⟨rfl, by simp [Item.floor, item]⟩

theorem past_item_last (h : r.completed.expectNext pos rbrace = .ok t) : t.Past (r.item .last) := by
  cases hst : r.stack with
  | nil => simp [expectNext, completed, hst] at h
  | cons b st =>
    have hc : r.completed.stack = b :: st := hst
    cases b with
    | true =>
      rw [expectNext_array hc] at h
      simp [isSpace] at h
    | false =>
      rw [expectNext_object hc, if_neg (by decide), if_pos rfl] at h
      obtain rfl := Except.ok.inj h
      simp only [Past, Item.floor, item, closeObject, closeSlots, completed, hst, List.length_cons]
      split_ifs <;> simp_all

/-- An item is a normal one, or a last one behind which the brace is read on. -/
theorem step_item (h : (r.step pos c).2 = .ok t) (hi : i ∈ (r.step pos c).1) :
    i = r.item .normal ∨ i = r.item .last ∧ r.completed.expectNext pos rbrace = .ok t := by
  rw [step] at h hi
  cases hj : r.jState with
  | expectReadValue =>
    simp only [hj, expectReadValue] at h hi
    split_ifs at h hi with hq he hc hb hk hw hs hx hr
    all_goals try simp at hi
    · cases hu : unescape c <;> simp [hu] at hi
    · exact .inl hi
    · exact .inr ⟨hi, hr ▸ h⟩
    · exact .inl hi
  | _ => simp [hj] at hi

theorem step_past (h : (r.step pos c).2 = .ok t) (hi : i ∈ (r.step pos c).1) : t.Past i := by
  rcases step_item h hi with rfl | ⟨rfl, hr⟩
  · exact r.past_item_normal.upto (step_upto h)
  · exact past_item_last hr

theorem beyond_item_last (h : r.completed.expectNext pos rbrace = .ok t) : t.Beyond (r.item .last) := by
  intro hd _
  obtain ⟨b, st, hst⟩ : ∃ b st, r.stack = b :: st := List.exists_cons_of_ne_nil fun he => by simp [item, he] at hd
  have hc : r.completed.stack = b :: st := hst
  cases b with
  | true =>
    rw [expectNext_array hc] at h
    simp [isSpace] at h
  | false =>
    have hlen : st.length + 1 = 3 := by simpa [item, hst] using hd
    rw [expectNext_object hc, if_neg (by decide), if_pos rfl] at h
    obtain rfl := Except.ok.inj h
    simp [closeObject, closeSlots, hlen, completed, item]

theorem step_beyond (h : (r.step pos c).2 = .ok t) (hi : i ∈ (r.step pos c).1) : t.Beyond i := by
  rcases step_item h hi with rfl | ⟨rfl, hr⟩
  · exact fun _ hs => absurd hs (by simp [item])
  · exact beyond_item_last hr

end Reader

namespace Client

variable {s t : Client} {c : Byte} {i k : Item}

def Past (s : Client) (i : Item) : Prop := s.reader.Past i

theorem header_slots (hs : s.state ≠ .readingJson) (h : (s.step c).2 = .ok t) :
    t.reader.serverSlot = s.reader.serverSlot ∧ t.reader.playerSlot = s.reader.playerSlot := by
  rw [step] at h
  cases hst : s.state with
  | readingHttpHeader =>
    simp only [hst, readHttpHeader, appendName] at h
    split_ifs at h <;> obtain rfl := Except.ok.inj h <;> exact ⟨rfl, rfl⟩
  | readingHttpHeaderName =>
    simp only [hst, readHttpHeaderName, appendName] at h
    split_ifs at h <;> obtain rfl := Except.ok.inj h <;> exact ⟨rfl, rfl⟩
  | readingHttpHeaderValue =>
    simp only [hst, readHttpHeaderValue] at h
    split_ifs at h <;> obtain rfl := Except.ok.inj h <;> exact ⟨rfl, rfl⟩
  | readingJson => exact absurd hst hs

theorem header_items (hs : s.state ≠ .readingJson) : (s.step c).1 = [] := by
  rw [step]
  cases hst : s.state with
  | readingJson => exact absurd hst hs
  | _ => rfl

theorem json_step (hs : s.state = .readingJson) (h : (s.step c).2 = .ok t) :
    (s.step c).1 = (s.reader.step (s.jsonLen + 1) c).1 ∧
      (s.reader.step (s.jsonLen + 1) c).2 = .ok t.reader := by
  simp only [step, hs] at h ⊢
  split_ifs at h ⊢
  cases hr : (s.reader.step (s.jsonLen + 1) c).2 with
  | error e => simp [hr, Except.map] at h
  | ok r =>
    rw [hr] at h
    exact ⟨rfl, congrArg (fun u : Client => Except.ok u.reader) (Except.ok.inj h)⟩

theorem Past.step (hi : s.Past i) (h : (s.step c).2 = .ok t) : t.Past i := by
  by_cases hs : s.state = .readingJson
  · exact Reader.Past.upto hi (Reader.step_upto (json_step hs h).2)
  · have he := header_slots hs h
    exact Reader.Past.upto hi (.of_eq he.1.symm he.2.symm)

theorem step_past (h : (s.step c).2 = .ok t) (hi : i ∈ (s.step c).1) : t.Past i := by
  by_cases hs : s.state = .readingJson
  · have he := json_step hs h
    exact Reader.step_past he.2 (he.1 ▸ hi)
  · simp [header_items hs] at hi

theorem step_items (s : Client) (c : Byte) :
    (s.step c).1 = [] ∨ ∃ status, (s.step c).1 = [s.reader.item status] := by
  by_cases hs : s.state = .readingJson
  · simp only [step, hs]
    split_ifs
    · exact .inl rfl
    · exact Reader.step_items _ _ _
  · exact .inl (header_items hs)

theorem step_item_status (s : Client) (c : Byte) : ∀ i ∈ (s.step c).1, i.status = .normal ∨ i.status = .last := by
  by_cases hs : s.state = .readingJson
  · simp only [step, hs]
    split_ifs
    · simp
    · exact Reader.step_item_status _ _ _
  · simp [header_items hs]

theorem run_item_status (s : Client) (bytes : List Byte) :
    ∀ i ∈ (s.run bytes).1, i.status = .normal ∨ i.status = .last :=
  run_outputs (fun s c => s.step_item_status c) s bytes

theorem Past.precedes (hi : s.Past i) (hk : k ∈ (s.step c).1) : i.Precedes k := by
  rcases s.step_items c with he | ⟨status, he⟩
  · simp [he] at hk
  · rw [he, List.mem_singleton] at hk
    subst hk
    exact hi

/-- The items of any run stand in the order of their slots. -/
theorem run_ordered (s : Client) (bytes : List Byte) : (s.run bytes).1.Pairwise Item.Precedes := by
  refine run_pairwise (P := Past) ?_ ?_ ?_ ?_ s bytes
  · exact fun _ _ _ _ hi h => hi.step h
  · exact fun _ _ _ h _ hi => step_past h hi
  · exact fun _ _ _ hi _ hk => hi.precedes hk
  · intro s c
    rcases s.step_items c with he | ⟨status, he⟩ <;> simp [he]

def Beyond (s : Client) (i : Item) : Prop := s.reader.Beyond i

theorem Beyond.step (hi : s.Beyond i) (h : (s.step c).2 = .ok t) : t.Beyond i := by
  by_cases hs : s.state = .readingJson
  · exact Reader.Beyond.upto hi (Reader.step_upto (json_step hs h).2)
  · exact Reader.Beyond.upto hi (.of_eq (header_slots hs h).1.symm (header_slots hs h).2.symm)

theorem step_beyond (h : (s.step c).2 = .ok t) (hi : i ∈ (s.step c).1) : t.Beyond i := by
  by_cases hs : s.state = .readingJson
  · have he := json_step hs h
    exact Reader.step_beyond he.2 (he.1 ▸ hi)
  · simp [header_items hs] at hi

/-- No item of a server stands behind its last member. -/
theorem run_settled (s : Client) (bytes : List Byte) : (s.run bytes).1.Pairwise Item.Settles := by
  refine run_pairwise (P := Beyond) ?_ ?_ ?_ ?_ s bytes
  · exact fun _ _ _ _ hi h => hi.step h
  · exact fun _ _ _ h _ hi => step_beyond h hi
  · intro s c i hi k hk
    rcases s.step_items c with he | ⟨status, he⟩
    · simp [he] at hk
    · rw [he, List.mem_singleton] at hk
      subst hk
      exact hi
  · intro s c
    rcases s.step_items c with he | ⟨status, he⟩ <;> simp [he]

end Client

section reads

variable {σ : Type} {cb : Callback σ}

/-- The bytes in front of the end of the stream or the first failure. -/
def received : List Read → List Byte
  | .data (b :: bs) :: rs => b :: bs ++ received rs
  | _ => []

def failure : List Read → Option Message
  | .data (_ :: _) :: rs => failure rs
  | .failed m :: _ => some m
  | _ => none

def endReads (m : Option Message) : Loop σ (Parser × World σ) → Ending σ
  | .ok q =>
    match m with
    | none => .eof q.1 q.2
    | some m => .exit (.ret 1 (q.2.setErr m))
  | .error e => .exit e

theorem readLoop_received (q : Parser × World σ) (reads : List Read) :
    readLoop cb q reads = endReads (failure reads) ((received reads).foldlM (readByte cb) q) := by
  induction reads generalizing q with
  | nil => rfl
  | cons r reads ih =>
    cases r with
    | failed m => rfl
    | data bytes =>
      cases bytes with
      | nil => rfl
      | cons b bs =>
        rw [readLoop, received, failure, List.foldlM_append]
        cases (b :: bs).foldlM (readByte cb) q with
        | error e => rfl
        | ok q' => exact ih q'

theorem byteStarts_received (q : Parser × World σ) (reads : List Read) :
    byteStarts cb q reads = starts (readByte cb) q (received reads) := by
  induction reads generalizing q with
  | nil => rfl
  | cons r reads ih =>
    cases r with
    | failed m => rfl
    | data bytes =>
      cases bytes with
      | nil => rfl
      | cons b bs =>
        rw [byteStarts, received, starts_append]
        cases (b :: bs).foldlM (readByte cb) q with
        | error e => rfl
        | ok t => exact congrArg _ (ih t)

theorem byteStarts_getElem? {q t : Parser × World σ} {reads : List Read} {i : Nat} {c : Byte} :
    (byteStarts cb q reads)[i]? = some (t, c) ↔
      ((received reads).take i).foldlM (readByte cb) q = .ok t ∧ (received reads)[i]? = some c := by
  rw [byteStarts_received]
  exact starts_getElem?

theorem received_division {bytes : List Byte} (d : Division bytes) : received d.reads = bytes := by
  have hchunks : ∀ chunks : List (List Byte), (∀ b ∈ chunks, b ≠ []) →
      received (chunks.map .data) = chunks.flatten := by
    intro chunks hne
    induction chunks with
    | nil => rfl
    | cons b chunks ih =>
      rw [List.forall_mem_cons] at hne
      obtain ⟨c, bs, rfl⟩ := List.exists_cons_of_ne_nil hne.1
      rw [List.map_cons, received, List.flatten_cons, ih hne.2]
  rw [Division.reads, hchunks d.chunks fun b hb => (d.sized b hb).1, d.joined]

theorem failure_division {bytes : List Byte} (d : Division bytes) : failure d.reads = none := by
  have hchunks : ∀ chunks : List (List Byte), failure (chunks.map .data) = none := by
    intro chunks
    induction chunks with
    | nil => rfl
    | cons b chunks ih =>
      cases b with
      | nil => rfl
      | cons c bs => exact ih
  exact hchunks d.chunks

def concludeReads (m : Option Message) : Loop σ (Client × World σ) → Except Fault (Int × World σ)
  | .ok t =>
    match m with
    | none => .ok (0, t.2)
    | some m => .ok (1, t.2.setErr m)
  | .error e => (Ending.exit e).result

/-- Whatever is read, `parse_data` is the delivery of the items of a run. -/
theorem parseData_received (usingHttp : Bool) (data : σ) (reads : List Read) :
    parseData cb usingHttp data reads =
      concludeReads (failure reads) (drain cb data ((Client.init usingHttp).run (received reads))) := by
  have ha := Agree.foldlM (fun _ _ c h => readByte_tracks cb h c) (init_tracks usingHttp data) (received reads)
  rw [foldlM_driveByte] at ha
  rw [parseData, parseDataEnding, readLoop_received]
  generalize (received reads).foldlM (readByte cb) (Parser.init usingHttp, World.init data) = x at ha ⊢
  generalize drain cb data ((Client.init usingHttp).run (received reads)) = y at ha ⊢
  cases ha with
  | error e => rfl
  | ok hq =>
    have hw := hq.1.2
    cases failure reads with
    | none => simp only [endReads, Ending.result, concludeReads, hw]
    | some m => simp only [endReads, Ending.result, concludeReads, hw]

theorem concludeReads_eq {m : Option Message} {data : σ} {out : List Item × Except Stop Client} {code : Int}
    {u w : World σ} (hv : out.1.foldlM (deliver cb) (World.init data) = .ok u)
    (h : concludeReads m (drain cb data out) = .ok (code, w)) : w = u ∨ ∃ m, w = u.setErr m := by
  obtain ⟨items, res⟩ := out
  rw [drain, hv] at h
  cases res with
  | ok s =>
    cases m with
    | none =>
      obtain ⟨-, rfl⟩ := Prod.mk.inj (Except.ok.inj h)
      exact .inl rfl
    | some m =>
      obtain ⟨-, rfl⟩ := Prod.mk.inj (Except.ok.inj h)
      exact .inr ⟨m, rfl⟩
  | error e =>
    rcases e with ⟨k, _ | m⟩ | f
    · obtain ⟨-, rfl⟩ := Prod.mk.inj (Except.ok.inj h)
      exact .inl rfl
    · obtain ⟨-, rfl⟩ := Prod.mk.inj (Except.ok.inj h)
      exact .inr ⟨m, rfl⟩
    · cases h

/-- Behind the delivery of the items, up to the one that is refused, only an error text is left. -/
theorem parseData_world {usingHttp : Bool} {data : σ} {reads : List Read} {code : Int} {w : World σ}
    (h : parseData cb usingHttp data reads = .ok (code, w)) : ∃ v,
      (((Client.init usingHttp).run (received reads)).1.foldlM (deliver cb) (World.init data) = .ok v ∨
        ((Client.init usingHttp).run (received reads)).1.foldlM (deliver cb) (World.init data) =
        .error (.ret 1 v) ∧
          code = 1) ∧ (w = v ∨ ∃ m, w = v.setErr m) := by
  rw [parseData_received] at h
  rcases foldlM_deliver_spec cb ((Client.init usingHttp).run (received reads)).1 (World.init data) with
    ⟨v, -, hv, -⟩ | ⟨v, -, -, hv, -⟩
  · exact ⟨v, .inl hv, concludeReads_eq hv h⟩
  · rw [drain, hv] at h
    obtain ⟨rfl, rfl⟩ := Prod.mk.inj (Except.ok.inj h)
    exact ⟨v, .inr ⟨hv, rfl⟩, .inl rfl⟩

/-- The calls are the delivery of the items, up to the one that is refused. -/
theorem parseData_calls {usingHttp : Bool} {data : σ} {reads : List Read} {code : Int} {w : World σ}
    (h : parseData cb usingHttp data reads = .ok (code, w)) : ∃ v,
      (((Client.init usingHttp).run (received reads)).1.foldlM (deliver cb) (World.init data) = .ok v ∨
        ((Client.init usingHttp).run (received reads)).1.foldlM (deliver cb) (World.init data) =
        .error (.ret 1 v) ∧
          code = 1) ∧ w.calls = v.calls ∧ w.data = v.data := by
  obtain ⟨v, hv, hw⟩ := parseData_world h
  refine ⟨v, hv, ?_⟩
  rcases hw with rfl | ⟨m, rfl⟩
  · exact ⟨rfl, rfl⟩
  · exact ⟨rfl, rfl⟩

end reads

end BzccScanner
