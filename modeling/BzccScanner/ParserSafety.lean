import BzccScanner.ReaderRefinement

/-! What every byte finds: the memory of `parse_data` is in the shape its
unchecked accesses rely on, for every stream, every division into reads and
every callback. -/

namespace BzccScanner

open CString Mealy

variable {σ : Type} {p : Parser} {s : Client}

/-- The state in front of a byte. -/
structure Parser.Safe (p : Parser) : Prop where
  depth_nonneg : 0 ≤ p.depth
  depth_le : p.depth ≤ maxDepth - 1
  nested : p.state = .readingJson → p.jState ≠ .expectRootStart → p.jState ≠ .expectRootEnd →
    1 ≤ p.depth ∧ (∀ i : Nat, i < p.depth → ∃ b, p.isArray[i]? = some (some b)) ∧
      p.isArray[0]? = some (some false)
  nameLen_le : p.nameLen ≤ genericBuflen - 1
  valueLen_le : p.valueLen ≤ genericBuflen - 1
  name_zero : ∀ (i : Nat) (h : i < genericBuflen), p.nameLen ≤ i → p.name[i] = 0
  value_zero : ∀ (i : Nat) (h : i < genericBuflen), p.valueLen ≤ i → p.value[i] = 0
  expectValue : p.jState = .expectValue → p.valueLen = 0

theorem Refines.isArray_assigned (h : Refines p s) (i : Nat) (hi : i < p.depth) :
    ∃ b, p.isArray[i]? = some (some b) := by
  have hlt : i < s.reader.stack.reverse.length := by
    rw [h.depth] at hi
    simpa using hi
  exact ⟨_, h.isArray i _ (List.getElem?_eq_getElem hlt)⟩

theorem Refines.isArray_root (h : Refines p s) (hroot : s.reader.stack.getLast? = some false) :
    p.isArray[0]? = some (some false) :=
  h.isArray 0 false (by rw [← hroot, ← List.head?_reverse, List.head?_eq_getElem?])

theorem Client.WF.stack_lt (hwf : s.WF) : s.reader.stack.length < maxDepth := by
  by_cases hs : s.state = .readingJson
  · exact (hwf.json hs).stack_lt
  · rw [hwf.header hs]
    simp [Reader.init, maxDepth]

theorem Client.WF.jState_of_header (hwf : s.WF) (hs : s.state ≠ .readingJson) :
    s.reader.jState = .expectRootStart := by
  rw [hwf.header hs]
  rfl

theorem Refines.safe (h : Refines p s) (hwf : s.WF) : p.Safe := by
  have hst := hwf.stack_lt
  have hn := hwf.name_lt
  have hv := hwf.value_lt
  refine ⟨?_, ?_, ?_, ?_, ?_, ?_, ?_, ?_⟩
  · rw [h.depth]
    omega
  · rw [h.depth]
    simp only [maxDepth] at hst ⊢
    omega
  · intro hs h₁ h₂
    rw [h.state] at hs
    rw [h.jState] at h₁ h₂
    have hne := List.length_pos_iff.mpr ((hwf.json hs).stack_ne_nil h₁ h₂)
    exact ⟨by rw [h.depth]; omega, h.isArray_assigned, h.isArray_root ((hwf.json hs).root h₁ h₂)⟩
  · rw [h.nameLen]
    omega
  · rw [h.valueLen]
    omega
  · intro i hi hle
    exact h.name.tail i hi (by rwa [← h.nameLen])
  · intro i hi hle
    exact h.value.tail i hi (by rwa [← h.valueLen])
  · intro hj
    rw [h.jState] at hj
    have hs : s.state = .readingJson := by
      by_contra hs
      simp [hwf.jState_of_header hs] at hj
    rw [h.valueLen, (hwf.json hs).value_nil (by simp [hj])]
    rfl

theorem Reader.expectNext_ne_fault {r : Reader} (hne : r.stack ≠ []) (pos : UInt32) (c : Byte) (f : Fault) :
    r.expectNext pos c ≠ .error (.fault f) := by
  obtain ⟨b, st, hst⟩ := List.exists_cons_of_ne_nil hne
  cases b
  · rw [expectNext_object hst]
    split_ifs <;> simp
  · rw [expectNext_array hst]
    split_ifs <;> simp

theorem Reader.appendValue_ne_fault (r : Reader) (c : Byte) (f : Fault) :
    r.appendValue c ≠ .error (.fault f) := by
  rw [appendValue]
  split_ifs <;> simp

theorem Reader.WF.step_ne_fault {r : Reader} (h : r.WF) (pos : UInt32) (c : Byte) (f : Fault) :
    (r.step pos c).2 ≠ .error (.fault f) := by
  rw [Reader.step]
  cases hj : r.jState with
  | expectRootStart =>
    simp only [Reader.expectRootStart]
    split_ifs <;> simp
  | expectKeyName =>
    have hne := h.stack_ne_nil (by simp [hj]) (by simp [hj])
    have hnext : { r with jState := .expectNext }.expectNext pos c ≠ .error (.fault f) :=
      Reader.expectNext_ne_fault (by exact hne) pos c f
    simp only [Reader.expectKeyName]
    split_ifs <;> first | exact hnext | simp
  | expectKeySep =>
    simp only [Reader.expectKeySep]
    split_ifs <;> simp
  | expectValue =>
    have hne := h.stack_ne_nil (by simp [hj]) (by simp [hj])
    have hnext : { r with jState := .expectNext }.expectNext pos c ≠ .error (.fault f) :=
      Reader.expectNext_ne_fault (by exact hne) pos c f
    simp only [Reader.expectValue]
    split_ifs <;> first | exact hnext | simp
  | expectReadValue =>
    have hne := h.stack_ne_nil (by simp [hj]) (by simp [hj])
    have hnext : r.completed.expectNext pos c ≠ .error (.fault f) :=
      Reader.expectNext_ne_fault (by exact hne) pos c f
    simp only [Reader.expectReadValue]
    cases unescape c <;> split_ifs <;> first | exact hnext | exact Reader.appendValue_ne_fault _ _ _ | simp
  | expectNext =>
    exact Reader.expectNext_ne_fault (h.stack_ne_nil (by simp [hj]) (by simp [hj])) pos c f
  | expectRootEnd =>
    simp only [Reader.expectRootEnd]
    split_ifs <;> simp

theorem Client.appendName_ne_fault (s : Client) (c : Byte) (f : Fault) :
    s.appendName c ≠ .error (.fault f) := by
  rw [appendName]
  split_ifs <;> simp

/-- Only a status line that is too short is compared from before the buffer. -/
theorem Client.WF.step_fault (h : s.WF) {c : Byte} {f : Fault} (hf : (s.step c).2 = .error (.fault f)) :
    f = .statusLine ∧ s.state = .readingHttpHeader ∧ (c = lf ∧ s.reader.name.getLast? = some cr) ∧
      (cstr s.reader.name.dropLast).length < okSuffix.length := by
  rw [Client.step] at hf
  cases hs : s.state with
  | readingHttpHeader =>
    simp only [hs, Client.readHttpHeader] at hf
    split_ifs at hf with hlast hshort
    · exact ⟨(Stop.fault.inj (Except.error.inj hf)).symm, rfl, hlast, hshort⟩
    · simp at hf
    · exact absurd hf (s.appendName_ne_fault c f)
  | readingHttpHeaderName =>
    simp only [hs, Client.readHttpHeaderName] at hf
    split_ifs at hf <;> exact absurd hf (s.appendName_ne_fault c f)
  | readingHttpHeaderValue =>
    simp only [hs, Client.readHttpHeaderValue] at hf
    split_ifs at hf
    simp at hf
  | readingJson =>
    have hr := (h.json hs).step_ne_fault (s.jsonLen + 1) c f
    simp only [hs] at hf
    split_ifs at hf
    · simp at hf
    · cases hstep : (s.reader.step (s.jsonLen + 1) c).2 with
      | ok r => simp [hstep, Except.map] at hf
      | error e =>
        rw [hstep] at hf hr
        exact absurd (congrArg Except.error (Except.error.inj hf)) hr

def Exit.Safe : Exit σ → Prop
  | .ret _ _ => True
  | .fault f => f = .statusLine

theorem deliver_safe {cb : Callback σ} {w : World σ} {i : Item} {e : Exit σ}
    (h : deliver cb w i = .error e) : e.Safe := by
  simp only [deliver, World.report] at h
  split_ifs at h
  obtain rfl := Except.error.inj h
  trivial

theorem foldlM_deliver_safe {cb : Callback σ} {items : List Item} {w : World σ} {e : Exit σ}
    (h : items.foldlM (deliver cb) w = .error e) : e.Safe := by
  induction items generalizing w with
  | nil => simp [pure, Except.pure] at h
  | cons i items ih =>
    rw [List.foldlM_cons] at h
    cases hd : deliver cb w i with
    | error e' =>
      simp only [hd, bind, Except.bind, Except.error.injEq] at h
      exact h ▸ deliver_safe hd
    | ok w' =>
      rw [hd] at h
      exact ih h

theorem driveByte_safe {cb : Callback σ} {t : Client × World σ} {c : Byte} {e : Exit σ} (h : t.1.WF)
    (he : driveByte cb t c = .error e) : e.Safe := by
  simp only [driveByte, drive] at he
  cases hd : (t.1.step c).1.foldlM (deliver cb) t.2 with
  | error e' =>
    simp only [hd, bind, Except.bind, Except.error.injEq] at he
    exact he ▸ foldlM_deliver_safe hd
  | ok w =>
    simp only [hd, bind, Except.bind] at he
    cases hs : (t.1.step c).2 with
    | ok s => simp [hs] at he
    | error r =>
      simp only [hs, Except.error.injEq] at he
      subst he
      cases r with
      | ret code m => cases m <;> trivial
      | fault f => exact (h.step_fault hs).1

theorem foldlM_readByte_safe {cb : Callback σ} {q : Parser × World σ} {t : Client × World σ}
    (h : Tracks q t) {bytes : List Byte} {e : Exit σ} (he : bytes.foldlM (readByte cb) q = .error e) :
    e.Safe := by
  induction bytes generalizing q t with
  | nil => simp [pure, Except.pure] at he
  | cons c bytes ih =>
    have hs := readByte_tracks cb h c
    rw [List.foldlM_cons] at he
    generalize hx : readByte cb q c = x at hs he
    generalize hy : driveByte cb t c = y at hs
    cases hs with
    | error e' =>
      simp only [bind, Except.bind, Except.error.injEq] at he
      exact he ▸ driveByte_safe h.2 hy
    | ok hr => exact ih hr he

theorem foldlM_readByte_tracks {cb : Callback σ} {q q' : Parser × World σ} {t : Client × World σ}
    (h : Tracks q t) {bytes : List Byte} (hq : bytes.foldlM (readByte cb) q = .ok q') :
    ∃ t', Tracks q' t' := by
  have ha := Agree.foldlM (fun _ _ c h => readByte_tracks cb h c) h bytes
  rw [hq] at ha
  generalize bytes.foldlM (driveByte cb) t = y at ha
  cases ha with
  | ok hr => exact ⟨_, hr⟩

theorem byteStarts_safe {cb : Callback σ} {q : Parser × World σ} {t : Client × World σ} (h : Tracks q t)
    (reads : List Read) : ∀ b ∈ byteStarts cb q reads, b.1.1.Safe := by
  induction reads generalizing q t with
  | nil => simp [byteStarts]
  | cons r reads ih =>
    rcases r with (_ | ⟨b, bs⟩) | m
    · simp [byteStarts]
    · intro x hx
      rw [byteStarts, List.mem_append] at hx
      rcases hx with hx | hx
      · obtain ⟨u, hu, hwf⟩ := starts_simulated (fun _ _ c h => readByte_tracks cb h c) h _ x hx
        exact hu.1.safe hwf
      · cases hf : (b :: bs).foldlM (readByte cb) q with
        | error e => simp [hf] at hx
        | ok q' =>
          obtain ⟨t', ht⟩ := foldlM_readByte_tracks h hf
          rw [hf] at hx
          exact ih ht x hx
    · simp [byteStarts]

theorem readLoop_safe {cb : Callback σ} {q : Parser × World σ} {t : Client × World σ} (h : Tracks q t)
    (reads : List Read) {f : Fault} (hf : (readLoop cb q reads).result = .error f) : f = .statusLine := by
  induction reads generalizing q t with
  | nil => simp [readLoop, Ending.result] at hf
  | cons r reads ih =>
    rcases r with (_ | ⟨b, bs⟩) | m
    · simp [readLoop, Ending.result] at hf
    · rw [readLoop] at hf
      cases hx : (b :: bs).foldlM (readByte cb) q with
      | error e =>
        have hs := foldlM_readByte_safe h hx
        rw [hx] at hf
        cases e with
        | ret code w => simp [Ending.result] at hf
        | fault g => exact (Except.error.inj hf) ▸ hs
      | ok q' =>
        obtain ⟨t', ht⟩ := foldlM_readByte_tracks h hx
        rw [hx] at hf
        exact ih ht hf
    · simp [readLoop, Ending.result] at hf

/-- Every byte of every run finds the parser safe, and no access but the one
in the status line leaves its array. -/
theorem parseData_safe (cb : Callback σ) (usingHttp : Bool) (data : σ) (reads : List Read) :
    (∀ b ∈ byteStarts cb (Parser.init usingHttp, World.init data) reads, b.1.1.Safe) ∧
      ∀ f, parseData cb usingHttp data reads = .error f → f = .statusLine :=
  ⟨byteStarts_safe (init_tracks usingHttp data) reads, fun _ => readLoop_safe (init_tracks usingHttp data) reads⟩

end BzccScanner
