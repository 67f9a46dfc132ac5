import BzccScanner.Reader

/-! What holds of the reader in front of every byte: the buffers have room for
one more byte, the stack ends in the root object, and a value is only being
held while it is read. -/

namespace BzccScanner

open CString

structure Reader.WF (r : Reader) : Prop where
  name_lt : r.name.length < genericBuflen
  value_lt : r.value.length < genericBuflen
  stack_lt : r.stack.length < maxDepth
  value_nil : r.jState ≠ .expectReadValue → r.value = []
  outside : r.jState = .expectRootStart ∨ r.jState = .expectRootEnd → r.stack = []
  root : r.jState ≠ .expectRootStart → r.jState ≠ .expectRootEnd → r.stack.getLast? = some false
  object : r.jState = .expectKeyName ∨ r.jState = .expectKeySep → r.stack.head? = some false
  quoted : r.inQuote = true → r.jState = .expectKeyName ∨ r.jState = .expectReadValue
  escaped : r.inEscape = true → r.inQuote = true ∧ r.jState = .expectReadValue

/-- While the header is read, only the buffers of the reader are in use. -/
structure Client.WF (s : Client) : Prop where
  name_lt : s.reader.name.length < genericBuflen
  value_lt : s.reader.value.length < genericBuflen
  json : s.state = .readingJson → s.reader.WF
  header : s.state ≠ .readingJson → s.reader = { Reader.init with name := s.reader.name, value := s.reader.value }
  value_nil : s.state = .readingHttpHeader ∨ s.state = .readingHttpHeaderName → s.reader.value = []

namespace Reader

theorem init_wf : Reader.init.WF := by
  constructor <;> simp [Reader.init]

variable {r t : Reader} {pos : UInt32} {c : Byte}

namespace WF

theorem stack_ne_nil (h : r.WF) (h₁ : r.jState ≠ .expectRootStart) (h₂ : r.jState ≠ .expectRootEnd) :
    r.stack ≠ [] := by
  intro he
  have := h.root h₁ h₂
  simp [he] at this

theorem not_quoted (h : r.WF) (h₁ : r.jState ≠ .expectKeyName) (h₂ : r.jState ≠ .expectReadValue) :
    r.inQuote = false := by
  have := h.quoted
  simpa [h₁, h₂] using this

theorem not_escaped (h : r.WF) (hq : r.inQuote = false) : r.inEscape = false := by
  have := h.escaped
  simpa [hq] using this

theorem root_tail {b : Bool} {st : List Bool} (hroot : (b :: st).getLast? = some false) (hst : st ≠ []) :
    st.getLast? = some false := by
  rwa [List.getLast?_cons_of_ne_nil hst] at hroot

theorem toNext (h : r.WF) (h₁ : r.jState ≠ .expectRootStart) (h₂ : r.jState ≠ .expectRootEnd)
    (hv : r.value = []) (hq : r.inQuote = false) : { r with jState := .expectNext }.WF :=
  ⟨h.name_lt, h.value_lt, h.stack_lt, fun _ => hv, by simp, fun _ _ => h.root h₁ h₂, by simp, by simp [hq],
    by simp [h.not_escaped hq]⟩

theorem expectRootStart (h : r.WF) (hj : r.jState = .expectRootStart)
    (ht : r.expectRootStart pos c = .ok t) : t.WF := by
  have hs : r.stack = [] := h.outside (.inl hj)
  have hq := h.not_quoted (by simp [hj]) (by simp [hj])
  have he := h.not_escaped hq
  rw [Reader.expectRootStart] at ht
  split_ifs at ht with hc hw
  · obtain rfl := Except.ok.inj ht
    exact ⟨h.name_lt, h.value_lt, by simp [hs, maxDepth], fun _ => h.value_nil (by simp [hj]), by simp,
      by simp [hs], by simp, by simp [hq], by simp [he]⟩
  · obtain rfl := Except.ok.inj ht
    exact h

theorem closeObject_eq (r : Reader) (st : List Bool) : ∃ a b, r.closeObject st =
    { r with stack := st, jState := afterObject st, serverSlot := a, playerSlot := b } := by
  rw [closeObject, closeSlots]
  split_ifs <;> exact ⟨_, _, rfl⟩

theorem closeObject (h : r.WF) {b : Bool} {st : List Bool} (hst : r.stack = b :: st)
    (hroot : r.stack.getLast? = some false) (hv : r.value = []) (hq : r.inQuote = false) :
    (r.closeObject st).WF := by
  have hlt : st.length < maxDepth := by
    have := h.stack_lt
    simp only [hst, List.length_cons] at this
    omega
  have he := h.not_escaped hq
  obtain ⟨m, n, ht⟩ := closeObject_eq r st
  rw [ht]
  cases st with
  | nil => exact ⟨h.name_lt, h.value_lt, hlt, fun _ => hv, by simp, by simp [afterObject], by simp [afterObject],
      by simp [hq], by simp [he]⟩
  | cons d st =>
    rw [hst] at hroot
    have hd := root_tail hroot (by simp)
    cases d <;> exact ⟨h.name_lt, h.value_lt, hlt, fun _ => hv, by simp [afterObject], fun _ _ => hd,
      by simp [afterObject], by simp [hq], by simp [he]⟩

theorem expectNext (h : r.WF) (hj : r.jState = .expectNext) (ht : r.expectNext pos c = .ok t) : t.WF := by
  have hne := h.stack_ne_nil (by simp [hj]) (by simp [hj])
  have hroot := h.root (by simp [hj]) (by simp [hj])
  have hv : r.value = [] := h.value_nil (by simp [hj])
  have hq := h.not_quoted (by simp [hj]) (by simp [hj])
  have he := h.not_escaped hq
  obtain ⟨b, st, hst⟩ := List.exists_cons_of_ne_nil hne
  cases b with
  | true =>
    have hlt : st.length < maxDepth := by
      have := h.stack_lt
      simp only [hst, List.length_cons] at this
      omega
    rw [expectNext_array hst] at ht
    split_ifs at ht with hc hb hs
    · obtain rfl := Except.ok.inj ht
      exact ⟨by simp, h.value_lt, h.stack_lt, fun _ => hv, by simp, fun _ _ => hroot, by simp,
        by simp [hq], by simp [he]⟩
    · obtain rfl := Except.ok.inj ht
      rw [hst] at hroot
      have hst' : st ≠ [] := by
        rintro rfl
        simp at hroot
      exact ⟨h.name_lt, h.value_lt, hlt, fun _ => hv, by simp [closeArray, hst'],
        fun _ _ => root_tail hroot hst', by simp [closeArray, hst'], by simp [closeArray, hq],
        by simp [closeArray, he]⟩
    · obtain rfl := Except.ok.inj ht
      exact h
  | false =>
    rw [expectNext_object hst] at ht
    split_ifs at ht with hc hb hs
    · obtain rfl := Except.ok.inj ht
      exact ⟨by simp, by simp, h.stack_lt, fun _ => rfl, by simp, fun _ _ => hroot,
        fun _ => by simp [hst], by simp [hq], by simp [he]⟩
    · obtain rfl := Except.ok.inj ht
      exact h.closeObject hst hroot hv hq
    · obtain rfl := Except.ok.inj ht
      exact h

theorem expectKeyName (h : r.WF) (hj : r.jState = .expectKeyName) (ht : r.expectKeyName pos c = .ok t) :
    t.WF := by
  have hroot := h.root (by simp [hj]) (by simp [hj])
  have hobj := h.object (.inl hj)
  have hv : r.value = [] := h.value_nil (by simp [hj])
  have he : r.inEscape = false := by
    have := h.escaped
    simpa [hj] using this
  rw [Reader.expectKeyName] at ht
  split_ifs at ht with hq hc hb hn hc hs hb
  · obtain rfl := Except.ok.inj ht
    exact ⟨h.name_lt, h.value_lt, h.stack_lt, fun _ => hv, by simp, fun _ _ => hroot, fun _ => hobj, by simp,
      by simp [he]⟩
  · obtain rfl := Except.ok.inj ht
    exact { h with name_lt := by simp only [List.length_append, List.length_singleton]; omega }
  · obtain rfl := Except.ok.inj ht
    exact ⟨h.name_lt, h.value_lt, h.stack_lt, fun _ => hv, h.outside, h.root, h.object, fun _ => .inl hj,
      by simp [he]⟩
  · obtain rfl := Except.ok.inj ht
    exact h
  · have hn := h.toNext (by simp [hj]) (by simp [hj]) hv (by simpa using hq)
    exact hn.expectNext rfl ht

theorem expectKeySep (h : r.WF) (hj : r.jState = .expectKeySep) (ht : r.expectKeySep pos c = .ok t) :
    t.WF := by
  have hroot := h.root (by simp [hj]) (by simp [hj])
  have hq := h.not_quoted (by simp [hj]) (by simp [hj])
  have he := h.not_escaped hq
  rw [Reader.expectKeySep] at ht
  split_ifs at ht with hc hs
  · obtain rfl := Except.ok.inj ht
    exact ⟨h.name_lt, h.value_lt, h.stack_lt, fun _ => h.value_nil (by simp [hj]), by simp, fun _ _ => hroot,
      by simp, by simp [hq], by simp [he]⟩
  · obtain rfl := Except.ok.inj ht
    exact h

theorem openContainer (h : r.WF) (hroot : r.stack.getLast? = some false) (hv : r.value = [])
    (hq : r.inQuote = false) (hl : r.stack.length + 1 < maxDepth) (b : Bool) :
    { r with name := [], stack := b :: r.stack, jState := if b then .expectValue else .expectKeyName }.WF := by
  have hne : r.stack ≠ [] := by
    intro he
    simp [he] at hroot
  have hlast : (b :: r.stack).getLast? = some false := by rwa [List.getLast?_cons_of_ne_nil hne]
  have he := h.not_escaped hq
  cases b <;> exact ⟨by simp, h.value_lt, hl, fun _ => hv, by simp, fun _ _ => hlast, by simp, by simp [hq],
    by simp [he]⟩

theorem expectValue (h : r.WF) (hj : r.jState = .expectValue) (ht : r.expectValue pos c = .ok t) : t.WF := by
  have hroot := h.root (by simp [hj]) (by simp [hj])
  have hv : r.value = [] := h.value_nil (by simp [hj])
  have hq := h.not_quoted (by simp [hj]) (by simp [hj])
  have he := h.not_escaped hq
  rw [Reader.expectValue] at ht
  split_ifs at ht with hc hw ho hd hb hs hx
  · obtain rfl := Except.ok.inj ht
    exact ⟨h.name_lt, h.value_lt, h.stack_lt, by simp, by simp, fun _ _ => hroot, by simp, by simp, by simp [he]⟩
  · obtain rfl := Except.ok.inj ht
    exact ⟨h.name_lt, by simp [hv, genericBuflen], h.stack_lt, by simp, by simp, fun _ _ => hroot, by simp,
      by simp [hq], by simp [he]⟩
  · obtain rfl := Except.ok.inj ht
    simpa [hb] using h.openContainer hroot hv hq (Nat.lt_of_not_le hd) true
  · obtain rfl := Except.ok.inj ht
    have hf : (c == lbracket) = false := beq_eq_false_iff_ne.mpr hb
    rw [hf]
    exact h.openContainer hroot hv hq (Nat.lt_of_not_le hd) false
  · obtain rfl := Except.ok.inj ht
    exact h
  · have hn := h.toNext (by simp [hj]) (by simp [hj]) hv hq
    exact hn.expectNext rfl ht

theorem appendValue (h : r.WF) (hj : r.jState = .expectReadValue) (ht : r.appendValue c = .ok t) : t.WF := by
  rw [Reader.appendValue] at ht
  split_ifs at ht with hv
  obtain rfl := Except.ok.inj ht
  exact { h with
    value_lt := by simp only [List.length_append, List.length_singleton]; omega
    value_nil := by simp [hj] }

theorem completed (h : r.WF) (hj : r.jState = .expectReadValue) (he : r.inEscape = false) :
    { r.completed with inQuote := false }.WF :=
  ⟨by simp [Reader.completed], by simp [Reader.completed], h.stack_lt, fun _ => rfl,
    by simp [Reader.completed], fun _ _ => h.root (by simp [hj]) (by simp [hj]), by simp [Reader.completed],
    by simp, by simp [Reader.completed, he]⟩

theorem expectReadValue (h : r.WF) (hj : r.jState = .expectReadValue)
    (ht : (r.expectReadValue pos c).2 = .ok t) : t.WF := by
  rw [Reader.expectReadValue] at ht
  by_cases hq : r.inQuote = true
  · rw [if_pos hq] at ht
    by_cases he : r.inEscape = true
    · rw [if_pos he] at ht
      cases hu : unescape c with
      | none => simp [hu] at ht
      | some u =>
        have h' : { r with inEscape := false }.WF := { h with escaped := by simp }
        rw [hu] at ht
        exact h'.appendValue hj ht
    rw [if_neg he] at ht
    split_ifs at ht with hc hb hs
    · obtain rfl := Except.ok.inj ht
      exact h.completed hj (by simpa using he)
    · obtain rfl := Except.ok.inj ht
      exact { h with escaped := fun _ => ⟨hq, hj⟩ }
    · exact h.appendValue hj ht
  rw [if_neg hq] at ht
  have hq' : r.inQuote = false := by simpa using hq
  by_cases hw : isWordChar c = true
  · rw [if_pos hw] at ht
    exact h.appendValue hj ht
  rw [if_neg hw] at ht
  by_cases hs : isSpace c = true
  · rw [if_pos hs] at ht
    obtain rfl := Except.ok.inj ht
    exact h
  rw [if_neg hs] at ht
  by_cases hx : c = comma ∨ c = rbrace ∨ c = rbracket
  · have hc := h.completed hj (h.not_escaped hq')
    have hr : { r.completed with inQuote := false } = r.completed := by simp [Reader.completed, hq']
    rw [if_pos hx] at ht
    rw [hr] at hc
    exact hc.expectNext rfl ht
  · rw [if_neg hx] at ht
    exact absurd ht (by simp)

theorem expectRootEnd (h : r.WF) (ht : r.expectRootEnd pos c = .ok t) : t.WF := by
  rw [Reader.expectRootEnd] at ht
  split_ifs at ht
  obtain rfl := Except.ok.inj ht
  exact h

theorem step (h : r.WF) (ht : (r.step pos c).2 = .ok t) : t.WF := by
  rw [Reader.step] at ht
  cases hj : r.jState with
  | expectRootStart => exact h.expectRootStart hj (by simpa only [hj] using ht)
  | expectKeyName => exact h.expectKeyName hj (by simpa only [hj] using ht)
  | expectKeySep => exact h.expectKeySep hj (by simpa only [hj] using ht)
  | expectValue => exact h.expectValue hj (by simpa only [hj] using ht)
  | expectReadValue => exact h.expectReadValue hj (by simpa only [hj] using ht)
  | expectNext => exact h.expectNext hj (by simpa only [hj] using ht)
  | expectRootEnd => exact h.expectRootEnd (by simpa only [hj] using ht)

end WF

end Reader

namespace Client

theorem init_wf (usingHttp : Bool) : (init usingHttp).WF := by
  have hr := Reader.init_wf
  exact ⟨hr.name_lt, hr.value_lt, fun _ => hr, fun _ => rfl, fun _ => rfl⟩

variable {s t : Client} {c : Byte}

namespace WF

theorem withName (h : s.WF) (hs : s.state ≠ .readingJson) {b : List Byte} (hb : b.length < genericBuflen) :
    (s.setName b).WF := by
  refine ⟨hb, h.value_lt, fun hj => absurd hj hs, fun _ => ?_, h.value_nil⟩
  have := h.header hs
  rw [setName, this]

theorem withValue (h : s.WF) (hs : s.state = .readingHttpHeaderValue) {b : List Byte}
    (hb : b.length < genericBuflen) : (s.setValue b).WF := by
  refine ⟨h.name_lt, hb, by simp [hs], fun _ => ?_, by simp [hs]⟩
  have := h.header (by simp [hs])
  rw [setValue, this]

theorem of_init (hr : s.reader = .init) : s.WF := by
  have h := Reader.init_wf
  refine ⟨hr ▸ h.name_lt, hr ▸ h.value_lt, fun _ => hr ▸ h, fun _ => by rw [hr], fun _ => by rw [hr]; rfl⟩

theorem header_init (h : s.WF) (hs : s.state ≠ .readingJson) :
    { s.reader with name := [], value := [] } = Reader.init := by
  rw [h.header hs]
  rfl

theorem appendName (h : s.WF) (hs : s.state ≠ .readingJson) (ht : s.appendName c = .ok t) : t.WF := by
  rw [Client.appendName] at ht
  split_ifs at ht with hn
  obtain rfl := Except.ok.inj ht
  exact h.withName hs (by simp only [List.length_append, List.length_singleton]; omega)

theorem readHttpHeader (h : s.WF) (hs : s.state = .readingHttpHeader) (ht : s.readHttpHeader c = .ok t) :
    t.WF := by
  have hv := h.value_nil (.inl hs)
  have hr := h.header_init (by simp [hs])
  rw [Client.readHttpHeader] at ht
  split_ifs at ht with hc
  · dsimp only at ht
    split_ifs at ht
    obtain rfl := Except.ok.inj ht
    exact of_init (by rw [← hr, ← hv])
  · exact h.appendName (by simp [hs]) ht

theorem readHttpHeaderName (h : s.WF) (hs : s.state = .readingHttpHeaderName)
    (ht : s.readHttpHeaderName c = .ok t) : t.WF := by
  have hv := h.value_nil (.inr hs)
  have hr := h.header_init (by simp [hs])
  rw [Client.readHttpHeaderName] at ht
  split_ifs at ht with hcr hc hb hk
  · exact h.appendName (by simp [hs]) ht
  · obtain rfl := Except.ok.inj ht
    exact of_init (by rw [← hr, ← hv])
  · obtain rfl := Except.ok.inj ht
    exact h
  · obtain rfl := Except.ok.inj ht
    exact ⟨h.name_lt, h.value_lt, by simp, fun _ => h.header (by simp [hs]), by simp⟩
  · exact h.appendName (by simp [hs]) ht

theorem readHttpHeaderValue (h : s.WF) (hs : s.state = .readingHttpHeaderValue)
    (ht : s.readHttpHeaderValue c = .ok t) : t.WF := by
  have hr := h.header_init (by simp [hs])
  rw [Client.readHttpHeaderValue] at ht
  split_ifs at ht with hc hcl hb hl
  · obtain rfl := Except.ok.inj ht
    exact of_init (by rw [← hr])
  · obtain rfl := Except.ok.inj ht
    exact of_init (by rw [← hr])
  · obtain rfl := Except.ok.inj ht
    exact h
  · obtain rfl := Except.ok.inj ht
    exact h.withValue hs (by simp only [List.length_append, List.length_singleton]; omega)

theorem step (h : s.WF) (ht : (s.step c).2 = .ok t) : t.WF := by
  rw [Client.step] at ht
  cases hs : s.state with
  | readingHttpHeader => exact h.readHttpHeader hs (by simpa only [hs] using ht)
  | readingHttpHeaderName => exact h.readHttpHeaderName hs (by simpa only [hs] using ht)
  | readingHttpHeaderValue => exact h.readHttpHeaderValue hs (by simpa only [hs] using ht)
  | readingJson =>
    simp only [hs] at ht
    split_ifs at ht
    cases hr : (s.reader.step (s.jsonLen + 1) c).2 with
    | error e => simp [hr, Except.map] at ht
    | ok r =>
      have hwf := (h.json hs).step hr
      rw [hr] at ht
      obtain rfl := Except.ok.inj ht
      exact ⟨hwf.name_lt, hwf.value_lt, fun _ => hwf, by simp, by simp⟩

end WF

end Client

end BzccScanner
