import BzccScanner.ReaderInvariant

/-! `parse_data` simulates the reader: the buffers hold the reader's lists and
are zero behind them, and `is_array` below `depth` is the stack. No checked
access fails, apart from the one in the status line. -/

namespace BzccScanner

open CString Mealy

/-- The array holds the list and is zero behind it. -/
structure Holds (buf : Buffer) (b : List Byte) : Prop where
  length_le : b.length ≤ genericBuflen
  toList_eq : buf.toList = b ++ List.replicate (genericBuflen - b.length) 0

namespace Holds

variable {buf : Buffer} {b : List Byte}

theorem of_getElem (hb : b.length ≤ genericBuflen)
    (h : ∀ i (hi : i < genericBuflen), buf[i] = if hl : i < b.length then b[i] else 0) : Holds buf b := by
  refine ⟨hb, List.ext_getElem (by simp; omega) ?_⟩
  intro i h1 h2
  have hi : i < genericBuflen := by simpa using h1
  rw [Vector.getElem_toList, h i hi]
  by_cases hl : i < b.length
  · simp [hl]
  · simp [hl, List.getElem_append_right (Nat.le_of_not_lt hl)]

theorem eq_dite (h : Holds buf b) {i : Nat} (hi : i < genericBuflen) :
    buf[i] = if hl : i < b.length then b[i] else 0 := by
  have hg : buf[i]? = (b ++ List.replicate (genericBuflen - b.length) 0)[i]? := by
    rw [← h.toList_eq, Vector.getElem?_toList]
  rw [Vector.getElem?_eq_getElem hi] at hg
  by_cases hl : i < b.length
  · rw [List.getElem?_append_left hl, List.getElem?_eq_getElem hl] at hg
    simpa [hl] using hg
  · have hr : i - b.length < genericBuflen - b.length := by omega
    rw [List.getElem?_append_right (Nat.le_of_not_lt hl), List.getElem?_replicate, if_pos hr] at hg
    simpa [hl] using hg

theorem zeros : Holds (Vector.replicate _ 0) [] := by
  apply of_getElem (by simp)
  intro i hi
  simp

theorem push (h : Holds buf b) (hb : b.length < genericBuflen) (c : Byte) :
    Holds (buf.set b.length c) (b ++ [c]) := by
  apply of_getElem (by simp; omega)
  intro i hi
  rw [Vector.getElem_set, h.eq_dite hi]
  by_cases hl : b.length = i
  · subst hl; simp
  · by_cases hlt : i < b.length
    · simp [hl, hlt, List.getElem_append_left hlt, Nat.lt_succ_of_lt hlt]
    · have : ¬ i < b.length + 1 := by omega
      simp [hl, hlt, this]

theorem tail (h : Holds buf b) (i : Nat) (hi : i < genericBuflen) (hl : b.length ≤ i) : buf[i] = 0 := by
  rw [h.eq_dite hi, dif_neg (Nat.not_lt.mpr hl)]

theorem zeroMemory {n : Nat} (h : ∀ i (hi : i < genericBuflen), n ≤ i → buf[i] = 0) :
    Holds (zeroMemory buf n) [] := by
  apply of_getElem (by simp)
  intro i hi
  by_cases hl : i < n
  · simp [BzccScanner.zeroMemory, hl]
  · simp [BzccScanner.zeroMemory, hl, h i hi (Nat.le_of_not_lt hl)]

theorem last (h : Holds buf b) (hne : b ≠ []) : buf[b.length - 1]? = b.getLast? := by
  have hpos : 0 < b.length := List.length_pos_iff.mpr hne
  have hi : b.length - 1 < genericBuflen := by have := h.length_le; omega
  rw [Vector.getElem?_eq_getElem hi, h.eq_dite hi, dif_pos (by omega), List.getLast?_eq_getElem?,
    List.getElem?_eq_getElem (by omega)]

theorem dropLast (h : Holds buf b) (hne : b ≠ []) (hi : b.length - 1 < genericBuflen) :
    Holds (buf.set (b.length - 1) 0) b.dropLast := by
  have hpos : 0 < b.length := List.length_pos_iff.mpr hne
  apply of_getElem (by have := h.length_le; simp; omega)
  intro i hi'
  rw [Vector.getElem_set, h.eq_dite hi']
  by_cases hl : b.length - 1 = i
  · subst hl; simp
  · by_cases hlt : i < b.length - 1
    · have : i < b.length := by omega
      simp [hl, hlt, this]
    · have : ¬ i < b.length := by omega
      simp [hl, hlt, this]

theorem cstr_eq (h : Holds buf b) : cstr buf.toList = cstr b := by
  rw [h.toList_eq, cstr_append_replicate]

theorem strncpy_eq (h : Holds buf b) (n : Nat) : strncpy n buf.toList = strncpy n b := by
  rw [h.toList_eq, strncpy_append_replicate]

end Holds

/-- The parser's memory represents the reader's state. -/
structure Refines (p : Parser) (s : Client) : Prop where
  name : Holds p.name s.reader.name
  value : Holds p.value s.reader.value
  nameLen : p.nameLen = s.reader.name.length
  valueLen : p.valueLen = s.reader.value.length
  contentLength : p.contentLength = s.contentLength
  jsonLen : p.jsonLen = s.jsonLen
  state : p.state = s.state
  jState : p.jState = s.reader.jState
  depth : p.depth = s.reader.stack.length
  isArray : ∀ (i : Nat) (b : Bool), s.reader.stack.reverse[i]? = some b → p.isArray[i]? = some (some b)
  serverSlot : p.serverSlot = Int32.ofNat s.reader.serverSlot
  playerSlot : p.playerSlot = Int32.ofNat s.reader.playerSlot
  inQuote : p.inQuote = s.reader.inQuote
  inEscape : p.inEscape = s.reader.inEscape

theorem init_refines (usingHttp : Bool) : Refines (Parser.init usingHttp) (Client.init usingHttp) := by
  constructor <;> simp [Parser.init, Client.init, Reader.init, Holds.zeros]

variable {σ : Type} {p : Parser} {s : Client}

namespace Refines

theorem setName (h : Refines p s) {buf : Buffer} {n : Nat} {b : List Byte} (hb : Holds buf b)
    (hn : n = b.length) : Refines { p with name := buf, nameLen := n } (s.setName b) :=
  { h with name := hb, nameLen := hn }

theorem setValue (h : Refines p s) {buf : Buffer} {n : Nat} {b : List Byte} (hb : Holds buf b)
    (hn : n = b.length) : Refines { p with value := buf, valueLen := n } (s.setValue b) :=
  { h with value := hb, valueLen := hn }

theorem pushName (h : Refines p s) (hl : s.reader.name.length < genericBuflen) (c : Byte) :
    ∃ p', p.pushName c = (.ok p' : Loop σ Parser) ∧ Refines p' (s.setName (s.reader.name ++ [c])) := by
  have hn : p.nameLen < genericBuflen := h.nameLen.trans_lt hl
  have hp : Holds (p.name.set p.nameLen c) (s.reader.name ++ [c]) := by
    simpa only [h.nameLen] using h.name.push hl c
  refine ⟨{ p with name := p.name.set p.nameLen c, nameLen := p.nameLen + 1 }, ?_,
    h.setName hp (by simp [h.nameLen])⟩
  simp only [Parser.pushName, Parser.setName, hn, dif_pos]
  rfl

theorem pushValue (h : Refines p s) (hl : s.reader.value.length < genericBuflen) (c : Byte) :
    ∃ p', p.pushValue c = (.ok p' : Loop σ Parser) ∧ Refines p' (s.setValue (s.reader.value ++ [c])) := by
  have hn : p.valueLen < genericBuflen := h.valueLen.trans_lt hl
  have hp : Holds (p.value.set p.valueLen c) (s.reader.value ++ [c]) := by
    simpa only [h.valueLen] using h.value.push hl c
  refine ⟨{ p with value := p.value.set p.valueLen c, valueLen := p.valueLen + 1 }, ?_,
    h.setValue hp (by simp [h.valueLen])⟩
  simp only [Parser.pushValue, Parser.setValue, hn, dif_pos]
  rfl

theorem zeroName (h : Refines p s) :
    ∃ p', p.zeroName = (.ok p' : Loop σ Parser) ∧ p'.isArray = p.isArray ∧ Refines p' (s.setName []) := by
  have hn : p.nameLen ≤ genericBuflen := h.nameLen.trans_le h.name.length_le
  have hz : Holds (zeroMemory p.name p.nameLen) [] :=
    .zeroMemory fun i hi hl => h.name.tail i hi (h.nameLen.symm.trans_le hl)
  exact ⟨{ p with name := zeroMemory p.name p.nameLen, nameLen := 0 }, if_pos hn, rfl, h.setName hz rfl⟩

theorem zeroValue (h : Refines p s) :
    ∃ p', p.zeroValue = (.ok p' : Loop σ Parser) ∧ Refines p' (s.setValue []) := by
  have hn : p.valueLen ≤ genericBuflen := h.valueLen.trans_le h.value.length_le
  have hz : Holds (zeroMemory p.value p.valueLen) [] :=
    .zeroMemory fun i hi hl => h.value.tail i hi (h.valueLen.symm.trans_le hl)
  exact ⟨{ p with value := zeroMemory p.value p.valueLen, valueLen := 0 }, if_pos hn, h.setValue hz rfl⟩

theorem isArrayAt_top (h : Refines p s) {b : Bool} {st : List Bool} (hst : s.reader.stack = b :: st) :
    p.isArrayAt (p.depth - 1) = (.ok b : Loop σ Bool) := by
  have hd : p.depth - 1 = Int.ofNat st.length := by
    have := h.depth
    simp only [hst, List.length_cons] at this
    simp only [Int.ofNat_eq_natCast]
    omega
  have ha := h.isArray st.length b (by simp [hst])
  simp only [hd, Parser.isArrayAt, ha]

theorem setIsArray (h : Refines p s) (hl : s.reader.stack.length < maxDepth) (b : Bool) :
    ∃ p', p.setIsArray b = (.ok p' : Loop σ Parser) ∧
      p'.isArray[s.reader.stack.length]? = some (some b) ∧ Refines p' s := by
  have hd : p.depth = Int.ofNat s.reader.stack.length := h.depth
  refine ⟨{ p with isArray := p.isArray.set s.reader.stack.length (some b) }, ?_, ?_, { h with isArray := ?_ }⟩
  · simp [Parser.setIsArray, hd, hl]
  · simp [hl]
  · intro i c hi
    have hlt : i < s.reader.stack.length := by
      have := (List.getElem?_eq_some_iff.mp hi).1
      simpa using this
    have := h.isArray i c hi
    rw [Vector.getElem?_set_ne hl (Nat.ne_of_gt hlt), this]

theorem push (h : Refines p s) {b : Bool} (hb : p.isArray[s.reader.stack.length]? = some (some b)) :
    Refines { p with depth := p.depth + 1 }
      { s with reader := { s.reader with stack := b :: s.reader.stack } } := by
  refine { h with depth := by simp [h.depth], isArray := ?_ }
  intro i c hi
  simp only [List.reverse_cons] at hi
  by_cases hlt : i < s.reader.stack.length
  · rw [List.getElem?_append_left (by simpa using hlt)] at hi
    exact h.isArray i c hi
  · have he : i = s.reader.stack.length := by
      have := (List.getElem?_eq_some_iff.mp hi).1
      simp at this
      omega
    subst he
    simpa [hb] using hi

theorem pop (h : Refines p s) {b : Bool} {st : List Bool} (hst : s.reader.stack = b :: st) :
    Refines { p with depth := p.depth - 1 } { s with reader := { s.reader with stack := st } } := by
  refine { h with depth := by simp [h.depth, hst], isArray := ?_ }
  intro i c hi
  apply h.isArray i c
  rw [hst, List.reverse_cons, List.getElem?_append_left]
  · exact hi
  · exact (List.getElem?_eq_some_iff.mp hi).1

theorem closeSlots (h : Refines p s) :
    Refines p.closeSlots { s with reader := s.reader.closeSlots s.reader.stack.length } := by
  have hd := h.depth
  by_cases h3 : s.reader.stack.length = 3
  · rw [Parser.closeSlots, Reader.closeSlots, if_pos (by omega), if_pos h3]
    exact { h with serverSlot := by simp [h.serverSlot], playerSlot := rfl }
  · by_cases h5 : s.reader.stack.length = 5
    · rw [Parser.closeSlots, Reader.closeSlots, if_neg (by omega), if_neg h3, if_pos (by omega), if_pos h5]
      exact { h with playerSlot := by simp [h.playerSlot] }
    · rw [Parser.closeSlots, Reader.closeSlots, if_neg (by omega), if_neg h3, if_neg (by omega), if_neg h5]
      exact h

end Refines

variable {w : World σ} {c : Byte} {cb : Callback σ}

def Sim (q : Parser × World σ) (t : Client × World σ) : Prop := Refines q.1 t.1 ∧ q.2 = t.2

def resolve (s : Client) (w : World σ) : Except Stop Reader → Loop σ (Client × World σ)
  | .ok r => .ok ({ s with reader := r }, w)
  | .error e => .error (e.exit w)

theorem agree_fail (m : Message) :
    Agree (E := Exit σ) Sim (w.fail m) (resolve s w (.error (.fail m))) := .error _

theorem expectRootStart_agree (h : Refines p s) (hl : s.reader.stack.length < maxDepth) :
    Agree Sim (expectRootStart p w c) (resolve s w (s.reader.expectRootStart s.jsonLen c)) := by
  by_cases hc : c = lbrace
  · have h' : Refines { p with jState := .expectKeyName }
        { s with reader := { s.reader with jState := .expectKeyName } } := { h with jState := rfl }
    obtain ⟨p', hp', ha, hr⟩ := h'.setIsArray (σ := σ) hl false
    rw [expectRootStart, if_pos hc, hp', Reader.expectRootStart, if_pos hc]
    exact .ok ⟨hr.push ha, rfl⟩
  · by_cases hs : isSpace c = true
    · rw [expectRootStart, if_neg hc, if_pos hs, Reader.expectRootStart, if_neg hc, if_pos hs]
      exact .ok ⟨h, rfl⟩
    · rw [expectRootStart, if_neg hc, if_neg hs, Reader.expectRootStart, if_neg hc, if_neg hs, h.jsonLen]
      exact agree_fail _

theorem expectNext_agree (h : Refines p s) (hne : s.reader.stack ≠ []) :
    Agree Sim (expectNext p w c) (resolve s w (s.reader.expectNext s.jsonLen c)) := by
  obtain ⟨b, st, hst⟩ := List.exists_cons_of_ne_nil hne
  have htop := h.isArrayAt_top (σ := σ) hst
  have hd : p.depth - 1 = st.length := by
    have := h.depth
    simp only [hst, List.length_cons] at this
    omega
  cases b with
  | true =>
    rw [expectNext, htop, Reader.expectNext_array hst]
    simp only [bind, Except.bind, pure, Except.pure, if_true]
    by_cases hc : c = comma
    · obtain ⟨p', hp', -, hr⟩ := h.zeroName (σ := σ)
      rw [if_pos hc, if_pos hc, hp']
      exact .ok ⟨{ hr with jState := rfl }, rfl⟩
    · rw [if_neg hc, if_neg hc]
      by_cases hb : c = rbracket
      · have hp := h.pop hst
        rw [if_pos hb, if_pos hb]
        cases st with
        | nil =>
          rw [if_pos (by simp at hd; omega)]
          exact .ok ⟨{ hp with jState := rfl }, rfl⟩
        | cons b' st =>
          have ht : { p with depth := p.depth - 1 }.isArrayAt (p.depth - 1) = (.ok true : Loop σ Bool) := htop
          rw [if_neg (by simp at hd; omega), ht]
          exact .ok ⟨{ hp with jState := rfl }, rfl⟩
      · rw [if_neg hb, if_neg hb]
        by_cases hs : isSpace c = true
        · rw [if_pos hs, if_pos hs]
          exact .ok ⟨h, rfl⟩
        · rw [if_neg hs, if_neg hs, h.jsonLen]
          exact agree_fail _
  | false =>
    rw [expectNext, htop, Reader.expectNext_object hst]
    simp only [bind, Except.bind, pure, Except.pure, Bool.false_eq_true, if_false]
    by_cases hc : c = comma
    · obtain ⟨p₁, hp₁, -, h₁⟩ := h.zeroName (σ := σ)
      obtain ⟨p₂, hp₂, h₂⟩ := h₁.zeroValue (σ := σ)
      rw [if_pos hc, if_pos hc, hp₁]
      simp only [hp₂]
      exact .ok ⟨{ h₂ with jState := rfl }, rfl⟩
    · rw [if_neg hc, if_neg hc]
      by_cases hb : c = rbrace
      · have hs : (s.reader.closeSlots s.reader.stack.length).stack = false :: st := by simp [hst]
        have hp := h.closeSlots.pop hs
        have hd' : p.closeSlots.depth - 1 = st.length := by
          have := h.closeSlots.depth
          simp only [hs, List.length_cons] at this
          omega
        simp only [hst, List.length_cons] at hp
        rw [if_pos hb, if_pos hb]
        cases st with
        | nil =>
          rw [if_pos (by simp at hd'; omega)]
          exact .ok ⟨{ hp with jState := rfl }, rfl⟩
        | cons b' st =>
          have ht := hp.isArrayAt_top (σ := σ) rfl
          rw [if_neg (by simp at hd'; omega)]
          simp only [ht]
          cases b' <;> exact .ok ⟨{ hp with jState := rfl }, rfl⟩
      · rw [if_neg hb, if_neg hb]
        by_cases hs : isSpace c = true
        · rw [if_pos hs, if_pos hs]
          exact .ok ⟨h, rfl⟩
        · rw [if_neg hs, if_neg hs, h.jsonLen]
          exact agree_fail _

theorem expectKeyName_agree (h : Refines p s) (hne : s.reader.stack ≠ [])
    (hl : s.reader.name.length < genericBuflen) :
    Agree Sim (expectKeyName p w c) (resolve s w (s.reader.expectKeyName s.jsonLen c)) := by
  rw [expectKeyName, Reader.expectKeyName]
  by_cases hq : s.reader.inQuote = true
  · rw [if_pos (h.inQuote.trans hq), if_pos hq]
    by_cases hc : c = quote
    · rw [if_pos hc, if_pos hc]
      exact .ok ⟨{ h with inQuote := rfl, jState := rfl }, rfl⟩
    · rw [if_neg hc, if_neg hc]
      by_cases hb : c = lf ∨ c = cr
      · rw [if_pos hb, if_pos hb, h.jsonLen]
        exact agree_fail _
      · rw [if_neg hb, if_neg hb, h.nameLen]
        by_cases hn : s.reader.name.length + 1 ≥ genericBuflen
        · rw [if_pos hn, if_pos hn]
          exact agree_fail _
        · obtain ⟨p', hp', hr⟩ := h.pushName (σ := σ) hl c
          rw [if_neg hn, if_neg hn, hp']
          exact .ok ⟨hr, rfl⟩
  · rw [if_neg (h.inQuote ▸ hq), if_neg hq]
    by_cases hc : c = quote
    · rw [if_pos hc, if_pos hc]
      exact .ok ⟨{ h with inQuote := rfl }, rfl⟩
    · rw [if_neg hc, if_neg hc]
      by_cases hs : isSpace c = true
      · rw [if_pos hs, if_pos hs]
        exact .ok ⟨h, rfl⟩
      · rw [if_neg hs, if_neg hs]
        by_cases hb : c = rbrace
        · rw [if_pos hb, if_pos hb]
          have h' : Refines { p with jState := .expectNext }
            { s with reader := { s.reader with jState := .expectNext } } := { h with jState := rfl }
          exact expectNext_agree h' hne
        · rw [if_neg hb, if_neg hb, h.jsonLen]
          exact agree_fail _

theorem expectKeySep_agree (h : Refines p s) :
    Agree Sim (expectKeySep p w c) (resolve s w (s.reader.expectKeySep s.jsonLen c)) := by
  by_cases hc : c = colon
  · rw [expectKeySep, Reader.expectKeySep, if_pos hc, if_pos hc]
    exact .ok ⟨{ h with jState := rfl }, rfl⟩
  · by_cases hs : isSpace c = true
    · rw [expectKeySep, Reader.expectKeySep, if_neg hc, if_neg hc, if_pos hs, if_pos hs]
      exact .ok ⟨h, rfl⟩
    · rw [expectKeySep, Reader.expectKeySep, if_neg hc, if_neg hc, if_neg hs, if_neg hs, h.jsonLen]
      exact agree_fail _

theorem expectValue_agree (h : Refines p s) (hne : s.reader.stack ≠ [])
    (hst : s.reader.stack.length < maxDepth) (hl : s.reader.value.length < genericBuflen) :
    Agree Sim (expectValue p w c) (resolve s w (s.reader.expectValue s.jsonLen c)) := by
  rw [expectValue, Reader.expectValue]
  by_cases hc : c = quote
  · rw [if_pos hc, if_pos hc]
    exact .ok ⟨{ h with inQuote := rfl, jState := rfl }, rfl⟩
  rw [if_neg hc, if_neg hc]
  by_cases hw : isWordChar c = true
  · obtain ⟨p', hp', hr⟩ := h.pushValue (σ := σ) hl c
    rw [if_pos hw, if_pos hw, hp']
    exact .ok ⟨{ hr with jState := rfl }, rfl⟩
  rw [if_neg hw, if_neg hw]
  by_cases ho : c = lbracket ∨ c = lbrace
  · have h' : Refines { p with jState := if c = lbracket then .expectValue else .expectKeyName }
      { s with reader := { s.reader with
        jState := if c = lbracket then .expectValue else .expectKeyName } } := { h with jState := rfl }
    obtain ⟨p₁, hp₁, ha, h₁⟩ := h'.setIsArray (σ := σ) hst (c == lbracket)
    have hd := h₁.depth
    rw [if_pos ho, if_pos ho]
    simp only [hp₁, bind, Except.bind]
    by_cases hmax : s.reader.stack.length + 1 ≥ maxDepth
    · rw [if_pos (by simp only [hd]; omega), if_pos hmax, h₁.jsonLen]
      exact agree_fail _
    · obtain ⟨p₂, hp₂, hi, h₂⟩ := h₁.zeroName (σ := σ)
      rw [if_neg (by simp only [hd]; omega), if_neg hmax, hp₂]
      exact .ok ⟨h₂.push (hi ▸ ha), rfl⟩
  rw [if_neg ho, if_neg ho]
  by_cases hs : isSpace c = true
  · rw [if_pos hs, if_pos hs]
    exact .ok ⟨h, rfl⟩
  rw [if_neg hs, if_neg hs]
  by_cases hx : c = comma ∨ c = rbrace ∨ c = rbracket
  · rw [if_pos hx, if_pos hx]
    have h' : Refines { p with jState := .expectNext }
      { s with reader := { s.reader with jState := .expectNext } } := { h with jState := rfl }
    exact expectNext_agree h' hne
  · rw [if_neg hx, if_neg hx, h.jsonLen]
    exact agree_fail _

theorem report_eq (h : Refines p s) (status : Status) :
    w.report cb status p.name.toList p.value.toList p.depth p.serverSlot p.playerSlot =
      deliver cb w (s.reader.item status) := by
  rw [World.report, h.name.strncpy_eq, h.value.strncpy_eq, h.depth, h.serverSlot, h.playerSlot]
  rfl

def emit (cb : Callback σ) (s : Client) (w : World σ) (out : List Item × Except Stop Reader) :
    Loop σ (Client × World σ) := do
  let w ← out.1.foldlM (deliver cb) w
  resolve s w out.2

theorem completeValue_eq (cb : Callback σ) (w : World σ) (h : Refines p s) (status : Status) :
    (∃ e, deliver cb w (s.reader.item status) = .error e ∧ completeValue cb p w status = .error e) ∨
    ∃ w' p', deliver cb w (s.reader.item status) = .ok w' ∧
      completeValue cb p w status = .ok (p', w') ∧
      Refines p' { s with reader := s.reader.completed } := by
  rw [completeValue, report_eq h]
  cases deliver cb w (s.reader.item status) with
  | error e => exact .inl ⟨e, rfl, rfl⟩
  | ok w' =>
    obtain ⟨p₁, hp₁, -, h₁⟩ := h.zeroName (σ := σ)
    obtain ⟨p₂, hp₂, h₂⟩ := h₁.zeroValue (σ := σ)
    refine .inr ⟨w', { p₂ with valueComplete := true, jState := .expectNext }, rfl, ?_,
      { h₂ with jState := rfl }⟩
    simp only [bind, Except.bind, hp₁, hp₂]
    rfl

theorem appendValue_agree (h : Refines p s) (hl : s.reader.value.length < genericBuflen) :
    Agree Sim (appendValue p w c) (resolve s w (s.reader.appendValue c)) := by
  rw [appendValue, Reader.appendValue, h.valueLen]
  by_cases hv : s.reader.value.length + 1 ≥ genericBuflen
  · rw [if_pos hv, if_pos hv]
    exact agree_fail _
  · obtain ⟨p', hp', hr⟩ := h.pushValue (σ := σ) hl c
    rw [if_neg hv, if_neg hv, hp']
    exact .ok ⟨hr, rfl⟩

theorem expectReadValue_agree (h : Refines p s) (hne : s.reader.stack ≠ [])
    (hl : s.reader.value.length < genericBuflen) :
    Agree Sim (expectReadValue cb p w c) (emit cb s w (s.reader.expectReadValue s.jsonLen c)) := by
  rw [expectReadValue, Reader.expectReadValue]
  by_cases hq : s.reader.inQuote = true
  · rw [if_pos (h.inQuote.trans hq), if_pos hq]
    by_cases he : s.reader.inEscape = true
    · rw [if_pos (h.inEscape.trans he), if_pos he]
      cases hu : unescape c with
      | none =>
        simp only [h.jsonLen]
        exact agree_fail (s := s) _
      | some u =>
        have h' : Refines { p with inEscape := false }
          { s with reader := { s.reader with inEscape := false } } := { h with inEscape := rfl }
        exact appendValue_agree h' hl
    rw [if_neg (h.inEscape ▸ he), if_neg he]
    by_cases hc : c = quote
    · have h' : Refines { p with inQuote := false }
        { s with reader := { s.reader with inQuote := false } } := { h with inQuote := rfl }
      rw [if_pos hc, if_pos hc]
      rcases completeValue_eq cb w h' .normal with ⟨e, hd, hc⟩ | ⟨w', p', hd, hc, hr⟩
      · have hd' : deliver cb w (s.reader.item .normal) = .error e := hd
        simp only [emit, List.foldlM_cons, hd', hc]
        exact .error _
      · have hd' : deliver cb w (s.reader.item .normal) = .ok w' := hd
        simp only [emit, List.foldlM_cons, hd', hc]
        exact .ok ⟨hr, rfl⟩
    rw [if_neg hc, if_neg hc]
    by_cases hb : c = lf ∨ c = cr
    · rw [if_pos hb, if_pos hb, h.jsonLen]
      exact agree_fail (s := s) _
    rw [if_neg hb, if_neg hb]
    by_cases hs : c = backslash
    · rw [if_pos hs, if_pos hs]
      exact .ok ⟨{ h with inEscape := rfl }, rfl⟩
    · rw [if_neg hs, if_neg hs]
      exact appendValue_agree h hl
  rw [if_neg (h.inQuote ▸ hq), if_neg hq]
  by_cases hw : isWordChar c = true
  · rw [if_pos hw, if_pos hw]
    exact appendValue_agree h hl
  rw [if_neg hw, if_neg hw]
  by_cases hs : isSpace c = true
  · rw [if_pos hs, if_pos hs]
    exact .ok ⟨{ h with }, rfl⟩
  rw [if_neg hs, if_neg hs]
  by_cases hx : c = comma ∨ c = rbrace ∨ c = rbracket
  · rw [if_pos hx, if_pos hx]
    rcases completeValue_eq cb w h (if c = rbrace then .last else .normal) with
      ⟨e, hd, hc⟩ | ⟨w', p', hd, hc, hr⟩
    · simp only [emit, List.foldlM_cons, hd, hc]
      exact .error _
    · simp only [emit, List.foldlM_cons, hd, hc]
      exact expectNext_agree hr hne
  · rw [if_neg hx, if_neg hx, h.value.cstr_eq, h.jsonLen]
    exact agree_fail (s := s) _

theorem expectRootEnd_agree (h : Refines p s) :
    Agree Sim (expectRootEnd p w c) (resolve s w (s.reader.expectRootEnd s.jsonLen c)) := by
  rw [expectRootEnd, Reader.expectRootEnd]
  by_cases hs : isSpace c = true
  · rw [if_pos hs, if_pos hs]
    exact .ok ⟨h, rfl⟩
  · rw [if_neg hs, if_neg hs]
    by_cases hb : c = rbrace
    · rw [if_pos hb, if_pos hb]
      exact .error _
    · rw [if_neg hb, if_neg hb, h.jsonLen]
      exact agree_fail _

def settle (w : World σ) : Except Stop Client → Loop σ (Client × World σ)
  | .ok t => .ok (t, w)
  | .error e => .error (e.exit w)

theorem settle_fail (m : Message) : Agree (E := Exit σ) Sim (w.fail m) (settle w (.error (.fail m))) :=
  .error _

theorem appendName_agree (h : Refines p s) (hl : s.reader.name.length < genericBuflen) :
    Agree Sim (appendHeaderName p w c) (settle w (s.appendName c)) := by
  rw [appendHeaderName, Client.appendName, h.nameLen]
  by_cases hn : s.reader.name.length + 1 ≥ genericBuflen
  · rw [if_pos hn, if_pos hn]
    exact settle_fail _
  · obtain ⟨p', hp', hr⟩ := h.pushName (σ := σ) hl c
    rw [if_neg hn, if_neg hn, hp']
    exact .ok ⟨hr, rfl⟩

theorem endsLine_eq (f : Fault) {buf : Buffer} {b : List Byte} (hb : Holds buf b) {n : Nat} (hn : n = b.length)
    (c : Byte) : endsLine f buf n c = (.ok (decide (c = lf ∧ b.getLast? = some cr)) : Loop σ Bool) := by
  subst hn
  by_cases hc : c = lf
  · by_cases hne : b = []
    · simp [endsLine, hne]
    · have hpos : 0 < b.length := List.length_pos_iff.mpr hne
      rw [endsLine, if_pos ⟨hpos, hc⟩, hb.last hne, List.getLast?_eq_some_getLast hne]
      simp [hc, beq_eq_decide]
  · rw [endsLine, if_neg (by simp [hc])]
    simp [hc]

theorem readHttpHeader_agree (h : Refines p s) (hl : s.reader.name.length < genericBuflen) :
    Agree Sim (readHttpHeader p w c) (settle w (s.readHttpHeader c)) := by
  rw [readHttpHeader, Client.readHttpHeader, endsLine_eq _ h.name h.nameLen]
  simp only [bind, Except.bind, decide_eq_true_eq]
  by_cases hc : c = lf ∧ s.reader.name.getLast? = some cr
  · rw [if_pos hc, if_pos hc]
    have hne : s.reader.name ≠ [] := by
      intro he
      simp [he] at hc
    have hi : s.reader.name.length - 1 < genericBuflen := by omega
    have hd := h.name.dropLast hne hi
    have hs : { p with state := .readingHttpHeaderName }.setName (p.nameLen - 1) 0 =
        (.ok { p with state := .readingHttpHeaderName, name := p.name.set (s.reader.name.length - 1) 0 } :
          Loop σ Parser) := by
      simp only [Parser.setName, h.nameLen, hi, dif_pos]
    have hz : Holds (zeroMemory (p.name.set (s.reader.name.length - 1) 0) p.nameLen) [] := by
      refine .zeroMemory fun i hi' hle => ?_
      rw [Vector.getElem_set, h.name.tail i hi' (h.nameLen.symm.trans_le hle)]
      simp
    rw [hs]
    simp only [statusLineOk, hd.cstr_eq]
    by_cases hlen : (cstr s.reader.name.dropLast).length < okSuffix.length
    · rw [if_pos hlen, if_pos hlen]
      exact .error _
    · rw [if_neg hlen, if_neg hlen]
      by_cases hok : strcmpi ((cstr s.reader.name.dropLast).drop
          ((cstr s.reader.name.dropLast).length - okSuffix.length)) okSuffix = true
      · have hn : p.nameLen ≤ genericBuflen := h.nameLen.trans_le h.name.length_le
        simp only [hok, if_true, Parser.zeroName, hn]
        have h' : Refines { p with state := .readingHttpHeaderName }
          { s with state := .readingHttpHeaderName } := { h with state := rfl }
        exact .ok ⟨h'.setName hz rfl, rfl⟩
      · simp only [hok]
        exact settle_fail _
  · rw [if_neg hc, if_neg hc]
    exact appendName_agree h hl

theorem readHttpHeaderName_agree (h : Refines p s) (hl : s.reader.name.length < genericBuflen) :
    Agree Sim (readHttpHeaderName p w c) (settle w (s.readHttpHeaderName c)) := by
  rw [readHttpHeaderName, Client.readHttpHeaderName]
  by_cases hcr : c = cr
  · rw [if_pos hcr, if_pos hcr]
    exact appendName_agree h hl
  rw [if_neg hcr, if_neg hcr, endsLine_eq _ h.name h.nameLen]
  simp only [bind, Except.bind, decide_eq_true_eq]
  by_cases hc : c = lf ∧ s.reader.name.getLast? = some cr
  · have h' : Refines { p with state := .readingJson } { s with state := .readingJson } :=
      { h with state := rfl }
    obtain ⟨p', hp', -, hr⟩ := h'.zeroName (σ := σ)
    rw [if_pos hc, if_pos hc, hp']
    exact .ok ⟨hr, rfl⟩
  rw [if_neg hc, if_neg hc]
  have he : (isSpace c = true ∧ p.nameLen = 0) ↔ (isSpace c = true ∧ s.reader.name = []) := by
    rw [h.nameLen, List.length_eq_zero_iff]
  by_cases hs : isSpace c = true ∧ s.reader.name = []
  · rw [if_pos (he.mpr hs), if_pos hs]
    exact .ok ⟨h, rfl⟩
  rw [if_neg (mt he.mp hs), if_neg hs]
  by_cases hk : c = colon
  · rw [if_pos hk, if_pos hk]
    exact .ok ⟨{ h with state := rfl }, rfl⟩
  · rw [if_neg hk, if_neg hk]
    exact appendName_agree h hl

theorem readHttpHeaderValue_agree (h : Refines p s) (hl : s.reader.value.length < genericBuflen) :
    Agree Sim (readHttpHeaderValue p w c) (settle w (s.readHttpHeaderValue c)) := by
  rw [readHttpHeaderValue, Client.readHttpHeaderValue, endsLine_eq _ h.value h.valueLen]
  simp only [bind, Except.bind, decide_eq_true_eq]
  by_cases hc : c = lf ∧ s.reader.value.getLast? = some cr
  · rw [if_pos hc, if_pos hc]
    have hne : s.reader.value ≠ [] := by
      intro he
      simp [he] at hc
    have hi : s.reader.value.length - 1 < genericBuflen := by omega
    have hd := h.value.dropLast hne hi
    have hs : { p with state := .readingHttpHeaderName }.setValue (p.valueLen - 1) 0 =
        (.ok { p with state := .readingHttpHeaderName, value := p.value.set (s.reader.value.length - 1) 0 } :
          Loop σ Parser) := by
      simp only [Parser.setValue, h.valueLen, hi, dif_pos]
    have hz : Holds (zeroMemory (p.value.set (s.reader.value.length - 1) 0) p.valueLen) [] := by
      refine .zeroMemory fun i hi' hle => ?_
      rw [Vector.getElem_set, h.value.tail i hi' (h.valueLen.symm.trans_le hle)]
      simp
    have hv : p.valueLen ≤ genericBuflen := h.valueLen.trans_le h.value.length_le
    have hk : strcmpi p.name.toList contentLengthName = strcmpi s.reader.name contentLengthName := by
      simp only [strcmpi, h.name.cstr_eq]
    have ha : atoi (p.value.set (s.reader.value.length - 1) 0).toList = atoi s.reader.value.dropLast := by
      simp only [atoi, hd.cstr_eq]
    rw [hs]
    simp only [hk, ha]
    by_cases hcl : strcmpi s.reader.name contentLengthName = true
    · have h₁ : Refines { p with
          state := .readingHttpHeaderName, contentLength := UInt32.ofInt (atoi s.reader.value.dropLast) }
        { s with
          state := .readingHttpHeaderName, contentLength := UInt32.ofInt (atoi s.reader.value.dropLast) } :=
        { h with state := rfl, contentLength := rfl }
      obtain ⟨p', hp', -, hr⟩ := (h₁.setValue hz rfl).zeroName (σ := σ)
      simp only [List.length_nil] at hp'
      simp only [hcl, if_true, Parser.zeroValue, hv, hp']
      exact .ok ⟨hr, rfl⟩
    · have h₁ : Refines { p with state := .readingHttpHeaderName }
        { s with state := .readingHttpHeaderName } := { h with state := rfl }
      obtain ⟨p', hp', -, hr⟩ := (h₁.setValue hz rfl).zeroName (σ := σ)
      simp only [List.length_nil] at hp'
      simp only [hcl, Bool.false_eq_true, if_false, Parser.zeroValue, hv, if_true, hp']
      exact .ok ⟨hr, rfl⟩
  rw [if_neg hc, if_neg hc]
  have he : (isSpace c = true ∧ p.valueLen = 0) ↔ (isSpace c = true ∧ s.reader.value = []) := by
    rw [h.valueLen, List.length_eq_zero_iff]
  by_cases hs : isSpace c = true ∧ s.reader.value = []
  · rw [if_pos (he.mpr hs), if_pos hs]
    exact .ok ⟨h, rfl⟩
  rw [if_neg (mt he.mp hs), if_neg hs, h.valueLen]
  by_cases hv : s.reader.value.length + 1 ≥ genericBuflen
  · rw [if_pos hv, if_pos hv]
    exact settle_fail _
  · obtain ⟨p', hp', hr⟩ := h.pushValue (σ := σ) hl c
    rw [if_neg hv, if_neg hv, hp']
    exact .ok ⟨hr, rfl⟩

/-- The client's step with its outputs delivered as they appear. -/
abbrev driveByte (cb : Callback σ) : Client × World σ → Byte → Loop σ (Client × World σ) :=
  drive Client.step (deliver cb) fun e w => e.exit w

theorem driveByte_header {out : Except Stop Client} (h : s.step c = ([], out)) :
    driveByte cb (s, w) c = settle w out := by
  simp only [driveByte, drive, h, List.foldlM_nil]
  cases out <;> rfl

theorem driveByte_json (hs : s.state = .readingJson)
    (hl : ¬ (s.contentLength ≠ 0 ∧ s.contentLength ≤ s.jsonLen + 1)) :
    driveByte cb (s, w) c =
      emit cb { s with jsonLen := s.jsonLen + 1 } w (s.reader.step (s.jsonLen + 1) c) := by
  simp only [driveByte, drive, Client.step, hs, if_neg hl, emit]
  cases (s.reader.step (s.jsonLen + 1) c).1.foldlM (deliver cb) w with
  | error e => rfl
  | ok v => cases (s.reader.step (s.jsonLen + 1) c).2 <;> rfl

theorem readSymbol_agree (h : Refines p s) (hwf : s.reader.WF) :
    Agree Sim (readSymbol cb p w c) (emit cb s w (s.reader.step s.jsonLen c)) := by
  rw [readSymbol, Reader.step, h.jState]
  cases hj : s.reader.jState with
  | expectRootStart => exact expectRootStart_agree h hwf.stack_lt
  | expectKeyName =>
    have hne := hwf.stack_ne_nil (by simp [hj]) (by simp [hj])
    exact expectKeyName_agree h hne hwf.name_lt
  | expectKeySep => exact expectKeySep_agree h
  | expectValue =>
    have hne := hwf.stack_ne_nil (by simp [hj]) (by simp [hj])
    exact expectValue_agree h hne hwf.stack_lt hwf.value_lt
  | expectReadValue =>
    have hne := hwf.stack_ne_nil (by simp [hj]) (by simp [hj])
    exact expectReadValue_agree h hne hwf.value_lt
  | expectNext =>
    have hne := hwf.stack_ne_nil (by simp [hj]) (by simp [hj])
    exact expectNext_agree h hne
  | expectRootEnd => exact expectRootEnd_agree h

theorem readJson_agree (h : Refines p s) (hwf : s.WF) (hst : s.state = .readingJson) :
    Agree Sim (readJson cb p w c) (driveByte cb (s, w) c) := by
  have h' : Refines { p with jsonLen := p.jsonLen + 1 } { s with jsonLen := s.jsonLen + 1 } :=
    { h with jsonLen := congrArg (· + 1) h.jsonLen }
  have hcl : (p.contentLength ≠ 0 ∧ p.contentLength ≤ p.jsonLen + 1) ↔
      (s.contentLength ≠ 0 ∧ s.contentLength ≤ s.jsonLen + 1) := by
    rw [h.contentLength, h.jsonLen]
  rw [readJson]
  by_cases hl : s.contentLength ≠ 0 ∧ s.contentLength ≤ s.jsonLen + 1
  · rw [if_pos (hcl.mpr hl)]
    simp only [driveByte, drive, Client.step, hst, if_pos hl]
    exact .error _
  · rw [if_neg (mt hcl.mp hl), driveByte_json hst hl]
    exact readSymbol_agree h' (hwf.json hst)

theorem readByte_agree {q : Parser × World σ} {t : Client × World σ} (h : Sim q t) (hwf : t.1.WF) (c : Byte) :
    Agree Sim (readByte cb q c) (driveByte cb t c) := by
  obtain ⟨p, w⟩ := q
  obtain ⟨s, w'⟩ := t
  obtain ⟨h, rfl⟩ : Refines p s ∧ w = w' := h
  have hstep : ∀ {out}, s.step c = ([], out) → settle w out = driveByte cb (s, w) c :=
    fun hs => (driveByte_header hs).symm
  simp only [readByte, h.state]
  cases hst : s.state with
  | readingHttpHeader =>
    rw [← hstep (by rw [Client.step, hst])]
    exact readHttpHeader_agree h hwf.name_lt
  | readingHttpHeaderName =>
    rw [← hstep (by rw [Client.step, hst])]
    exact readHttpHeaderName_agree h hwf.name_lt
  | readingHttpHeaderValue =>
    rw [← hstep (by rw [Client.step, hst])]
    exact readHttpHeaderValue_agree h hwf.value_lt
  | readingJson => exact readJson_agree h hwf hst

def Tracks (q : Parser × World σ) (t : Client × World σ) : Prop := Sim q t ∧ t.1.WF

theorem driveByte_wf {t u : Client × World σ} (h : t.1.WF) (hu : driveByte cb t c = .ok u) : u.1.WF := by
  simp only [driveByte, drive] at hu
  cases hd : (t.1.step c).1.foldlM (deliver cb) t.2 with
  | error e => simp [hd, bind, Except.bind] at hu
  | ok w =>
    rw [hd] at hu
    cases hs : (t.1.step c).2 with
    | error e => simp [hs, bind, Except.bind] at hu
    | ok s =>
      simp only [hs, bind, Except.bind, Except.ok.injEq] at hu
      exact hu ▸ h.step hs

theorem readByte_tracks (cb : Callback σ) {q : Parser × World σ} {t : Client × World σ} (h : Tracks q t)
    (c : Byte) :
    Agree Tracks (readByte cb q c) (driveByte cb t c) :=
  (readByte_agree h.1 h.2 c).and_right fun _ hu => driveByte_wf h.2 hu

theorem init_tracks (usingHttp : Bool) (data : σ) :
    Tracks (Parser.init usingHttp, World.init data) (Client.init usingHttp, World.init data) :=
  ⟨⟨init_refines usingHttp, rfl⟩, Client.init_wf usingHttp⟩

end BzccScanner
