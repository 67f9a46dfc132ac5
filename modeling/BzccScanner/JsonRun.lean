import BzccScanner.JsonText

/-! Running the reader over a JSON text. -/

namespace BzccScanner

open CString Mealy

theorem isSpace_iff (c : Byte) : isSpace c = true ↔
    c = 0x20 ∨ c = 0x09 ∨ c = 0x0a ∨ c = 0x0b ∨ c = 0x0c ∨ c = 0x0d := by
  simp only [isSpace, Bool.or_eq_true, Bool.and_eq_true, decide_eq_true_eq, beq_iff_eq,
    UInt8.le_iff_toNat_le, ← UInt8.toNat_inj]
  simp only [UInt8.reduceToNat]
  omega

theorem isSpace_ne {c d : Byte} (hc : isSpace c = true) (hd : isSpace d = false) : c ≠ d := by
  rintro rfl
  simp [hc] at hd

theorem isWordChar_space {c : Byte} (h : isSpace c = true) : isWordChar c = false := by
  rcases (isSpace_iff c).mp h with rfl | rfl | rfl | rfl | rfl | rfl <;> rfl

theorem isWordChar_ne {c d : Byte} (hc : isWordChar c = true) (hd : isWordChar d = false) : c ≠ d := by
  rintro rfl
  simp [hc] at hd

namespace Reader

def resting (j : JState) (name : List Byte) (st : List Bool) (sl : Slots) : Reader :=
  ⟨j, name, [], false, false, st, sl.server, sl.player⟩

def next (st : List Bool) (sl : Slots) (c : Byte) : Except (Option Int) Reader :=
  ((resting .expectNext [] st sl).expectNext 0 c).mapError Stop.code

variable (st : List Bool) (sl : Slots)

theorem next_object_close : next (false :: st) sl rbrace =
    .ok (resting (afterObject st) [] st (sl.close (st.length + 1))) := by
  rw [next, @expectNext_object _ st rfl, if_neg (by decide), if_pos rfl, closeObject, closeSlots,
    Slots.close]
  split_ifs <;> rfl

def Idle (r : Reader) : Prop := ∀ c, isSpace c = true → r.read c = ([], .ok r)

theorem Idle.spaces {r : Reader} (h : r.Idle) (w : Ws) : r.run (spaces w) = ([], .ok r) := by
  induction w with
  | nil => rfl
  | cons c w ih => exact run_cons (h c.1 c.2) ih

theorem expectNext_space {r : Reader} (hne : r.stack ≠ []) {pos : UInt32} {c : Byte} (hc : isSpace c = true) :
    r.expectNext pos c = .ok r := by
  obtain ⟨b, st, hst⟩ := List.exists_cons_of_ne_nil hne
  cases b
  · rw [expectNext_object hst, if_neg (isSpace_ne hc rfl), if_neg (isSpace_ne hc rfl), if_pos hc]
  · rw [expectNext_array hst, if_neg (isSpace_ne hc rfl), if_neg (isSpace_ne hc rfl), if_pos hc]

theorem idle_of_not_quoted {r : Reader} (hq : r.inQuote = false)
    (hne : r.jState = .expectNext → r.stack ≠ []) : r.Idle := by
  intro c hc
  have h : ∀ d, isSpace d = false → c ≠ d := fun d => isSpace_ne hc
  have hw := isWordChar_space hc
  suffices hs : r.step 0 c = ([], .ok r) by rw [read, hs]; rfl
  rw [step]
  cases hj : r.jState with
  | expectRootStart => simp [expectRootStart, h lbrace rfl, hc]
  | expectKeyName => simp [expectKeyName, hq, h quote rfl, hc]
  | expectKeySep => simp [expectKeySep, h colon rfl, hc]
  | expectValue => simp [expectValue, h quote rfl, hw, h lbracket rfl, h lbrace rfl, hc]
  | expectReadValue => simp [expectReadValue, hq, hw, hc]
  | expectNext => exact Prod.ext rfl (expectNext_space (hne hj) hc)
  | expectRootEnd => simp [expectRootEnd, hc]

theorem run_spaces (j : JState) (name : List Byte) (hj : j ≠ .expectNext ∨ st ≠ []) (w : Ws) :
    (resting j name st sl).run (spaces w) = ([], .ok (resting j name st sl)) :=
  (idle_of_not_quoted rfl fun h => hj.resolve_left fun hn => hn h).spaces w

theorem run_key_bytes (name bytes : List Byte) (hp : ∀ c ∈ bytes, c ≠ quote ∧ c ≠ lf ∧ c ≠ cr)
    (hl : name.length + bytes.length < genericBuflen) :
    { resting .expectKeyName name st sl with inQuote := true }.run (bytes ++ [quote]) =
      ([], .ok (resting .expectKeySep (name ++ bytes) st sl)) := by
  induction bytes generalizing name with
  | nil => simp [Mealy.run, read, step, expectKeyName, resting, Except.mapError]
  | cons c bytes ih =>
    obtain ⟨hq, hlf, hcr⟩ := hp c (by simp)
    have hlen : ¬ name.length + 1 ≥ genericBuflen := by
      simp only [List.length_cons] at hl
      omega
    have hi := ih (name ++ [c]) (fun d hd => hp d (by simp [hd])) (by simp at hl ⊢; omega)
    rw [List.append_assoc, List.singleton_append] at hi
    refine (run_cons_silent ?_ _).trans hi
    simp only [read, step, resting, expectKeyName, hq, hlf, hcr, if_true, if_false, or_self, hlen]
    rfl

theorem run_key (k : Key) :
    (resting .expectKeyName [] st sl).run (quote :: k.bytes ++ [quote]) =
      ([], .ok (resting .expectKeySep k.bytes st sl)) := by
  have hl := k.length_lt
  have hk := run_key_bytes st sl [] k.bytes k.plain (by simp only [List.length_nil]; omega)
  have ho : (resting .expectKeyName [] st sl).read quote =
    ([], .ok { resting .expectKeyName [] st sl with inQuote := true }) := rfl
  exact (run_cons_silent ho _).trans hk

theorem run_label (l : Label) :
    (resting .expectKeyName [] st sl).run l.text =
      ([], .ok (resting .expectValue l.key.bytes st sl)) := by
  have h₁ := run_spaces st sl .expectKeyName [] (.inl (by simp)) l.before
  have h₂ := run_key st sl l.key
  have h₃ := run_spaces st sl .expectKeySep l.key.bytes (.inl (by simp)) l.between
  have h₄ := run_spaces st sl .expectValue l.key.bytes (.inl (by simp)) l.after
  have hc : (resting .expectKeySep l.key.bytes st sl).read colon =
    ([], .ok (resting .expectValue l.key.bytes st sl)) := rfl
  have ht : l.text = spaces l.before ++ ((quote :: l.key.bytes ++ [quote]) ++
    (spaces l.between ++ colon :: spaces l.after)) := by simp [Label.text]
  rw [ht]
  exact (run_append_silent h₁ _).trans <| (run_append_silent h₂ _).trans <|
    (run_append_silent h₃ _).trans <| (run_cons_silent hc _).trans h₄

def reading (quoted : Bool) (key value : List Byte) (st : List Bool) (sl : Slots) : Reader :=
  ⟨.expectReadValue, key, value, quoted, false, st, sl.server, sl.player⟩

theorem appendValue_reading (quoted : Bool) (key : List Byte) {value : List Byte}
    (hl : value.length + 1 < genericBuflen) (c : Byte) : (reading quoted key value st sl).appendValue c =
      .ok (reading quoted key (value ++ [c]) st sl) :=
  if_neg (Nat.not_le.mpr hl)

theorem run_piece (key : List Byte) {value : List Byte} (hl : value.length + 1 < genericBuflen) (p : Piece) :
    (reading true key value st sl).run p.text = ([], .ok (reading true key (value ++ [p.byte]) st sl)) := by
  cases p with
  | plain c h =>
    obtain ⟨hq, hb, hlf, hcr⟩ := h
    have ha := appendValue_reading st sl true key hl c
    have hs : (reading true key value st sl).read c =
        ([], .ok (reading true key (value ++ [c]) st sl)) := by
      have : (reading true key value st sl).expectReadValue 0 c =
          ([], (reading true key value st sl).appendValue c) := by
        simp [expectReadValue, reading, hq, hb, hlf, hcr]
      rw [read, step]
      simp only [reading] at this ha ⊢
      rw [this, ha]
      rfl
    exact run_cons_silent hs []
  | escape e =>
    have ha := appendValue_reading st sl true key hl e.byte
    have h₁ : (reading true key value st sl).read backslash =
      ([], .ok { reading true key value st sl with inEscape := true }) := rfl
    have hu : unescape e.letter = some e.byte := by cases e <;> rfl
    have h₂ : { reading true key value st sl with inEscape := true }.read e.letter =
        ([], .ok (reading true key (value ++ [e.byte]) st sl)) := by
      have : { reading true key value st sl with inEscape := true }.expectReadValue 0 e.letter =
          ([], (reading true key value st sl).appendValue e.byte) := by
        simp only [expectReadValue, reading, hu, if_true]
      rw [read, step]
      simp only [reading] at this ha ⊢
      rw [this, ha]
      rfl
    exact (run_cons_silent h₁ _).trans (run_cons_silent h₂ [])

theorem run_pieces (key value : List Byte) (pieces : List Piece)
    (hl : value.length + pieces.length < genericBuflen) :
    (reading true key value st sl).run (pieces.flatMap Piece.text) =
      ([], .ok (reading true key (value ++ pieces.map Piece.byte) st sl)) := by
  induction pieces generalizing value with
  | nil => simp [Mealy.run]
  | cons p pieces ih =>
    simp only [List.length_cons] at hl
    have hp := run_piece st sl key (by omega : value.length + 1 < genericBuflen) p
    have hi := ih (value ++ [p.byte]) (by simp; omega)
    rw [List.append_assoc, List.singleton_append] at hi
    exact (run_append_silent hp _).trans hi

theorem run_word_bytes (key value : List Byte) (bytes : List Byte) (hw : ∀ c ∈ bytes, isWordChar c = true)
    (hl : value.length + bytes.length < genericBuflen) :
    (reading false key value st sl).run bytes = ([], .ok (reading false key (value ++ bytes) st sl)) := by
  induction bytes generalizing value with
  | nil => simp [Mealy.run]
  | cons c bytes ih =>
    simp only [List.length_cons] at hl
    have ha := appendValue_reading st sl false key (by omega : value.length + 1 < genericBuflen) c
    have hs : (reading false key value st sl).read c =
        ([], .ok (reading false key (value ++ [c]) st sl)) := by
      have : (reading false key value st sl).expectReadValue 0 c =
          ([], (reading false key value st sl).appendValue c) := by
        simp [expectReadValue, reading, hw c (by simp)]
      rw [read, step]
      simp only [reading] at this ha ⊢
      rw [this, ha]
      rfl
    have hi := ih (value ++ [c]) (fun d hd => hw d (by simp [hd])) (by simp; omega)
    rw [List.append_assoc, List.singleton_append] at hi
    exact (run_cons_silent hs _).trans hi

def Ends (c : Byte) : Prop := c = comma ∨ c = rbrace ∨ c = rbracket

def ending (c : Byte) : Status := if c = rbrace then .last else .normal

theorem read_next (c : Byte) : (resting .expectNext [] st sl).read c = ([], next st sl c) := rfl

theorem read_bare_end (key value : List Byte) {c : Byte} (hc : Ends c) :
    (reading false key value st sl).read c =
      ([⟨ending c, key, value, st.length, sl.server, sl.player⟩], next st sl c) := by
  rcases hc with rfl | rfl | rfl <;> rfl

theorem read_value_end {c : Byte} (hc : Ends c) :
    (resting .expectValue [] st sl).read c = ([], next st sl c) := by
  rcases hc with rfl | rfl | rfl <;> rfl

theorem run_quoted (hne : st ≠ []) (key : List Byte) (pieces : List Piece)
    (hl : pieces.length < genericBuflen) (after : Ws) {c : Byte} :
    (resting .expectValue key st sl).run ((Scalar.quoted pieces).text ++ spaces after ++ [c]) =
      ([(Scalar.quoted pieces).item st.length key sl (ending c)],
        next st sl c) := by
  have h₁ : (resting .expectValue key st sl).read quote = ([], .ok (reading true key [] st sl)) := rfl
  have h₂ := run_pieces st sl key [] pieces
    (by simp only [List.length_nil]; omega)
  have h₃ : (reading true key (pieces.map Piece.byte) st sl).read quote =
      ([(Scalar.quoted pieces).item st.length key sl (ending c)], .ok (resting .expectNext [] st sl)) := rfl
  have h₄ := run_spaces st sl .expectNext [] (.inr hne) after
  have h₅ : (resting .expectNext [] st sl).run (spaces after ++ [c]) = ([], next st sl c) := by
    apply (run_append_silent h₄ _).trans
    simp only [Mealy.run, read_next]
    cases next st sl c <;> rfl
  have ht : (Scalar.quoted pieces).text ++ spaces after ++ [c] =
      quote :: (pieces.flatMap Piece.text ++ quote :: (spaces after ++ [c])) := by
    simp [Scalar.text]
  rw [ht]
  exact (run_cons_silent h₁ _).trans <| (run_append_silent h₂ _).trans <| run_cons h₃ h₅

theorem run_bare (hne : st ≠ []) (key : List Byte) (w : Word) (hl : w.bytes.length < genericBuflen)
    (after : Ws) {c : Byte} (hc : Ends c) :
    (resting .expectValue key st sl).run ((Scalar.bare w).text ++ spaces after ++ [c]) =
      ([(Scalar.bare w).item st.length key sl (ending c)], next st sl c) := by
  obtain ⟨bytes, hw, hwc⟩ := w
  obtain ⟨d, ds, rfl⟩ := List.exists_cons_of_ne_nil hw
  simp only [List.length_cons] at hl
  have hd : isWordChar d = true := hwc d (by simp)
  have h₁ : (resting .expectValue key st sl).read d = ([], .ok (reading false key [d] st sl)) := by
    have : d ≠ quote := isWordChar_ne hd rfl
    simp [read, step, resting, expectValue, this, hd, Except.mapError, reading]
  have h₂ := run_word_bytes st sl key [d] ds
    (fun c hc => hwc c (by simp [hc])) (by simp only [List.length_singleton]; omega)
  have h₃ := (idle_of_not_quoted (r := reading false key (d :: ds) st sl) rfl fun _ => hne).spaces after
  have h₄ := read_bare_end st sl key (d :: ds) hc
  have h₅ : (reading false key (d :: ds) st sl).run [c] =
      ([⟨ending c, key, d :: ds, st.length, sl.server, sl.player⟩], next st sl c) := by
    simp only [Mealy.run, h₄]
    cases next st sl c <;> rfl
  have ht : (Scalar.bare ⟨d :: ds, hw, hwc⟩).text ++ spaces after ++ [c] =
      d :: (ds ++ (spaces after ++ [c])) := by
    simp [Scalar.text]
  rw [ht]
  exact (run_cons_silent h₁ _).trans <| (run_append_silent h₂ _).trans <| (run_append_silent h₃ _).trans h₅

theorem run_scalar (hne : st ≠ []) (key : List Byte) (s : Scalar) (hl : s.value.length < genericBuflen - 1)
    (after : Ws) {c : Byte} (hc : Ends c) :
    (resting .expectValue key st sl).run (s.text ++ spaces after ++ [c]) =
      ([s.item st.length key sl (ending c)], next st sl c) := by
  cases s with
  | quoted pieces =>
    have hp : pieces.length < genericBuflen := by
      simp only [Scalar.value, List.length_map] at hl
      omega
    exact run_quoted st sl hne key pieces hp after
  | bare w =>
    have hw : w.bytes.length < genericBuflen := by
      simp only [Scalar.value] at hl
      omega
    exact run_bare st sl hne key w hw after hc

theorem read_key_end {c : Byte} (hc : Ends c) (hcomma : c ≠ comma) :
    (resting .expectKeyName [] (false :: st) sl).read c = ([], next (false :: st) sl c) := by
  rcases hc with rfl | rfl | rfl
  · exact absurd rfl hcomma
  · rfl
  · rfl

theorem read_key_comma : (resting .expectKeyName [] (false :: st) sl).read comma = ([], .error (some 1)) := rfl

theorem read_open_array (key : List Byte) (hl : st.length + 1 < maxDepth) :
    (resting .expectValue key st sl).read lbracket = ([], .ok (resting .expectValue [] (true :: st) sl)) := by
  have : ¬ st.length + 1 ≥ maxDepth := Nat.not_le.mpr hl
  simp only [read, step, resting, expectValue, this, if_false]
  rfl

theorem read_open_object (key : List Byte) (hl : st.length + 1 < maxDepth) :
    (resting .expectValue key st sl).read lbrace = ([], .ok (resting .expectKeyName [] (false :: st) sl)) := by
  have : ¬ st.length + 1 ≥ maxDepth := Nat.not_le.mpr hl
  simp only [read, step, resting, expectValue, this, if_false]
  rfl

theorem run_single {r : Reader} {c : Byte} {items : List Item} {out : Except (Option Int) Reader}
    (h : r.read c = (items, out)) : r.run [c] = (items, out) := (Mealy.run_single read r c).trans h

theorem run_behind_array (b : Bool) (after : Ws) {c : Byte} (hc : Ends c) :
    (resting .expectValue [] (b :: st) sl).run (spaces after ++ [c]) = ([], next (b :: st) sl c) := by
  have h := run_spaces (b :: st) sl .expectValue [] (.inl (by simp)) after
  exact (run_append_silent h _).trans (run_single (read_value_end _ _ hc))

theorem run_behind_object (b : Bool) (after : Ws) {c : Byte} (hc : Ends c)
    (hcomma : b = false → c ≠ comma) :
    (resting (afterObject (b :: st)) [] (b :: st) sl).run (spaces after ++ [c]) =
      ([], next (b :: st) sl c) := by
  cases b with
  | true => exact run_behind_array st sl true after hc
  | false =>
    have h := run_spaces (false :: st) sl .expectKeyName [] (.inl (by simp)) after
    exact (run_append_silent h _).trans (run_single (read_key_end _ _ hc (hcomma rfl)))

theorem run_open_array (key : List Byte) (hl : st.length + 1 < maxDepth) (bytes : List Byte) :
    (resting .expectValue key st sl).run (lbracket :: bytes) =
      (resting .expectValue [] (true :: st) sl).run bytes :=
  run_cons_silent (read_open_array st sl key hl) bytes

theorem run_open_object (key : List Byte) (hl : st.length + 1 < maxDepth) (bytes : List Byte) :
    (resting .expectValue key st sl).run (lbrace :: bytes) =
      (resting .expectKeyName [] (false :: st) sl).run bytes :=
  run_cons_silent (read_open_object st sl key hl) bytes

theorem run_pad_array (pad : Ws) : (resting .expectValue [] (true :: st) sl).run (spaces pad ++ [rbracket]) =
    ([], next (true :: st) sl rbracket) :=
  run_behind_array st sl true pad (.inr (.inr rfl))

theorem run_pad_object (pad : Ws) :
    (resting .expectKeyName [] (false :: st) sl).run (spaces pad ++ [rbrace]) =
      ([], next (false :: st) sl rbrace) :=
  run_behind_object st sl false pad (.inr (.inl rfl)) fun _ => by decide

mutual

theorem run_value (v : Json) (hv : v.objectsLast = true) (b : Bool) (st : List Bool) (sl : Slots)
    (key : List Byte) (hh : (b :: st).length + v.height < maxDepth) (after : Ws) {c : Byte} (hc : Ends c)
    (hcomma : v.isObject = true → b = false → c ≠ comma) :
    (resting .expectValue key (b :: st) sl).run (v.text ++ spaces after ++ [c]) =
      (v.items (b :: st).length key sl (ending c), next (b :: st) (v.slots (b :: st).length sl) c) := by
  match v with
  | .scalar s h => exact run_scalar _ _ (by simp) key s h after hc
  | .emptyArray pad =>
    have ho := run_pad_array (b :: st) sl pad
    have hb := run_behind_array st sl b after hc
    rw [Json.text, List.append_assoc, List.cons_append]
    exact (run_open_array _ _ _ hh _).trans ((run_append_silent ho _).trans hb)
  | .array es =>
    have hl : (b :: st).length + 1 < maxDepth := by
      simp only [Json.height] at hh
      omega
    have hi := run_elems es (by simpa [Json.objectsLast] using hv) (b :: st) sl (by
      simp only [Json.height, List.length_cons] at hh ⊢
      omega)
    have hb := run_behind_array st (es.slots (b :: st).length.succ sl) b after hc
    rw [Json.text, List.append_assoc, List.cons_append]
    refine (run_open_array _ _ _ hl _).trans ((run_append hi hb).trans ?_)
    rw [List.append_nil, Json.items, Json.slots]
    rfl
  | .emptyObject pad =>
    have ho := run_pad_object (b :: st) sl pad
    have hb := run_behind_object st (sl.close (b :: st).length.succ) b after hc (hcomma rfl)
    rw [next_object_close] at ho
    rw [Json.text, List.append_assoc, List.cons_append]
    exact (run_open_object _ _ _ hh _).trans ((run_append_silent ho _).trans hb)
  | .object ms =>
    have hl : (b :: st).length + 1 < maxDepth := by
      simp only [Json.height] at hh
      omega
    have hi := run_members ms (by simpa [Json.objectsLast] using hv) (b :: st) sl (by
      simp only [Json.height, List.length_cons] at hh ⊢
      omega)
    have hb := run_behind_object st ((ms.slots (b :: st).length.succ sl).close (b :: st).length.succ) b after
      hc (hcomma rfl)
    rw [next_object_close] at hi
    rw [Json.text, List.append_assoc, List.cons_append]
    refine (run_open_object _ _ _ hl _).trans ((run_append hi hb).trans ?_)
    rw [List.append_nil, Json.items, Json.slots]
    rfl

theorem run_elems (es : Elems) (hv : es.objectsLast = true) (st : List Bool) (sl : Slots)
    (hh : (true :: st).length + es.height < maxDepth) :
    (resting .expectValue [] (true :: st) sl).run (es.text ++ [rbracket]) =
      (es.items (true :: st).length sl, next (true :: st) (es.slots (true :: st).length sl) rbracket) := by
  match es with
  | .last before v after =>
    have hs := run_spaces (true :: st) sl .expectValue [] (.inl (by simp)) before
    have hi := run_value v (by simpa [Elems.objectsLast] using hv) true st sl [] hh after (.inr (.inr rfl))
      (by simp)
    rw [Elems.text, List.append_assoc, List.append_assoc, ← List.append_assoc v.text]
    exact (run_append_silent hs _).trans hi
  | .cons before v after rest =>
    simp only [Elems.objectsLast, Bool.and_eq_true] at hv
    simp only [Elems.height] at hh
    have hs := run_spaces (true :: st) sl .expectValue [] (.inl (by simp)) before
    have hi := run_value v hv.1 true st sl [] (by omega) after (.inl rfl) (by simp)
    have hr := run_elems rest hv.2 st (v.slots (true :: st).length sl) (by omega)
    have ht : (Elems.cons before v after rest).text ++ [rbracket] =
        spaces before ++ ((v.text ++ spaces after ++ [comma]) ++ (rest.text ++ [rbracket])) := by
      simp [Elems.text]
    rw [ht]
    exact (run_append_silent hs _).trans (run_append hi hr)

theorem run_members (ms : Members) (hv : ms.objectsLast = true) (st : List Bool) (sl : Slots)
    (hh : (false :: st).length + ms.height < maxDepth) :
    (resting .expectKeyName [] (false :: st) sl).run (ms.text ++ [rbrace]) =
      (ms.items (false :: st).length sl, next (false :: st) (ms.slots (false :: st).length sl) rbrace) := by
  match ms with
  | .last label v after =>
    have hs := run_label (false :: st) sl label
    have hi := run_value v (by simpa [Members.objectsLast] using hv) false st sl label.key.bytes hh after
      (.inr (.inl rfl)) (by simp)
    rw [Members.text, List.append_assoc, List.append_assoc, ← List.append_assoc v.text]
    exact (run_append_silent hs _).trans hi
  | .cons label v after rest =>
    simp only [Members.objectsLast, Bool.and_eq_true, Bool.not_eq_true'] at hv
    simp only [Members.height] at hh
    have hs := run_label (false :: st) sl label
    have hi := run_value v hv.1.1 false st sl label.key.bytes (by omega) after (.inl rfl)
      (by simp [hv.1.2])
    have hr := run_members rest hv.2 st (v.slots (false :: st).length sl) (by omega)
    have ht : (Members.cons label v after rest).text ++ [rbrace] =
        label.text ++ ((v.text ++ spaces after ++ [comma]) ++ (rest.text ++ [rbrace])) := by
      simp [Members.text]
    rw [ht]
    exact (run_append_silent hs _).trans (run_append hi hr)

end

theorem run_object_value (v : Json) (hv : v.objectsLast = true) (ho : v.isObject = true) (b : Bool)
    (st : List Bool) (sl : Slots) (key : List Byte) (hh : (b :: st).length + v.height < maxDepth) (after : Ws) :
    ∃ items, (resting .expectValue key (b :: st) sl).run (v.text ++ spaces after) =
      (items, .ok (resting (afterObject (b :: st)) [] (b :: st) (v.slots (b :: st).length sl))) := by
  have hend : ∀ sl, (resting (afterObject (b :: st)) [] (b :: st) sl).run (spaces after) =
      ([], .ok (resting (afterObject (b :: st)) [] (b :: st) sl)) := fun sl =>
    run_spaces (b :: st) sl _ [] (.inr (by simp)) after
  match v with
  | .emptyObject pad =>
    have hi := run_pad_object (b :: st) sl pad
    rw [next_object_close] at hi
    rw [Json.text]
    exact ⟨_, (run_append ((run_open_object _ _ _ hh _).trans hi) (hend _))⟩
  | .object ms =>
    have hl : (b :: st).length + 1 < maxDepth := by
      simp only [Json.height] at hh
      omega
    have hi := run_members ms (by simpa [Json.objectsLast] using hv) (b :: st) sl (by
      simp only [Json.height, List.length_cons] at hh ⊢
      omega)
    rw [next_object_close] at hi
    rw [Json.text]
    exact ⟨_, (run_append ((run_open_object _ _ _ hl _).trans hi) (hend _))⟩

theorem run_stopped {r t : Reader} {as bs : List Byte} {o items : List Item} {code : Option Int}
    (h : r.run as = (o, .ok t)) (hs : t.run bs = (items, .error code)) (cs : List Byte) :
    ∃ items, r.run (as ++ bs ++ cs) = (items, .error code) :=
  ⟨_, run_append_error (run_append h hs) cs⟩

mutual

/-- A nested object that is followed by a member stops the reader at the comma. -/
theorem run_value_stop (v : Json) (hv : v.objectsLast = false) (b : Bool) (st : List Bool) (sl : Slots)
    (key : List Byte) (hh : (b :: st).length + v.height < maxDepth) :
    ∃ items, (resting .expectValue key (b :: st) sl).run v.text = (items, .error (some 1)) := by
  match v with
  | .scalar s h => exact absurd hv (by simp [Json.objectsLast])
  | .emptyArray pad => exact absurd hv (by simp [Json.objectsLast])
  | .array es =>
    simp only [Json.height] at hh
    obtain ⟨items, hi⟩ := run_elems_stop es (by simpa [Json.objectsLast] using hv) (b :: st) sl (by
      simp only [List.length_cons] at hh ⊢
      omega)
    exact ⟨items, (run_open_array _ _ _ (by omega) _).trans (run_append_error hi _)⟩
  | .emptyObject pad => exact absurd hv (by simp [Json.objectsLast])
  | .object ms =>
    simp only [Json.height] at hh
    obtain ⟨items, hi⟩ := run_members_stop ms (by simpa [Json.objectsLast] using hv) (b :: st) sl (by
      simp only [List.length_cons] at hh ⊢
      omega)
    exact ⟨items, (run_open_object _ _ _ (by omega) _).trans (run_append_error hi _)⟩

theorem run_elems_stop (es : Elems) (hv : es.objectsLast = false) (st : List Bool) (sl : Slots)
    (hh : (true :: st).length + es.height < maxDepth) :
    ∃ items, (resting .expectValue [] (true :: st) sl).run es.text = (items, .error (some 1)) := by
  match es with
  | .last before v after =>
    have hs := run_spaces (true :: st) sl .expectValue [] (.inl (by simp)) before
    obtain ⟨items, hi⟩ := run_value_stop v (by simpa [Elems.objectsLast] using hv) true st sl [] hh
    exact run_stopped hs hi _
  | .cons before v after rest =>
    simp only [Elems.height] at hh
    have hs := run_spaces (true :: st) sl .expectValue [] (.inl (by simp)) before
    cases hg : v.objectsLast with
    | false =>
      obtain ⟨items, hi⟩ := run_value_stop v hg true st sl [] (by omega)
      obtain ⟨out, ho⟩ := run_stopped hs hi (spaces after ++ comma :: rest.text)
      exact ⟨out, by rw [Elems.text, List.append_assoc]; exact ho⟩
    | true =>
      have hr : rest.objectsLast = false := by simpa [Elems.objectsLast, hg] using hv
      have hv' := run_value v hg true st sl [] (by omega) after (.inl rfl) (by simp)
      obtain ⟨items, hi⟩ := run_elems_stop rest hr st (v.slots (true :: st).length sl) (by omega)
      have ht : (Elems.cons before v after rest).text =
          spaces before ++ ((v.text ++ spaces after ++ [comma]) ++ rest.text) := by simp [Elems.text]
      rw [ht]
      exact ⟨_, (run_append_silent hs _).trans (run_append hv' hi)⟩

theorem run_members_stop (ms : Members) (hv : ms.objectsLast = false) (st : List Bool) (sl : Slots)
    (hh : (false :: st).length + ms.height < maxDepth) :
    ∃ items, (resting .expectKeyName [] (false :: st) sl).run ms.text = (items, .error (some 1)) := by
  match ms with
  | .last label v after =>
    have hs := run_label (false :: st) sl label
    obtain ⟨items, hi⟩ := run_value_stop v (by simpa [Members.objectsLast] using hv) false st sl
      label.key.bytes hh
    exact run_stopped hs hi _
  | .cons label v after rest =>
    simp only [Members.height] at hh
    have hs := run_label (false :: st) sl label
    cases hg : v.objectsLast with
    | false =>
      obtain ⟨items, hi⟩ := run_value_stop v hg false st sl label.key.bytes (by omega)
      obtain ⟨out, ho⟩ := run_stopped hs hi (spaces after ++ comma :: rest.text)
      exact ⟨out, by rw [Members.text, List.append_assoc]; exact ho⟩
    | true =>
      cases ho : v.isObject with
      | true =>
        obtain ⟨items, hi⟩ := run_object_value v hg ho false st sl label.key.bytes (by omega) after
        have hstop := run_single (read_key_comma st (v.slots (false :: st).length sl))
        obtain ⟨out, hout⟩ := run_stopped (run_append hs hi) hstop rest.text
        have ht : (Members.cons label v after rest).text =
            label.text ++ (v.text ++ spaces after) ++ [comma] ++ rest.text := by simp [Members.text]
        exact ⟨out, by rw [ht]; exact hout⟩
      | false =>
        have hr : rest.objectsLast = false := by simpa [Members.objectsLast, hg, ho] using hv
        have hv' := run_value v hg false st sl label.key.bytes (by omega) after (.inl rfl) (by simp [ho])
        obtain ⟨items, hi⟩ := run_members_stop rest hr st (v.slots (false :: st).length sl) (by omega)
        have ht : (Members.cons label v after rest).text =
            label.text ++ ((v.text ++ spaces after ++ [comma]) ++ rest.text) := by simp [Members.text]
        rw [ht]
        exact ⟨_, (run_append_silent hs _).trans (run_append hv' hi)⟩

end

/-- A text is read to its end. -/
theorem run_document (d : Document) (h : d.root.objectsLast = true) : Reader.init.run d.text =
    (d.items, .ok (resting .expectRootEnd [] [] (d.root.slots 0 ⟨0, 0⟩))) := by
  obtain ⟨before, root, hr, hh, after⟩ := d
  have hb := run_spaces [] ⟨0, 0⟩ .expectRootStart [] (.inl (by simp)) before
  have hopen : (resting .expectRootStart [] [] ⟨0, 0⟩).read lbrace =
    ([], .ok (resting .expectKeyName [] [false] ⟨0, 0⟩)) := rfl
  have hend : ∀ sl, (resting .expectRootEnd [] [] sl).run (spaces after) =
      ([], .ok (resting .expectRootEnd [] [] sl)) := fun sl =>
    run_spaces [] sl .expectRootEnd [] (.inl (by simp)) after
  match root with
  | .emptyObject pad =>
    have hi := run_pad_object [] ⟨0, 0⟩ pad
    rw [next_object_close] at hi
    have ht : Document.text ⟨before, .emptyObject pad, hr, hh, after⟩ =
      spaces before ++ lbrace :: ((spaces pad ++ [rbrace]) ++ spaces after) := by
        simp [Document.text, Json.text]
    rw [ht]
    exact (run_append_silent hb _).trans <| (run_cons_silent hopen _).trans <|
      (run_append_silent hi _).trans (hend _)
  | .object ms =>
    have hi := run_members ms (by simpa [Json.objectsLast] using h) [] ⟨0, 0⟩ (by
      simp only [Json.height, List.length_cons, List.length_nil] at hh ⊢
      omega)
    rw [next_object_close] at hi
    have ht : Document.text ⟨before, .object ms, hr, hh, after⟩ =
      spaces before ++ lbrace :: ((ms.text ++ [rbrace]) ++ spaces after) := by
        simp [Document.text, Json.text]
    rw [ht]
    refine (run_append_silent hb _).trans <| (run_cons_silent hopen _).trans <|
      (run_append hi (hend _)).trans ?_
    rw [List.append_nil]
    rfl

theorem run_document_stop (d : Document) (h : d.root.objectsLast = false) :
    ∃ items, Reader.init.run d.text = (items, .error (some 1)) := by
  obtain ⟨before, root, hr, hh, after⟩ := d
  have hb := run_spaces [] ⟨0, 0⟩ .expectRootStart [] (.inl (by simp)) before
  have hopen : (resting .expectRootStart [] [] ⟨0, 0⟩).read lbrace =
    ([], .ok (resting .expectKeyName [] [false] ⟨0, 0⟩)) := rfl
  match root with
  | .emptyObject pad => exact absurd h (by simp [Json.objectsLast])
  | .object ms =>
    obtain ⟨items, hi⟩ := run_members_stop ms (by simpa [Json.objectsLast] using h) [] ⟨0, 0⟩ (by
      simp only [Json.height, List.length_cons, List.length_nil] at hh ⊢
      omega)
    have ht : Document.text ⟨before, .object ms, hr, hh, after⟩ =
      spaces before ++ lbrace :: (ms.text ++ (rbrace :: spaces after)) := by
        simp [Document.text, Json.text]
    rw [ht]
    exact ⟨items, (run_append_silent hb _).trans <| (run_cons_silent hopen _).trans <|
      run_append_error hi _⟩

end Reader

end BzccScanner
