import BzccScanner.WellFormedTexts
import BzccScanner.WholeDocuments

/-! Which of the texts that the reader accepts are well-formed. It lets a value
be missing, commas be missing or repeated behind containers and in arrays, and
a bare value be split by whitespace; each of these shows in two tokens of the
text that follow each other. -/

namespace BzccScanner

open CString Spot

/-- The last byte of a text that is not whitespace. -/
def lastToken (t : List Byte) : Option Byte := (t.filter fun c => !isSpace c).getLast?

/-- The bytes that end a value. -/
def Closing (c : Byte) : Prop := c = comma ∨ c = rbrace ∨ c = rbracket

/-- The bytes that begin a value, or a key. -/
def Opening (c : Byte) : Prop := c = quote ∨ isWordChar c = true ∨ c = lbracket ∨ c = lbrace

/-- The byte `c` cannot stand outside of a string behind `last`, the last byte
in front of it that is not whitespace; `spaced` when there is whitespace between them. -/
def Slip (last : Option Byte) (spaced : Bool) (c : Byte) : Prop :=
  (Closing c ∧ (last = some colon ∨ last = some comma)) ∨
  (c = comma ∧ last = some lbracket) ∨
  (Opening c ∧ (last = some rbrace ∨ last = some rbracket)) ∨
  (isWordChar c = true ∧ spaced = true ∧ ∃ d, last = some d ∧ isWordChar d = true)

def endsSpaced (t : List Byte) : Bool := t.getLast?.any isSpace

/-- No byte that the reader comes to outside of a string is a slip. -/
def Tidy (bytes : List Byte) : Prop :=
  ∀ (before : List Byte) (c : Byte) (after : List Byte) (r : Reader), bytes = before ++ c :: after →
    (Reader.init.run before).2 = .ok r → r.inQuote = false → ¬ Slip (lastToken before) (endsSpaced before) c

section tokens

variable {t : List Byte} {c : Byte} {last : Option Byte} {spaced : Bool}

theorem lastToken_concat_space (hc : isSpace c = true) : lastToken (t ++ [c]) = lastToken t := by
  simp [lastToken, hc]

theorem lastToken_concat (hc : isSpace c = false) : lastToken (t ++ [c]) = some c := by
  simp [lastToken, hc]

theorem endsSpaced_concat (t : List Byte) (c : Byte) : endsSpaced (t ++ [c]) = isSpace c := by
  simp [endsSpaced]

theorem Closing.not_word (hc : Closing c) : isWordChar c = false := by
  rcases hc with rfl | rfl | rfl <;> rfl

theorem Closing.not_opening (hc : Closing c) : ¬ Opening c := by
  rcases hc with rfl | rfl | rfl <;> exact by unfold Opening; decide

theorem slip_closing (hc : Closing c) :
    Slip last spaced c ↔ last = some colon ∨ last = some comma ∨ c = comma ∧ last = some lbracket := by
  simp only [Slip, hc, hc.not_opening, hc.not_word, true_and, false_and, Bool.false_eq_true, or_false, or_assoc]

theorem slip_opening (hc : Opening c) :
    Slip last spaced c ↔ last = some rbrace ∨ last = some rbracket ∨
      isWordChar c = true ∧ spaced = true ∧ ∃ d, last = some d ∧ isWordChar d = true := by
  have hclose : ¬ Closing c := fun h => h.not_opening hc
  have hcomma : c ≠ comma := fun h => hclose (.inl h)
  simp only [Slip, hc, hclose, hcomma, true_and, false_and, false_or, or_assoc]

theorem not_slip_closing (hc : Closing c) (hcolon : last ≠ some colon) (hcomma : last ≠ some comma)
    (hfirst : c = comma → last ≠ some lbracket) : ¬ Slip last spaced c := by
  rw [slip_closing hc]
  rintro (hl | hl | ⟨h, hl⟩)
  · exact hcolon hl
  · exact hcomma hl
  · exact hfirst h hl

theorem not_slip_opening {d : Byte} (hl : last = some d) (hc : Opening c) (hbrace : d ≠ rbrace)
    (hbracket : d ≠ rbracket) (hd : isWordChar d = false) : ¬ Slip last spaced c := by
  rw [slip_opening hc]
  rintro (h | h | ⟨-, -, e, h, he⟩)
  · exact hbrace (Option.some.inj (hl.symm.trans h))
  · exact hbracket (Option.some.inj (hl.symm.trans h))
  · obtain rfl := Option.some.inj (hl.symm.trans h)
    simp [hd] at he

theorem not_slip_behind_word {d : Byte} (hl : last = some d) (hd : isWordChar d = true) (hc : Closing c) :
    ¬ Slip last spaced c := by
  have hne : ∀ e, isWordChar e = false → last ≠ some e :=
    fun e he h => isWordChar_ne hd he (Option.some.inj (hl.symm.trans h))
  exact not_slip_closing hc (hne colon rfl) (hne comma rfl) fun _ => hne lbracket rfl

theorem not_slip_in_word {d : Byte} (hl : last = some d) (hd : isWordChar d = true) (hc : isWordChar c = true) :
    ¬ Slip last false c := by
  have hne : ∀ e, isWordChar e = false → last ≠ some e :=
    fun e he h => isWordChar_ne hd he (Option.some.inj (hl.symm.trans h))
  simp [slip_opening (.inr (.inl hc)), hne rbrace rfl, hne rbracket rfl]

theorem not_slip_colon : ¬ Slip last spaced colon := by
  simp [Slip, Closing, Opening, show isWordChar colon = false from rfl]

theorem not_slip_space (hc : isSpace c = true) : ¬ Slip last spaced c := by
  have h : ∀ d, isSpace d = false → c ≠ d := fun d => isSpace_ne hc
  simp [Slip, Closing, Opening, h comma rfl, h rbrace rfl, h rbracket rfl, h quote rfl, h lbracket rfl,
    h lbrace rfl, isWordChar_space hc]

end tokens

namespace Reader

variable {r s : Reader} {before : List Byte} {p : Place} {a : Bool} {st : List Bool} {c : Byte} {pos : UInt32}

/-- The reader, behind the text `before`, stands where the machine would. -/
inductive Stands (r : Reader) (before : List Byte) : Place → Prop
  | root (hj : r.jState = .expectRootStart) (hl : lastToken before = none) : Stands r before .root
  | firstKey (hj : r.jState = .expectKeyName) (hq : r.inQuote = false) (hl : lastToken before = some lbrace) :
      Stands r before .firstKey
  | key (hj : r.jState = .expectKeyName) (hq : r.inQuote = false) (hl : lastToken before = some comma) :
      Stands r before .key
  | behindObject (hj : r.jState = .expectKeyName) (hq : r.inQuote = false) (hl : lastToken before = some rbrace) :
      Stands r before .next
  | keyText (hj : r.jState = .expectKeyName) (hq : r.inQuote = true) : Stands r before .keyText
  | keySep (hj : r.jState = .expectKeySep) : Stands r before .keySep
  | first (hj : r.jState = .expectValue) (hs : r.stack.head? = some true)
      (hl : lastToken before = some lbracket) :
      Stands r before .first
  | value (hj : r.jState = .expectValue) (hl : lastToken before = some colon ∨ lastToken before = some comma) :
      Stands r before .value
  | behindContainer (hj : r.jState = .expectValue)
      (hl : lastToken before = some rbrace ∨ lastToken before = some rbracket) : Stands r before .next
  | text (hj : r.jState = .expectReadValue) (hq : r.inQuote = true) (he : r.inEscape = false) :
      Stands r before .text
  | escape (hj : r.jState = .expectReadValue) (hq : r.inQuote = true) (he : r.inEscape = true) :
      Stands r before .escape
  | bare {d : Byte} (hj : r.jState = .expectReadValue) (hq : r.inQuote = false) (hl : lastToken before = some d)
      (hd : isWordChar d = true) (hs : endsSpaced before = false) : Stands r before .bare
  | behindBare {d : Byte} (hj : r.jState = .expectReadValue) (hq : r.inQuote = false)
      (hl : lastToken before = some d) (hd : isWordChar d = true) (hs : endsSpaced before = true) :
      Stands r before .next
  | next (hj : r.jState = .expectNext) (hl : lastToken before = some quote) : Stands r before .next
  | done (hj : r.jState = .expectRootEnd) : Stands r before .done

theorem init_stands : Stands .init [] .root := .root rfl rfl

/-- The machine takes the step of the reader. -/
def Follows (r : Reader) (before : List Byte) (p : Place) (c : Byte) (s : Reader) : Prop :=
  ∃ q, Spot.step (p, r.stack) c = some (q, s.stack) ∧ s.Stands (before ++ [c]) q

theorem stepNext_of_expectNext (before : List Byte) (hq : r.inQuote = false) (hc : isSpace c = false)
    (h : r.expectNext pos c = .ok s) :
    Closing c ∧ ∃ q, stepNext r.stack c = some (q, s.stack) ∧ s.Stands (before ++ [c]) q := by
  have hl : lastToken (before ++ [c]) = some c := lastToken_concat hc
  obtain ⟨_, _, _, _, _, stack, _, _⟩ := r
  subst hq
  cases stack with
  | nil => simp [expectNext] at h
  | cons a st =>
    cases a with
    | true =>
      rw [expectNext_array rfl] at h
      split_ifs at h with hcomma hclose
      · obtain rfl := Except.ok.inj h
        subst hcomma
        exact ⟨.inl rfl, .value, rfl, .value rfl (.inr hl)⟩
      · obtain rfl := Except.ok.inj h
        subst hclose
        refine ⟨.inr (.inr rfl), ?_⟩
        cases st with
        | nil => exact ⟨.done, rfl, .done rfl⟩
        | cons b st => exact ⟨.next, rfl, .behindContainer rfl (.inr hl)⟩
      · simp_all
    | false =>
      rw [expectNext_object rfl] at h
      split_ifs at h with hcomma hclose
      · obtain rfl := Except.ok.inj h
        subst hcomma
        exact ⟨.inl rfl, .key, rfl, .key rfl rfl hl⟩
      · subst hclose
        refine ⟨.inr (.inl rfl), ?_⟩
        obtain ⟨m, n, he⟩ := WF.closeObject_eq _ st
        rw [he] at h
        obtain rfl := Except.ok.inj h
        cases st with
        | nil => exact ⟨.done, rfl, .done rfl⟩
        | cons b st =>
          cases b with
          | true => exact ⟨.next, rfl, .behindContainer rfl (.inl hl)⟩
          | false => exact ⟨.next, rfl, .behindObject rfl rfl hl⟩
      · simp_all

theorem read_space (hr : r.WF) (hq : r.inQuote = false) (hc : isSpace c = true) (h : (r.read c).2 = .ok s) :
    s = r := by
  have hread : r.read c = ([], .ok r) :=
    idle_of_not_quoted hq (fun hj => hr.stack_ne_nil (by simp [hj]) (by simp [hj])) c hc
  rw [hread] at h
  exact (Except.ok.inj h).symm

theorem Stands.space (hr : r.WF) (h : r.Stands before p) (hq : r.inQuote = false) (hc : isSpace c = true) :
    r.Follows before p c r := by
  have hl : lastToken (before ++ [c]) = lastToken before := lastToken_concat_space hc
  have hspaced : endsSpaced (before ++ [c]) = true := (endsSpaced_concat before c).trans hc
  have hne : ∀ d, isSpace d = false → c ≠ d := fun d => isSpace_ne hc
  have hinside : r.jState ≠ .expectRootStart → r.jState ≠ .expectRootEnd → ∃ a st, r.stack = a :: st :=
    fun h₁ h₂ => List.exists_cons_of_ne_nil (hr.stack_ne_nil h₁ h₂)
  have hobject : r.jState = .expectKeyName ∨ r.jState = .expectKeySep → ∃ st, r.stack = false :: st :=
    fun h => List.head?_eq_some_iff.mp (hr.object h)
  cases h with
  | root hj hlast =>
    refine ⟨.root, ?_, .root hj (hl.trans hlast)⟩
    rw [hr.outside (.inl hj), Spot.step, if_neg (hne lbrace rfl), if_pos hc]
  | firstKey hj hq hlast =>
    obtain ⟨st, hst⟩ := hobject (.inl hj)
    exact ⟨.firstKey, hst ▸ ForKey.space (.inr rfl) hc, .firstKey hj hq (hl.trans hlast)⟩
  | key hj hq hlast =>
    obtain ⟨st, hst⟩ := hobject (.inl hj)
    exact ⟨.key, hst ▸ ForKey.space (.inl rfl) hc, .key hj hq (hl.trans hlast)⟩
  | behindObject hj hq hlast =>
    obtain ⟨st, hst⟩ := hobject (.inl hj)
    exact ⟨.next, hst ▸ step_next_space hc, .behindObject hj hq (hl.trans hlast)⟩
  | keyText hj hq' => simp [hq] at hq'
  | keySep hj =>
    obtain ⟨st, hst⟩ := hobject (.inr hj)
    refine ⟨.keySep, ?_, .keySep hj⟩
    rw [hst, Spot.step, if_neg (hne colon rfl), if_pos hc]
  | first hj hs hlast =>
    obtain ⟨st, hst⟩ := List.head?_eq_some_iff.mp hs
    exact ⟨.first, hst ▸ ForValue.space (.inr ⟨rfl, rfl⟩) hc, .first hj hs (hl.trans hlast)⟩
  | value hj hlast => exact ⟨.value, by rw [Spot.step, if_pos hc], .value hj (hl ▸ hlast)⟩
  | behindContainer hj hlast =>
    obtain ⟨a, st, hst⟩ := hinside (by simp [hj]) (by simp [hj])
    exact ⟨.next, hst ▸ step_next_space hc, .behindContainer hj (hl ▸ hlast)⟩
  | text hj hq' he => simp [hq] at hq'
  | escape hj hq' he => simp [hq] at hq'
  | bare hj hq hlast hd hs =>
    obtain ⟨a, st, hst⟩ := hinside (by simp [hj]) (by simp [hj])
    refine ⟨.next, ?_, .behindBare hj hq (hl.trans hlast) hd hspaced⟩
    rw [hst, Spot.step, if_neg (by simp [isWordChar_space hc])]
    exact stepNext_space hc
  | behindBare hj hq hlast hd hs =>
    obtain ⟨a, st, hst⟩ := hinside (by simp [hj]) (by simp [hj])
    exact ⟨.next, hst ▸ step_next_space hc, .behindBare hj hq (hl.trans hlast) hd hspaced⟩
  | next hj hlast =>
    obtain ⟨a, st, hst⟩ := hinside (by simp [hj]) (by simp [hj])
    exact ⟨.next, hst ▸ step_next_space hc, .next hj (hl.trans hlast)⟩
  | done hj => exact ⟨.done, by rw [hr.outside (.inr hj), Spot.step, if_pos hc], .done hj⟩

theorem Stands.quoted (h : r.Stands before p) (hr : r.WF) (hq : r.inQuote = true) (hs : (r.read c).2 = .ok s) :
    r.Follows before p c s := by
  have hs := step_of_read hs
  rw [Reader.step] at hs
  have hout : r.jState ≠ .expectKeyName → r.jState ≠ .expectReadValue → False := fun h₁ h₂ => by
    simp [hr.not_quoted h₁ h₂] at hq
  cases h with
  | keyText hj =>
    obtain ⟨st, hst⟩ := List.head?_eq_some_iff.mp (hr.object (.inl hj))
    simp only [hj, expectKeyName, hq, if_true] at hs
    split_ifs at hs with hquote hbreak hlen
    · obtain rfl := Except.ok.inj hs
      exact ⟨.keySep, by rw [hst, Spot.step, if_pos hquote], .keySep rfl⟩
    · obtain rfl := Except.ok.inj hs
      exact ⟨.keyText, by rw [hst, Spot.step, if_neg hquote, if_neg hbreak], .keyText rfl rfl⟩
  | text hj _ he =>
    simp only [hj, expectReadValue, hq, he, if_true, if_false, Bool.false_eq_true, appendValue] at hs
    split_ifs at hs with hquote hbreak hback hlen
    · obtain rfl := Except.ok.inj hs
      subst hquote
      exact ⟨.next, rfl, .next rfl (lastToken_concat rfl)⟩
    · obtain rfl := Except.ok.inj hs
      exact ⟨.escape, by rw [Spot.step, if_neg hquote, if_neg hbreak, if_pos hback], .escape rfl rfl rfl⟩
    · obtain rfl := Except.ok.inj hs
      exact ⟨.text, by rw [Spot.step, if_neg hquote, if_neg hbreak, if_neg hback], .text rfl rfl rfl⟩
  | escape hj _ he =>
    simp only [hj, expectReadValue, hq, he, if_true] at hs
    cases hc : unescape c with
    | none => simp [hc] at hs
    | some d =>
      simp only [hc, appendValue] at hs
      split_ifs at hs
      obtain rfl := Except.ok.inj hs
      exact ⟨.text, by rw [Spot.step, if_pos (by simp [hc])], .text rfl rfl rfl⟩
  | root hj | keySep hj | first hj | value hj | behindContainer hj | next hj | done hj =>
    exact (hout (by simp [hj]) (by simp [hj])).elim
  | firstKey _ hq' | key _ hq' | behindObject _ hq' | bare _ hq' | behindBare _ hq' => simp [hq] at hq'

/-- In front of a token the machine is stopped by a slip, or follows the reader. -/
def Decides (r : Reader) (before : List Byte) (p : Place) (c : Byte) (s : Reader) : Prop :=
  Slip (lastToken before) (endsSpaced before) c ∧ Spot.step (p, r.stack) c = none ∨
    ¬ Slip (lastToken before) (endsSpaced before) c ∧ r.Follows before p c s

theorem decides_closing {t : Reader} (h : t.expectNext pos c = .ok s) (hc : isSpace c = false)
    (ht : t.stack = r.stack) (hq : t.inQuote = false) (hp : Spot.step (p, r.stack) c = stepNext r.stack c)
    (hslip : Closing c → ¬ Slip (lastToken before) (endsSpaced before) c) : r.Decides before p c s := by
  obtain ⟨hclose, q, hn, hs⟩ := stepNext_of_expectNext before hq hc h
  exact .inr ⟨hslip hclose, q, hp.trans (ht ▸ hn), hs⟩

theorem stepNext_opening (hc : Opening c) (hs : isSpace c = false) : stepNext st c = none := by
  cases st with
  | nil => rfl
  | cons a st =>
    have hcomma : c ≠ comma := fun h => Closing.not_opening (.inl h) hc
    have hclose : c ≠ closer a :=
      fun h => Closing.not_opening (by cases a; exacts [.inr (.inl h), .inr (.inr h)]) hc
    rw [stepNext, if_neg hcomma, if_neg hclose, if_neg (by simp [hs])]

theorem stepValue_closing (hc : Closing c) : stepValue st c = none := by
  rcases hc with rfl | rfl | rfl <;> rfl

theorem expectValue_opening (before : List Byte) (hq : r.inQuote = false) (he : r.inEscape = false)
    (hc : Opening c) (h : r.expectValue pos c = .ok s) : ∃ q, stepValue r.stack c = some (q, s.stack) ∧
    s.Stands (before ++ [c]) q := by
  rw [expectValue] at h
  split_ifs at h with hquote hword hbracket hdepth harray hspace hclose
  · obtain rfl := Except.ok.inj h
    exact ⟨.text, by rw [stepValue, if_pos hquote], .text rfl rfl he⟩
  · obtain rfl := Except.ok.inj h
    have hspace : isSpace c = false := Bool.eq_false_iff.mpr fun hs => by simp [isWordChar_space hs] at hword
    refine ⟨.bare, by rw [stepValue, if_neg hquote, if_pos hword], ?_⟩
    exact .bare rfl hq (lastToken_concat hspace) hword ((endsSpaced_concat before c).trans hspace)
  · obtain rfl := Except.ok.inj h
    subst harray
    exact ⟨.first, rfl, .first rfl rfl (lastToken_concat rfl)⟩
  · obtain rfl := Except.ok.inj h
    obtain rfl := hbracket.resolve_left harray
    exact ⟨.firstKey, rfl, .firstKey rfl hq (lastToken_concat rfl)⟩
  · exact absurd hc (by rw [Opening]; tauto)
  · exact absurd hc (by rw [Opening]; tauto)

theorem expectValue_cases (hc : isSpace c = false) (h : r.expectValue pos c = .ok s) :
    Opening c ∨ Closing c ∧ { r with jState := .expectNext }.expectNext pos c = .ok s := by
  rw [expectValue] at h
  split_ifs at h with hquote hword hbracket hdepth harray hspace hclose
  · exact .inl (.inl hquote)
  · exact .inl (.inr (.inl hword))
  · exact .inl (.inr (.inr hbracket))
  · exact .inl (.inr (.inr hbracket))
  · simp [hc] at hspace
  · exact .inr ⟨hclose, h⟩

theorem expectReadValue_cases (hq : r.inQuote = false) (hc : isSpace c = false)
    (h : (r.expectReadValue pos c).2 = .ok s) :
    isWordChar c = true ∧ s = { r with value := r.value ++ [c] } ∨
      Closing c ∧ r.completed.expectNext pos c = .ok s := by
  rw [expectReadValue, if_neg (by simp [hq]), appendValue] at h
  split_ifs at h with hword hlen hspace hclose
  · exact .inl ⟨hword, (Except.ok.inj h).symm⟩
  · simp [hc] at hspace
  · exact .inr ⟨hclose, h⟩
  · exact .inr ⟨hclose, h⟩

theorem decides_opening (h : r.expectValue pos c = .ok s) (hq : r.inQuote = false) (he : r.inEscape = false)
    (hc : Opening c) (hp : Spot.step (p, r.stack) c = stepValue r.stack c)
    (hslip : ¬ Slip (lastToken before) (endsSpaced before) c) : r.Decides before p c s := by
  obtain ⟨q, hn, hs⟩ := expectValue_opening before hq he hc h
  exact .inr ⟨hslip, q, hp.trans hn, hs⟩

theorem Stands.token (h : r.Stands before p) (hr : r.WF) (hq : r.inQuote = false) (hc : isSpace c = false)
    (hs : (r.read c).2 = .ok s) : r.Decides before p c s := by
  have he := hr.not_escaped hq
  have hs := step_of_read hs
  have hl : lastToken (before ++ [c]) = some c := lastToken_concat hc
  have hquoted : Opening quote := .inl rfl
  rw [Reader.step] at hs
  cases h with
  | root hj hlast =>
    simp only [hj, expectRootStart, hc, Bool.false_eq_true, if_false] at hs
    split_ifs at hs with hopen
    obtain rfl := Except.ok.inj hs
    subst hopen
    refine .inr ⟨by simp [slip_opening (.inr (.inr (.inr rfl))), hlast], .firstKey, ?_, .firstKey rfl hq hl⟩
    rw [hr.outside (.inl hj)]
    rfl
  | firstKey hj _ hlast =>
    obtain ⟨st, hst⟩ := List.head?_eq_some_iff.mp (hr.object (.inl hj))
    simp only [hj, expectKeyName, hq, hc, Bool.false_eq_true, if_false] at hs
    split_ifs at hs with hquote hclose
    · obtain rfl := Except.ok.inj hs
      subst hquote
      exact .inr ⟨not_slip_opening hlast hquoted (by decide) (by decide) rfl, .keyText, hst ▸ rfl,
        .keyText rfl rfl⟩
    · refine decides_closing hs hc rfl rfl (by rw [hst, hclose]; rfl) fun h => ?_
      exact not_slip_closing h (by simp [hlast]) (by simp [hlast]) (by simp [hclose])
  | key hj _ hlast =>
    obtain ⟨st, hst⟩ := List.head?_eq_some_iff.mp (hr.object (.inl hj))
    simp only [hj, expectKeyName, hq, hc, Bool.false_eq_true, if_false] at hs
    split_ifs at hs with hquote hclose
    · obtain rfl := Except.ok.inj hs
      subst hquote
      exact .inr ⟨not_slip_opening hlast hquoted (by decide) (by decide) rfl, .keyText, hst ▸ rfl,
        .keyText rfl rfl⟩
    · subst hclose
      exact .inl ⟨(slip_closing (.inr (.inl rfl))).mpr (.inr (.inl hlast)), hst ▸ rfl⟩
  | behindObject hj _ hlast =>
    simp only [hj, expectKeyName, hq, hc, Bool.false_eq_true, if_false] at hs
    split_ifs at hs with hquote hclose
    · subst hquote
      exact .inl ⟨(slip_opening hquoted).mpr (.inl hlast), stepNext_opening hquoted rfl⟩
    · refine decides_closing hs hc rfl rfl rfl fun h => ?_
      exact not_slip_closing h (by simp [hlast]) (by simp [hlast]) (by simp [hclose])
  | keyText _ hq' => simp [hq] at hq'
  | keySep hj =>
    obtain ⟨st, hst⟩ := List.head?_eq_some_iff.mp (hr.object (.inr hj))
    simp only [hj, expectKeySep, hc, Bool.false_eq_true, if_false] at hs
    split_ifs at hs with hcolon
    obtain rfl := Except.ok.inj hs
    subst hcolon
    exact .inr ⟨not_slip_colon, .value, hst ▸ rfl, .value rfl (.inl hl)⟩
  | first hj hfirst hlast =>
    obtain ⟨st, hst⟩ := List.head?_eq_some_iff.mp hfirst
    simp only [hj] at hs
    rcases expectValue_cases hc hs with hopen | ⟨hclose, hn⟩
    · refine decides_opening hs hq he hopen ?_ (not_slip_opening hlast hopen (by decide) (by decide) rfl)
      have hne : c ≠ rbracket := fun h => Closing.not_opening (.inr (.inr h)) hopen
      rw [hst, Spot.step, if_neg (by simp [hc]), if_neg hne]
    · by_cases hcomma : c = comma
      · subst hcomma
        exact .inl ⟨(slip_closing hclose).mpr (.inr (.inr ⟨rfl, hlast⟩)), hst ▸ rfl⟩
      · have hbracket : c = rbracket := by
          rw [@expectNext_array { r with jState := .expectNext } st hst] at hn
          split_ifs at hn with hbracket hspace
          · exact hbracket
          · simp [hc] at hspace
        refine decides_closing hn hc rfl hq (by rw [hst, hbracket]; rfl) fun h => ?_
        exact not_slip_closing h (by simp [hlast]) (by simp [hlast]) (absurd · hcomma)
  | value hj hlast =>
    simp only [hj] at hs
    rcases expectValue_cases hc hs with hopen | ⟨hclose, hn⟩
    · refine decides_opening hs hq he hopen (by rw [Spot.step, if_neg (by simp [hc])]) ?_
      rcases hlast with hlast | hlast <;> exact not_slip_opening hlast hopen (by decide) (by decide) rfl
    · refine .inl ⟨(slip_closing hclose).mpr (hlast.elim .inl (.inr ∘ .inl)), ?_⟩
      rw [Spot.step, if_neg (by simp [hc]), stepValue_closing hclose]
  | behindContainer hj hlast =>
    simp only [hj] at hs
    rcases expectValue_cases hc hs with hopen | ⟨hclose, hn⟩
    · exact .inl ⟨(slip_opening hopen).mpr (hlast.elim .inl (.inr ∘ .inl)), stepNext_opening hopen hc⟩
    · refine decides_closing hn hc rfl hq rfl fun h => ?_
      rcases hlast with hlast | hlast <;>
        exact not_slip_closing h (by simp [hlast]) (by simp [hlast]) (by simp [hlast])
  | text _ hq' | escape _ hq' => simp [hq] at hq'
  | @bare d hj _ hlast hd hspaced =>
    simp only [hj] at hs
    rcases expectReadValue_cases hq hc hs with ⟨hword, rfl⟩ | ⟨hclose, hn⟩
    · refine .inr ⟨hspaced ▸ not_slip_in_word hlast hd hword, .bare, by rw [Spot.step, if_pos hword], ?_⟩
      exact .bare hj hq hl hword ((endsSpaced_concat before c).trans hc)
    · exact decides_closing hn hc rfl hq (by rw [Spot.step, if_neg (by simp [hclose.not_word])])
        (not_slip_behind_word hlast hd)
  | @behindBare d hj _ hlast hd hspaced =>
    simp only [hj] at hs
    rcases expectReadValue_cases hq hc hs with ⟨hword, rfl⟩ | ⟨hclose, hn⟩
    · exact .inl ⟨(slip_opening (.inr (.inl hword))).mpr (.inr (.inr ⟨hword, hspaced, d, hlast, hd⟩)),
        stepNext_opening (.inr (.inl hword)) hc⟩
    · exact decides_closing hn hc rfl hq rfl (not_slip_behind_word hlast hd)
  | next hj hlast =>
    simp only [hj] at hs
    refine decides_closing hs hc rfl hq rfl fun h => ?_
    exact not_slip_closing h (by simp [hlast]) (by simp [hlast]) (by simp [hlast])
  | done hj =>
    simp only [hj, expectRootEnd, hc, Bool.false_eq_true, if_false] at hs
    split_ifs at hs

/-- No byte of `bytes` that the reader comes to outside of a string is a slip. -/
def TidyFrom (r : Reader) (before bytes : List Byte) : Prop :=
  ∀ b c after t, bytes = b ++ c :: after → (r.run b).2 = .ok t → t.inQuote = false →
    ¬ Slip (lastToken (before ++ b)) (endsSpaced (before ++ b)) c

theorem run_cons_of_read {b : List Byte} (h : (r.read c).2 = .ok s) : (r.run (c :: b)).2 = (s.run b).2 := by
  have he : r.read c = ((r.read c).1, .ok s) := Prod.ext rfl h
  rw [Reader.run, Mealy.run_cons_ok he]

theorem tidyFrom_cons {bytes : List Byte} (h : (r.read c).2 = .ok s) :
    r.TidyFrom before (c :: bytes) ↔
      (r.inQuote = false → ¬ Slip (lastToken before) (endsSpaced before) c) ∧
      s.TidyFrom (before ++ [c]) bytes := by
  constructor
  · intro ht
    refine ⟨fun hq => by simpa using ht [] c bytes r rfl rfl hq, ?_⟩
    rintro b d after t rfl hb hq
    have hslip := ht (c :: b) d after t rfl ((run_cons_of_read h).trans hb) hq
    simpa using hslip
  · rintro ⟨hfirst, hrest⟩ b d after t he hb hq
    cases b with
    | nil =>
      obtain ⟨rfl, rfl⟩ := List.cons.inj he
      obtain rfl : r = t := Except.ok.inj hb
      simpa using hfirst hq
    | cons e b =>
      obtain ⟨rfl, rfl⟩ := List.cons.inj he
      simpa using hrest b d after t rfl ((run_cons_of_read h).symm.trans hb) hq

theorem Stands.run {bytes : List Byte} {out : List Item} (h : r.Stands before p) (hr : r.WF)
    (hrun : r.run bytes = (out, .ok s)) (hs : s.jState = .expectRootEnd) :
    Spot.run (p, r.stack) bytes = some (.done, []) ↔ r.TidyFrom before bytes := by
  induction bytes generalizing r before p out with
  | nil =>
    obtain rfl : r = s := Except.ok.inj (Prod.mk.inj hrun).2
    refine iff_of_true ?_ (by intro b c after t hb; simp at hb)
    cases h with
    | done hj => rw [Spot.run_nil, hr.outside (.inr hj)]
    | root hj | firstKey hj | key hj | behindObject hj | keyText hj | keySep hj | first hj | value hj
    | behindContainer hj
    | text hj | escape hj | bare hj | behindBare hj | next hj => exact absurd (hj.symm.trans hs) (by simp)
  | cons c bytes ih =>
    rcases he : r.read c with ⟨o, e | u⟩
    · rw [Reader.run, Mealy.run_cons_error he] at hrun
      simp at hrun
    · have hu : (r.read c).2 = .ok u := congrArg Prod.snd he
      rw [Reader.run, Mealy.run_cons_ok he] at hrun
      rw [tidyFrom_cons hu]
      have hfollow : r.Follows before p c u →
          (Spot.run (p, r.stack) (c :: bytes) = some (.done, []) ↔ u.TidyFrom (before ++ [c]) bytes) := by
        rintro ⟨q, hq, hsu⟩
        rw [run_step hq]
        exact ih hsu (hr.read hu) (Prod.ext rfl (Prod.mk.inj hrun).2)
      cases hq : r.inQuote with
      | true => simpa using hfollow (h.quoted hr hq hu)
      | false =>
        cases hc : isSpace c with
        | true =>
          obtain rfl := read_space hr hq hc hu
          simpa [not_slip_space hc] using hfollow (h.space hr hq hc)
        | false =>
          rcases h.token hr hq hc hu with ⟨hslip, hnone⟩ | ⟨hslip, hf⟩
          · simp [hslip, Spot.run_cons, hnone]
          · simpa [hslip] using hfollow hf

end Reader

section accepted

variable {σ : Type} {cb : Callback σ} {data : σ} {bytes : List Byte} {d : Division bytes}

/-- The run closes the root object, reaches the end of the stream and returns 0. -/
def Accepts (cb : Callback σ) (data : σ) (reads : List Read) : Prop :=
  ∃ p w, parseDataEnding cb false data reads = .eof p w ∧ parseData cb false data reads = .ok (0, w) ∧
    p.jState = .expectRootEnd

theorem accepts_of_run (hcb : ∀ k d, (cb k d).code = 0) {items : List Item} {t : Reader}
    (h : Reader.init.run bytes = (items, .ok t)) (ht : t.jState = .expectRootEnd) : Accepts cb data d.reads := by
  obtain ⟨p, s, w, he, hr, -, hs⟩ := parseDataEnding_eof hcb data d h
  refine ⟨p, w, he, by rw [parseData, he]; rfl, ?_⟩
  rw [hr.jState, hs, ht]

end accepted

/-- `{"a":[1,{"b":2}],"b":3}` -/
def tidyText : List Byte :=
  [0x7b, 0x22, 0x61, 0x22, 0x3a, 0x5b, 0x31, 0x2c, 0x7b, 0x22, 0x62, 0x22, 0x3a, 0x32, 0x7d, 0x5d,
    0x2c, 0x22, 0x62, 0x22, 0x3a, 0x33, 0x7d]

theorem tidyText_accepted : Accepts accept () (Division.single tidyText).reads :=
  accepts_of_run (fun _ _ => rfl) rfl rfl

/-- `{"a":1 2}` -/
def splitValue : List Byte := [0x7b, 0x22, 0x61, 0x22, 0x3a, 0x31, 0x20, 0x32, 0x7d]

/-- `{"a":[1]2}` -/
def missingComma : List Byte := [0x7b, 0x22, 0x61, 0x22, 0x3a, 0x5b, 0x31, 0x5d, 0x32, 0x7d]

/-- `{"a":}` -/
def missingValue : List Byte := [0x7b, 0x22, 0x61, 0x22, 0x3a, 0x7d]

/-- `{"a":1,}` -/
def trailingComma : List Byte := [0x7b, 0x22, 0x61, 0x22, 0x3a, 0x31, 0x2c, 0x7d]

/-- The machine does not read the text to its end, but the reader does. -/
theorem accepted_malformed {t : List Byte} {items : List Item} {r : Reader}
    (h : Reader.init.run t = (items, .ok r)) (hr : r.jState = .expectRootEnd)
    (ht : run (.root, []) t ≠ some (.done, [])) :
    Accepts accept () (Division.single t).reads ∧ ¬ WellFormed t :=
  ⟨accepts_of_run (fun _ _ => rfl) h hr, fun hw => ht ((wellFormed_iff t).mp hw)⟩

end BzccScanner
