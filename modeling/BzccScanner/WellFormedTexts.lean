import BzccScanner.JsonRun

/-! JSON texts of any size: their grammar, and a machine that reads them byte by
byte with a stack of the open containers. -/

namespace BzccScanner

open CString

inductive Part
  | object | value | element | elements | member | members

/-- JSON with bare words, of any size. -/
inductive JsonText : Part → List Byte → Prop
  | emptyObject (w : Ws) : JsonText .object (lbrace :: spaces w ++ [rbrace])
  | members {t : List Byte} (h : JsonText .members t) : JsonText .object (lbrace :: t ++ [rbrace])
  | quoted (pieces : List Piece) : JsonText .value (quote :: pieces.flatMap Piece.text ++ [quote])
  | bare (w : Word) : JsonText .value w.bytes
  | emptyArray (w : Ws) : JsonText .value (lbracket :: spaces w ++ [rbracket])
  | elements {t : List Byte} (h : JsonText .elements t) : JsonText .value (lbracket :: t ++ [rbracket])
  | object {t : List Byte} (h : JsonText .object t) : JsonText .value t
  | element {t : List Byte} (before after : Ws) (h : JsonText .value t) :
      JsonText .element (spaces before ++ t ++ spaces after)
  | lastElement {t : List Byte} (h : JsonText .element t) : JsonText .elements t
  | nextElement {t u : List Byte} (h : JsonText .element t) (hu : JsonText .elements u) :
      JsonText .elements (t ++ comma :: u)
  | member {k t : List Byte} (before between : Ws) (hk : ∀ c ∈ k, c ≠ quote ∧ c ≠ lf ∧ c ≠ cr)
      (h : JsonText .element t) :
      JsonText .member (spaces before ++ quote :: k ++ quote :: spaces between ++ colon :: t)
  | lastMember {t : List Byte} (h : JsonText .member t) : JsonText .members t
  | nextMember {t u : List Byte} (h : JsonText .member t) (hu : JsonText .members u) :
      JsonText .members (t ++ comma :: u)

/-- A JSON object up to surrounding whitespace. -/
def WellFormed (bytes : List Byte) : Prop :=
  ∃ (before after : Ws) (t : List Byte), JsonText .object t ∧ bytes = spaces before ++ t ++ spaces after

/-- Where the machine stands. `firstKey` and `first` are behind an opening bracket. -/
inductive Place
  | root | firstKey | key | keyText | keySep | first | value | text | escape | bare | next | done
  deriving DecidableEq

/-- A place with the open containers around it, innermost first; `true` is an array. -/
abbrev Spot := Place × List Bool

namespace Spot

def closer (array : Bool) : Byte := if array then rbracket else rbrace

def closed : List Bool → Spot
  | [] => (.done, [])
  | a :: st => (.next, a :: st)

def afterComma (array : Bool) : Place := if array then .value else .key

def stepNext (st : List Bool) (c : Byte) : Option Spot :=
  match st with
  | [] => none
  | a :: st =>
    if c = comma then some (afterComma a, a :: st)
    else if c = closer a then some (closed st)
    else if isSpace c then some (.next, a :: st)
    else none

def stepValue (st : List Bool) (c : Byte) : Option Spot :=
  if c = quote then some (.text, st)
  else if isWordChar c then some (.bare, st)
  else if c = lbracket then some (.first, true :: st)
  else if c = lbrace then some (.firstKey, false :: st)
  else none

def step : Spot → Byte → Option Spot
  | (.root, []), c =>
    if c = lbrace then some (.firstKey, [false]) else if isSpace c then some (.root, []) else none
  | (.firstKey, false :: st), c =>
    if c = quote then some (.keyText, false :: st)
    else if isSpace c then some (.firstKey, false :: st)
    else if c = rbrace then stepNext (false :: st) c
    else none
  | (.key, false :: st), c =>
    if c = quote then some (.keyText, false :: st) else if isSpace c then some (.key, false :: st) else none
  | (.keyText, false :: st), c =>
    if c = quote then some (.keySep, false :: st)
    else if c = lf ∨ c = cr then none
    else some (.keyText, false :: st)
  | (.keySep, false :: st), c =>
    if c = colon then some (.value, false :: st) else if isSpace c then some (.keySep, false :: st) else none
  | (.first, true :: st), c =>
    if isSpace c then some (.first, true :: st)
    else if c = rbracket then stepNext (true :: st) c
    else stepValue (true :: st) c
  | (.value, st), c => if isSpace c then some (.value, st) else stepValue st c
  | (.text, st), c =>
    if c = quote then some (.next, st)
    else if c = lf ∨ c = cr then none
    else if c = backslash then some (.escape, st)
    else some (.text, st)
  | (.escape, st), c => if (unescape c).isSome then some (.text, st) else none
  | (.bare, st), c => if isWordChar c then some (.bare, st) else stepNext st c
  | (.next, st), c => stepNext st c
  | (.done, []), c => if isSpace c then some (.done, []) else none
  | _, _ => none

def run (s : Spot) (t : List Byte) : Option Spot := t.foldlM step s

@[simp] theorem run_nil (s : Spot) : s.run [] = some s := rfl

theorem run_cons (s : Spot) (c : Byte) (t : List Byte) : s.run (c :: t) = (s.step c).bind (run · t) :=
  List.foldlM_cons

theorem run_append (s : Spot) (t u : List Byte) : s.run (t ++ u) = (s.run t).bind (run · u) :=
  List.foldlM_append

variable {s : Spot} {p q : Place} {a b : Bool} {st : List Bool} {c : Byte} {t u v : List Byte}

theorem run_then (ht : s.run t = some (p, st)) : s.run (t ++ u) = run (p, st) u := by
  rw [run_append, ht, Option.bind_some]

theorem run_step (h : s.step c = some (p, st)) : s.run (c :: t) = run (p, st) t := by
  rw [run_cons, h, Option.bind_some]

theorem run_spaces (h : ∀ c, isSpace c = true → s.step c = some s) (w : Ws) : s.run (spaces w) = some s := by
  induction w with
  | nil => rfl
  | cons c w ih => exact (run_step (h c.1 c.2)).trans ih

theorem run_plain (h : ∀ c ∈ t, s.step c = some s) : s.run t = some s := by
  induction t with
  | nil => rfl
  | cons c t ih =>
    obtain ⟨hc, ht⟩ := List.forall_mem_cons.mp h
    exact (run_step hc).trans (ih ht)

theorem stepNext_space (hc : isSpace c = true) : stepNext (a :: st) c = some (.next, a :: st) := by
  have hcloser : c ≠ closer a := isSpace_ne hc (by cases a <;> rfl)
  rw [stepNext, if_neg (isSpace_ne hc rfl), if_neg hcloser, if_pos hc]

theorem stepNext_closer : stepNext (a :: st) (closer a) = some (closed st) := by
  cases a <;> rfl

theorem step_next_space (hc : isSpace c = true) :
    step (.next, a :: st) c = some (.next, a :: st) := stepNext_space hc

/-- The places in front of a value. -/
def ForValue (p : Place) (a : Bool) : Prop := p = .value ∨ p = .first ∧ a = true

theorem ForValue.begins (h : ForValue p a) (hs : isSpace c = false) (hc : c ≠ rbracket) :
    step (p, a :: st) c = stepValue (a :: st) c := by
  rcases h with rfl | ⟨rfl, rfl⟩
  · rw [step, if_neg (by simp [hs])]
  · rw [step, if_neg (by simp [hs]), if_neg hc]

theorem ForValue.space (h : ForValue p a) (hc : isSpace c = true) : step (p, a :: st) c = some (p, a :: st) := by
  rcases h with rfl | ⟨rfl, rfl⟩ <;> rw [step, if_pos hc]

/-- The places in front of a key. -/
def ForKey (p : Place) : Prop := p = .key ∨ p = .firstKey

theorem ForKey.quote (h : ForKey p) : step (p, false :: st) quote = some (.keyText, false :: st) := by
  rcases h with rfl | rfl <;> rfl

theorem ForKey.space (h : ForKey p) (hc : isSpace c = true) :
    step (p, false :: st) c = some (p, false :: st) := by
  have hquote : c ≠ BzccScanner.quote := isSpace_ne hc rfl
  rcases h with rfl | rfl <;> rw [step, if_neg hquote, if_pos hc]

/-- What a run may come to with the end of a value. -/
def Behind (st : List Bool) (s : Option Spot) : Prop := s = some (.next, st) ∨ s = some (.bare, st)

theorem Behind.then (h : Behind st (s.run t)) (hc : isWordChar c = false) :
    s.run (t ++ c :: u) = (stepNext st c).bind (run · u) := by
  rcases h with h | h
  · rw [run_then h, run_cons]
    rfl
  · rw [run_then h, run_cons, step, if_neg (by simp [hc])]

theorem Behind.spaces (h : Behind (a :: st) (s.run t)) (w : Ws) : Behind (a :: st) (s.run (t ++ spaces w)) := by
  cases w with
  | nil =>
    rw [show BzccScanner.spaces [] = [] from rfl, List.append_nil]
    exact h
  | cons c w =>
    rw [show BzccScanner.spaces (c :: w) = c.1 :: BzccScanner.spaces w from rfl, h.then (isWordChar_space c.2),
      stepNext_space c.2]
    exact .inl (run_spaces (fun _ hd => step_next_space hd) w)

theorem Behind.close (h : Behind (a :: st) (s.run t)) : s.run (t ++ [closer a]) = some (closed st) := by
  rw [h.then (by cases a <;> rfl), stepNext_closer]
  rfl

theorem Behind.comma (h : Behind (a :: st) (s.run t)) :
    s.run (t ++ comma :: u) = run (afterComma a, a :: st) u := by
  rw [h.then rfl, stepNext, if_pos rfl]
  rfl

theorem run_pieces (pieces : List Piece) : run (.text, st) (pieces.flatMap Piece.text) = some (.text, st) := by
  induction pieces with
  | nil => rfl
  | cons piece pieces ih =>
    rw [List.flatMap_cons]
    refine (run_then ?_).trans ih
    cases piece with
    | plain c h =>
      obtain ⟨hquote, hback, hlf, hcr⟩ := h
      refine (run_step (p := .text) ?_).trans (run_nil _)
      rw [step, if_neg hquote, if_neg (not_or.mpr ⟨hlf, hcr⟩), if_neg hback]
    | escape e => cases e <;> rfl

/-- What the machine does over a part of a text. -/
def Reads : Part → List Byte → Prop
  | .object, t => ∀ (s : Spot) (st : List Bool), s.step lbrace = some (.firstKey, false :: st) →
  s.run t = some (closed st)
  | .value, t | .element, t => ∀ (p : Place) (a : Bool) (st : List Bool), ForValue p a →
      Behind (a :: st) (run (p, a :: st) t)
  | .elements, t => ∀ (p : Place) (st : List Bool), ForValue p true → Behind (true :: st) (run (p, true :: st) t)
  | .member, t | .members, t => ∀ (p : Place) (st : List Bool), ForKey p →
  Behind (false :: st) (run (p, false :: st) t)

end Spot

open Spot

theorem JsonText.reads {part : Part} {t : List Byte} (h : JsonText part t) : Reads part t := by
  induction h with
  | emptyObject w =>
    intro s st hs
    refine (run_step hs).trans ((run_then (run_spaces (fun c hc => ForKey.space (.inr rfl) hc) w)).trans ?_)
    rfl
  | members h ih =>
    intro s st hs
    exact (run_step hs).trans (ih .firstKey st (.inr rfl)).close
  | quoted pieces =>
    intro p a st hp
    exact .inl ((run_step (hp.begins rfl (by decide))).trans ((run_then (run_pieces pieces)).trans rfl))
  | bare w =>
    intro p a st hp
    obtain ⟨bytes, hne, hw⟩ := w
    cases bytes with
    | nil => exact absurd rfl hne
    | cons c t =>
      obtain ⟨hc, ht⟩ := List.forall_mem_cons.mp hw
      have hstep : step (p, a :: st) c = some (.bare, a :: st) := by
        rw [hp.begins (Bool.eq_false_iff.mpr fun hs => by simp [isWordChar_space hs] at hc)
          (isWordChar_ne hc rfl), stepValue, if_neg (isWordChar_ne hc rfl), if_pos hc]
      refine .inr ((run_step hstep).trans (run_plain fun d hd => ?_))
      rw [step, if_pos (ht d hd)]
  | emptyArray w =>
    intro p a st hp
    refine .inl ((run_step (hp.begins rfl (by decide))).trans ?_)
    exact (run_then (run_spaces (fun c hc => ForValue.space (.inr ⟨rfl, rfl⟩) hc) w)).trans rfl
  | elements h ih =>
    intro p a st hp
    exact .inl ((run_step (hp.begins rfl (by decide))).trans (ih .first (a :: st) (.inr ⟨rfl, rfl⟩)).close)
  | object h ih =>
    intro p a st hp
    exact .inl (ih (p, a :: st) (a :: st) (hp.begins rfl (by decide)))
  | element before after h ih =>
    intro p a st hp
    refine Behind.spaces ?_ after
    rw [run_then (run_spaces (fun c hc => hp.space hc) before)]
    exact ih p a st hp
  | lastElement h ih => exact fun p st hp => ih p true st hp
  | nextElement h hu ih ihu =>
    intro p st hp
    rw [(ih p true st hp).comma]
    exact ihu .value st (.inl rfl)
  | @member k t before between hk h ih =>
    intro p st hp
    have hkey : ∀ c ∈ k, step (.keyText, false :: st) c = some (.keyText, false :: st) := by
      intro c hc
      obtain ⟨hquote, hlf, hcr⟩ := hk c hc
      rw [step, if_neg hquote, if_neg (not_or.mpr ⟨hlf, hcr⟩)]
    have hsep : ∀ c, isSpace c = true → step (.keySep, false :: st) c = some (.keySep, false :: st) := by
      intro c hc
      rw [step, if_neg (isSpace_ne hc rfl), if_pos hc]
    simp only [List.append_assoc, List.cons_append]
    rw [run_then (run_spaces (fun c hc => hp.space hc) before), run_step hp.quote, run_then (run_plain hkey),
      run_step (show step (.keyText, false :: st) quote = some (.keySep, false :: st) from rfl),
      run_then (run_spaces hsep between),
      run_step (show step (.keySep, false :: st) colon = some (.value, false :: st) from rfl)]
    exact ih .value false st (.inl rfl)
  | lastMember h ih => exact ih
  | nextMember h hu ih ihu =>
    intro p st hp
    rw [(ih p st hp).comma]
    exact ihu .key st (.inl rfl)

theorem WellFormed.run {bytes : List Byte} (h : WellFormed bytes) : run (.root, []) bytes = some (.done, []) := by
  obtain ⟨before, after, t, ht, rfl⟩ := h
  have hroot : ∀ c, isSpace c = true → step (.root, []) c = some (.root, []) := by
    intro c hc
    rw [step, if_neg (isSpace_ne hc rfl), if_pos hc]
  have hdone : ∀ c, isSpace c = true → step (.done, []) c = some (.done, []) := by
    intro c hc
    rw [step, if_pos hc]
  rw [List.append_assoc, run_then (run_spaces hroot before), run_then (ht.reads (.root, []) [] rfl)]
  exact run_spaces hdone after

theorem spaces_append (v w : Ws) : spaces (v ++ w) = spaces v ++ spaces w := List.map_append

section spacing

variable {t : List Byte} {c : Byte}

theorem JsonText.space_element (hc : isSpace c = true) (h : JsonText .element t) :
    JsonText .element (c :: t) := by
  cases h with
  | element before after h => exact .element (⟨c, hc⟩ :: before) after h

theorem JsonText.element_spaces (h : JsonText .element t) (w : Ws) : JsonText .element (t ++ spaces w) := by
  cases h with
  | element before after h =>
    rw [List.append_assoc, ← spaces_append]
    exact .element before (after ++ w) h

theorem JsonText.space_member (hc : isSpace c = true) (h : JsonText .member t) : JsonText .member (c :: t) := by
  cases h with
  | member before between hk h => exact .member (⟨c, hc⟩ :: before) between hk h

theorem JsonText.space_members (hc : isSpace c = true) (h : JsonText .members t) :
    JsonText .members (c :: t) := by
  cases h with
  | lastMember h => exact .lastMember (h.space_member hc)
  | nextMember h hu => exact .nextMember (h.space_member hc) hu

end spacing

namespace Spot

variable {s : Spot} {p : Place} {a : Bool} {st : List Bool} {c : Byte} {e k t u : List Byte}

/-- What may stand between a value and the bracket of its container. -/
def Tail (a : Bool) (t : List Byte) : Prop :=
  (∃ w : Ws, t = spaces w) ∨
    ∃ (w : Ws) (u : List Byte), JsonText (if a then .elements else .members) u ∧ t = spaces w ++ comma :: u

def ValueRest (a : Bool) (t : List Byte) : Prop :=
  ∃ e u, JsonText .element e ∧ Tail a u ∧ t = e ++ u

def SepRest (t : List Byte) : Prop :=
  ∃ (w : Ws) (u : List Byte), ValueRest false u ∧ t = spaces w ++ colon :: u

/-- What the machine still needs in front of the bracket of the innermost container. -/
def Rest : Place → Bool → List Byte → Prop
  | .root, _, _ | .done, _, _ => False
  | .firstKey, _, t => (∃ w : Ws, t = spaces w) ∨ JsonText .members t
  | .key, _, t => JsonText .members t
  | .keyText, _, t => ∃ k u, (∀ c ∈ k, c ≠ quote ∧ c ≠ lf ∧ c ≠ cr) ∧ SepRest u ∧ t = k ++ quote :: u
  | .keySep, _, t => SepRest t
  | .first, a, t => (∃ w : Ws, t = spaces w) ∨ ValueRest a t
  | .value, a, t => ValueRest a t
  | .text, a, t => ∃ (pieces : List Piece) (u : List Byte), Tail a u ∧ t = pieces.flatMap Piece.text ++ quote :: u
  | .escape, a, t => ∃ (pieces : List Piece) (u : List Byte), Tail a u ∧
      backslash :: t = pieces.flatMap Piece.text ++ quote :: u
  | .bare, a, t => ∃ w u, (∀ c ∈ w, isWordChar c = true) ∧ Tail a u ∧ t = w ++ u
  | .next, a, t => Tail a t

theorem Tail.space (hc : isSpace c = true) (h : Tail a t) : Tail a (c :: t) := by
  rcases h with ⟨w, rfl⟩ | ⟨w, u, hu, rfl⟩
  · exact .inl ⟨⟨c, hc⟩ :: w, rfl⟩
  · exact .inr ⟨⟨c, hc⟩ :: w, u, hu, rfl⟩

theorem ValueRest.of_value (he : JsonText .value e) (hu : Tail a u) : ValueRest a (e ++ u) :=
  ⟨e, u, by simpa [spaces] using JsonText.element [] [] he, hu, rfl⟩

theorem ValueRest.space (hc : isSpace c = true) (h : ValueRest a t) : ValueRest a (c :: t) := by
  obtain ⟨e, u, he, hu, rfl⟩ := h
  exact ⟨c :: e, u, he.space_element hc, hu, rfl⟩

theorem ValueRest.elements (h : ValueRest true t) : JsonText .elements t := by
  obtain ⟨e, u, he, ⟨w, rfl⟩ | ⟨w, u, hu, rfl⟩, rfl⟩ := h
  · exact .lastElement (he.element_spaces w)
  · rw [← List.append_assoc]
    exact .nextElement (he.element_spaces w) hu

theorem SepRest.members (hk : ∀ c ∈ k, c ≠ quote ∧ c ≠ lf ∧ c ≠ cr) (h : SepRest t) :
    JsonText .members (quote :: (k ++ quote :: t)) := by
  obtain ⟨v, _, ⟨e, u, he, hu, rfl⟩, rfl⟩ := h
  rcases hu with ⟨w, rfl⟩ | ⟨w, u, hu, rfl⟩
  · simpa [spaces] using JsonText.lastMember (.member [] v hk (he.element_spaces w))
  · simpa [spaces] using JsonText.nextMember (.member [] v hk (he.element_spaces w)) hu

def start (b : Bool) : Place := if b then .first else .firstKey

theorem stepNext_cases (h : stepNext (a :: st) c = some s) :
    (∃ q, s = (q, a :: st) ∧ ∀ u, Rest q a u → Tail a (c :: u)) ∨ c = closer a ∧ s = closed st := by
  rw [stepNext] at h
  split_ifs at h with hcomma hclose hspace
  · obtain rfl := Option.some.inj h
    subst hcomma
    refine .inl ⟨_, rfl, fun u hu => .inr ⟨[], u, ?_, rfl⟩⟩
    cases a with
    | true => exact ValueRest.elements hu
    | false => exact hu
  · exact .inr ⟨hclose, (Option.some.inj h).symm⟩
  · exact .inl ⟨_, (Option.some.inj h).symm, fun u hu => hu.space hspace⟩

theorem stepValue_cases (h : stepValue (a :: st) c = some s) :
    (∃ q, s = (q, a :: st) ∧ ∀ u, Rest q a u → ValueRest a (c :: u)) ∨
    ∃ b, s = (start b, b :: a :: st) ∧
      ∀ u v, Rest (start b) b u → Tail a v → ValueRest a (c :: (u ++ closer b :: v)) := by
  rw [stepValue] at h
  split_ifs at h with hquote hword harray hobject
  · refine .inl ⟨_, (Option.some.inj h).symm, ?_⟩
    rintro _ ⟨pieces, u, hu, rfl⟩
    simpa [hquote] using ValueRest.of_value (.quoted pieces) hu
  · refine .inl ⟨_, (Option.some.inj h).symm, ?_⟩
    rintro _ ⟨w, u, hw, hu, rfl⟩
    exact ValueRest.of_value (.bare ⟨c :: w, by simp, List.forall_mem_cons.mpr ⟨hword, hw⟩⟩) hu
  · refine .inr ⟨true, (Option.some.inj h).symm, ?_⟩
    rintro u v (⟨w, rfl⟩ | hu) hv
    · simpa [harray, closer] using ValueRest.of_value (.emptyArray w) hv
    · simpa [harray, closer] using ValueRest.of_value (.elements hu.elements) hv
  · refine .inr ⟨false, (Option.some.inj h).symm, ?_⟩
    rintro u v (⟨w, rfl⟩ | hu) hv
    · simpa [hobject, closer] using ValueRest.of_value (.object (.emptyObject w)) hv
    · simpa [hobject, closer] using ValueRest.of_value (.object (.members hu)) hv

theorem unescape_letter {d : Byte} (h : unescape c = some d) : ∃ e : Escape, e.letter = c := by
  rw [unescape] at h
  split_ifs at h with h₁ h₂ h₃ h₄
  · exact h₁.elim (fun h => ⟨.quote, h.symm⟩) fun h => ⟨.backslash, h.symm⟩
  · exact ⟨.carriageReturn, h₂.symm⟩
  · exact ⟨.newline, h₃.symm⟩
  · exact ⟨.tab, h₄.symm⟩

theorem step_cases (h : step (p, a :: st) c = some s) :
    (∃ q, s = (q, a :: st) ∧ ∀ u, Rest q a u → Rest p a (c :: u)) ∨
    (c = closer a ∧ s = closed st ∧ Rest p a []) ∨
    ∃ b, s = (start b, b :: a :: st) ∧ ∀ u v, Rest (start b) b u → Tail a v →
    Rest p a (c :: (u ++ closer b :: v)) := by
  cases p with
  | root => simp [step] at h
  | firstKey =>
    cases a with
    | true => simp [step] at h
    | false =>
      rw [step] at h
      split_ifs at h with hquote hspace hclose
      · refine .inl ⟨_, (Option.some.inj h).symm, ?_⟩
        rintro _ ⟨k, u, hk, hu, rfl⟩
        exact .inr (hquote ▸ hu.members hk)
      · refine .inl ⟨_, (Option.some.inj h).symm, ?_⟩
        rintro _ (⟨w, rfl⟩ | hu)
        · exact .inl ⟨⟨c, hspace⟩ :: w, rfl⟩
        · exact .inr (hu.space_members hspace)
      · rw [hclose, show rbrace = closer false from rfl, stepNext_closer] at h
        exact .inr (.inl ⟨hclose, (Option.some.inj h).symm, .inl ⟨[], rfl⟩⟩)
  | key =>
    cases a with
    | true => simp [step] at h
    | false =>
      rw [step] at h
      split_ifs at h with hquote hspace
      · refine .inl ⟨_, (Option.some.inj h).symm, ?_⟩
        rintro _ ⟨k, u, hk, hu, rfl⟩
        exact hquote ▸ hu.members hk
      · exact .inl ⟨_, (Option.some.inj h).symm, fun u hu => hu.space_members hspace⟩
  | keyText =>
    cases a with
    | true => simp [step] at h
    | false =>
      rw [step] at h
      split_ifs at h with hquote hbreak
      · exact .inl ⟨_, (Option.some.inj h).symm, fun u hu => ⟨[], u, by simp, hu, by rw [hquote]; rfl⟩⟩
      · refine .inl ⟨_, (Option.some.inj h).symm, ?_⟩
        rintro _ ⟨k, u, hk, hu, rfl⟩
        exact ⟨c :: k, u, List.forall_mem_cons.mpr ⟨⟨hquote, not_or.mp hbreak⟩, hk⟩, hu, rfl⟩
  | keySep =>
    cases a with
    | true => simp [step] at h
    | false =>
      rw [step] at h
      split_ifs at h with hcolon hspace
      · exact .inl ⟨_, (Option.some.inj h).symm, fun u hu => ⟨[], u, hu, by rw [hcolon]; rfl⟩⟩
      · refine .inl ⟨_, (Option.some.inj h).symm, ?_⟩
        rintro _ ⟨w, u, hu, rfl⟩
        exact ⟨⟨c, hspace⟩ :: w, u, hu, rfl⟩
  | first =>
    cases a with
    | false => simp [step] at h
    | true =>
      rw [step] at h
      split_ifs at h with hspace hclose
      · refine .inl ⟨_, (Option.some.inj h).symm, ?_⟩
        rintro _ (⟨w, rfl⟩ | hu)
        · exact .inl ⟨⟨c, hspace⟩ :: w, rfl⟩
        · exact .inr (hu.space hspace)
      · rw [hclose, show rbracket = closer true from rfl, stepNext_closer] at h
        exact .inr (.inl ⟨hclose, (Option.some.inj h).symm, .inl ⟨[], rfl⟩⟩)
      · rcases stepValue_cases h with ⟨q, hs, hq⟩ | ⟨b, hs, hb⟩
        · exact .inl ⟨q, hs, fun u hu => .inr (hq u hu)⟩
        · exact .inr (.inr ⟨b, hs, fun u v hu hv => .inr (hb u v hu hv)⟩)
  | value =>
    rw [step] at h
    split_ifs at h with hspace
    · exact .inl ⟨_, (Option.some.inj h).symm, fun u hu => hu.space hspace⟩
    · rcases stepValue_cases h with ⟨q, hs, hq⟩ | ⟨b, hs, hb⟩
      · exact .inl ⟨q, hs, hq⟩
      · exact .inr (.inr ⟨b, hs, hb⟩)
  | text =>
    rw [step] at h
    split_ifs at h with hquote hbreak hback
    · exact .inl ⟨_, (Option.some.inj h).symm, fun u hu => ⟨[], u, hu, by rw [hquote]; rfl⟩⟩
    · refine .inl ⟨_, (Option.some.inj h).symm, ?_⟩
      rintro u ⟨pieces, v, hv, hu⟩
      exact ⟨pieces, v, hv, by rw [hback, hu]⟩
    · refine .inl ⟨_, (Option.some.inj h).symm, ?_⟩
      rintro _ ⟨pieces, u, hu, rfl⟩
      exact ⟨.plain c ⟨hquote, hback, not_or.mp hbreak⟩ :: pieces, u, hu, rfl⟩
  | escape =>
    rw [step] at h
    split_ifs at h with hescape
    obtain ⟨d, hd⟩ := Option.isSome_iff_exists.mp hescape
    obtain ⟨e, rfl⟩ := unescape_letter hd
    refine .inl ⟨_, (Option.some.inj h).symm, ?_⟩
    rintro _ ⟨pieces, u, hu, rfl⟩
    exact ⟨.escape e :: pieces, u, hu, rfl⟩
  | bare =>
    rw [step] at h
    split_ifs at h with hword
    · refine .inl ⟨_, (Option.some.inj h).symm, ?_⟩
      rintro _ ⟨w, u, hw, hu, rfl⟩
      exact ⟨c :: w, u, List.forall_mem_cons.mpr ⟨hword, hw⟩, hu, rfl⟩
    · rcases stepNext_cases h with ⟨q, hs, hq⟩ | ⟨hc, hs⟩
      · exact .inl ⟨q, hs, fun u hu => ⟨[], c :: u, by simp, hq u hu, rfl⟩⟩
      · exact .inr (.inl ⟨hc, hs, [], [], by simp, .inl ⟨[], rfl⟩, rfl⟩)
  | next =>
    rcases stepNext_cases h with ⟨q, hs, hq⟩ | ⟨hc, hs⟩
    · exact .inl ⟨q, hs, hq⟩
    · exact .inr (.inl ⟨hc, hs, .inl ⟨[], rfl⟩⟩)
  | done => simp [step] at h

theorem rest_of_run (h : run (p, a :: st) t = some (.done, [])) :
    ∃ u v, Rest p a u ∧ t = u ++ closer a :: v ∧ run (closed st) v = some (.done, []) := by
  induction hn : t.length using Nat.strong_induction_on generalizing p a st t with
  | _ n ih =>
    cases t with
    | nil => simp at h
    | cons c t =>
      rw [run_cons, Option.bind_eq_some_iff] at h
      obtain ⟨s, hs, hrun⟩ := h
      rw [List.length_cons] at hn
      rcases step_cases hs with ⟨q, rfl, hq⟩ | ⟨rfl, rfl, hp⟩ | ⟨b, rfl, hb⟩
      · obtain ⟨u, v, hu, rfl, hv⟩ := ih t.length (by omega) hrun rfl
        exact ⟨c :: u, v, hq u hu, rfl, hv⟩
      · exact ⟨[], t, hp, rfl, hrun⟩
      · obtain ⟨u, x, hu, rfl, hx⟩ := ih t.length (by omega) hrun rfl
        obtain ⟨w, v, hw, rfl, hv⟩ := ih x.length (by simp at hn; omega) hx rfl
        exact ⟨c :: (u ++ closer b :: w), v, hb u w hu hw, by simp, hv⟩

theorem spaces_of_run (h : run (.done, []) t = some (.done, [])) : ∃ w : Ws, t = spaces w := by
  induction t with
  | nil => exact ⟨[], rfl⟩
  | cons c t ih =>
    rw [run_cons, step] at h
    split_ifs at h with hc
    · obtain ⟨w, rfl⟩ := ih h
      exact ⟨⟨c, hc⟩ :: w, rfl⟩
    · simp at h

theorem wellFormed_of_run (h : run (.root, []) t = some (.done, [])) : WellFormed t := by
  induction t with
  | nil => simp at h
  | cons c t ih =>
    rw [run_cons, step] at h
    split_ifs at h with hopen hspace
    · obtain ⟨u, v, hu, rfl, hv⟩ := rest_of_run (p := .firstKey) h
      obtain ⟨after, rfl⟩ := spaces_of_run hv
      rcases hu with ⟨w, rfl⟩ | hu
      · exact ⟨[], after, _, .emptyObject w, by simp [hopen, spaces, closer]⟩
      · exact ⟨[], after, _, .members hu, by simp [hopen, spaces, closer]⟩
    · obtain ⟨before, after, u, hu, rfl⟩ := ih h
      exact ⟨⟨c, hspace⟩ :: before, after, u, hu, rfl⟩
    · simp at h

end Spot

/-- The machine reads the well-formed texts to their end. -/
theorem wellFormed_iff (t : List Byte) : WellFormed t ↔ run (.root, []) t = some (.done, []) :=
  ⟨WellFormed.run, wellFormed_of_run⟩

end BzccScanner
