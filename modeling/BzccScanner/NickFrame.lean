import BzccScanner.NickTableRefinement

/-! What a call on the nick table leaves alone. The entries behind `first` are
a chain after every sequence of calls, also when a deletion has left `last` on
a freed node, and a call edits the entries of its own checksum only. -/

namespace BzccScanner

open CString HeapList

section edits

variable {K V : Type} {k k' : K} {stored : Option V} {l l' : List (K × V)}

/-- An edit of the entries with key `k`, which may leave the value `stored` there. -/
inductive Edit (k : K) (stored : Option V) : List (K × V) → List (K × V) → Prop
  | keep (l : List (K × V)) : Edit k stored l l
  | replace (front back : List (K × V)) {u v : V} (h : stored = some v) :
    Edit k stored (front ++ (k, u) :: back) (front ++ (k, v) :: back)
  | append (l : List (K × V)) {v : V} (h : stored = some v) : Edit k stored l (l ++ [(k, v)])
  | remove (front back : List (K × V)) (u : V) : Edit k stored (front ++ (k, u) :: back) (front ++ back)

theorem lookup_skip [DecidableEq K] (hk : k' ≠ k) (front back : List (K × V)) (v : V) :
    (front ++ (k, v) :: back).lookup k' = (front ++ back).lookup k' := by
  induction front with
  | nil => simp [List.lookup_cons, beq_eq_false_iff_ne.mpr hk]
  | cons c front ih =>
    obtain ⟨key, value⟩ := c
    simp only [List.cons_append, List.lookup_cons, ih]

theorem Edit.lookup [DecidableEq K] (h : Edit k stored l l') (hk : k' ≠ k) : l'.lookup k' = l.lookup k' := by
  cases h with
  | keep => rfl
  | replace front back => simp only [lookup_skip hk]
  | append => simp only [lookup_skip hk, List.append_nil]
  | remove front back u => simp only [lookup_skip hk]

theorem Edit.mem (h : Edit k stored l l') {c : K × V} (hc : c ∈ l') : c ∈ l ∨ c.1 = k ∧ stored = some c.2 := by
  cases h with
  | keep => exact .inl hc
  | replace front back hs =>
    simp only [List.mem_append, List.mem_cons] at hc ⊢
    rcases hc with hc | rfl | hc
    · exact .inl (.inl hc)
    · exact .inr ⟨rfl, hs⟩
    · exact .inl (.inr (.inr hc))
  | append l hs =>
    rcases List.mem_append.mp hc with hc | hc
    · exact .inl hc
    · obtain rfl := List.mem_singleton.mp hc
      exact .inr ⟨rfl, hs⟩
  | remove front back u =>
    simp only [List.mem_append, List.mem_cons] at hc ⊢
    tauto

end edits

/-- A stale `last` points to no entry. -/
structure Table.Sound (t : Table) (cells : List (Addr × TableEntry)) : Prop where
  chain : Chain TableEntry.next t.heap t.first cells none
  last : ∀ a, t.last = some a → a ∈ cells.map Prod.fst → (cells.map Prod.fst).getLast? = some a

theorem sound_empty : Table.empty.Sound [] := ⟨rfl, by simp⟩

theorem getLast?_of_remove {front back : List Addr} {a b : Addr} (hnd : (front ++ a :: back).Nodup)
    (hl : b ∈ front ++ a :: back → (front ++ a :: back).getLast? = some b) (hb : b ∈ front ++ back) :
    (front ++ back).getLast? = some b := by
  have hlast := hl (by simp only [List.mem_append, List.mem_cons] at hb ⊢; tauto)
  cases back with
  | nil =>
    rw [List.getLast?_concat, Option.some.injEq] at hlast
    rw [List.nodup_middle, List.nodup_cons, hlast] at hnd
    exact absurd hb hnd.1
  | cons c back => simpa using hlast

/-- What storing `v` under `k` makes of the entries and of the heap. A node that
is linked through a stale `last` is lost. -/
inductive Table.Stores (t t' : Table) (k : UInt32) (v : List TChar) (alloc : Option (Addr × TableEntry)) :
    List (Addr × TableEntry) → List (Addr × TableEntry) → Prop
  | replaced (front back : List (Addr × TableEntry)) {a : Addr} {e e' : TableEntry} (hkey : e.crc32 = k)
    (hkey' : e'.crc32 = k) (hvalue : wstr e'.value = v) (hfront : ∀ c ∈ front, c.2.crc32 ≠ k)
    (hheap : ∀ x, x ∈ t'.heap ↔ x ∈ t.heap) :
    Stores t t' k v alloc (front ++ (a, e) :: back) (front ++ (a, e') :: back)
  | refused (cells : List (Addr × TableEntry)) (hk : k ∉ (entries cells).map Prod.fst) (halloc : alloc = none)
    (h : t' = t) :
    Stores t t' k v alloc cells cells
  | linked {cells cells' : List (Addr × TableEntry)} {x : Addr × TableEntry}
    (hk : k ∉ (entries cells).map Prod.fst) (halloc : alloc = some x)
    (hentries : entries cells' = entries cells ++ [(k, v)])
    (hcells : cells'.map Prod.fst = cells.map Prod.fst ++ [x.1])
    (hheap : ∀ y, y ∈ t'.heap ↔ y = x.1 ∨ y ∈ t.heap) :
    Stores t t' k v alloc cells cells'
  | lost (cells : List (Addr × TableEntry)) {x : Addr × TableEntry} (hk : k ∉ (entries cells).map Prod.fst)
    (halloc : alloc = some x) (hheap : ∀ y, y ∈ t'.heap ↔ y = x.1 ∨ y ∈ t.heap) :
    Stores t t' k v alloc cells cells

theorem Table.Stores.edit {t t' : Table} {k : UInt32} {v : List TChar} {alloc : Option (Addr × TableEntry)}
    {cells cells' : List (Addr × TableEntry)} (h : t.Stores t' k v alloc cells cells') :
    Edit k (some v) (entries cells) (entries cells') := by
  cases h with
  | replaced front back hkey hkey' hvalue =>
    simpa [entries, hkey, hkey', hvalue] using Edit.replace (k := k) (entries front) (entries back) rfl
  | refused | lost => exact .keep _
  | linked _ _ hentries =>
    rw [hentries]
    exact .append _ rfl

/-- What deleting the first entry with the checksum `k` makes of them. -/
inductive Table.Removes (t t' : Table) (k : UInt32) :
    List (Addr × TableEntry) → List (Addr × TableEntry) → Prop
  | missing (cells : List (Addr × TableEntry)) (hcells : ∀ c ∈ cells, c.2.crc32 ≠ k) (h : t' = t) :
      Removes t t' k cells cells
  | removed (front back : List (Addr × TableEntry)) {a : Addr} {e : TableEntry}
    {cells' : List (Addr × TableEntry)} (hkey : e.crc32 = k) (hfront : ∀ c ∈ front, c.2.crc32 ≠ k)
    (hentries : entries cells' = entries (front ++ back))
    (hcells : cells'.map Prod.fst = (front ++ back).map Prod.fst)
    (hheap : ∀ x, x ∈ t'.heap ↔ x ≠ a ∧ x ∈ t.heap) :
    Removes t t' k (front ++ (a, e) :: back) cells'

theorem Table.Removes.erased {t t' : Table} {k : UInt32} {cells cells' : List (Addr × TableEntry)}
    (h : t.Removes t' k cells cells') : entries cells' = (entries cells).eraseP fun c => c.1 == k := by
  have hother : ∀ front : List (Addr × TableEntry), (∀ c ∈ front, c.2.crc32 ≠ k) →
      ∀ c ∈ entries front, ¬ (c.1 == k) = true := by
    intro front hfront c hc
    obtain ⟨d, hd, rfl⟩ := List.mem_map.mp hc
    simpa using hfront d hd
  cases h with
  | missing _ hcells => exact (List.eraseP_of_forall_not (hother cells hcells)).symm
  | @removed front back a e _ hkey hfront hentries =>
    have hsplit : entries (front ++ (a, e) :: back) =
        entries front ++ (e.crc32, wstr e.value) :: entries back := by
      simp [entries]
    rw [hentries, hsplit, List.eraseP_append_right _ (hother front hfront),
      List.eraseP_cons_of_pos (by exact beq_iff_eq.mpr hkey)]
    simp [entries]

section steps

variable {t t' : Table} {cells front back : List (Addr × TableEntry)} {a b : Addr} {e p : TableEntry} {k : UInt32}
  {reference mapped : List TChar} {alloc : Option (Addr × TableEntry)} {r : Bool}

theorem Table.Sound.htFindCrc32 (h : t.Sound cells) (k : UInt32) :
    t.htFindCrc32 k = .ok ((entries cells).lookup k) := by
  rw [Table.htFindCrc32, Table.searchCrc32_eq h.chain, ← entries_lookup]
  rfl

theorem Table.Sound.htFind (h : t.Sound cells) (reference : List TChar) :
    t.htFind reference = .ok ((entries cells).lookup (calcCRC32 reference)) := h.htFindCrc32 _

theorem notMem_of_locate (hl : locate (fun e => e.crc32 == k) none cells = none) :
    k ∉ (entries cells).map Prod.fst := by
  intro hk
  obtain ⟨c, hc, rfl⟩ := List.mem_map.mp hk
  obtain ⟨d, hd, rfl⟩ := List.mem_map.mp hc
  simpa using locate_eq_none hl d hd

theorem Table.Sound.absent (h : t.Sound cells) (hf : t.htFindCrc32 k = .ok none) :
    k ∉ (entries cells).map Prod.fst := by
  rw [Table.htFindCrc32, Table.searchCrc32_eq h.chain] at hf
  cases hl : locate (fun e => e.crc32 == k) none cells with
  | none => exact notMem_of_locate hl
  | some x => simp [hl, bind, Except.bind, pure, Except.pure] at hf

theorem Table.Sound.update (h : t.Sound (front ++ (a, e) :: back)) (value : Vector TChar htMaxStr) :
    Table.Sound { t with heap := t.heap.insert a { e with value } } (front ++ (a, { e with value }) :: back) := by
  refine ⟨h.chain.write rfl, ?_⟩
  simpa only [List.map_append, List.map_cons] using h.last

/-- Through a stale `last`, the new node is linked to no entry. -/
theorem Table.Sound.link (h : t.Sound cells) (hk : k ∉ (entries cells).map Prod.fst) {raw : TableEntry}
    (ha : t.heap.lookup a = none) {first : Addr} (hfirst : t.first = some first) (hlast : t.last = some b)
    (value : Vector TChar htMaxStr) (hb : (t.heap.insert a ⟨k, value, none⟩).lookup b = some e)
    (ht : t' = ⟨(t.heap.insert a ⟨k, value, none⟩).insert b { e with next := some a }, some first, some a⟩) :
    ∃ cells', t'.Sound cells' ∧ t.Stores t' k (wstr value) (some (a, raw)) cells cells' := by
  subst ht
  have hfresh := h.chain.fresh ha
  have hheap : ∀ x, x ∈ (t.heap.insert a ⟨k, value, none⟩).insert b { e with next := some a } ↔
    x = a ∨ x ∈ t.heap := by
    have hbmem : b = a ∨ b ∈ t.heap := (AList.mem_insert _).mp (AList.lookup_isSome.mp (by rw [hb]; rfl))
    intro x
    rw [AList.mem_insert, AList.mem_insert]
    exact or_iff_right_of_imp fun hx => hx ▸ hbmem
  by_cases hmem : b ∈ cells.map Prod.fst
  · have hend := h.last b hlast hmem
    obtain ⟨front, c, rfl⟩ := (List.eq_nil_or_concat cells).resolve_left (by
      rintro rfl
      simp at hmem)
    obtain ⟨c, u⟩ := c
    obtain rfl : c = b := by simpa using hend
    have hcu := h.chain.mem (c := (c, u)) (by simp)
    have hca : c ≠ a := by
      rintro rfl
      rw [ha] at hcu
      cases hcu
    rw [AList.lookup_insert_ne hca, hcu, Option.some.injEq] at hb
    subst hb
    rw [List.concat_eq_append] at h hk ⊢
    have hchain := h.chain.link (w := { u with next := some a }) ha (v := ⟨k, value, none⟩) rfl rfl
    exact ⟨_, ⟨hfirst ▸ hchain, by simp⟩, .linked hk rfl (by simp [entries]) (by simp) hheap⟩
  · refine ⟨cells, ⟨hfirst ▸ (h.chain.insert hfresh _).insert hmem _, ?_⟩, .lost cells hk rfl hheap⟩
    intro c hc hm
    obtain rfl : a = c := Option.some.inj hc
    exact absurd hm hfresh

theorem Table.Sound.htNew (h : t.Sound cells) (hk : k ∉ (entries cells).map Prod.fst) (hfit : FitsEntry mapped)
    (ha : ∀ x ∈ alloc, t.heap.lookup x.1 = none) (hn : t.htNew k mapped alloc = .ok (r, t')) :
    ∃ cells', t'.Sound cells' ∧ t.Stores t' k mapped alloc cells cells' := by
  cases alloc with
  | none =>
    obtain ⟨-, rfl⟩ := Prod.mk.inj (Except.ok.inj hn)
    exact ⟨cells, h, .refused cells hk rfl rfl⟩
  | some x =>
    obtain ⟨a, raw⟩ := x
    obtain ⟨value, hv, rfl⟩ := htCopyStr_fits hfit raw.value
    simp only [Table.htNew, hv, bind, Except.bind] at hn
    cases hfirst : t.first with
    | none =>
      have hnil : cells = [] := by
        cases cells with
        | nil => rfl
        | cons c cells => exact absurd (hfirst.symm.trans h.chain.1) (by simp)
      subst hnil
      simp only [hfirst, Except.ok.injEq, Prod.mk.injEq] at hn
      obtain ⟨-, rfl⟩ := hn
      exact ⟨[(a, ⟨k, value, none⟩)], ⟨⟨rfl, AList.lookup_insert _, rfl⟩, by simp⟩,
        .linked hk rfl rfl rfl fun x => AList.mem_insert _⟩
    | some first =>
      cases hlast : t.last with
      | none => simp [hfirst, hlast] at hn
      | some b =>
        simp only [hfirst, hlast] at hn
        cases hb : (t.heap.insert a ⟨k, value, none⟩).lookup b with
        | none => simp [hb] at hn
        | some e =>
          simp only [hb, Except.ok.injEq, Prod.mk.injEq] at hn
          exact h.link hk (ha _ rfl) hfirst hlast value hb hn.2.symm

theorem Table.Sound.htSet_stores (h : t.Sound cells) (hfit : FitsEntry mapped)
    (ha : ∀ x ∈ alloc, t.heap.lookup x.1 = none) (hs : t.htSet reference mapped alloc = .ok (r, t')) :
    ∃ cells', t'.Sound cells' ∧ t.Stores t' (calcCRC32 reference) mapped alloc cells cells' := by
  rw [Table.htSet, Table.searchCrc32_eq h.chain] at hs
  cases hl : locate (fun e => e.crc32 == calcCRC32 reference) none cells with
  | none =>
    rw [hl] at hs
    exact h.htNew (notMem_of_locate hl) hfit ha hs
  | some x =>
    obtain ⟨pr, a, e⟩ := x
    obtain ⟨front, back, rfl, hk, hfront, -⟩ := locate_eq_some hl
    obtain ⟨value, hv, rfl⟩ := htCopyStr_fits hfit e.value
    simp only [hl, hv, bind, Except.bind, pure, Except.pure, Except.ok.injEq, Prod.mk.injEq] at hs
    obtain ⟨-, rfl⟩ := hs
    have hamem : a ∈ t.heap := AList.lookup_isSome.mp (by rw [h.chain.mem (c := (a, e)) (by simp)]; rfl)
    refine ⟨_, h.update value, .replaced front back (beq_iff_eq.mp hk) (beq_iff_eq.mp hk) rfl ?_ fun x => ?_⟩
    · exact fun c hc => beq_eq_false_iff_ne.mp (hfront c hc)
    · rw [AList.mem_insert]
      exact or_iff_right_of_imp fun hx => hx ▸ hamem

theorem Table.Sound.htSet (h : t.Sound cells) (hfit : FitsEntry mapped)
    (ha : ∀ x ∈ alloc, t.heap.lookup x.1 = none) (hs : t.htSet reference mapped alloc = .ok (r, t')) :
    ∃ cells', t'.Sound cells' ∧ Edit (calcCRC32 reference) (some mapped) (entries cells) (entries cells') := by
  obtain ⟨cells', hsound, hstores⟩ := h.htSet_stores hfit ha hs
  exact ⟨cells', hsound, hstores.edit⟩

theorem Table.Sound.htDelete_removes (h : t.Sound cells) (hd : t.htDelete reference = .ok (r, t')) :
    ∃ cells', t'.Sound cells' ∧ t.Removes t' (calcCRC32 reference) cells cells' := by
  rw [Table.htDelete, Table.searchCrc32_eq h.chain] at hd
  cases hl : locate (fun e => e.crc32 == calcCRC32 reference) none cells with
  | none =>
    simp only [hl, bind, Except.bind, pure, Except.pure, Except.ok.injEq, Prod.mk.injEq] at hd
    obtain ⟨-, rfl⟩ := hd
    exact ⟨cells, h, .missing cells (fun c hc => beq_eq_false_iff_ne.mp (locate_eq_none hl c hc)) rfl⟩
  | some x =>
    obtain ⟨pr, a, e⟩ := x
    obtain ⟨front, back, rfl, hk, hfront, rfl⟩ := locate_eq_some hl
    have hkey : e.crc32 = calcCRC32 reference := beq_iff_eq.mp hk
    have hothers : ∀ c ∈ front, c.2.crc32 ≠ calcCRC32 reference :=
      fun c hc => beq_eq_false_iff_ne.mp (hfront c hc)
    have hlast : ∀ b, t.last = some b → b ∈ (front ++ back).map Prod.fst →
        ((front ++ back).map Prod.fst).getLast? = some b := by
      intro b hb hm
      have hnd := h.chain.nodup
      have hend := h.last b hb
      simp only [List.map_append, List.map_cons] at hnd hend hm ⊢
      exact getLast?_of_remove hnd hend hm
    cases front using List.reverseRecOn with
    | nil =>
      simp only [hl, bind, Except.bind, pure, Except.pure, if_true] at hd
      split_ifs at hd with ha
      · obtain ⟨-, rfl⟩ := Prod.mk.inj (Except.ok.inj hd)
        have hnd := h.chain.nodup
        have hend := h.last a ha (by simp)
        cases back with
        | nil => exact ⟨[], ⟨rfl, by simp⟩, .removed [] [] hkey hothers rfl rfl fun x => AList.mem_erase⟩
        | cons c back =>
          have hm := List.mem_of_getLast? (show ((c :: back).map Prod.fst).getLast? = some a by simpa using hend)
          exact absurd hm (List.nodup_cons.mp hnd).1
      · obtain ⟨-, rfl⟩ := Prod.mk.inj (Except.ok.inj hd)
        exact ⟨back, ⟨h.chain.tail, hlast⟩, .removed [] back hkey hothers rfl rfl fun x => AList.mem_erase⟩
    | append_singleton front c =>
      obtain ⟨b, p⟩ := c
      have hb : t.heap.lookup b = some p := h.chain.mem (c := (b, p)) (by simp)
      have hbmem : b ∈ t.heap := AList.lookup_isSome.mp (by rw [hb]; rfl)
      simp only [hl, List.append_eq_nil_iff, List.cons_ne_self, and_false, if_false, List.getLast?_concat,
        Option.map_some, bind, Except.bind, hb, pure, Except.pure] at hd
      obtain ⟨-, rfl⟩ := Prod.mk.inj (Except.ok.inj hd)
      have hheap : ∀ x, x ∈ (t.heap.insert b { p with next := e.next }).erase a ↔ x ≠ a ∧ x ∈ t.heap := by
        intro x
        rw [AList.mem_erase, AList.mem_insert]
        exact and_congr_right' (or_iff_right_of_imp fun hx => hx ▸ hbmem)
      have hchain := h.chain
      rw [List.append_assoc, List.singleton_append] at hchain
      refine ⟨front ++ (b, { p with next := e.next }) :: back, ⟨hchain.unlink rfl, ?_⟩,
        .removed _ back hkey hothers ?_ ?_ hheap⟩
      · simpa using hlast
      · simp [entries]
      · simp

theorem Table.Sound.htDelete_erased (h : t.Sound cells) (hd : t.htDelete reference = .ok (r, t')) :
    ∃ cells', t'.Sound cells' ∧ entries cells' = (entries cells).eraseP fun c => c.1 == calcCRC32 reference := by
  obtain ⟨cells', hsound, hremoves⟩ := h.htDelete_removes hd
  exact ⟨cells', hsound, hremoves.erased⟩

theorem Table.Sound.htDelete (h : t.Sound cells) (hd : t.htDelete reference = .ok (r, t')) :
    ∃ cells', t'.Sound cells' ∧ Edit (calcCRC32 reference) none (entries cells) (entries cells') := by
  obtain ⟨cells', hsound, herase⟩ := h.htDelete_erased hd
  refine ⟨cells', hsound, ?_⟩
  rcases List.exists_or_eq_self_of_eraseP (fun c => c.1 == calcCRC32 reference) (entries cells) with
    hself | ⟨⟨k, u⟩, front, back, -, hk, hcells, hrest⟩
  · rw [herase, hself]
    exact .keep _
  · obtain rfl := beq_iff_eq.mp hk
    rw [herase, hrest, hcells]
    exact .remove front back u

end steps

def TableOp.checksum : TableOp → UInt32
  | .find reference | .set reference _ _ _ | .delete reference => calcCRC32 reference
  | .new crc32 _ _ _ => crc32

def TableOp.mapped : TableOp → Option (List TChar)
  | .set _ mapped _ _ | .new _ mapped _ _ => some mapped
  | .find _ | .delete _ => none

theorem map_eq_ok {α β : Type} {f : α → β} {x : Except TableFault α} {y : β} (h : x.map f = .ok y) :
    ∃ z, x = .ok z ∧ f z = y := by
  cases x with
  | error e => cases h
  | ok z => exact ⟨z, rfl, Except.ok.inj h⟩

theorem Table.Sound.step {t t' : Table} {cells : List (Addr × TableEntry)} {op : TableOp} {r : TableResult}
    (h : t.Sound cells) (hok : op.Allowed t) (hs : t.step op = .ok (r, t')) :
    ∃ cells', t'.Sound cells' ∧ Edit op.checksum op.mapped (entries cells) (entries cells') := by
  cases op with
  | find reference =>
    obtain ⟨z, -, hr⟩ := map_eq_ok hs
    obtain ⟨-, rfl⟩ := Prod.mk.inj hr
    exact ⟨cells, h, .keep _⟩
  | set reference mapped a raw =>
    obtain ⟨⟨ok, u⟩, hu, hr⟩ := map_eq_ok hs
    obtain ⟨-, rfl⟩ := Prod.mk.inj hr
    exact h.htSet hok.1 (by simpa using hok.2) hu
  | delete reference =>
    obtain ⟨⟨ok, u⟩, hu, hr⟩ := map_eq_ok hs
    obtain ⟨-, rfl⟩ := Prod.mk.inj hr
    exact h.htDelete hu
  | new crc32 mapped a raw =>
    obtain ⟨⟨ok, u⟩, hu, hr⟩ := map_eq_ok hs
    obtain ⟨-, rfl⟩ := Prod.mk.inj hr
    obtain ⟨cells', hsound, hstores⟩ := h.htNew (h.absent hok.2.2) hok.1 (by simpa using hok.2.1) hu
    exact ⟨cells', hsound, hstores.edit⟩

/-- A table after calls that all returned, the last one first. -/
inductive Table.Reached : List TableOp → Table → Prop
  | empty : Reached [] Table.empty
  | call {ops : List TableOp} {t t' : Table} {op : TableOp} {r : TableResult} (h : Reached ops t)
    (hok : op.Allowed t) (hs : t.step op = .ok (r, t')) : Reached (op :: ops) t'

theorem Table.Reached.sound {ops : List TableOp} {t : Table} (h : Table.Reached ops t) :
    ∃ cells, t.Sound cells ∧ ∀ c ∈ entries cells, ∃ op ∈ ops, op.checksum = c.1 ∧ op.mapped = some c.2 := by
  induction h with
  | empty => exact ⟨[], sound_empty, by simp [entries]⟩
  | @call ops t t' op r h hok hs ih =>
    obtain ⟨cells, hsound, hset⟩ := ih
    obtain ⟨cells', hsound', hedit⟩ := hsound.step hok hs
    refine ⟨cells', hsound', ?_⟩
    intro c hc
    rcases hedit.mem hc with hc | ⟨hk, hv⟩
    · obtain ⟨o, ho, hco⟩ := hset c hc
      exact ⟨o, List.mem_cons_of_mem _ ho, hco⟩
    · exact ⟨op, List.mem_cons_self, hk.symm, hv⟩

/-- `CalcCRC32` reads the low octets only, so that two nicks may share an entry. -/
theorem lowOctets_shared : Table.empty.htFind [0x161] = .ok none ∧
    ∃ t, Table.Reached [.set [0x61] [0x78] 1 staleNode] t ∧
      Table.empty.step (.set [0x61] [0x78] 1 staleNode) = .ok (.done true, t) ∧
      t.htFind [0x161] = .ok (some [0x78]) := by
  have hsame : calcCRC32 [0x161] = calcCRC32 [0x61] := by decide +kernel
  have hok : (TableOp.set [0x61] [0x78] 1 staleNode).Allowed Table.empty := ⟨by decide, rfl⟩
  obtain ⟨cells, hempty⟩ := represents_empty
  obtain ⟨r, t, hs, rfl, cells', ht⟩ := hempty.set_step hok
  refine ⟨?_, t, .call .empty hok hs, hs, ?_⟩
  · rw [hempty.htFind, Finmap.lookup_empty]
  · rw [ht.htFind, hsame, NickMap.step, Finmap.lookup_insert]

theorem nicks_apart {ops : List TableOp} {t : Table} (h : Table.Reached ops t) {a b : List TChar}
    (hab : calcCRC32 a ≠ calcCRC32 b) :
    (∃ found, t.htFind b = .ok found) ∧
    (∀ v alloc r t', FitsEntry v → (∀ x ∈ alloc, t.heap.lookup x.1 = none) → t.htSet a v alloc = .ok (r, t') →
      t'.htFind b = t.htFind b) ∧
    (∀ r t', t.htDelete a = .ok (r, t') → t'.htFind b = t.htFind b) ∧
    ∀ s, t.htFind b = .ok (some s) → ∃ op ∈ ops, op.checksum = calcCRC32 b ∧ op.mapped = some s := by
  obtain ⟨cells, hsound, hset⟩ := h.sound
  refine ⟨⟨_, hsound.htFind b⟩, ?_, ?_, ?_⟩
  · intro v alloc r t' hfit ha hs
    obtain ⟨cells', hsound', hedit⟩ := hsound.htSet hfit ha hs
    rw [hsound'.htFind, hsound.htFind, hedit.lookup hab.symm]
  · intro r t' hd
    obtain ⟨cells', hsound', hedit⟩ := hsound.htDelete hd
    rw [hsound'.htFind, hsound.htFind, hedit.lookup hab.symm]
  · intro s hs
    rw [hsound.htFind, Except.ok.injEq] at hs
    obtain ⟨front, back, hl, -⟩ := List.lookup_eq_some_iff.mp hs
    exact hset (calcCRC32 b, s) (by simp [hl])

/-- Two nicks, the first of which is deleted. -/
theorem nicks_apart_deleted : ∃ (ops : List TableOp) (t t' : Table), Table.Reached ops t ∧
    t.htDelete [0x61] = .ok (true, t') ∧ t'.htFind [0x61] = .ok none ∧ t'.htFind [0x62] = .ok (some [0x79]) := by
  have hab : calcCRC32 [0x61] ≠ calcCRC32 [0x62] := by decide +kernel
  have hok : (TableOp.set [0x61] [0x78] 1 staleNode).Allowed Table.empty := ⟨by decide, rfl⟩
  obtain ⟨cells, hempty⟩ := represents_empty
  obtain ⟨r, t, hs, -, cells₁, ht⟩ := hempty.set_step hok
  have hnone : t.htFind [0x62] = .ok none := by
    rw [ht.htFind, NickMap.step, Finmap.lookup_insert_of_ne _ hab.symm, Finmap.lookup_empty]
  have hok' : (TableOp.new (calcCRC32 [0x62]) [0x79] 2 staleNode).Allowed t := by
    refine ⟨by decide, ?_, hnone⟩
    cases hs
    rfl
  obtain ⟨r', u, hs', -, cells₂, hu⟩ := ht.new_step hok'
  have hlast : ¬ (TableOp.delete [0x61]).HitsTail u := by
    rintro ⟨-, a, e, hlast, he, hk⟩
    refine hab (hk.symm.trans ?_)
    cases hs
    cases hs'
    cases hlast
    cases he
    rfl
  obtain ⟨r'', v, hd, hr, cells₃, hv⟩ := hu.delete_step hlast
  obtain ⟨⟨ok, v⟩, hdelete, he⟩ := map_eq_ok hd
  obtain ⟨rfl, rfl⟩ := Prod.mk.inj he
  have hreached : Table.Reached [.new (calcCRC32 [0x62]) [0x79] 2 staleNode, .set [0x61] [0x78] 1 staleNode] u :=
    .call (.call .empty hok hs) hok' hs'
  have h := nicks_apart hreached hab
  refine ⟨_, u, v, hreached, ?_, ?_, ?_⟩
  · rw [hdelete]
    simpa [NickMap.step, Finmap.lookup_insert_of_ne, hab] using hr
  · rw [hv.htFind]
    exact congrArg Except.ok (Finmap.lookup_erase _ _)
  · rw [h.2.2.1 ok v hdelete, hu.htFind]
    exact congrArg Except.ok (Finmap.lookup_insert _)

end BzccScanner
