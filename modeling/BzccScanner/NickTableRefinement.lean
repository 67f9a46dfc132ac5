import BzccScanner.NickTable

/-! The nick table refines a finite map as long as no deletion hits the last
node of a longer chain. Such a deletion leaves `last` on the freed node. -/

namespace BzccScanner

open CString HeapList Refinement

theorem htCopyStr_fits {s : List TChar} (h : FitsEntry s) (value : Vector TChar htMaxStr) :
    ∃ v, htCopyStr value s = .ok v ∧ wstr v = s := by
  obtain ⟨hz, hlen⟩ := h
  have hmin : min s.length htMaxStr = s.length := Nat.min_eq_left (Nat.le_of_lt hlen)
  have hsplit : ∀ w : Vector TChar htMaxStr, (∀ j (hj : j < htMaxStr), j < s.length → w[j] = s.getD j 0) →
      wstr (w.set s.length 0) = s := by
    intro w hw
    have hl : (w.set s.length 0).toList = s ++ 0 :: w.toList.drop (s.length + 1) := by
      apply List.ext_getElem
      · simp; omega
      · intro i h₁ h₂
        rw [Vector.getElem_toList]
        rcases Nat.lt_trichotomy i s.length with hi | rfl | hi
        · simp [List.getElem_append_left hi, Nat.ne_of_gt hi, hw i (by omega) hi, hi]
        · simp
        · simp [List.getElem_append_right (Nat.le_of_lt hi), Nat.ne_of_lt hi, List.getElem_cons,
            Nat.sub_ne_zero_of_lt hi, show s.length + 1 + (i - s.length - 1) = i by omega]
    rw [wstr, hl, List.takeWhile_append_of_pos]
    · simp
    · intro c hc
      simpa using fun he : c = 0 => hz (he ▸ hc)
  simp only [htCopyStr, hmin, dif_pos hlen]
  refine ⟨_, rfl, hsplit _ ?_⟩
  intro j hj hjs
  simp [hjs]

def entries (cells : List (Addr × TableEntry)) : List (UInt32 × List TChar) :=
  cells.map fun c => (c.2.crc32, wstr c.2.value)

structure Table.Holds (t : Table) (m : NickMap) (cells : List (Addr × TableEntry)) : Prop where
  chain : Chain TableEntry.next t.heap t.first cells none
  last : t.last = cells.getLast?.map Prod.fst
  nodup : ((entries cells).map Prod.fst).Nodup
  lookup : ∀ k, m.lookup k = (entries cells).lookup k

def Table.Represents (t : Table) (m : NickMap) : Prop := ∃ cells, t.Holds m cells

theorem Table.Represents.linked {t : Table} {m : NickMap} (h : t.Represents m) : t.Linked := by
  obtain ⟨cells, hc⟩ := h
  exact ⟨cells, hc.chain, hc.last⟩

theorem represents_empty : Table.empty.Represents ∅ :=
  ⟨[], rfl, rfl, List.nodup_nil, fun k => Finmap.lookup_empty k⟩

section lookups

variable {K V : Type} [DecidableEq K] {front back : List (K × V)} {k k' : K} {v : V}

theorem lookup_middle (hf : k ∉ front.map Prod.fst) :
    (front ++ (k, v) :: back).lookup k' = if k' = k then some v else (front ++ back).lookup k' := by
  induction front with
  | nil =>
    by_cases h : k' = k
    · simp [h]
    · simp [h, List.lookup_cons, beq_eq_false_iff_ne.mpr h]
  | cons c front ih =>
    obtain ⟨key, value⟩ := c
    rw [List.map_cons, List.mem_cons, not_or] at hf
    simp only [List.cons_append, List.lookup_cons, ih hf.2]
    by_cases h : k' = key
    · have hk : key ≠ k := fun he => hf.1 he.symm
      simp [h, hk]
    · simp [beq_eq_false_iff_ne.mpr h]

theorem lookup_eq_none {l : List (K × V)} (h : k ∉ l.map Prod.fst) : l.lookup k = none := by
  rw [List.lookup_eq_none_iff]
  intro c hc
  simpa using fun he : k = c.1 => h (he ▸ List.mem_map_of_mem hc)

end lookups

section steps

variable {t : Table} {m : NickMap} {cells front back : List (Addr × TableEntry)} {a b : Addr}
  {e p : TableEntry} {k : UInt32} {prev : Option Addr}

theorem Table.searchCrc32_eq (h : Chain TableEntry.next t.heap t.first cells none) (k : UInt32) :
    t.searchCrc32 k = .ok (locate (fun e => e.crc32 == k) none cells) := by
  rw [Table.searchCrc32, h.search _ h.length_le]

theorem entries_lookup (cells : List (Addr × TableEntry)) (k : UInt32) :
    (locate (fun e => e.crc32 == k) none cells).map (fun x => wstr x.2.2.value) = (entries cells).lookup k := by
  cases hl : locate (fun e => e.crc32 == k) none cells with
  | none =>
    symm
    apply lookup_eq_none
    intro hm
    obtain ⟨c, hc, rfl⟩ := List.mem_map.mp hm
    obtain ⟨d, hd, rfl⟩ := List.mem_map.mp hc
    simpa using locate_eq_none hl d hd
  | some x =>
    obtain ⟨pr, a, e⟩ := x
    obtain ⟨front, back, rfl, hs, hf, -⟩ := locate_eq_some hl
    obtain rfl : e.crc32 = k := by simpa using hs
    rw [entries, List.map_append, List.map_cons, lookup_middle]
    · simp
    · intro hm
      obtain ⟨c, hc, he⟩ := List.mem_map.mp hm
      obtain ⟨d, hd, rfl⟩ := List.mem_map.mp hc
      simpa using (hf d hd).symm.trans (beq_iff_eq.mpr he)

theorem Table.Holds.searchCrc32 (h : t.Holds m cells) (k : UInt32) :
    t.searchCrc32 k = .ok (locate (fun e => e.crc32 == k) none cells) := Table.searchCrc32_eq h.chain k

theorem Table.Holds.lookup_located (h : t.Holds m cells) (k : UInt32) :
    (locate (fun e => e.crc32 == k) none cells).map (fun x => wstr x.2.2.value) = m.lookup k :=
  (entries_lookup cells k).trans (h.lookup k).symm

theorem Table.Holds.htFind (h : t.Holds m cells) (reference : List TChar) :
    t.htFind reference = .ok (m.lookup (calcCRC32 reference)) := by
  rw [Table.htFind, Table.htFindCrc32, h.searchCrc32, ← h.lookup_located]
  rfl

theorem Table.Holds.at_cell (h : t.Holds m (front ++ (a, e) :: back)) :
    e.crc32 ∉ (entries front).map Prod.fst ∧ e.crc32 ∉ (entries (front ++ back)).map Prod.fst ∧
    ∀ k, m.lookup k = if k = e.crc32 then some (wstr e.value) else (entries (front ++ back)).lookup k := by
  have hnd := h.nodup
  simp only [entries, List.map_append, List.map_cons, List.nodup_middle, List.nodup_cons, List.mem_append,
    not_or] at hnd
  refine ⟨hnd.1.1, ?_, ?_⟩
  · simpa only [entries, List.map_append, List.mem_append, not_or] using hnd.1
  · intro k
    rw [h.lookup]
    simp only [entries, List.map_append, List.map_cons]
    exact lookup_middle hnd.1.1

theorem Table.Holds.update (h : t.Holds m (front ++ (a, e) :: back)) (hk : e.crc32 = k)
    (value : Vector TChar htMaxStr) :
    Table.Represents { t with heap := t.heap.insert a { e with value } } (m.insert k (wstr value)) := by
  subst hk
  obtain ⟨hf, -, hl⟩ := h.at_cell
  refine ⟨front ++ (a, { e with value }) :: back, h.chain.write rfl, ?_, ?_, ?_⟩
  · simpa only [← List.getLast?_map, List.map_append, List.map_cons] using h.last
  · simpa [entries] using h.nodup
  · intro k
    have hm : (entries (front ++ (a, { e with value }) :: back)).lookup k =
        if k = e.crc32 then some (wstr value) else (entries (front ++ back)).lookup k := by
      simp only [entries, List.map_append, List.map_cons]
      exact lookup_middle hf
    by_cases hk : k = e.crc32
    · rw [hm, if_pos hk, hk, Finmap.lookup_insert]
    · rw [hm, if_neg hk, Finmap.lookup_insert_of_ne _ hk, hl, if_neg hk]

theorem Table.Holds.htNew (h : t.Holds m cells) {mapped : List TChar} (hfit : FitsEntry mapped)
    (ha : t.heap.lookup a = none) (hk : m.lookup k = none) (raw : TableEntry) :
    ∃ t', t.htNew k mapped (some (a, raw)) = .ok (true, t') ∧ t'.Represents (m.insert k mapped) := by
  obtain ⟨value, hv, rfl⟩ := htCopyStr_fits hfit raw.value
  have hfresh : k ∉ (entries cells).map Prod.fst := by
    intro hm
    obtain ⟨c, hc, rfl⟩ := List.mem_map.mp hm
    rw [h.lookup, List.lookup_eq_none_iff] at hk
    simpa using hk c hc
  have hmap : ∀ k', (m.insert k (wstr value)).lookup k' =
      (entries cells ++ [(k, wstr value)]).lookup k' := by
    intro k'
    rw [lookup_middle hfresh, List.append_nil, ← h.lookup]
    by_cases he : k' = k
    · rw [if_pos he, he, Finmap.lookup_insert]
    · rw [if_neg he, Finmap.lookup_insert_of_ne _ he]
  have hnodup : ((entries cells ++ [(k, wstr value)]).map Prod.fst).Nodup := by
    rw [List.map_append, List.map_singleton, List.nodup_append]
    refine ⟨h.nodup, List.nodup_singleton _, ?_⟩
    intro x hx y hy
    obtain rfl := List.mem_singleton.mp hy
    exact fun he => hfresh (he ▸ hx)
  rw [Table.htNew, hv]
  cases cells using List.reverseRecOn with
  | nil =>
    have hfirst : t.first = none := h.chain
    refine ⟨⟨t.heap.insert a ⟨k, value, none⟩, some a, some a⟩, ?_, [(a, ⟨k, value, none⟩)], ?_, rfl,
      hnodup, hmap⟩
    · simp [hfirst, bind, Except.bind]
    · exact ⟨rfl, AList.lookup_insert _, rfl⟩
  | append_singleton front c =>
    obtain ⟨b, e⟩ := c
    have hlast : t.last = some b := by simpa using h.last
    have hb : t.heap.lookup b = some e := h.chain.mem (c := (b, e)) (by simp)
    have hba : b ≠ a := by
      rintro rfl
      rw [ha] at hb
      cases hb
    obtain ⟨first, hfirst⟩ : ∃ first, t.first = some first := by
      cases front with
      | nil => exact ⟨_, h.chain.1⟩
      | cons d front => exact ⟨_, h.chain.1⟩
    have hchain := h.chain.link (w := { e with next := some a }) ha (v := ⟨k, value, none⟩) rfl rfl
    refine ⟨⟨(t.heap.insert a ⟨k, value, none⟩).insert b { e with next := some a }, some first, some a⟩, ?_,
      front ++ [(b, { e with next := some a }), (a, ⟨k, value, none⟩)], hfirst ▸ hchain, by simp, ?_, ?_⟩
    · simp [hfirst, hlast, bind, Except.bind, AList.lookup_insert_ne hba, hb]
    · simpa [entries] using hnodup
    · simpa [entries] using hmap

theorem Table.Holds.erase_cell (h : t.Holds m (front ++ (a, e) :: back)) (hk : e.crc32 = k) :
    ((entries (front ++ back)).map Prod.fst).Nodup ∧
    ∀ k', (m.erase k).lookup k' = (entries (front ++ back)).lookup k' := by
  subst hk
  obtain ⟨-, hfb, hl⟩ := h.at_cell
  constructor
  · have hnd := h.nodup
    simp only [entries, List.map_append, List.map_cons, List.nodup_middle, List.nodup_cons] at hnd
    simpa only [entries, List.map_append] using hnd.2
  · intro k
    by_cases hk : k = e.crc32
    · rw [hk, Finmap.lookup_erase, lookup_eq_none hfb]
    · rw [Finmap.lookup_erase_ne hk, hl, if_neg hk]

theorem Table.Holds.last_ne (h : t.Holds m (front ++ (a, e) :: back)) (hb : back ≠ []) : t.last ≠ some a := by
  obtain ⟨back, c, rfl⟩ := (List.eq_nil_or_concat back).resolve_left hb
  have hnd := h.chain.nodup
  simp only [List.map_append, List.map_cons, List.nodup_middle, List.nodup_cons] at hnd
  have hl : t.last = some c.1 := by
    rw [h.last, List.concat_eq_append, ← List.cons_append, ← List.append_assoc, List.getLast?_concat]
    rfl
  rw [hl]
  intro he
  exact hnd.1 (by simp [← Option.some.inj he])

theorem Table.Holds.hitsTail (h : t.Holds m (front ++ (b, p) :: [(a, e)])) {reference : List TChar}
    (hk : e.crc32 = calcCRC32 reference) : (TableOp.delete reference).HitsTail t := by
  have hl : t.last = some a := by simpa using h.last
  have hnd := h.chain.nodup
  refine ⟨?_, a, e, hl, h.chain.mem (c := (a, e)) (by simp), hk⟩
  rw [hl]
  intro he
  cases front with
  | nil =>
    have : a = b := Option.some.inj (he.trans h.chain.1)
    simp [this] at hnd
  | cons c front =>
    have : a = c.1 := Option.some.inj (he.trans h.chain.1)
    simp [this] at hnd

def Table.Simulated (t : Table) (m : NickMap) (op : TableOp) : Prop :=
  ∃ r t', t.step op = .ok (r, t') ∧ r = (NickMap.step m op).1 ∧ t'.Represents (NickMap.step m op).2

theorem Table.Holds.find_step (h : t.Holds m cells) (reference : List TChar) : t.Simulated m (.find reference) :=
  ⟨_, t, by rw [Table.step, h.htFind]; rfl, rfl, cells, h⟩

theorem Table.Holds.new_step (h : t.Holds m cells) {mapped : List TChar} {raw : TableEntry}
    (hok : (TableOp.new k mapped a raw).Allowed t) : t.Simulated m (.new k mapped a raw) := by
  obtain ⟨hfit, ha, hk⟩ := hok
  have hnone : m.lookup k = none := by
    rw [Table.htFindCrc32, h.searchCrc32] at hk
    rw [← h.lookup_located]
    exact Except.ok.inj hk
  obtain ⟨t', ht, hr⟩ := h.htNew hfit ha hnone raw
  exact ⟨_, t', by rw [Table.step, ht]; rfl, rfl, hr⟩

theorem Table.Holds.set_step (h : t.Holds m cells) {reference mapped : List TChar} {raw : TableEntry}
    (hok : (TableOp.set reference mapped a raw).Allowed t) : t.Simulated m (.set reference mapped a raw) := by
  obtain ⟨hfit, ha⟩ := hok
  have hloc := h.lookup_located (calcCRC32 reference)
  have hsearch := h.searchCrc32 (calcCRC32 reference)
  cases hl : locate (fun e => e.crc32 == calcCRC32 reference) none cells with
  | none =>
    rw [hl] at hloc hsearch
    obtain ⟨t', ht, hr⟩ := h.htNew hfit ha hloc.symm raw
    refine ⟨.done true, t', ?_, rfl, hr⟩
    rw [Table.step, Table.htSet, hsearch]
    exact congrArg (Except.map _) ht
  | some x =>
    obtain ⟨pr, a, e⟩ := x
    obtain ⟨front, back, rfl, hs, -, -⟩ := locate_eq_some hl
    obtain ⟨value, hv, rfl⟩ := htCopyStr_fits hfit e.value
    rw [hl] at hsearch
    refine ⟨.done true, _, ?_, rfl, h.update (beq_iff_eq.mp hs) value⟩
    rw [Table.step, Table.htSet, hsearch]
    show Except.map _ (htCopyStr e.value (wstr value) >>= _) = _
    rw [hv]
    rfl

/-- The four places of the deleted entry: alone, first, behind another one, and last. -/
theorem Table.Holds.delete_step (h : t.Holds m cells) {reference : List TChar}
    (hok : ¬ (TableOp.delete reference).HitsTail t) : t.Simulated m (.delete reference) := by
  have hloc := h.lookup_located (calcCRC32 reference)
  have hsearch := h.searchCrc32 (calcCRC32 reference)
  cases hl : locate (fun e => e.crc32 == calcCRC32 reference) none cells with
  | none =>
    rw [hl] at hloc hsearch
    refine ⟨.done false, t, ?_, ?_, cells, h.chain, h.last, h.nodup, ?_⟩
    · rw [Table.step, Table.htDelete, hsearch]
      rfl
    · rw [NickMap.step, ← hloc]
      rfl
    · intro k
      rw [NickMap.step, ← h.lookup]
      by_cases hk : k = calcCRC32 reference
      · rw [hk, Finmap.lookup_erase, ← hloc]
        rfl
      · rw [Finmap.lookup_erase_ne hk]
  | some x =>
    obtain ⟨pr, a, e⟩ := x
    rw [hl] at hloc hsearch
    obtain ⟨front, back, rfl, hs, -, rfl⟩ := locate_eq_some hl
    have hcrc : e.crc32 = calcCRC32 reference := beq_iff_eq.mp hs
    have hfound : TableResult.done true = (NickMap.step m (.delete reference)).1 := by
      rw [NickMap.step, ← hloc]
      rfl
    obtain ⟨hnodup, hlookup⟩ := h.erase_cell hcrc
    cases front using List.reverseRecOn with
    | nil =>
      cases back with
      | nil =>
        have hlast : t.last = some a := h.last
        refine ⟨_, ⟨t.heap.erase a, none, none⟩, ?_, hfound, [], rfl, rfl, hnodup, hlookup⟩
        simp [Table.step, Table.htDelete, hsearch, hlast, bind, Except.bind, Except.map, pure, Except.pure]
      | cons d back =>
        have hlast : t.last ≠ some a :=
          Table.Holds.last_ne (show t.Holds m ([] ++ (a, e) :: d :: back) from h) (by simp)
        refine ⟨_, { t with heap := t.heap.erase a, first := e.next }, ?_, hfound, d :: back, h.chain.tail,
          by simpa using h.last, hnodup, hlookup⟩
        simp [Table.step, Table.htDelete, hsearch, hlast, bind, Except.bind, Except.map, pure, Except.pure]
    | append_singleton front c =>
      obtain ⟨b, p⟩ := c
      have hb : t.heap.lookup b = some p := h.chain.mem (c := (b, p)) (by simp)
      rw [List.append_assoc, List.singleton_append] at h
      obtain ⟨d, back, rfl⟩ : ∃ d ds, back = d :: ds := by
        cases back with
        | nil => exact absurd (h.hitsTail hcrc) hok
        | cons d back => exact ⟨d, back, rfl⟩
      have hchain := h.chain.unlink (w := { p with next := e.next }) rfl
      refine ⟨_, { t with heap := (t.heap.insert b { p with next := e.next }).erase a }, ?_, hfound,
        front ++ (b, { p with next := e.next }) :: d :: back, hchain, ?_, ?_, ?_⟩
      · simp [Table.step, Table.htDelete, hsearch, hb, bind, Except.bind, Except.map, pure, Except.pure]
      · simpa using h.last
      · simpa [entries] using hnodup
      · simpa [entries, NickMap.step] using hlookup

theorem Table.Represents.step (h : t.Represents m) {op : TableOp} (hok : op.Allowed t) (htail : ¬ op.HitsTail t) :
    t.Simulated m op := by
  obtain ⟨cells, hc⟩ := h
  cases op with
  | find reference => exact hc.find_step reference
  | set reference mapped a raw => exact hc.set_step hok
  | delete reference => exact hc.delete_step htail
  | new crc32 mapped a raw => exact hc.new_step hok

theorem Table.Holds.of_hitsTail (h : t.Holds m cells) {reference : List TChar}
    (ht : (TableOp.delete reference).HitsTail t) :
    ∃ front b p a e, cells = front ++ (b, p) :: [(a, e)] ∧ e.crc32 = calcCRC32 reference := by
  obtain ⟨hne, a, e, hl, he, hk⟩ := ht
  obtain ⟨back, c, rfl⟩ := (List.eq_nil_or_concat cells).resolve_left (by
    rintro rfl
    exact hne (h.last.trans h.chain.symm))
  rw [List.concat_eq_append] at h ⊢
  have hc : c = (a, e) := by
    have ha : c.1 = a := by
      have := h.last
      rw [List.getLast?_concat, hl] at this
      exact (Option.some.inj this).symm
    have hm : t.heap.lookup c.1 = some c.2 := h.chain.mem (by simp)
    rw [ha, he] at hm
    exact Prod.ext ha (Option.some.inj hm).symm
  obtain ⟨front, d, rfl⟩ := (List.eq_nil_or_concat back).resolve_left (by
    rintro rfl
    exact hne (h.last.trans h.chain.1.symm))
  exact ⟨front, d.1, d.2, a, e, by simp [hc], hk⟩

/-- A deletion of the last entry, with another one in front of it, frees the node that `last` stays on. -/
theorem Table.Holds.delete_tail (h : t.Holds m (front ++ (b, p) :: [(a, e)])) {reference : List TChar}
    (hk : e.crc32 = calcCRC32 reference) :
    ∃ t', t.step (.delete reference) = .ok (.done true, t') ∧ t'.heap.lookup a = none ∧ t'.last = some a ∧
      Chain TableEntry.next t'.heap t'.first (front ++ [(b, { p with next := e.next })]) none := by
  have hb : t.heap.lookup b = some p := h.chain.mem (c := (b, p)) (by simp)
  have hl : t.last = some a := by simpa using h.last
  have hloc : locate (fun e => e.crc32 == calcCRC32 reference) none (front ++ (b, p) :: [(a, e)]) =
      some (some b, a, e) := by
    have hsplit : front ++ (b, p) :: [(a, e)] = (front ++ [(b, p)]) ++ (a, e) :: [] := by simp
    rw [hsplit] at h ⊢
    rw [locate_middle, if_neg (by simp), List.getLast?_concat]
    · rfl
    · intro c hc
      rw [beq_eq_false_iff_ne, ← hk]
      intro he
      exact h.at_cell.1 (List.mem_map.mpr ⟨_, List.mem_map_of_mem hc, he⟩)
    · exact beq_iff_eq.mpr hk
  refine ⟨{ t with heap := (t.heap.insert b { p with next := e.next }).erase a }, ?_, AList.lookup_erase _ _, hl,
    h.chain.unlink rfl⟩
  rw [Table.step, Table.htDelete, h.searchCrc32, hloc]
  simp [hb, bind, Except.bind, Except.map, pure, Except.pure]

theorem Table.Represents.not_linked (h : t.Represents m) {op : TableOp} (htail : op.HitsTail t) :
    ∀ r t', t.step op = .ok (r, t') → ¬ t'.Linked := by
  obtain ⟨cells, hc⟩ := h
  intro r t' hs ⟨cells', hchain, hlast⟩
  cases op with
  | find | set | new => exact htail
  | delete reference =>
    obtain ⟨front, b, p, a, e, rfl, hk⟩ := hc.of_hitsTail htail
    obtain ⟨t'', hs', ha, hl, hchain'⟩ := hc.delete_tail hk
    obtain ⟨-, rfl⟩ := Prod.mk.inj (Except.ok.inj (hs'.symm.trans hs))
    rw [hchain.unique hchain', List.getLast?_concat, hl] at hlast
    have hab : a = b := Option.some.inj hlast
    have hm := hchain'.mem (c := (b, { p with next := e.next })) (by simp)
    rw [← hab, ha] at hm
    cases hm

end steps

theorem nickTable_follows_iff {ops : List TableOp}
    (h : Along Table.step (fun t op => op.Allowed t) Table.empty ops) :
    Follows Table.step NickMap.step Table.Linked Table.empty ∅ ops ↔
      Along Table.step (fun t op => ¬ op.HitsTail t) Table.empty ops :=
  follows_iff (fun _ _ hr => hr.linked) (fun _ _ _ hr hok htail => hr.step hok htail)
    (fun _ _ _ hr _ htail => hr.not_linked (not_not.mp htail)) represents_empty h

def staleNode : TableEntry := ⟨0, Vector.replicate htMaxStr 0, none⟩

/-- Three entries, the second of which is deleted. -/
def deletedMiddle : List TableOp :=
  [.new 1 [97] 1 staleNode, .set [] [98] 2 staleNode, .new 2 [99] 3 staleNode, .delete [], .find []]

theorem nickTable_follows_iff_deletedMiddle :
    Follows Table.step NickMap.step Table.Linked Table.empty ∅ deletedMiddle := by
  refine (nickTable_follows_iff ?_).mpr ?_
  · refine ⟨⟨by decide, rfl, rfl⟩, ?_⟩
    rintro _ _ ⟨⟩
    refine ⟨⟨by decide, rfl⟩, ?_⟩
    rintro _ _ ⟨⟩
    refine ⟨⟨by decide, rfl, rfl⟩, ?_⟩
    rintro _ _ ⟨⟩
    exact ⟨trivial, fun _ _ _ => ⟨trivial, fun _ _ _ => trivial⟩⟩
  · refine ⟨id, ?_⟩
    rintro _ _ ⟨⟩
    refine ⟨id, ?_⟩
    rintro _ _ ⟨⟩
    refine ⟨id, ?_⟩
    rintro _ _ ⟨⟩
    refine ⟨?_, fun _ _ _ => ⟨id, fun _ _ _ => trivial⟩⟩
    rintro ⟨-, a, e, ha, he, hk⟩
    cases ha
    cases he
    exact absurd hk (by decide)

/-- Two entries, the last of which is deleted, and one more entry. -/
def deletedTail : List TableOp :=
  [.new 1 [97] 1 staleNode, .new 0 [98] 2 staleNode, .delete [], .new 2 [99] 3 staleNode]

theorem deletedTail_dangling : Along Table.step (fun t op => op.Allowed t) Table.empty deletedTail ∧
    ¬ Follows Table.step NickMap.step Table.Linked Table.empty ∅ deletedTail := by
  constructor
  · refine ⟨⟨by decide, rfl, rfl⟩, ?_⟩
    rintro _ _ ⟨⟩
    refine ⟨⟨by decide, rfl, rfl⟩, ?_⟩
    rintro _ _ ⟨⟩
    refine ⟨trivial, ?_⟩
    rintro _ _ ⟨⟩
    exact ⟨⟨by decide, rfl, rfl⟩, fun _ _ _ => trivial⟩
  · rintro ⟨-, _, _, ⟨⟩, -, -, _, _, ⟨⟩, -, -, _, _, ⟨⟩, -, -, _, _, h, -⟩
    cases h

end BzccScanner
