import BzccScanner.NickFrame

/-! `HT_Free` behind any run of calls. It frees the entries, and a node that was
stored through a stale `last` is no entry, so that nothing is left allocated if
and only if every stored nick could be found. -/

namespace BzccScanner

open CString HeapList Refinement

def Table.htFree (t : Table) : Except TableFault Table :=
  match free TableEntry.next t.heap.keys.length t.heap t.first with
  | .ok heap => .ok ⟨heap, none, none⟩
  | .error (.dangling a) => .error (.dangling a)
  | .error .cyclic => .error .cyclic

def Table.run (t : Table) (ops : List TableOp) : Except TableFault Table :=
  ops.foldlM (fun t op => (t.step op).map Prod.snd) t

/-- The nick that the call stores is found behind it. -/
def TableOp.Recorded (t : Table) (op : TableOp) : Prop :=
  ∀ v ∈ op.mapped, ∃ r t', t.step op = .ok (r, t') ∧ t'.htFindCrc32 op.checksum = .ok (some v)

/-- Every allocated node is an entry. -/
def Table.Full (t : Table) (cells : List (Addr × TableEntry)) : Prop := ∀ a ∈ t.heap, a ∈ cells.map Prod.fst

section steps

variable {t t' : Table} {cells cells' : List (Addr × TableEntry)} {k : UInt32} {v : List TChar}
    {x : Addr × TableEntry}
  {op : TableOp} {r : TableResult}

theorem Table.Sound.entry_mem (h : t.Sound cells) {a : Addr} (ha : a ∈ cells.map Prod.fst) : a ∈ t.heap := by
  obtain ⟨c, hc, rfl⟩ := List.mem_map.mp ha
  exact AList.lookup_isSome.mp (by rw [h.chain.mem hc]; rfl)

/-- A node that is no entry stays none. -/
theorem Table.Stores.full_iff (hs : t.Stores t' k v (some x) cells cells') (h : t.Sound cells)
    (hx : t.heap.lookup x.1 = none) : t'.Full cells' ↔ t.Full cells ∧ (entries cells').lookup k = some v := by
  have hxmem : x.1 ∉ t.heap := AList.lookup_eq_none.mp hx
  cases hs with
  | @replaced front back a e e' hkey hkey' hvalue hfront hheap =>
    have hfound : (entries (front ++ (a, e') :: back)).lookup k = some v := by
      have hnone : k ∉ (entries front).map Prod.fst := by
        intro hm
        obtain ⟨c, hc, rfl⟩ := List.mem_map.mp hm
        obtain ⟨d, hd, rfl⟩ := List.mem_map.mp hc
        exact hfront d hd rfl
      have hentries : entries (front ++ (a, e') :: back) = entries front ++ (k, v) :: entries back := by
        simp [entries, hkey', hvalue]
      rw [hentries, lookup_middle hnone, if_pos rfl]
    rw [Table.Full, Table.Full, and_iff_left hfound]
    simp only [hheap, List.map_append, List.map_cons]
  | refused _ _ halloc => cases halloc
  | linked hk halloc hentries hcells hheap =>
    obtain rfl := Option.some.inj halloc
    have hfound : (entries cells').lookup k = some v := by
      rw [hentries, lookup_middle hk, if_pos rfl]
    rw [Table.Full, Table.Full, and_iff_left hfound, hcells]
    constructor
    · intro hfull a ha
      rcases List.mem_append.mp (hfull a ((hheap a).mpr (.inr ha))) with hm | hm
      · exact hm
      · obtain rfl := List.mem_singleton.mp hm
        exact absurd ha hxmem
    · intro hfull a ha
      rcases (hheap a).mp ha with rfl | ha
      · simp
      · exact List.mem_append_left _ (hfull a ha)
  | lost _ hk halloc hheap =>
    obtain rfl := Option.some.inj halloc
    refine iff_of_false (fun hfull => ?_) fun hfull => ?_
    · exact hxmem (h.entry_mem (hfull _ ((hheap _).mpr (.inl rfl))))
    · rw [lookup_eq_none hk] at hfull
      cases hfull.2

theorem Table.Removes.full_iff (hr : t.Removes t' k cells cells') (h : t.Sound cells) :
    t'.Full cells' ↔ t.Full cells := by
  cases hr with
  | missing _ _ he => rw [he]
  | @removed front back a e _ _ _ _ hcells hheap =>
    have hnd := h.chain.nodup
    rw [List.map_append, List.map_cons, List.nodup_middle, List.nodup_cons, ← List.map_append] at hnd
    have hmem : ∀ x, x ∈ (front ++ (a, e) :: back).map Prod.fst ↔ x = a ∨ x ∈ (front ++ back).map Prod.fst := by
      intro x
      simp only [List.map_append, List.map_cons, List.mem_append, List.mem_cons]
      tauto
    rw [Table.Full, Table.Full, hcells]
    constructor
    · intro hfull x hx
      by_cases hxa : x = a
      · exact (hmem x).mpr (.inl hxa)
      · exact (hmem x).mpr (.inr (hfull x ((hheap x).mpr ⟨hxa, hx⟩)))
    · intro hfull x hx
      obtain ⟨hxa, hx⟩ := (hheap x).mp hx
      exact ((hmem x).mp (hfull x hx)).resolve_left hxa

theorem TableOp.recorded_iff (hs : t.step op = .ok (r, t')) (h' : t'.Sound cells') (hv : op.mapped = some v) :
    op.Recorded t ↔ (entries cells').lookup op.checksum = some v := by
  rw [TableOp.Recorded, hv]
  constructor
  · intro h
    obtain ⟨r', t'', hs', hfind⟩ := h v rfl
    obtain ⟨-, rfl⟩ := Prod.mk.inj (Except.ok.inj (hs.symm.trans hs'))
    exact Except.ok.inj ((h'.htFindCrc32 _).symm.trans hfind)
  · intro hl u hu
    obtain rfl := Option.some.inj hu
    exact ⟨r, t', hs, by rw [h'.htFindCrc32, hl]⟩

theorem TableOp.recorded_of_none (hv : op.mapped = none) : op.Recorded t := by
  intro v hm
  rw [hv] at hm
  cases hm

theorem Table.Sound.step_full (h : t.Sound cells) (hok : op.Allowed t) (hs : t.step op = .ok (r, t')) :
    ∃ cells', t'.Sound cells' ∧ (t'.Full cells' ↔ t.Full cells ∧ op.Recorded t) := by
  cases op with
  | find reference =>
    obtain ⟨z, -, hr⟩ := map_eq_ok hs
    obtain ⟨-, rfl⟩ := Prod.mk.inj hr
    exact ⟨cells, h, (and_iff_left (TableOp.recorded_of_none rfl)).symm⟩
  | set reference mapped a raw =>
    obtain ⟨⟨ok, u⟩, hu, hr⟩ := map_eq_ok hs
    obtain ⟨-, rfl⟩ := Prod.mk.inj hr
    obtain ⟨cells', h', hstores⟩ := h.htSet_stores hok.1 (by simpa using hok.2) hu
    exact ⟨cells', h', by rw [TableOp.recorded_iff hs h' rfl]; exact hstores.full_iff h hok.2⟩
  | delete reference =>
    obtain ⟨⟨ok, u⟩, hu, hr⟩ := map_eq_ok hs
    obtain ⟨-, rfl⟩ := Prod.mk.inj hr
    obtain ⟨cells', h', hremoves⟩ := h.htDelete_removes hu
    exact ⟨cells', h', by rw [and_iff_left (TableOp.recorded_of_none rfl)]; exact hremoves.full_iff h⟩
  | new crc32 mapped a raw =>
    obtain ⟨⟨ok, u⟩, hu, hr⟩ := map_eq_ok hs
    obtain ⟨-, rfl⟩ := Prod.mk.inj hr
    obtain ⟨cells', h', hstores⟩ := h.htNew (h.absent hok.2.2) hok.1 (by simpa using hok.2.1) hu
    exact ⟨cells', h', by rw [TableOp.recorded_iff hs h' rfl]; exact hstores.full_iff h hok.2.1⟩

theorem Table.Sound.run_full {ops : List TableOp} (h : t.Sound cells)
    (hok : Along Table.step (fun t op => op.Allowed t) t ops) (hr : t.run ops = .ok t') :
    ∃ cells', t'.Sound cells' ∧
      (t'.Full cells' ↔ t.Full cells ∧ Along Table.step (fun t op => op.Recorded t) t ops) := by
  induction ops generalizing t cells with
  | nil =>
    obtain rfl := Except.ok.inj hr
    exact ⟨cells, h, (and_iff_left trivial).symm⟩
  | cons op ops ih =>
    cases hs : t.step op with
    | error f => simp [Table.run, List.foldlM_cons, hs, Except.map, bind, Except.bind] at hr
    | ok s =>
      obtain ⟨r, u⟩ := s
      have hrest : u.run ops = .ok t' := by
        simpa [Table.run, List.foldlM_cons, hs, Except.map, bind, Except.bind] using hr
      obtain ⟨cells₁, hsound, hfull⟩ := h.step_full hok.1 hs
      obtain ⟨cells', hsound', hfull'⟩ := ih hsound (hok.2 r u hs) hrest
      refine ⟨cells', hsound', ?_⟩
      rw [hfull', hfull, and_assoc]
      refine and_congr_right' (and_congr_right' ⟨fun hl r' u' hs' => ?_, fun hl => hl r u hs⟩)
      obtain ⟨-, rfl⟩ := Prod.mk.inj (Except.ok.inj (hs.symm.trans hs'))
      exact hl

theorem Table.Sound.htFree (h : t.Sound cells) :
    ∃ heap, t.htFree = .ok ⟨heap, none, none⟩ ∧ ∀ a, a ∈ heap ↔ a ∈ t.heap ∧ a ∉ cells.map Prod.fst := by
  obtain ⟨heap, hfree, hmem⟩ := h.chain.free h.chain.length_le
  exact ⟨heap, by rw [Table.htFree, hfree], hmem⟩

end steps

section freed

variable {t : Table} {m : NickMap} {op : TableOp} {ops : List TableOp}

theorem Table.Represents.recorded (h : t.Represents m) (hok : op.Allowed t) (htail : ¬ op.HitsTail t) :
    op.Recorded t := by
  obtain ⟨r, t', hs, -, cells, hm⟩ := h.step hok htail
  have hsound : t'.Sound cells := ⟨hm.chain, fun a ha _ => by rw [List.getLast?_map, ← hm.last, ha]⟩
  cases op with
  | find | delete => exact TableOp.recorded_of_none rfl
  | set reference mapped a raw | new crc32 mapped a raw =>
    rw [TableOp.recorded_iff hs hsound rfl, ← hm.lookup]
    exact Finmap.lookup_insert _

theorem Table.Represents.run_recorded (h : t.Represents m)
    (hok : Along Table.step (fun t op => op.Allowed t) t ops)
    (htail : Along Table.step (fun t op => ¬ op.HitsTail t) t ops) :
    Along Table.step (fun t op => op.Recorded t) t ops := by
  induction ops generalizing t m with
  | nil => exact trivial
  | cons op ops ih =>
    refine ⟨h.recorded hok.1 htail.1, fun r t' hs => ?_⟩
    obtain ⟨r', t'', hs', -, hm⟩ := h.step hok.1 htail.1
    obtain ⟨-, rfl⟩ := Prod.mk.inj (Except.ok.inj (hs.symm.trans hs'))
    exact ih hm (hok.2 r _ hs) (htail.2 r _ hs)

/-- After calls that all return, every entry is freed once. Nothing else is left if and only if every
nick was found behind the call that stored it, as it is if no deletion hits the last entry of more. -/
theorem nickTable_freed (h : Along Table.step (fun t op => op.Allowed t) Table.empty ops)
    (hr : Table.empty.run ops = .ok t) :
    ∃ heap, t.htFree = .ok ⟨heap, none, none⟩ ∧
      (heap = ∅ ↔ Along Table.step (fun t op => op.Recorded t) Table.empty ops) ∧
      (Along Table.step (fun t op => ¬ op.HitsTail t) Table.empty ops → heap = ∅) := by
  obtain ⟨cells, hsound, hfull⟩ := sound_empty.run_full h hr
  have hstart : Table.empty.Full [] := fun a ha => absurd ha (AList.notMem_empty a)
  obtain ⟨heap, hfree, hmem⟩ := hsound.htFree
  have hempty : heap = ∅ ↔ t.Full cells := by
    constructor
    · rintro rfl a ha
      by_contra hcells
      exact AList.notMem_empty a ((hmem a).mpr ⟨ha, hcells⟩)
    · intro hall
      refine AList.ext (List.eq_nil_iff_forall_not_mem.mpr fun c hc => ?_)
      obtain ⟨hheap, hcells⟩ := (hmem c.1).mp (AList.mem_keys.mpr (List.mem_map_of_mem hc))
      exact hcells (hall c.1 hheap)
  have hiff : heap = ∅ ↔ Along Table.step (fun t op => op.Recorded t) Table.empty ops := by
    rw [hempty, hfull, and_iff_right hstart]
  exact ⟨heap, hfree, hiff, fun htail => hiff.mpr (represents_empty.run_recorded h htail)⟩

end freed

/-- Two entries, the last of which is deleted, and one more entry on the node that was freed. -/
def recycledTail : List TableOp :=
  [.new 1 [97] 1 staleNode, .new 0 [98] 2 staleNode, .delete [], .new 2 [99] 2 staleNode]

/-- The last entry is linked to itself and is never freed. -/
theorem nickTable_freed_recycledTail :
    ∃ t heap, Table.empty.run recycledTail = .ok t ∧ t.htFree = .ok ⟨heap, none, none⟩ ∧ heap ≠ ∅ := by
  have hok : Along Table.step (fun t op => op.Allowed t) Table.empty recycledTail := by
    refine ⟨⟨by decide, rfl, rfl⟩, ?_⟩
    rintro _ _ ⟨⟩
    refine ⟨⟨by decide, rfl, rfl⟩, ?_⟩
    rintro _ _ ⟨⟩
    refine ⟨trivial, ?_⟩
    rintro _ _ ⟨⟩
    exact ⟨⟨by decide, rfl, rfl⟩, fun _ _ _ => trivial⟩
  obtain ⟨t, hr⟩ : ∃ t, Table.empty.run recycledTail = .ok t := ⟨_, rfl⟩
  obtain ⟨heap, hfree, hiff, -⟩ := nickTable_freed hok hr
  refine ⟨t, heap, hr, hfree, fun hempty => ?_⟩
  obtain ⟨r, t', hs, hfind⟩ := (((hiff.mp hempty).2 _ _ rfl).2 _ _ rfl).2 _ _ rfl |>.1 _ rfl
  cases hs
  cases hfind

end BzccScanner
