import BzccScanner.HashCache
import BzccScanner.NickFrame
import BzccScanner.Preferences
import BzccScanner.ValidIdentifiers

/-! The nick table as a cache of the nicks in the registry. A nick that is found
under the checksum of a player is in the registry, under an identifier of that
checksum, in every run in which no empty nick is saved. -/

namespace BzccScanner

open CString HashCache HeapList Runs

section names

variable {s : List TChar}

theorem snwprintf_fits (hs : 0 ∉ s) (name : LocalName) : FitsEntry (wstr (name.snwprintf s)) :=
  ⟨zero_notMem_wstr _, wstr_snwprintf_lt (by decide) hs name⟩

theorem edited_fits (input : List TChar) : FitsEntry (edited input) := by
  constructor
  · intro h
    simpa using List.mem_takeWhile_imp (List.mem_of_mem_take h)
  · rw [edited, List.length_take]
    exact Nat.lt_of_le_of_lt (Nat.min_le_left _ _) (by decide)

end names

/-- What the registry has for a nick: its characters and the terminator. -/
def nickData (nick : List TChar) : List Byte := bytesOf (nick ++ [0])

def nickOf (data : List Byte) : List TChar := (tcharsOf data).takeWhile (· != 0)

theorem nickOf_append {nick : List TChar} (hz : 0 ∉ nick) (rest : List Byte) :
    nickOf (nickData nick ++ rest) = nick := by
  rw [nickOf, nickData, tcharsOf_bytesOf_append, List.append_assoc, List.singleton_append,
    takeWhile_terminated hz]

theorem nickOf_nickData {nick : List TChar} (hz : 0 ∉ nick) : nickOf (nickData nick) = nick := by
  simpa using nickOf_append hz []

theorem nickData_length (nick : List TChar) : (nickData nick).length = 2 * (nick.length + 1) := by
  rw [nickData, bytesOf_length, List.length_append, List.length_singleton]

/-- The program can open the key of the nicks and write any value there, and its values are nicks. -/
structure Registry.KeepsNicks (reg : Registry) : Prop where
  opens : ∀ access, reg.opens regKeyNicks access = true
  accepts : ∀ userId, reg.accepts regKeyNicks userId = true
  nicks : ∀ userId data, reg.values regKeyNicks userId = some data → ∃ nick, nick ≠ [] ∧ 0 ∉ nick ∧
    data = nickData nick

namespace Registry.KeepsNicks

variable {reg : Registry} {userId nick : List TChar}

theorem setValue (h : reg.KeepsNicks) {data : Option (List Byte)}
    (hdata : ∀ d ∈ data, ∃ nick, nick ≠ [] ∧ 0 ∉ nick ∧ d = nickData nick) :
    (reg.setValue regKeyNicks userId data).KeepsNicks := by
  refine ⟨h.opens, h.accepts, fun l d hd => ?_⟩
  by_cases hl : l = userId
  · exact hdata d (by simpa [Registry.setValue, hl] using hd)
  · exact h.nicks l d (by simpa [Registry.setValue, hl] using hd)

theorem setValue_values (reg : Registry) (userId : List TChar) (data : Option (List Byte)) :
    (reg.setValue regKeyNicks userId data).values regKeyNicks userId = data ∧
      ∀ l, l ≠ userId → (reg.setValue regKeyNicks userId data).values regKeyNicks l =
      reg.values regKeyNicks l := by
  refine ⟨by simp [Registry.setValue], fun l hl => by simp [Registry.setValue, hl]⟩

theorem saveNick_eq (h : reg.KeepsNicks) (userId : List TChar) (hne : nick ≠ []) (hfit : FitsEntry nick)
    (rest : List TChar) :
    (saveNick reg userId (nick ++ 0 :: rest)).2 = reg.setValue regKeyNicks userId (some (nickData nick)) := by
  have hlen : 2 * nick.length < 2 ^ 32 := by
    have hlt : nick.length < 64 := hfit.2
    omega
  rw [saveNick, Registry.saveSettingString, if_pos (h.opens _), if_pos (h.accepts _), takeWhile_terminated hfit.1]
  dsimp only
  rw [Registry.stringData_short hne hlen, nickData]

theorem saveNick_name (h : reg.KeepsNicks) (userId : List TChar) {s : List TChar} (hz : 0 ∉ s) (name : LocalName)
    (hne : wstr (name.snwprintf s) ≠ []) : (saveNick reg userId (name.snwprintf s).toList).2 =
      reg.setValue regKeyNicks userId (some (nickData (wstr (name.snwprintf s)))) := by
  have hfit := snwprintf_fits hz name
  obtain ⟨rest, hrest⟩ := toList_of_wstr_lt hfit.2
  have hsave := h.saveNick_eq userId hne hfit rest
  rwa [← hrest] at hsave

theorem deleteNick_eq (h : reg.KeepsNicks) :
    (deleteNick reg userId).2 = reg.setValue regKeyNicks userId none := by
  rw [deleteNick, Registry.deleteSetting, if_pos (h.opens _)]
  split_ifs with hsome
  · rfl
  · have hnone : reg.values regKeyNicks userId = none := by simpa using hsome
    have hvalues : (reg.setValue regKeyNicks userId none).values = reg.values := by
      funext k l
      by_cases hkl : k = regKeyNicks ∧ l = userId
      · rw [hkl.1, hkl.2, hnone, (setValue_values reg userId none).1]
      · simp [Registry.setValue, hkl]
    exact congrArg (fun values => { reg with values := values }) hvalues.symm

theorem loadNick_eq (h : reg.KeepsNicks) (userId : List TChar) (tmp : List Byte) :
    ((loadNick reg userId tmp (UInt32.ofNat playerNameLen)).1 = 0 ∧
      ∀ nick, reg.values regKeyNicks userId = some (nickData nick) → 32 ≤ nick.length) ∨
    ((loadNick reg userId tmp (UInt32.ofNat playerNameLen)).1 ≠ 0 ∧
      ∃ nick, nick ≠ [] ∧ 0 ∉ nick ∧ nick.length < 32 ∧ reg.values regKeyNicks userId = some (nickData nick) ∧
        nickOf (loadNick reg userId tmp (UInt32.ofNat playerNameLen)).2 = nick) := by
  have hsize : (UInt32.ofNat playerNameLen).toNat = 64 := rfl
  rw [loadNick, Registry.loadSettingString, if_pos (h.opens _), Registry.queryValue]
  cases hvalue : reg.values regKeyNicks userId with
  | none => exact .inl ⟨rfl, fun nick hn => by cases hn⟩
  | some data =>
    obtain ⟨nick, hne, hz, rfl⟩ := h.nicks userId data hvalue
    simp only [nickData_length, hsize]
    split_ifs with hlong
    · refine .inl ⟨rfl, fun other ho => ?_⟩
      have hlen := congrArg List.length (Option.some.inj ho)
      rw [nickData_length, nickData_length] at hlen
      omega
    · have hpos := List.length_pos_iff.mpr hne
      refine .inr ⟨fun h0 => ?_, nick, hne, hz, by omega, rfl, nickOf_append hz _⟩
      have hchars := Registry.chars_toNat (n := 2 * (nick.length + 1)) (by omega)
      rw [show UInt32.ofNat (2 * (nick.length + 1)) / 2 - 1 = 0 from h0, UInt32.toNat_zero] at hchars
      omega

end Registry.KeepsNicks

section table

variable {t t' : Table} {cells : List (Addr × TableEntry)} {k : UInt32} {reference mapped : List TChar}
  {alloc : Option (Addr × TableEntry)} {r : Bool} {a : Addr}

theorem Table.Stores.caches {cells' : List (Addr × TableEntry)} (h : t.Stores t' k mapped alloc cells cells') :
    Caches k mapped (entries cells) (entries cells') := by
  cases h with
  | @replaced front back a e e' hkey hkey' hvalue =>
    simpa [entries, hkey, hkey', hvalue] using Caches.replace (entries front) (entries back) (wstr e.value)
  | refused _ hk | lost _ hk => exact .drop _ hk
  | linked hk _ hentries =>
    rw [hentries]
    exact .append _ hk

theorem Table.htNew_free (ha : t.heap.lookup a = none) (hne : ∀ x ∈ alloc, x.1 ≠ a)
    (hn : t.htNew k mapped alloc = .ok (r, t')) : t'.heap.lookup a = none := by
  cases alloc with
  | none =>
    obtain ⟨-, rfl⟩ := Prod.mk.inj (Except.ok.inj hn)
    exact ha
  | some x =>
    obtain ⟨b, raw⟩ := x
    have hb : b ≠ a := hne _ rfl
    rw [Table.htNew] at hn
    cases hvalue : htCopyStr raw.value mapped with
    | error f => simp [hvalue, bind, Except.bind] at hn
    | ok value =>
      simp only [hvalue, bind, Except.bind] at hn
      have hinsert : (t.heap.insert b ⟨k, value, none⟩).lookup a = none := by
        rw [AList.lookup_insert_ne (Ne.symm hb), ha]
      split at hn
      · obtain ⟨-, rfl⟩ := Prod.mk.inj (Except.ok.inj hn)
        exact hinsert
      · split at hn
        · cases hn
        · rename_i c _
          split at hn
          · cases hn
          · rename_i e he
            obtain ⟨-, rfl⟩ := Prod.mk.inj (Except.ok.inj hn)
            have hca : a ≠ c := by
              rintro rfl
              simp [hinsert] at he
            rw [AList.lookup_insert_ne hca, hinsert]

end table

/-- What `HeapAlloc` returns while a player list is filled in: nodes that are not allocated, each of them once. -/
structure Outcomes.Fresh (o : Outcomes) (first : Nat) (t : Table) : Prop where
  free : ∀ i, first ≤ i → ∀ x ∈ o.alloc i, t.heap.lookup x.1 = none
  apart : ∀ i j, ∀ x ∈ o.alloc i, ∀ y ∈ o.alloc j, x.1 = y.1 → i = j

/-- What the table has is what the registry has. -/
structure Nicks.Coherent (n : Nicks) : Prop where
  keeps : n.registry.KeepsNicks
  cached : ∃ cells, n.table.Sound cells ∧
    Backed calcCRC32 nickData (n.registry.values regKeyNicks) (entries cells)

/-- The registry behind a call that is logged. -/
def Event.stored (e : Event) (reg : Registry) : Registry :=
  match e with
  | saveNick userId nick => reg.setValue regKeyNicks userId (some (nickData nick))
  | deleteNick userId => reg.setValue regKeyNicks userId none
  | _ => reg

theorem Event.stored_of_userId {e : Event} (h : e.userId = none) (reg : Registry) : e.stored reg = reg := by
  cases e <;> first | rfl | cases h

def storedAll (log : List Event) (reg : Registry) : Registry := log.foldl (fun reg e => e.stored reg) reg

theorem storedAll_append (log more : List Event) (reg : Registry) :
    storedAll (log ++ more) reg = storedAll more (storedAll log reg) := List.foldl_append

theorem storedAll_of_userId {log : List Event} (h : ∀ e ∈ log, e.userId = none) (reg : Registry) :
    storedAll log reg = reg := by
  induction log with
  | nil => rfl
  | cons e log ih =>
    obtain ⟨hfirst, hrest⟩ := List.forall_mem_cons.mp h
    rw [storedAll, List.foldl_cons, Event.stored_of_userId hfirst]
    exact ih hrest

section players

variable {o : Outcomes} {autoNickSave : Bool} {p : PlayerInfo} {name : LocalName} {n : Nicks} {i : Nat}
  {r : LocalName × Nicks × List Event}

/-- What becomes of the player `i`, and of a name that was not set. -/
inductive Imports (o : Outcomes) (autoNickSave : Bool) (i : Nat) (p : PlayerInfo) (name : LocalName) (n : Nicks) :
    LocalName × Nicks × List Event → Prop
  | kept (h : ¬ (wstr name = [] ∧ wstr p.userId ≠ [])) : Imports o autoNickSave i p name n (name, n, [])
  | found (h : wstr name = [] ∧ wstr p.userId ≠ []) {nick : List TChar}
    (hfind : n.table.htFindCrc32 (calcCRC32 (wstr p.userId)) = .ok (some nick)) :
    Imports o autoNickSave i p name n (name.snwprintf nick, n, [])
  | loaded (h : wstr name = [] ∧ wstr p.userId ≠ [])
    (hfind : n.table.htFindCrc32 (calcCRC32 (wstr p.userId)) = .ok none)
    (hload : (loadNick n.registry (wstr p.userId) (o.tmp i) (UInt32.ofNat playerNameLen)).1 ≠ 0)
    {nick : List TChar}
    (hnick : nickOf (loadNick n.registry (wstr p.userId) (o.tmp i) (UInt32.ofNat playerNameLen)).2 = nick)
    {t : Bool × Table}
    (hnew : n.table.htNew (calcCRC32 (wstr p.userId)) (wstr (name.snwprintf nick)) (o.alloc i) = .ok t) :
    Imports o autoNickSave i p name n (name.snwprintf nick, { n with table := t.2 }, [])
  | saved (h : wstr name = [] ∧ wstr p.userId ≠ [])
    (hfind : n.table.htFindCrc32 (calcCRC32 (wstr p.userId)) = .ok none)
    (hload : (loadNick n.registry (wstr p.userId) (o.tmp i) (UInt32.ofNat playerNameLen)).1 = 0)
    (hauto : autoNickSave = true) {t : Bool × Table}
    (hnew : n.table.htNew (calcCRC32 (wstr p.userId)) (wstr (name.snwprintf (wstr p.ingameName)))
      (o.alloc i) = .ok t) :
    Imports o autoNickSave i p name n (name.snwprintf (wstr p.ingameName),
      ⟨t.2, (saveNick n.registry (wstr p.userId) (name.snwprintf (wstr p.ingameName)).toList).2⟩,
      [.saveNick (wstr p.userId) (wstr (name.snwprintf (wstr p.ingameName)))])
  | unknown (h : wstr name = [] ∧ wstr p.userId ≠ [])
    (hfind : n.table.htFindCrc32 (calcCRC32 (wstr p.userId)) = .ok none)
    (hload : (loadNick n.registry (wstr p.userId) (o.tmp i) (UInt32.ofNat playerNameLen)).1 = 0)
    (hauto : autoNickSave = false) : Imports o autoNickSave i p name n (name, n, [])

theorem importNick_imports (h : importNick o autoNickSave i p name n = some r) :
    Imports o autoNickSave i p name n r := by
  rw [importNick] at h
  by_cases hturn : wstr name = [] ∧ wstr p.userId ≠ []
  · rw [if_pos hturn] at h
    obtain ⟨found, hfind, h⟩ := Option.bind_eq_some_iff.mp h
    rw [toOption_eq_some] at hfind
    cases found with
    | some nick =>
      obtain rfl := Option.some.inj h
      exact .found hturn hfind
    | none =>
      dsimp only at h
      split_ifs at h with hload hauto
      · obtain ⟨t, hnew, h⟩ := Option.bind_eq_some_iff.mp h
        obtain rfl := Option.some.inj h
        exact .loaded hturn hfind hload rfl (toOption_eq_some.mp hnew)
      · obtain ⟨t, hnew, h⟩ := Option.bind_eq_some_iff.mp h
        obtain rfl := Option.some.inj h
        exact .saved hturn hfind (not_not.mp hload) hauto (toOption_eq_some.mp hnew)
      · obtain rfl := Option.some.inj h
        exact .unknown hturn hfind (not_not.mp hload) (by simpa using hauto)
  · rw [if_neg hturn] at h
    obtain rfl := Option.some.inj h
    exact .kept hturn

theorem Imports.free {a : Addr} (h : Imports o autoNickSave i p name n r) (ha : n.table.heap.lookup a = none)
    (hne : ∀ x ∈ o.alloc i, x.1 ≠ a) : r.2.1.table.heap.lookup a = none := by
  cases h with
  | kept => exact ha
  | found => exact ha
  | loaded _ _ _ _ hnew => exact Table.htNew_free ha hne hnew
  | saved _ _ _ _ hnew => exact Table.htNew_free ha hne hnew
  | unknown => exact ha

theorem Imports.fresh (h : Imports o autoNickSave i p name n r) (hfresh : o.Fresh i n.table) :
    o.Fresh (i + 1) r.2.1.table := by
  refine ⟨fun j hj x hx => ?_, hfresh.apart⟩
  refine h.free (hfresh.free j (Nat.le_of_lt hj) x hx) fun y hy he => ?_
  have hij := hfresh.apart i j y hy x hx he
  omega

theorem Imports.coherent (h : Imports o autoNickSave i p name n r) (hn : n.Coherent)
    (ha : ∀ x ∈ o.alloc i, n.table.heap.lookup x.1 = none) (hnamed : ∀ userId, .saveNick userId [] ∉ r.2.2) :
    r.2.1.Coherent := by
  obtain ⟨hkeeps, cells, hsound, hbacked⟩ := hn
  cases h with
  | kept => exact ⟨hkeeps, cells, hsound, hbacked⟩
  | found => exact ⟨hkeeps, cells, hsound, hbacked⟩
  | unknown => exact ⟨hkeeps, cells, hsound, hbacked⟩
  | @loaded _ hfind hload nick hnick t hnew =>
    rcases hkeeps.loadNick_eq (wstr p.userId) (o.tmp i) with ⟨hzero, -⟩ | ⟨-, other, -, hz, hlen, hvalue, hother⟩
    · exact absurd hzero hload
    · obtain rfl : other = nick := hother.symm.trans hnick
      have hname : wstr (name.snwprintf other) = other := by
        have hroom : (32 : Nat) ≤ playerNameLen - 1 := by decide
        rw [wstr_snwprintf (by decide) hz, List.take_of_length_le (by omega)]
      obtain ⟨cells', hsound', hstores⟩ := hsound.htNew (hsound.absent hfind) (snwprintf_fits hz name) ha hnew
      have hcaches := hstores.caches
      rw [hname] at hcaches
      exact ⟨hkeeps, cells', hsound', hbacked.caches hcaches hvalue fun _ _ => rfl⟩
  | @saved _ hfind hload hauto t hnew =>
    let nick := wstr (name.snwprintf (wstr p.ingameName))
    have hz := zero_notMem_wstr p.ingameName
    have hfit : FitsEntry nick := snwprintf_fits hz name
    have hne : nick ≠ [] := fun he => hnamed (wstr p.userId) (List.mem_singleton.mpr (by rw [← he]))
    obtain ⟨cells', hsound', hstores⟩ := hsound.htNew (hsound.absent hfind) hfit ha hnew
    have hset := Registry.KeepsNicks.setValue_values n.registry (wstr p.userId) (some (nickData nick))
    have hsave := hkeeps.saveNick_name (wstr p.userId) hz name hne
    refine ⟨?_, cells', hsound', ?_⟩
    · rw [hsave]
      exact hkeeps.setValue fun d hd => ⟨nick, hne, hfit.1, (Option.some.inj hd).symm⟩
    · rw [hsave]
      exact hbacked.caches hstores.caches hset.1 hset.2

theorem Imports.stored (h : Imports o autoNickSave i p name n r) (hn : n.registry.KeepsNicks)
    (hnamed : ∀ userId, .saveNick userId [] ∉ r.2.2) : r.2.1.registry = storedAll r.2.2 n.registry := by
  cases h with
  | kept => rfl
  | found => rfl
  | loaded => rfl
  | unknown => rfl
  | saved =>
    have hne : wstr (name.snwprintf (wstr p.ingameName)) ≠ [] := fun he =>
      hnamed (wstr p.userId) (List.mem_singleton.mpr (by rw [← he]))
    exact hn.saveNick_name (wstr p.userId) (zero_notMem_wstr p.ingameName) name hne

theorem importNicks_cases {g : GameInfo} {count : Nat} {names : Vector LocalName maxPlayers}
    {s : Vector LocalName maxPlayers × Nicks × List Event}
    (h : importNicks o autoNickSave g (count + 1) i names n = some s) :
    ∃ (hi : i < maxPlayers) (r : LocalName × Nicks × List Event),
      importNick o autoNickSave i g.playerinfo[i] names[i] n = some r ∧
      ((o.addString i = false ∧ s = (names.set i r.1, r.2.1, r.2.2)) ∨ (o.addString i = true ∧
        ∃ t, importNicks o autoNickSave g count (i + 1) (names.set i r.1) r.2.1 = some t ∧
        s = (t.1, t.2.1, r.2.2 ++ t.2.2))) := by
  rw [importNicks] at h
  by_cases hi : i < maxPlayers
  · rw [dif_pos hi] at h
    obtain ⟨r, hr, h⟩ := Option.bind_eq_some_iff.mp h
    refine ⟨hi, r, hr, ?_⟩
    by_cases hadd : o.addString i = false
    · rw [if_pos hadd] at h
      exact .inl ⟨hadd, (Option.some.inj h).symm⟩
    · rw [if_neg hadd] at h
      obtain ⟨t, ht, h⟩ := Option.bind_eq_some_iff.mp h
      exact .inr ⟨by simpa using hadd, t, ht, (Option.some.inj h).symm⟩
  · rw [dif_neg hi] at h
    cases h

theorem importNicks_coherent {g : GameInfo} {count : Nat} {names : Vector LocalName maxPlayers}
    {s : Vector LocalName maxPlayers × Nicks × List Event}
    (hs : importNicks o autoNickSave g count i names n = some s) (hn : n.Coherent) (hfresh : o.Fresh i n.table)
    (hnamed : ∀ userId, .saveNick userId [] ∉ s.2.2) :
    s.2.1.Coherent ∧ s.2.1.registry = storedAll s.2.2 n.registry := by
  induction count generalizing i names n s with
  | zero =>
    obtain rfl := Option.some.inj hs
    exact ⟨hn, rfl⟩
  | succ count ih =>
    obtain ⟨hi, r, hr, hs⟩ := importNicks_cases hs
    have himports := importNick_imports hr
    have hkept := himports.coherent hn (hfresh.free i (Nat.le_refl i))
    rcases hs with ⟨-, rfl⟩ | ⟨-, t, ht, rfl⟩
    · exact ⟨hkept hnamed, himports.stored hn.keeps hnamed⟩
    · have hfirst : ∀ userId, .saveNick userId [] ∉ r.2.2 :=
        fun userId hm => hnamed userId (List.mem_append_left _ hm)
      obtain ⟨hcoherent, hstored⟩ := ih ht (hkept hfirst) (himports.fresh hfresh)
        fun userId hm => hnamed userId (List.mem_append_right _ hm)
      refine ⟨hcoherent, ?_⟩
      rw [storedAll_append, ← himports.stored hn.keeps hfirst]
      exact hstored

/-- A submitted nick goes to the table and to the registry, and no nick is taken out of both. -/
theorem submitNick_coherent {tmpmsg : List TChar} (hr : submitNick o p name tmpmsg n = some r) (hn : n.Coherent)
    (ha : ∀ x ∈ o.allocSet, n.table.heap.lookup x.1 = none) (hfit : FitsEntry tmpmsg) :
    r.2.1.Coherent ∧ r.2.1.registry = storedAll r.2.2 n.registry := by
  have hcoherent := hn
  obtain ⟨hkeeps, cells, hsound, hbacked⟩ := hn
  rw [submitNick] at hr
  split_ifs at hr with hchanged hvalid hempty
  · obtain ⟨t, ht, hr⟩ := Option.bind_eq_some_iff.mp hr
    obtain rfl := Option.some.inj hr
    obtain ⟨cells', hsound', herased⟩ := hsound.htDelete_erased (toOption_eq_some.mp ht)
    have hset := Registry.KeepsNicks.setValue_values n.registry (wstr p.userId) none
    refine ⟨⟨?_, cells', hsound', ?_⟩, hkeeps.deleteNick_eq⟩
    · rw [hkeeps.deleteNick_eq]
      exact hkeeps.setValue fun d hd => by cases hd
    · rw [hkeeps.deleteNick_eq, herased]
      exact hbacked.erase hset.2
  · obtain ⟨t, ht, hr⟩ := Option.bind_eq_some_iff.mp hr
    obtain rfl := Option.some.inj hr
    obtain ⟨cells', hsound', hstores⟩ := hsound.htSet_stores hfit ha (toOption_eq_some.mp ht)
    have hset := Registry.KeepsNicks.setValue_values n.registry (wstr p.userId) (some (nickData tmpmsg))
    refine ⟨⟨?_, cells', hsound', ?_⟩, hkeeps.saveNick_eq _ hempty hfit []⟩
    · rw [hkeeps.saveNick_eq _ hempty hfit]
      exact hkeeps.setValue fun d hd => ⟨tmpmsg, hempty, hfit.1, (Option.some.inj hd).symm⟩
    · rw [hkeeps.saveNick_eq _ hempty hfit]
      exact hbacked.caches hstores.caches hset.1 hset.2
  · obtain rfl := Option.some.inj hr
    exact ⟨hcoherent, rfl⟩
  · obtain rfl := Option.some.inj hr
    exact ⟨hcoherent, rfl⟩

end players

namespace Window

/-- What is asked of `HeapAlloc` while the submitted nick is stored and the list is filled in again. -/
def RenamesFresh (o : Outcomes) (input : List TChar) (w : Window) : Prop :=
  w.inDlg = true → w.submit = true → (∀ x ∈ o.allocSet, w.nicks.table.heap.lookup x.1 = none) ∧
    ∀ v, (w.leaveDlg o).submitRename o (edited input) = some v → o.Fresh 0 v.nicks.table

/-- `HeapAlloc` returns no node that is still allocated, whatever the step does with it. -/
def StepFresh (w : Window) (a : Action × Outcomes) : Prop :=
  match a.1 with
  | .ui (.renOk input) => { w with submit := true }.RenamesFresh a.2 input
  | .ui .renDelete => { w with submit := true }.RenamesFresh a.2 []
  | .ui (.renClose input) => w.RenamesFresh a.2 input
  | _ => a.2.Fresh 0 w.nicks.table

/-- The table has what the registry has, and the registry what was last saved. -/
structure Backs (base : Registry) (w : Window) : Prop where
  coherent : w.nicks.Coherent
  registry : w.nicks.registry = storedAll w.log base

variable {o : Outcomes} {v w : Window} {base : Registry}

theorem Backs.same (h : w.Backs base) (hn : v.nicks = w.nicks) (he : Emits (·.userId = none) w v) :
    v.Backs base := by
  obtain ⟨new, hnew, hnone⟩ := he
  refine ⟨hn ▸ h.coherent, ?_⟩
  rw [hn, h.registry, hnew, storedAll_append, storedAll_of_userId hnone]

theorem Emits.timer_silent (h : Emits (·.isTimer) w v) : Emits (·.userId = none) w v :=
  h.imp fun _ => Event.userId_of_isTimer

theorem Emits.scan_silent (h : Emits (fun e => e = .killTimer ∨ e = .beginScan) w v) :
    Emits (·.userId = none) w v := by
  refine h.imp fun e he => ?_
  rcases he with rfl | rfl <;> rfl

theorem Backs.updatePlayerList (hw : w.Backs base) (h : w.updatePlayerList o = some v)
    (hfresh : o.Fresh 0 w.nicks.table) (hnamed : ∀ userId, .saveNick userId [] ∉ v.log) : v.Backs base := by
  rw [Window.updatePlayerList] at h
  cases hg : w.selectedGame with
  | none => simp [hg] at h
  | some g =>
    simp only [hg] at h
    obtain ⟨r, hr, h⟩ := Option.bind_eq_some_iff.mp h
    obtain rfl := Option.some.inj h
    obtain ⟨hcoherent, hstored⟩ := importNicks_coherent hr hw.coherent hfresh fun userId hm =>
      hnamed userId (List.mem_append_right _ hm)
    exact ⟨hcoherent, by rw [hstored, hw.registry, storedAll_append]⟩

theorem Backs.submitRename (hw : w.Backs base) {tmpmsg : List TChar} (h : w.submitRename o tmpmsg = some v)
    (ha : ∀ x ∈ o.allocSet, w.nicks.table.heap.lookup x.1 = none) (hfit : FitsEntry tmpmsg) : v.Backs base := by
  rw [Window.submitRename] at h
  cases hp : w.pPlayer with
  | none => simp [hp] at h
  | some p =>
    simp only [hp] at h
    obtain ⟨r, hr, h⟩ := Option.bind_eq_some_iff.mp h
    obtain rfl := Option.some.inj h
    obtain ⟨hcoherent, hstored⟩ := submitNick_coherent hr hw.coherent ha hfit
    exact ⟨hcoherent, by rw [hstored, hw.registry, storedAll_append]⟩

theorem leaveDlg_sameNicks (o : Outcomes) (w : Window) : (w.leaveDlg o).nicks = w.nicks := by
  rcases leaveDlg_cases o w with ⟨-, -, he⟩ | he
  · rw [he]
    rfl
  · rw [he]

theorem Backs.closeRenameDlg (hw : w.Backs base) {input : List TChar} (h : w.closeRenameDlg o input = some v)
    (hfresh : w.RenamesFresh o input) (hnamed : ∀ userId, .saveNick userId [] ∉ v.log) : v.Backs base := by
  have hleft : (w.leaveDlg o).Backs base := hw.same (leaveDlg_sameNicks o w) (leaveDlg_emits o w).timer_silent
  rcases closeRenameDlg_cases h with ⟨-, rfl⟩ | ⟨-, -, rfl⟩ | ⟨hdlg, hsubmit, x, hx, hv⟩
  · exact hw
  · exact hleft
  · obtain ⟨hset, hlist⟩ := hfresh hdlg hsubmit
    rw [← leaveDlg_sameNicks o w] at hset
    exact (hleft.submitRename hx hset (edited_fits input)).updatePlayerList hv (hlist x hx) hnamed

theorem endScan_sameNicks (o : Outcomes) (w : Window) : (w.endScan o).nicks = w.nicks := by
  rcases endScan_cases o w with ⟨-, he⟩ | ⟨-, -, he⟩ | ⟨-, -, he⟩
  · rw [he]
  · rw [he]
    rfl
  · rw [he]

theorem scan_sameNicks {decode : Decoder} (h : w.scan decode o = some v) : v.nicks = w.nicks := by
  rcases scan_cases h with ⟨-, -, -, rfl⟩ | ⟨-, -, -, -, -, -, -, rfl⟩ | ⟨-, -, -, x, -, -, -, -, rfl⟩
  · rfl
  · rfl
  · exact endScan_sameNicks o { w with controls := x }

theorem Backs.refresh (hw : w.Backs base) (o : Outcomes) : (w.refresh o).Backs base := by
  refine hw.same ?_ (refresh_emits o w).scan_silent
  rw [Window.refresh]
  split_ifs
  · rfl
  · rfl
  · rfl
  · obtain ⟨log, he⟩ := beginScan_eq o w
    rw [he]

theorem Backs.step (hw : w.Backs base) {decode : Decoder} {a : Action × Outcomes} (h : w.step decode a = some v)
    (hfresh : w.StepFresh a) (hnamed : ∀ userId, .saveNick userId [] ∉ v.log) : v.Backs base := by
  obtain ⟨a, o⟩ := a
  rw [Window.step] at h
  split_ifs at h
  cases a with
  | scan => exact hw.same (scan_sameNicks h) (scan_emits h).timer_silent
  | ui m =>
    cases m with
    | refresh =>
      obtain rfl := Option.some.inj h
      exact hw.refresh o
    | timer =>
      obtain ⟨-, ⟨-, rfl⟩ | ⟨-, rfl⟩⟩ := timer_cases h
      · exact hw.same rfl (.one rfl rfl)
      · exact hw.refresh o
    | close =>
      obtain rfl := Option.some.inj h
      rcases close_cases w with he | he <;> rw [he] <;> exact hw.same rfl (.silent rfl)
    | renameDlg =>
      obtain rfl := Option.some.inj h
      rcases renameDlg_cases w with he | ⟨-, p, -, he⟩ <;> rw [he] <;> exact hw.same rfl (.silent rfl)
    | renOk input =>
      have hsubmit : Backs base { w with submit := true } := hw.same rfl (.silent rfl)
      exact hsubmit.closeRenameDlg h hfresh hnamed
    | renDelete =>
      have hsubmit : Backs base { w with submit := true } := hw.same rfl (.silent rfl)
      exact hsubmit.closeRenameDlg h hfresh hnamed
    | renClose input => exact hw.closeRenameDlg h hfresh hnamed
    | selectGame i =>
      rcases (selectGame_cases h).2 with ⟨-, rfl⟩ | ⟨-, hv⟩
      · exact hw
      · have hselected : Backs base { w with selectedGame := some i, selectedPlayer := none, playerList := 0 } :=
          hw.same rfl (.silent rfl)
        exact hselected.updatePlayerList hv hfresh hnamed
    | selectPlayer item =>
      rcases selectPlayer_cases h with rfl | ⟨g, j, -, rfl⟩ <;> exact hw.same rfl (.silent rfl)
    | clickLocalNames =>
      rcases clickLocalNames_cases h with ⟨-, rfl⟩ | hv
      · exact hw
      · exact hw.updatePlayerList hv hfresh hnamed
    | clickAutoCreateNicks =>
      rcases clickAutoCreateNicks_cases h with ⟨-, -, hv⟩ | ⟨-, rfl⟩
      · have hclicked : Backs base { w with autoNickSave := true } := hw.same rfl (.silent rfl)
        exact hclicked.updatePlayerList hv hfresh hnamed
      · exact hw.same rfl (.silent rfl)
    | clickAutoScan =>
      obtain rfl := Option.some.inj h
      refine hw.same ?_ (clickAutoScan_emits o w).timer_silent
      obtain ⟨id, armed, log, he⟩ := clickAutoScan_eq o w
      rw [he]
    | clickAutoScanTimeApply input =>
      obtain rfl := Option.some.inj h
      refine hw.same ?_ (clickAutoScanTimeApply_emits o input w).timer_silent
      obtain ⟨id, armed, log, he⟩ := clickAutoScanTimeApply_eq o input w
      rw [he]

end Window

section runs

variable {decode : Decoder} {registry : Registry} {autoNickSave autoScan : Bool} {delay : UInt32} {v : Window}
  {moves : List (Move Window (Action × Outcomes))}

theorem nicks_run (hreg : registry.KeepsNicks)
    (h : Run (Window.step decode) (.start registry autoNickSave autoScan delay) moves v)
    (hfresh : ∀ m ∈ moves, m.source.StepFresh m.action) (hnamed : ∀ userId, .saveNick userId [] ∉ v.log) :
    v.Backs registry := by
  have hlog : ∀ m ∈ moves, m.target.log <+: v.log := by
    refine (h.before (R := fun w u => w.log <+: u.log) (fun w => List.prefix_refl w.log) List.IsPrefix.trans
      fun hs => ?_).2
    obtain ⟨new, hnew, -⟩ := Window.step_logs hs
    exact hnew ▸ List.prefix_append _ _
  exact (h.keeps (I := fun w => w.Backs registry)
    (P := fun m => m.source.StepFresh m.action ∧ ∀ userId, .saveNick userId [] ∉ m.target.log)
    (fun _ _ _ hw hm hs => hw.step hs hm.1 hm.2) ⟨⟨hreg, [], sound_empty, .nil _ _ _⟩, rfl⟩
    fun m hm => ⟨hfresh m hm, fun userId he => hnamed userId ((hlog m hm).subset he)⟩).1

/-- The registry has what was last saved, and a lookup returns: a nick that it finds is in the registry,
under an identifier of that checksum. -/
theorem nicks_backed (hreg : registry.KeepsNicks)
    (h : Run (Window.step decode) (.start registry autoNickSave autoScan delay) moves v)
    (hfresh : ∀ m ∈ moves, m.source.StepFresh m.action) (hnamed : ∀ userId, .saveNick userId [] ∉ v.log) :
    v.nicks.registry = storedAll v.log registry ∧
    ∀ userId, ∃ found, v.nicks.table.htFind userId = .ok found ∧ ∀ nick ∈ found, ∃ other,
      calcCRC32 other = calcCRC32 userId ∧ v.nicks.registry.values regKeyNicks other = some (nickData nick) := by
  obtain ⟨⟨-, cells, hsound, hbacked⟩, hstored⟩ := nicks_run hreg h hfresh hnamed
  exact ⟨hstored, fun userId => ⟨_, hsound.htFind userId, fun nick hn => hbacked.lookup hn⟩⟩

end runs

theorem keepsNicks_emptyRegistry : emptyRegistry.KeepsNicks :=
  ⟨fun _ => rfl, fun _ => rfl, fun _ _ h => by cases h⟩

/-- The nick `A` is submitted for the player. -/
def nickSubmitted : List (Action × Outcomes) :=
  openGame steamPlayer ++ [(.ui (.selectPlayer (some 0)), idle), (.ui .renameDlg, idle),
    (.ui (.renOk [0x41]), { idle with allocSet := some (1, staleNode) })]

theorem Outcomes.fresh_of_none {o : Outcomes} (h : ∀ i, o.alloc i = none) (first : Nat) (t : Table) :
    o.Fresh first t :=
  ⟨fun i _ x hx => by simp [h] at hx, fun i _ x hx => by simp [h] at hx⟩

theorem Window.stepFresh_of_none {w : Window} {a : Action × Outcomes} (halloc : ∀ i, a.2.alloc i = none)
    (hset : ∀ x ∈ a.2.allocSet, w.nicks.table.heap.lookup x.1 = none) : w.StepFresh a := by
  have hfresh := a.2.fresh_of_none halloc 0
  rw [StepFresh]
  split
  · exact fun _ _ => ⟨hset, fun _ _ => hfresh _⟩
  · exact fun _ _ => ⟨hset, fun _ _ => hfresh _⟩
  · exact fun _ _ => ⟨hset, fun _ _ => hfresh _⟩
  · exact hfresh _

theorem nickSubmitted_alloc : ∀ a ∈ nickSubmitted, (∀ i, a.2.alloc i = none) ∧ ∀ x ∈ a.2.allocSet, x.1 = 1 := by
  simp [nickSubmitted, openGame, wholeScan, idle]

theorem nickSubmitted_fresh {r : List (Move Window (Action × Outcomes)) × Window}
    (hr : r ∈ execWindow false nickSubmitted) (hlookup : ∀ m ∈ r.1, m.source.nicks.table.heap.lookup 1 = none) :
    ∀ m ∈ r.1, m.source.StepFresh m.action := by
  intro m hm
  obtain ⟨halloc, hset⟩ := nickSubmitted_alloc m.action (exec_actions hr ▸ List.mem_map_of_mem hm)
  exact Window.stepFresh_of_none halloc fun x hx => by rw [hset x hx, hlookup m hm]

set_option maxRecDepth 100000 in
theorem nickSubmitted_runs : ∃ r ∈ execWindow false nickSubmitted,
    (∀ m ∈ r.1, m.source.nicks.table.heap.lookup 1 = none) ∧
    r.2.log = [.beginScan, .saveNick [0x53, 0x31] [0x41]] ∧
      (r.2.nicks.table.htFind [0x53, 0x31]).toOption = some (some [0x41]) := by
  decide +kernel

theorem nicks_backed_submitted : ∃ moves v,
    Run (Window.step fun _ _ => none) (.start emptyRegistry false false 60) moves v ∧
      v.nicks.registry = storedAll [.beginScan, .saveNick [0x53, 0x31] [0x41]] emptyRegistry ∧
      v.nicks.table.htFind [0x53, 0x31] = .ok (some [0x41]) ∧ ∃ other, calcCRC32 other = calcCRC32 [0x53, 0x31] ∧
        v.nicks.registry.values regKeyNicks other = some (nickData [0x41]) := by
  obtain ⟨⟨moves, v⟩, hr, hlookup, hlog, hfind⟩ := nickSubmitted_runs
  have hfresh := nickSubmitted_fresh hr hlookup
  have hnamed : ∀ userId, .saveNick userId [] ∉ v.log := by
    rw [hlog]
    simp
  obtain ⟨hstored, hall⟩ := nicks_backed keepsNicks_emptyRegistry (exec_run hr) hfresh hnamed
  obtain ⟨found, hfound, hbacked⟩ := hall [0x53, 0x31]
  rw [toOption_eq_some] at hfind
  have hnick : found = some [0x41] := Except.ok.inj (hfound.symm.trans hfind)
  exact ⟨moves, v, exec_run hr, hlog ▸ hstored, hfind, hbacked _ hnick⟩

end BzccScanner
