import BzccScanner.NickCache

/-! The player list with the nick table and without it. In every reachable
state the names that the list is filled in with, and what is saved for them,
are those that the registry alone would give. -/

namespace BzccScanner

open CString HashCache HeapList Runs

/-- What becomes of a player if the registry is asked each time. -/
def plainImport (autoNickSave : Bool) (p : PlayerInfo) (name : LocalName) (reg : Registry) :
    LocalName × Registry × List Event :=
  if wstr name = [] ∧ wstr p.userId ≠ [] then
    match reg.values regKeyNicks (wstr p.userId) with
    | some data => (name.snwprintf (nickOf data), reg, [])
    | none =>
      if autoNickSave then
        let name := name.snwprintf (wstr p.ingameName)
        (name, (saveNick reg (wstr p.userId) name.toList).2, [.saveNick (wstr p.userId) (wstr name)])
      else (name, reg, [])
  else (name, reg, [])

def plainImports (o : Outcomes) (autoNickSave : Bool) (g : GameInfo) (count i : Nat)
    (names : Vector LocalName maxPlayers) (reg : Registry) :
    Vector LocalName maxPlayers × Registry × List Event :=
  match count with
  | 0 => (names, reg, [])
  | count + 1 =>
    if h : i < maxPlayers then
      let r := plainImport autoNickSave g.playerinfo[i] names[i] reg
      if o.addString i = false then (names.set i r.1, r.2.1, r.2.2)
      else
        let s := plainImports o autoNickSave g count (i + 1) (names.set i r.1) r.2.1
        (s.1, s.2.1, r.2.2 ++ s.2.2)
    else (names, reg, [])

/-- The identifier has a nick, or belongs to a player of the game. -/
def Identifies (g : GameInfo) (reg : Registry) (userId : List TChar) : Prop :=
  (reg.values regKeyNicks userId).isSome = true ∨
    ∃ j, ∃ h : j < maxPlayers, j < g.playerCount ∧ wstr g.playerinfo[j].userId = userId

/-- No two identifiers have one checksum, and all names are short enough to be loaded. -/
structure Listable (g : GameInfo) (reg : Registry) : Prop where
  apart : ∀ id other, Identifies g reg id → Identifies g reg other → calcCRC32 id = calcCRC32 other → id = other
  short : ∀ id nick, reg.values regKeyNicks id = some (nickData nick) → nick.length < 32
  ingame : ∀ j (h : j < maxPlayers), j < g.playerCount → (wstr g.playerinfo[j].ingameName).length < 32

section players

variable {o : Outcomes} {autoNickSave : Bool} {p : PlayerInfo} {name : LocalName} {n : Nicks} {i : Nat}
    {g : GameInfo}
  {r : LocalName × Nicks × List Event}

theorem nickData_injective {nick other : List TChar} (h : nickData nick = nickData other) : nick = other := by
  have hchars : ∀ s, tcharsOf (nickData s) = s ++ [0] := fun s => by
    simpa [nickData, tcharsOf] using tcharsOf_bytesOf_append (s ++ [0]) []
  have heq := congrArg tcharsOf h
  rw [hchars, hchars] at heq
  exact List.append_cancel_right heq

theorem Nicks.Coherent.find (hn : n.Coherent) {userId nick : List TChar}
    (hfind : n.table.htFindCrc32 (calcCRC32 userId) = .ok (some nick))
    (halone : ∀ other, calcCRC32 other = calcCRC32 userId → (n.registry.values regKeyNicks other).isSome = true →
      other = userId) : n.registry.values regKeyNicks userId = some (nickData nick) := by
  obtain ⟨-, cells, hsound, hbacked⟩ := hn
  rw [hsound.htFindCrc32, Except.ok.injEq] at hfind
  exact hbacked.lookup_alone hfind halone

theorem Imports.plain (h : Imports o autoNickSave i p name n r) (hn : n.Coherent)
    (halone : ∀ other, calcCRC32 other = calcCRC32 (wstr p.userId) →
      (n.registry.values regKeyNicks other).isSome = true → other = wstr p.userId)
    (hshort : ∀ nick, n.registry.values regKeyNicks (wstr p.userId) = some (nickData nick) → nick.length < 32) :
    plainImport autoNickSave p name n.registry = (r.1, r.2.1.registry, r.2.2) := by
  have habsent : (loadNick n.registry (wstr p.userId) (o.tmp i) (UInt32.ofNat playerNameLen)).1 = 0 →
      n.registry.values regKeyNicks (wstr p.userId) = none := by
    intro hload
    rcases hn.keeps.loadNick_eq (wstr p.userId) (o.tmp i) with ⟨-, hlong⟩ | ⟨hne, -⟩
    · cases hvalue : n.registry.values regKeyNicks (wstr p.userId) with
      | none => rfl
      | some data =>
        obtain ⟨nick, -, -, rfl⟩ := hn.keeps.nicks _ _ hvalue
        exact absurd (hshort nick hvalue) (Nat.not_lt.mpr (hlong nick hvalue))
    · exact absurd hload hne
  cases h with
  | kept h => rw [plainImport, if_neg h]
  | @found h nick hfind =>
    have hvalue := hn.find hfind halone
    obtain ⟨other, -, hz, hdata⟩ := hn.keeps.nicks _ _ hvalue
    obtain rfl := nickData_injective hdata
    rw [plainImport, if_pos h, hvalue]
    dsimp only
    rw [nickOf_nickData hz]
  | @loaded h hfind hload nick hnick t hnew =>
    rcases hn.keeps.loadNick_eq (wstr p.userId) (o.tmp i) with ⟨hzero, -⟩ | ⟨-, other, -, hz, -, hvalue, hother⟩
    · exact absurd hzero hload
    · obtain rfl : other = nick := hother.symm.trans hnick
      rw [plainImport, if_pos h, hvalue]
      dsimp only
      rw [nickOf_nickData hz]
  | saved h hfind hload hauto hnew =>
    rw [plainImport, if_pos h, habsent hload]
    dsimp only
    rw [if_pos hauto]
  | unknown h hfind hload hauto =>
    rw [plainImport, if_pos h, habsent hload]
    dsimp only
    rw [if_neg (by simp [hauto])]

theorem plainImport_saves (autoNickSave : Bool) (p : PlayerInfo) (name : LocalName) (reg : Registry) :
    (plainImport autoNickSave p name reg).2.1 = reg ∨ (plainImport autoNickSave p name reg).2 =
      ((saveNick reg (wstr p.userId) (name.snwprintf (wstr p.ingameName)).toList).2,
        [.saveNick (wstr p.userId) (wstr (name.snwprintf (wstr p.ingameName)))]) := by
  rw [plainImport]
  by_cases hturn : wstr name = [] ∧ wstr p.userId ≠ []
  · rw [if_pos hturn]
    split
    · exact .inl rfl
    · split_ifs
      · exact .inr rfl
      · exact .inl rfl
  · rw [if_neg hturn]
    exact .inl rfl

theorem Listable.plainImport {reg : Registry} (h : Listable g reg) (autoNickSave : Bool) (name : LocalName)
    (hreg : reg.KeepsNicks) {j : Nat} (hj : j < maxPlayers) (hcount : j < g.playerCount)
    (hp : g.playerinfo[j] = p)
    (hnamed : ∀ userId, .saveNick userId [] ∉ (plainImport autoNickSave p name reg).2.2) :
    Listable g (plainImport autoNickSave p name reg).2.1 := by
  rcases plainImport_saves autoNickSave p name reg with he | he
  · rwa [he]
  · let id := wstr p.userId
    let nick := wstr (name.snwprintf (wstr p.ingameName))
    have hz := zero_notMem_wstr p.ingameName
    have hne : nick ≠ [] := fun hn => hnamed id (by rw [he, List.mem_singleton, ← hn])
    have hlen : nick.length < 32 := by
      have hcut : nick = (wstr p.ingameName).take (playerNameLen - 1) := wstr_snwprintf (by decide) hz name
      have hin := h.ingame j hj hcount
      rw [hp] at hin
      rw [hcut, List.length_take]
      omega
    have hsave := hreg.saveNick_name id hz name hne
    have hset := Registry.KeepsNicks.setValue_values reg id (some (nickData nick))
    have hknown : ∀ other, Identifies g (reg.setValue regKeyNicks id (some (nickData nick))) other →
        Identifies g reg other := by
      rintro other (hvalue | hlisted)
      · by_cases ho : other = id
        · exact .inr ⟨j, hj, hcount, by rw [hp, ho]⟩
        · exact .inl (by rwa [hset.2 other ho] at hvalue)
      · exact .inr hlisted
    rw [congrArg Prod.fst he, hsave]
    refine ⟨fun a b ha hb => h.apart a b (hknown a ha) (hknown b hb), fun other s hs => ?_, h.ingame⟩
    by_cases ho : other = id
    · rw [ho, hset.1] at hs
      obtain rfl := nickData_injective (Option.some.inj hs)
      exact hlen
    · rw [hset.2 other ho] at hs
      exact h.short other s hs

theorem importNicks_plain {count : Nat} {names : Vector LocalName maxPlayers}
    {s : Vector LocalName maxPlayers × Nicks × List Event}
    (hs : importNicks o autoNickSave g count i names n = some s) (hcount : i + count ≤ g.playerCount)
    (hn : n.Coherent) (hfresh : o.Fresh i n.table) (hnamed : ∀ userId, .saveNick userId [] ∉ s.2.2)
    (hlist : Listable g n.registry) :
    plainImports o autoNickSave g count i names n.registry = (s.1, s.2.1.registry, s.2.2) := by
  induction count generalizing i names n s with
  | zero =>
    obtain rfl := Option.some.inj hs
    rfl
  | succ count ih =>
    obtain ⟨hi, r, hr, hs⟩ := importNicks_cases hs
    have himports := importNick_imports hr
    have hplayer : i < g.playerCount := by omega
    have hplain := himports.plain hn
      (fun other ho hvalue => hlist.apart other _ (.inl hvalue) (.inr ⟨i, hi, hplayer, rfl⟩) ho)
      fun nick => hlist.short _ nick
    rw [plainImports, dif_pos hi, hplain]
    dsimp only
    rcases hs with ⟨hadd, rfl⟩ | ⟨hadd, t, ht, rfl⟩
    · rw [if_pos hadd]
    · have hnamed' : ∀ userId, .saveNick userId [] ∉ r.2.2 :=
        fun userId hm => hnamed userId (List.mem_append_left _ hm)
      have hlist' : Listable g r.2.1.registry := by
        have hkept := hlist.plainImport autoNickSave names[i] hn.keeps hi hplayer rfl (by
          rw [hplain]
          exact hnamed')
        rwa [hplain] at hkept
      have hrest := ih ht (by omega) (himports.coherent hn (hfresh.free i (Nat.le_refl i)) hnamed')
        (himports.fresh hfresh) (fun userId hm => hnamed userId (List.mem_append_right _ hm)) hlist'
      rw [if_neg (by simp [hadd]), hrest]

end players

/-- The names that a player list is filled in with, and the nicks that are saved for it, do not
depend on the table. -/
theorem playerList_plain {decode : Decoder} {registry : Registry} {autoNickSave autoScan auto : Bool}
    {delay : UInt32} {v : Window} {moves : List (Move Window (Action × Outcomes))} {o : Outcomes} {g : GameInfo}
    {names : Vector LocalName maxPlayers} {s : Vector LocalName maxPlayers × Nicks × List Event}
    (hreg : registry.KeepsNicks)
    (h : Run (Window.step decode) (.start registry autoNickSave autoScan delay) moves v)
    (hfresh : ∀ m ∈ moves, m.source.StepFresh m.action) (hnamed : ∀ userId, .saveNick userId [] ∉ v.log ++ s.2.2)
    (hs : importNicks o auto g g.playerCount 0 names v.nicks = some s) (ho : o.Fresh 0 v.nicks.table)
    (hlist : Listable g v.nicks.registry) :
    plainImports o auto g g.playerCount 0 names v.nicks.registry = (s.1, s.2.1.registry, s.2.2) :=
  importNicks_plain hs (Nat.le_of_eq (Nat.zero_add _))
    (nicks_run hreg h hfresh fun userId hm => hnamed userId (List.mem_append_left _ hm)).coherent ho
    (fun userId hm => hnamed userId (List.mem_append_right _ hm)) hlist

set_option maxRecDepth 100000 in
theorem listedAgain_runs : ∃ r ∈ execWindow false nickSubmitted,
    (∀ m ∈ r.1, m.source.nicks.table.heap.lookup 1 = none) ∧
    r.2.log = [.beginScan, .saveNick [0x53, 0x31] [0x41]] ∧
      (r.2.controls.game firstGame).playerCount = 1 ∧
      (∀ j : Fin maxPlayers, j.val < 1 →
        wstr ((r.2.controls.game firstGame).playerinfo.get j).userId = [0x53, 0x31] ∧
        wstr ((r.2.controls.game firstGame).playerinfo.get j).ingameName = []) ∧
      ∃ s ∈ importNicks idle false (r.2.controls.game firstGame) 1 0 (Vector.replicate _ (.zero _)) r.2.nicks,
        s.2.2 = [] ∧ wstr (s.1.get ⟨0, by decide⟩) = [0x41] := by
  decide +kernel

/-- The game is listed again without names, and the player gets the nick that was submitted. -/
theorem playerList_plain_submitted : ∃ moves v names reg,
    Run (Window.step fun _ _ => none) (.start emptyRegistry false false 60) moves v ∧
      wstr (names.get ⟨0, by decide⟩) = [0x41] ∧
      plainImports idle false (v.controls.game firstGame) (v.controls.game firstGame).playerCount 0
        (Vector.replicate _ (.zero _)) v.nicks.registry = (names, reg, []) := by
  obtain ⟨⟨moves, v⟩, hr, hlookup, hlog, hcount, hplayers, s, hs, hevents, hname⟩ := listedAgain_runs
  have hnamed : ∀ userId, .saveNick userId [] ∉ v.log ++ s.2.2 := by
    rw [hlog, hevents]
    simp
  have hfresh := nickSubmitted_fresh hr hlookup
  have hstored := (nicks_run keepsNicks_emptyRegistry (exec_run hr) hfresh fun userId hm =>
    hnamed userId (List.mem_append_left _ hm)).registry
  have hvalues : ∀ id data, v.nicks.registry.values regKeyNicks id = some data → id = [0x53, 0x31] ∧
      data = nickData [0x41] := by
    intro id data hd
    rw [hstored, hlog] at hd
    by_cases hid : id = [0x53, 0x31]
    · simpa [storedAll, Event.stored, Registry.setValue, hid, eq_comm] using hd
    · simp [storedAll, Event.stored, Registry.setValue, hid, emptyRegistry] at hd
  have honly : ∀ id, Identifies (v.controls.game firstGame) v.nicks.registry id → id = [0x53, 0x31] := by
    rintro id (hvalue | ⟨j, hj, hjc, rfl⟩)
    · obtain ⟨data, hd⟩ := Option.isSome_iff_exists.mp hvalue
      exact (hvalues id data hd).1
    · exact (hplayers ⟨j, hj⟩ (hcount ▸ hjc)).1
  have hlist : Listable (v.controls.game firstGame) v.nicks.registry := by
    refine ⟨fun id other hid hother _ => (honly id hid).trans (honly other hother).symm, fun id nick hn => ?_,
      fun j hj hjc => ?_⟩
    · rw [nickData_injective (hvalues id _ hn).2]
      decide
    · have hempty := (hplayers ⟨j, hj⟩ (hcount ▸ hjc)).2
      exact (congrArg List.length hempty).trans_lt (by decide)
  have ho : idle.Fresh 0 v.nicks.table := Outcomes.fresh_of_none (fun _ => rfl) 0 _
  rw [← hcount] at hs
  have hplain := playerList_plain keepsNicks_emptyRegistry (exec_run hr) hfresh hnamed hs ho hlist
  exact ⟨moves, v, s.1, s.2.1.registry, exec_run hr, hname, by rw [hplain, hevents]⟩

end BzccScanner
