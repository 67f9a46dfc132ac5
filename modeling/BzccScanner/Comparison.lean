import BzccScanner.Comparator
import BzccScanner.GameTypes

/-! When `CompareFunc` orders the rows of the game list. Differences of pings
wrap, so that pings are compared along a circle, and the order breaks as soon
as they do not lie on one half of it. -/

namespace BzccScanner

open CString Comparator

/-- What `CompareString` promises: 1, 2 and 3 for less, equal and greater. -/
structure StringOrder (compareString : List TChar → List TChar → Int) : Prop where
  result : ∀ s t, 1 ≤ compareString s t ∧ compareString s t ≤ 3
  swap : ∀ s t, compareString t s = 4 - compareString s t
  trans : ∀ s t u, compareString s t ≤ 2 → compareString t u ≤ 2 → compareString s u ≤ 2

theorem wrap_eq {n : Int} (h : -0x80000000 ≤ n ∧ n < 0x80000000) : wrap n = n := by
  unfold wrap
  omega

section order

variable {F : Type} {compareString : List TChar → List TChar → Int} {description : Int → Except F (List TChar)}
  {games : List GameInfo} {lastColSortIndex : Int}

/-- Both settings of `reverse_sort` order the games, and they order them the other way round. -/
structure ConsistentOrder (compare : Bool → GameInfo → GameInfo → Except F Int)
    (games : List GameInfo) : Prop where
  order : ∀ reverse, ∃ n : GameInfo → GameInfo → Int,
    (∀ g1 ∈ games, ∀ g2 ∈ games, compare reverse g1 g2 = .ok (n g1 g2)) ∧ Consistent n games
  reversed : ∀ g1 ∈ games, ∀ g2 ∈ games, ∀ m n, compare false g1 g2 = .ok m → compare true g1 g2 = .ok n →
    n.sign = -m.sign

theorem StringOrder.consistent (h : StringOrder compareString) (key : GameInfo → List TChar) :
    Consistent (fun g1 g2 => compareString (key g1) (key g2) - 2) games := by
  refine ⟨?_, ?_⟩
  · intro g1 _ g2 _
    have hswap := h.swap (key g1) (key g2)
    rw [sign_eq_neg_iff]
    omega
  · intro g1 _ g2 _ g3 _ h12 h23
    have htrans := h.trans (key g1) (key g2) (key g3)
    omega

theorem compareInts_eq (reverse : Bool) (m n : Int) :
    compareInts reverse m n = signed reverse (wrap (m - n)) := by
  by_cases h : wrap (m - n) = 0
  · have h0 : signed reverse 0 = 0 := by cases reverse <;> rfl
    simp [compareInts, h, h0]
  · simp [compareInts, h]

theorem StringOrder.compareSubstrs_eq (h : StringOrder compareString) (reverse : Bool) (s t : List TChar) :
    compareSubstrs compareString reverse s t = signed reverse (compareString s t - 2) := by
  have hr := h.result s t
  have hne : compareString s t ≠ 0 := by omega
  rw [compareSubstrs, if_pos hne, wrap_eq (by omega)]

theorem StringOrder.compareAlpha_eq (h : StringOrder compareString) (reverse : Bool) (s t : List TChar) :
    compareAlpha compareString reverse s t = signed reverse (compareString s t - 2) := by
  have hr := h.result s t
  have hne : compareString s t ≠ 0 := by omega
  rw [compareAlpha, if_pos hne, wrap_eq (by omega)]

/-- The games are compared by `n` before `reverse_sort` is looked at. -/
def ComparedBy (compare : Bool → GameInfo → GameInfo → Except F Int) (games : List GameInfo)
    (n : GameInfo → GameInfo → Int) : Prop :=
  ∀ reverse, ∀ g1 ∈ games, ∀ g2 ∈ games, compare reverse g1 g2 = .ok (signed reverse (n g1 g2))

theorem ComparedBy.consistentOrder {compare : Bool → GameInfo → GameInfo → Except F Int}
    {n : GameInfo → GameInfo → Int} (h : ComparedBy compare games n) (hn : Consistent n games)
    (hr : ∀ g1 ∈ games, ∀ g2 ∈ games, -0x80000000 < n g1 g2 ∧ n g1 g2 < 0x80000000) :
    ConsistentOrder compare games := by
  have hsign : ∀ g1 ∈ games, ∀ g2 ∈ games, (signed true (n g1 g2)).sign = -(n g1 g2).sign := by
    intro g1 h1 g2 h2
    have hrange := hr g1 h1 g2 h2
    rw [signed, if_pos rfl, wrap_eq (by omega), Int.sign_neg]
  refine ⟨?_, ?_⟩
  · intro reverse
    refine ⟨fun g1 g2 => signed reverse (n g1 g2), h reverse, ?_⟩
    cases reverse with
    | false => exact hn
    | true => exact hn.neg hsign
  · intro g1 h1 g2 h2 m k hm hk
    obtain rfl := Except.ok.inj ((h false g1 h1 g2 h2).symm.trans hm)
    obtain rfl := Except.ok.inj ((h true g1 h1 g2 h2).symm.trans hk)
    exact hsign g1 h1 g2 h2

theorem ConsistentOrder.comparedBy {compare : Bool → GameInfo → GameInfo → Except F Int}
    {n : GameInfo → GameInfo → Int} (h : ConsistentOrder compare games) (hn : ComparedBy compare games n) :
    Consistent n games := by
  obtain ⟨m, hm, hcons⟩ := h.order false
  apply hcons.congr
  intro g1 h1 g2 h2
  exact Except.ok.inj ((hn false g1 h1 g2 h2).symm.trans (hm g1 h1 g2 h2))

def pingDifference (g1 g2 : GameInfo) : Int := wrap (g1.serverPing - g2.serverPing)

/-- From `r` on, the pings take at most one half of the circle of 32-bit integers. -/
def PingsFrom (r : Int) (games : List GameInfo) : Prop :=
  ∀ g ∈ games, (g.serverPing - r) % 0x100000000 < 0x80000000

theorem PingsFrom.pingDifference {r : Int} (h : PingsFrom r games) {g1 g2 : GameInfo} (h1 : g1 ∈ games)
    (h2 : g2 ∈ games) : pingDifference g1 g2 =
      (g1.serverPing - r) % 0x100000000 - (g2.serverPing - r) % 0x100000000 := by
  have hlow := h g1 h1
  have hhigh := h g2 h2
  unfold BzccScanner.pingDifference wrap
  omega

theorem exists_pingsFrom (h : Consistent pingDifference games) : ∃ r, PingsFrom r games := by
  by_cases hne : games = []
  · exact ⟨0, by simp [PingsFrom, hne]⟩
  · obtain ⟨r, hr, hleast⟩ := h.exists_least hne
    refine ⟨r.serverPing, ?_⟩
    intro g hg
    have hle := hleast g hg
    have hswap := sign_eq_neg_iff.mp (h.antisymm r hr g hg)
    unfold pingDifference wrap at hle hswap
    omega

theorem comparedBy_ints {compare : Bool → GameInfo → GameInfo → Except F Int} (key : GameInfo → Int)
    (h : ∀ reverse g1 g2, compare reverse g1 g2 = .ok (compareInts reverse (key g1) (key g2))) :
    ComparedBy compare games fun g1 g2 => wrap (key g1 - key g2) := by
  intro reverse g1 _ g2 _
  rw [h, compareInts_eq]

theorem consistentOrder_of_ints {compare : Bool → GameInfo → GameInfo → Except F Int} (key : GameInfo → Int)
    (h : ∀ reverse g1 g2, compare reverse g1 g2 = .ok (compareInts reverse (key g1) (key g2)))
    (hkey : ∀ g ∈ games, 0 ≤ key g ∧ key g < 0x80000000) : ConsistentOrder compare games := by
  have hwrap : ∀ g1 ∈ games, ∀ g2 ∈ games, wrap (key g1 - key g2) = key g1 - key g2 := by
    intro g1 h1 g2 h2
    have hlow := hkey g1 h1
    have hhigh := hkey g2 h2
    exact wrap_eq (by omega)
  apply (comparedBy_ints key h).consistentOrder (consistent_of_key key hwrap)
  intro g1 h1 g2 h2
  have hlow := hkey g1 h1
  have hhigh := hkey g2 h2
  rw [hwrap g1 h1 g2 h2]
  omega

theorem StringOrder.consistentOrder (hs : StringOrder compareString)
    {compare : Bool → GameInfo → GameInfo → Except F Int} (key : GameInfo → List TChar)
    (h : ∀ reverse, ∀ g1 ∈ games, ∀ g2 ∈ games,
      compare reverse g1 g2 = .ok (signed reverse (compareString (key g1) (key g2) - 2))) :
    ConsistentOrder compare games := by
  apply ComparedBy.consistentOrder h (hs.consistent key)
  intro g1 _ g2 _
  have hr := hs.result (key g1) (key g2)
  omega

theorem pings_consistentOrder_iff {compare : Bool → GameInfo → GameInfo → Except F Int}
    (h : ∀ reverse g1 g2, compare reverse g1 g2 = .ok (compareInts reverse g1.serverPing g2.serverPing)) :
    ConsistentOrder compare games ↔ ∃ r, PingsFrom r games := by
  have hby : ComparedBy compare games pingDifference := comparedBy_ints GameInfo.serverPing h
  constructor
  · intro hc
    exact exists_pingsFrom (hc.comparedBy hby)
  · rintro ⟨r, hr⟩
    apply hby.consistentOrder
    · exact consistent_of_key (fun g => (g.serverPing - r) % 0x100000000) fun g1 h1 g2 h2 =>
        hr.pingDifference h1 h2
    · intro g1 h1 g2 h2
      have hlow := hr g1 h1
      have hhigh := hr g2 h2
      rw [hr.pingDifference h1 h2]
      omega

theorem compareFunc_consistentOrder_iff (hs : StringOrder compareString)
    (hd : ∀ g ∈ games, ∃ s, description g.gametype = .ok s) (hcount : ∀ g ∈ games, g.playerCount < 0x80000000) :
    ConsistentOrder (fun reverse => compareFunc compareString description reverse lastColSortIndex) games ↔
      (lastColSortIndex = colPing → ∃ r, PingsFrom r games) := by
  by_cases hping : lastColSortIndex = colPing
  · subst hping
    rw [forall_prop_of_true rfl]
    apply pings_consistentOrder_iff
    intro reverse g1 g2
    rw [compareFunc, if_neg (by decide), if_pos rfl]
  refine iff_of_true ?_ fun h => absurd h hping
  by_cases hpassword : lastColSortIndex = colPassword
  · apply consistentOrder_of_ints (fun g => g.pwd.toInt)
    · intro reverse g1 g2
      rw [compareFunc, if_pos hpassword]
    · intro g _
      cases g.pwd <;> decide
  by_cases hplayers : lastColSortIndex = colPlayers
  · apply consistentOrder_of_ints (fun g => g.playerCount)
    · intro reverse g1 g2
      rw [compareFunc, if_neg hpassword, if_neg hping, if_pos hplayers]
    · intro g hg
      have := hcount g hg
      omega
  by_cases hmap : lastColSortIndex = colMap
  · apply hs.consistentOrder (fun g => wstr g.map)
    intro reverse g1 _ g2 _
    rw [compareFunc, if_neg hpassword, if_neg hping, if_neg hplayers, if_pos hmap, hs.compareSubstrs_eq]
  by_cases hgametype : lastColSortIndex = colGametype
  · apply hs.consistentOrder (fun g => (description g.gametype).toOption.getD [])
    intro reverse g1 h1 g2 h2
    obtain ⟨s1, hs1⟩ := hd g1 h1
    obtain ⟨s2, hs2⟩ := hd g2 h2
    rw [compareFunc, if_neg hpassword, if_neg hping, if_neg hplayers, if_neg hmap, if_pos hgametype, hs1, hs2]
    exact congrArg Except.ok (hs.compareSubstrs_eq reverse s1 s2)
  by_cases hgamemod : lastColSortIndex = colGamemod
  · apply hs.consistentOrder (fun g => wstr g.modName)
    intro reverse g1 _ g2 _
    rw [compareFunc, if_neg hpassword, if_neg hping, if_neg hplayers, if_neg hmap, if_neg hgametype,
      if_pos hgamemod, hs.compareSubstrs_eq]
  · apply hs.consistentOrder (fun g => wstr g.name)
    intro reverse g1 _ g2 _
    rw [compareFunc, if_neg hpassword, if_neg hping, if_neg hplayers, if_neg hmap, if_neg hgametype,
      if_neg hgamemod, hs.compareAlpha_eq]

end order

def pinged (ping : Int) : GameInfo := { GameInfo.zero with serverPing := ping }

/-- The order of the code units. -/
def compareUnits (s t : List TChar) : Int :=
  match compare s t with
  | .lt => 1
  | .eq => 2
  | .gt => 3

theorem compareUnits_order : StringOrder compareUnits := by
  refine ⟨?_, ?_, ?_⟩
  · intro s t
    unfold compareUnits
    split <;> omega
  · intro s t
    have hswap : compare t s = (compare s t).swap := Std.OrientedCmp.eq_swap
    rw [compareUnits, compareUnits, hswap]
    cases compare s t <;> rfl
  · intro s t u hst htu
    have hle : ∀ s t, compareUnits s t ≤ 2 ↔ (compare s t).isLE := by
      intro s t
      unfold compareUnits
      cases compare s t <;> simp [Ordering.isLE]
    rw [hle] at hst htu ⊢
    exact Std.TransCmp.isLE_trans hst htu

theorem compareFunc_consistentOrder_iff_near :
    ConsistentOrder (fun reverse => compareFunc compareUnits getGameTypeDescription reverse colPing)
      [pinged 0x7fffffff, pinged 0, pinged 50] :=
  (compareFunc_consistentOrder_iff compareUnits_order
    (by simp [pinged, GameInfo.zero, getGameTypeDescription_eq, ListedType])
    (by simp [pinged, GameInfo.zero])).mpr fun _ => ⟨0, by simp [PingsFrom, pinged]⟩

/-- Each of the two games comes in front of the other one. -/
theorem pings_opposed :
    compareFunc compareUnits getGameTypeDescription false colPing (pinged 0x7fffffff) (pinged (-1)) =
      .ok (-0x80000000) ∧
    compareFunc compareUnits getGameTypeDescription false colPing (pinged (-1)) (pinged 0x7fffffff) =
      .ok (-0x80000000) ∧
    ¬ ConsistentOrder (fun reverse => compareFunc compareUnits getGameTypeDescription reverse colPing)
      [pinged 0x7fffffff, pinged (-1)] := by
  have h12 : compareFunc compareUnits getGameTypeDescription false colPing (pinged 0x7fffffff) (pinged (-1)) =
      .ok (-0x80000000) := rfl
  have h21 : compareFunc compareUnits getGameTypeDescription false colPing (pinged (-1)) (pinged 0x7fffffff) =
      .ok (-0x80000000) := rfl
  refine ⟨h12, h21, fun h => ?_⟩
  obtain ⟨n, hn, hcons⟩ := h.order false
  have hs := hcons.antisymm (pinged 0x7fffffff) (by simp) (pinged (-1)) (by simp)
  rw [← Except.ok.inj (h12.symm.trans (hn _ (by simp) _ (by simp))),
    ← Except.ok.inj (h21.symm.trans (hn _ (by simp) _ (by simp)))] at hs
  exact absurd hs (by decide)

end BzccScanner
