import BzccScanner.NoStaleData

/-! How many players a game counts: one for each last member that is accepted.
The players that are accepted at all have contiguous indices, so they are all counted when each of
them has a last member. -/

namespace BzccScanner

open CString

variable {decode : Decoder} {cancels : Nat → Bool} {c : Counters} {done ks : List Item} {k : Item} {i n : Nat}

def Report.countsPlayer (k : Report) : Bool := k.isPlayer ∧ k.status = .last ∧ k.player < maxPlayers

theorem GameInfo.writePlayer_playerCount (decode : Decoder) (k : Report) (j : Fin maxPlayers) (g : GameInfo) :
    (g.writePlayer decode k j).playerCount = g.playerCount := by
  rw [writePlayer]
  cases playerCase decode k.value (getKeyIdentifier .unknown k.key playerKeyToId) <;> rfl

theorem GameInfo.receiveServer_playerCount (decode : Decoder) (k : Report) (g : GameInfo) :
    (g.receiveServer decode k).playerCount = g.playerCount := by
  have hw : (g.writeServer decode k).playerCount = g.playerCount := by
    rw [GameInfo.writeServer]
    cases hf : serverCase decode k.value (getKeyIdentifier .unknown k.key serverKeyToId) with
    | none => rfl
    | some f => exact serverCase_playerCount hf g
  rw [receiveServer]
  split_ifs
  · exact (GameInfo.nameMods_playerCount _).trans hw
  · exact hw

theorem GameInfo.receive_playerCount (decode : Decoder) (g : GameInfo) (k : Report) :
    (g.receive decode k).playerCount = g.playerCount + if k.countsPlayer then 1 else 0 := by
  by_cases hp : k.isPlayer = true
  · rw [receive, if_pos hp]
    by_cases hj : k.player < maxPlayers
    · rw [dif_pos hj, receivePlayer]
      by_cases hs : k.status = .last
      · rw [if_pos hs, if_pos (by simp [Report.countsPlayer, hp, hs, hj]), countPlayer, writePlayer_playerCount]
      · rw [if_neg hs, if_neg (by simp [Report.countsPlayer, hs]), writePlayer_playerCount, Nat.add_zero]
    · rw [dif_neg hj, if_neg (by simp [Report.countsPlayer, hj]), Nat.add_zero]
  · rw [receive_server (by simpa using hp), receiveServer_playerCount, if_neg (by simp [Report.countsPlayer, hp]),
      Nat.add_zero]

theorem gameOf_playerCount (decode : Decoder) (i : Nat) (ks : List Report) :
    (gameOf decode i ks).playerCount = (ks.filter fun k => k.server == i).countP Report.countsPlayer := by
  rw [gameOf]
  induction ks.filter (fun k => k.server == i) using List.reverseRecOn with
  | nil => rfl
  | append_singleton ks k ih =>
    rw [List.foldl_append, List.foldl_cons, List.foldl_nil, GameInfo.receive_playerCount, ih, List.countP_append,
      List.countP_singleton]

theorem Counters.accepted_complete (ho : (done ++ ks).Pairwise Item.Precedes) (hc : Complete done)
    (ht : c.Tallies done) :
    Complete (done ++ (accepted cancels n c ks).1) := by
  induction ks generalizing n c done with
  | nil => simpa [accepted] using hc
  | cons k ks ih =>
    have hk : ∀ l ∈ done, l.Precedes k := fun l hl => (List.pairwise_append.mp ho).2.2 l hl k (by simp)
    rw [accepted]
    split_ifs
    · simpa using hc
    · rcases ht.step hk with ⟨hcont, d, hd, htd⟩ | ⟨-, hnone⟩
      · have hi := ih (n := n + 1) (by simpa using ho) ((complete_append_singleton hk).mpr ⟨hc, hcont⟩) htd
        rw [hd]
        simpa using hi
      · rw [hnone]
        simpa using hc

theorem ScanRun.accepted_complete (r : ScanRun) : Complete r.accepted := by
  have h : r.members.Pairwise Item.Precedes := ((Client.init _).run_ordered _).filter _
  show Complete ([] ++ r.accepted)
  exact Counters.accepted_complete h (by simp [Complete]) Counters.tallies_nil

/-- A player among the accepted members is counted, when every player of its game has an accepted last member. -/
theorem counted_of_lasts (hc : Complete done) (hlasts : ∀ k ∈ done, k.depth = 5 → k.serverIndex = i →
    ∃ l ∈ done, l.depth = 5 ∧ l.serverIndex = i ∧ l.playerIndex = k.playerIndex ∧ l.status = .last)
    (hk : k ∈ done) (hd : k.depth = 5) (hs : k.serverIndex = i) :
    k.playerIndex < (gameOf decode i (done.map Item.report)).playerCount := by
  let lasts := (done.map Item.report).filter fun l => l.countsPlayer && l.server == i
  have hcount : (gameOf decode i (done.map Item.report)).playerCount = lasts.length := by
    rw [gameOf_playerCount, List.countP_filter, List.countP_eq_length_filter]
  have hall : ∀ m ∈ List.range (k.playerIndex + 1), m ∈ lasts.map Report.player := by
    intro m hm
    have hm : m < k.playerIndex + 1 := List.mem_range.mp hm
    obtain ⟨p, hp, hpd, hps, hpm⟩ : ∃ p ∈ done, p.depth = 5 ∧ p.serverIndex = i ∧ p.playerIndex = m := by
      rcases Nat.lt_succ_iff_lt_or_eq.mp hm with hlt | rfl
      · obtain ⟨p, hp, hpd, hps, hpm⟩ := (hc k hk).2.2.2 hd m hlt
        exact ⟨p, hp, hpd, hps.trans hs, hpm⟩
      · exact ⟨k, hk, hd, hs, rfl⟩
    obtain ⟨l, hl, hld, hls, hlm, hlast⟩ := hlasts p hp hpd hps
    obtain ⟨hi128, hj16, -⟩ := hc l hl
    have hserver : l.report.server = i := (l.report_server hi128).trans hls
    have hplayer : l.report.player = l.playerIndex := l.report_player hj16
    have hp5 : l.report.isPlayer = true := by simp [Item.report, Item.kvi, KeyValueInfo.report, hld]
    have hlast' : l.report.status = .last := hlast
    refine List.mem_map.mpr ⟨l.report, List.mem_filter.mpr ⟨List.mem_map_of_mem hl, ?_⟩,
      hplayer.trans (hlm.trans hpm)⟩
    simp [Report.countsPlayer, hp5, hlast', hserver, hplayer, hj16]
  have hle := List.Nodup.length_le_of_subset List.nodup_range hall
  rw [List.length_range, List.length_map] at hle
  omega

end BzccScanner
