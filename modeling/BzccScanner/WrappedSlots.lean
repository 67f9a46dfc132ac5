import BzccScanner.LobbyReports
import BzccScanner.Scanning

/-! Lobby documents with 2^31 empty objects in front of a member. The member is
told with a negative index, which passes the tests of the range, and so it is
written wherever the members before it were written. -/

namespace BzccScanner

open CString

def emptyServer : Server := ⟨[], .empty [], []⟩

def emptyPlayer : Player := ⟨[], .empty [], []⟩

theorem placeServers_empties (m n : Nat) (ss : List Server) :
    placeServers m (List.replicate n emptyServer ++ ss) = placeServers (m + n) ss := by
  induction n generalizing m with
  | zero => rfl
  | succ n ih =>
    rw [List.replicate_succ, List.cons_append, placeServers, ih, Nat.add_assoc, Nat.add_comm 1 n]
    rfl

theorem placePlayers_empties (server m n : Nat) (ps : List Player) :
    placePlayers server m (List.replicate n emptyPlayer ++ ps) = placePlayers server (m + n) ps := by
  induction n generalizing m with
  | zero => rfl
  | succ n ih =>
    rw [List.replicate_succ, List.cons_append, placePlayers, ih, Nat.add_assoc, Nat.add_comm 1 n]
    rfl

/-- Two servers with `n` empty ones between them. -/
def farServers (n : Nat) (first last : Listing Member) : Lobby :=
  ⟨[], ⟨[], keyG, [], []⟩, .items ⟨[], first, []⟩ (List.replicate n emptyServer ++ [⟨[], last, []⟩]), [], []⟩

/-- A server with one player behind `n + 1` empty ones. -/
def farPlayer (n : Nat) (fields : Listing Field) : Lobby :=
  oneServer <| .items
    (.players ⟨[], keyP, [], []⟩ (.items emptyPlayer (List.replicate n emptyPlayer ++ [⟨[], fields, []⟩])) []) []

theorem farServers_placed (n : Nat) (first last : Listing Member) : (farServers n first last).placed =
    placeMembers 0 0 first.toList ++ placeMembers (n + 1) 0 last.toList := by
  have hlast := placeServers_empties 1 n [⟨[], last, []⟩]
  rw [Lobby.placed, farServers, Listing.toList, placeServers, hlast, Nat.add_comm 1 n, placeServers, placeServers,
    List.append_nil]

theorem farPlayer_placed (n : Nat) (fields : Listing Field) :
    (farPlayer n fields).placed = placeFields 0 (n + 1) fields.toList := by
  have hlast := placePlayers_empties 0 1 n [⟨[], fields, []⟩]
  have hplaced : (farPlayer n fields).placed =
      placePlayers 0 1 (List.replicate n emptyPlayer ++ [⟨[], fields, []⟩]) ++ [] ++ [] := rfl
  rw [hplaced, hlast, Nat.add_comm 1 n, placePlayers, placePlayers, List.append_nil, List.append_nil,
    List.append_nil]

namespace Lobby

def fileScan (l : Lobby) : ScanRun := ⟨.file (.ok (Division.single l.text).reads), .zero, fun _ => false⟩

variable {decode : Decoder} {w : WindowControls} {l : Lobby} {u : World Session}

theorem run_file (l : Lobby) : ∃ c, (Client.init false).run l.text = (l.placed.map Placed.item, .ok c) := by
  obtain ⟨t, ht⟩ := l.run_text
  obtain ⟨hitems, c, hc, -⟩ := observe_eq_ok.mp ((Client.run_file l.text).trans ht)
  exact ⟨c, Prod.ext hitems hc⟩

/-- A scan of the document is the delivery of its members, and the last call. -/
theorem scanThread_fileScan
    (h : (l.placed.map Placed.item).foldlM (deliver (sessionCallback decode fun _ => false))
      (World.init ⟨.ok w.beginScan.prepare, 0⟩) = .ok u) : scanThread decode l.fileScan w.beginScan =
    .ok (reportEnd (sessionCallback decode fun _ => false) 0 u) := by
  obtain ⟨c, hc⟩ := l.run_file
  have hparse : parseData (sessionCallback decode fun _ => false) false ⟨.ok w.beginScan.prepare, 0⟩
      (Division.single l.text).reads = .ok (0, u) := by
    rw [parseData_eq, hc, drain, h]
    rfl
  have hscan : scanThread decode l.fileScan w.beginScan = scan (sessionCallback decode fun _ => false) false .zero
      ⟨.ok w.beginScan.prepare, 0⟩ (.ok (Division.single l.text).reads) := rfl
  rw [hscan, scan, hparse]
  rfl

theorem start_fileScan (l : Lobby) (garbage : KeyValueInfo) :
    Scanning.start l.fileScan.source garbage = ⟨l.placed.map Placed.item, .ok (0, none), .zero⟩ := by
  obtain ⟨c, hc⟩ := l.run_file
  have hall : (l.placed.map Placed.item).filter Item.delivered = l.placed.map Placed.item := by
    rw [List.filter_eq_self, List.forall_mem_map]
    exact fun p _ => item_delivered p
  have hstart : Scanning.start l.fileScan.source garbage =
      ⟨((Client.init false).run (received (Division.single l.text).reads)).1.filter Item.delivered,
        parseEnding (failure (Division.single l.text).reads)
          ((Client.init false).run (received (Division.single l.text).reads)).2, .zero⟩ := rfl
  rw [hstart, received_division, failure_division, hc, hall]
  rfl

end Lobby

end BzccScanner
