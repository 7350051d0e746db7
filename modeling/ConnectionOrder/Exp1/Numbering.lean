import ConnectionOrder.Exp1.Client7
import ConnectionOrder.Exp1.Codec
import ConnectionOrder.Exp1.Server6Log

/-!
# client7 against server6

client7 numbers the packets of a connection where it writes them, server6 where it logs
them. The bytes of a socket arrive in order; how many of them have arrived, and in which
pieces, is open.
-/

namespace ConnectionOrder.Numbering

open Machine Monitor Scan Lines Mutex Keyed
open Codec (Plain plain_decimal plain_word newline_notMem_map)
open ClientFinal (connId)
open Client7 (threads)
open RecordLoop (server6 opened written received)

/-- A line of client7 without its newline. -/
def text (thread : Fin threads) (i : Int) : List Char :=
  ['C', 'O', 'N', 'N', ':'] ++ decimal (connId thread) ++ ['|', 'P', 'K', 'T', ':'] ++ decimal i

def bytes (s : List Char) : List UInt8 := s.map Char.toUInt8

theorem plain_text (thread : Fin threads) (i : Int) : ∀ c ∈ text thread i, Plain c := by
  intro c hc
  rw [text, List.mem_append, List.mem_append, List.mem_append] at hc
  rcases hc with ((hword | hconn) | hword) | hnumber
  · exact plain_word rfl c hword
  · exact plain_decimal c hconn
  · exact plain_word rfl c hword
  · exact plain_decimal c hnumber

def texts (thread : Fin threads) (k : Nat) : List (List UInt8) :=
  (List.range k).map fun j => bytes (text thread ((j : Nat) + 1))

/-- What a socket is given are whole lines. -/
theorem bytes_packets (thread : Fin threads) (k : Nat) :
    bytes (Client7.packets thread k).flatten = terminate Server6.newline (texts thread k) := by
  rw [terminate, texts, List.flatMap_map, bytes, Client7.packets, List.map_flatten, List.map_map,
    List.flatMap_def]
  congr 1
  apply List.map_congr_left
  intro j _
  exact List.map_append

theorem notMem_texts {thread : Fin threads} {k : Nat} :
    ∀ line ∈ texts thread k, Server6.newline ∉ line ∧ 0 ∉ line := by
  intro line hline
  obtain ⟨j, _, rfl⟩ := List.mem_map.mp hline
  have hplain := plain_text thread ((j : Nat) + 1)
  refine ⟨newline_notMem_map hplain, fun hmem => ?_⟩
  obtain ⟨c, hc, hnul⟩ := List.mem_map.mp hmem
  exact (hplain c hc).toUInt8_ne.2 hnul

theorem length_text {thread : Fin threads} {i : Int} (hlow : 0 ≤ i) (hhigh : i ≤ intMax) :
    (bytes (text thread i)).length < Server6.bufferSize := by
  have hthread : thread.val < 2 := thread.isLt
  have hconn : (decimal (connId thread)).length ≤ 11 := by
    apply length_decimal
    · rw [intMin, connId]
      omega
    · rw [intMax, connId]
      omega
  have hnumber : (decimal i).length ≤ 11 := by
    apply length_decimal
    · rw [intMin]
      omega
    · exact hhigh
  simp only [bytes, text, List.length_map, List.length_append, List.length_cons, List.length_nil,
    Server6.bufferSize]
  omega

theorem lines_texts (thread : Fin threads) (k : Nat) :
    lines Server6.newline (terminate Server6.newline (texts thread k)) = texts thread k := by
  have hnewline : ∀ line ∈ texts thread k, Server6.newline ∉ line :=
    fun line hline => (notMem_texts line hline).1
  have hwhole := lines_terminate hnewline []
  rwa [List.append_nil, lines_nil, List.append_nil] at hwhole

theorem fits_texts (thread : Fin threads) {k : Nat} (hk : (k : Int) ≤ intMax) :
    Server6.Fits (terminate Server6.newline (texts thread k)) := by
  have hrest : remainder Server6.newline (terminate Server6.newline (texts thread k)) = [] := by
    have hparts : terminate Server6.newline (lines Server6.newline _) ++ _ = _ :=
      terminate_lines (terminate Server6.newline (texts thread k))
    rw [lines_texts] at hparts
    exact List.append_right_eq_self.mp hparts
  constructor
  · intro hmem
    obtain ⟨line, hline, hnul⟩ := List.mem_flatMap.mp hmem
    rcases List.mem_append.mp hnul with hin | hend
    · exact (notMem_texts line hline).2 hin
    · cases List.mem_singleton.mp hend
  · rw [lines_texts]
    intro line hline
    obtain ⟨j, hj, rfl⟩ := List.mem_map.mp hline
    have hlt := List.mem_range.mp hj
    exact length_text (by omega) (by omega)
  · rw [hrest]
    decide

/-- What has arrived of whole lines begins with some of them. -/
theorem lines_of_prefix {thread : Fin threads} {k : Nat} {s : List UInt8}
    (h : s <+: terminate Server6.newline (texts thread k)) :
    ∃ m ≤ k, lines Server6.newline s = texts thread m := by
  obtain ⟨rest, hrest⟩ := h
  have hwhole := lines_texts thread k
  rw [← hrest, lines_append] at hwhole
  have hlength := congrArg List.length hwhole
  rw [List.length_append, texts, List.length_map, List.length_range] at hlength
  refine ⟨(lines Server6.newline s).length, by omega, ?_⟩
  have htake := congrArg (List.take (lines Server6.newline s).length) hwhole
  rw [List.take_left, texts, ← List.map_take, List.take_range, Nat.min_eq_left (by omega)] at htake
  exact htake

theorem rounds_le (threadPackets : Int32) : (Client7.rounds threadPackets : Int) ≤ intMax := by
  have hlt := threadPackets.toInt_lt
  rw [Client7.rounds, intMax]
  omega

/-! ## Both programs -/

variable {threadPackets : Int32} {fails : Fin threads → Bool}

/-- The bytes of one socket have arrived at each accepted connection, as far as they have. -/
def Delivers (x : Client7.Run threadPackets fails) (y : RecordLoop.Run server6)
    (source : Nat → Fin threads) : Prop :=
  ∀ address fd, (address, fd) ∈ y.observed opened →
    Server6.stream (received y address) <+: bytes (x.final.shared.sock (source address))

theorem sock_eq (x : Client7.Run threadPackets fails) (hcomplete : x.EachStep Client7.Complete)
    (thread : Fin threads) : bytes (x.final.shared.sock thread) =
      terminate Server6.newline (texts thread ((x.observed actors).count thread)) := by
  obtain ⟨hfile, hsock⟩ := Client7.logfile_eq x thread
  rw [hsock hcomplete, hfile, bytes_packets]

theorem count_le (x : Client7.Run threadPackets fails) (thread : Fin threads) :
    ((x.observed actors).count thread : Int) ≤ intMax := by
  have h : (Client7.mutex threadPackets).At fails x.final (x.observed actors) :=
    Mutex.Laws.at_final x
  have hcount := h.count_le thread
  have hrounds := rounds_le threadPackets
  split at hcount <;> omega

/-- The entries that server6 writes for the first `m` packets of a connection. -/
def logged (fd : Fd) (thread : Fin threads) (m : Nat) : List Server6.Entry :=
  (List.range m).map fun j => ⟨fd, (j : Nat) + 1, bytes (text thread ((j : Nat) + 1))⟩

theorem mapIdx_texts (fd : Fd) (thread : Fin threads) (m : Nat) :
    (texts thread m).mapIdx (fun i line => (⟨fd, (i : Int) + 1, line⟩ : Server6.Entry)) =
      logged fd thread m := by
  apply List.ext_getElem
  · simp only [texts, logged, List.length_mapIdx, List.length_map]
  · intro j _ _
    simp only [texts, logged, List.getElem_mapIdx, List.getElem_map, List.getElem_range]

/-- Every entry of the log carries the number that client7 gave its packet, whatever the
order in which the connections send and the server reads. The entries of a connection are
its first packets, and all of them once all its bytes are there. -/
theorem numbers_agree (x : Client7.Run threadPackets fails)
    (hcomplete : x.EachStep Client7.Complete) (y : RecordLoop.Run server6)
    (hdefined : y.final ≠ none) (source : Nat → Fin threads) (hdelivers : Delivers x y source) :
    (∀ p ∈ y.observed written, p.2.data = bytes (text (source p.1) p.2.pkt)) ∧
    ∀ address fd, (address, fd) ∈ y.observed opened →
      ∃ m ≤ (x.observed actors).count (source address),
        select address (y.observed written) = logged fd (source address) m ∧
        (Server6.stream (received y address) = bytes (x.final.shared.sock (source address)) →
          m = (x.observed actors).count (source address)) := by
  obtain ⟨s, hs⟩ := Option.ne_none_iff_exists'.mp hdefined
  have hentries : ∀ address fd, (address, fd) ∈ y.observed opened →
      ∃ m ≤ (x.observed actors).count (source address),
        select address (y.observed written) = logged fd (source address) m ∧
        (Server6.stream (received y address) = bytes (x.final.shared.sock (source address)) →
          m = (x.observed actors).count (source address)) := by
    intro address fd hmem
    have hprefix := hdelivers address fd hmem
    rw [sock_eq x hcomplete] at hprefix ⊢
    obtain ⟨m, hm, hlines⟩ := lines_of_prefix hprefix
    have hfits := fits_texts (source address) (count_le x (source address))
    obtain ⟨rest, hrest⟩ := hprefix
    rw [← hrest] at hfits
    refine ⟨m, hm, ?_, fun hwhole => ?_⟩
    · rw [RecordLoop.entries_of_record y hs hmem hfits.front, hlines, mapIdx_texts]
    · have hlength := congrArg List.length hlines
      rw [hwhole, lines_texts, texts, texts, List.length_map, List.length_map, List.length_range,
        List.length_range] at hlength
      exact hlength.symm
  refine ⟨fun p hp => ?_, hentries⟩
  obtain ⟨fd, hmem⟩ := RecordLoop.opened_of_written y hs hp
  obtain ⟨m, _, hselect, _⟩ := hentries p.1 fd hmem
  have hentry : p.2 ∈ logged fd (source p.1) m := hselect ▸ mem_select.mpr hp
  obtain ⟨j, _, hj⟩ := List.mem_map.mp hentry
  rw [← hj]

def first : Fin threads := ⟨0, by decide⟩

def whole : Client7.Answer := ⟨true, true, 50⟩

def firstRun : Client7.Run 1 (fun _ => false) :=
  ⟨Monitor.start Client7.initial,
    [.connect first whole, .again first whole, .lock first, .test first, .act first whole],
    rfl, by decide⟩

/-- "CONN:1|PKT:1", newline -/
def firstPacket : Chunk Server6.bufferSize :=
  ⟨[67, 79, 78, 78, 58, 49, 124, 80, 75, 84, 58, 49, 10], by decide, by decide⟩

def firstInputs : List (RecordLoop.Input Server6.bufferSize) :=
  [.wait [3], .event .again, .accept (some 5), .accept none, .wait [5], .event (.data firstPacket)]

theorem permitted_first : Along (RecordLoop.step server6) (RecordLoop.Permitted server6)
    (some (RecordLoop.start server6 3)) firstInputs := by
  refine ⟨⟨_, rfl, rfl, rfl, rfl, by decide, by decide, by with_unfolding_all decide⟩, ?_⟩
  refine ⟨⟨_, rfl, rfl, by decide, fun _ _ => trivial⟩, ?_⟩
  refine ⟨⟨_, rfl, rfl, by with_unfolding_all decide⟩, ?_⟩
  refine ⟨⟨_, rfl, rfl, by with_unfolding_all decide⟩, ?_⟩
  refine ⟨⟨_, rfl, rfl, rfl, rfl, by decide, by decide, by with_unfolding_all decide⟩, ?_⟩
  exact ⟨⟨_, rfl, RecordLoop.allowed_first 0 firstPacket rfl rfl rfl rfl⟩, trivial⟩

def firstServer : RecordLoop.Run server6 :=
  ⟨some (RecordLoop.start server6 3), firstInputs, RecordLoop.initial_three, permitted_first⟩

theorem complete_first : firstRun.EachStep Client7.Complete := by
  refine ⟨trivial, trivial, trivial, trivial, fun i hi => ?_, trivial⟩
  have hone : i = 1 := by
    cases hi
    rfl
  subst hone
  decide

theorem delivers_first : Delivers firstRun firstServer fun _ => first := by
  intro address fd hmem
  have hopened : firstServer.observed opened = [(0, 5)] := rfl
  rw [hopened] at hmem
  cases List.mem_singleton.mp hmem
  exact ⟨[], rfl⟩

theorem numbers_agree_first : select 0 (firstServer.observed written) = logged 5 first 1 := by
  have hopened : (0, 5) ∈ firstServer.observed opened := List.mem_singleton_self _
  obtain ⟨m, _, hselect, hwhole⟩ := (numbers_agree firstRun complete_first firstServer
    (Option.some_ne_none _) (fun _ => first) delivers_first).2 0 5 hopened
  have hm : m = 1 := hwhole rfl
  rw [hselect, hm]

end ConnectionOrder.Numbering
