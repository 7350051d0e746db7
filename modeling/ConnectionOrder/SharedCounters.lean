import ConnectionOrder.ServerEpx3.Packets
import ConnectionOrder.ServerEpx3.PairCounts
import ConnectionOrder.ServerExp2.Counting

/-!
# What the counters of both servers mean

Both servers count the blocks of the greedy cut of the data events into shortest
blocks with events of both connections, and no family of disjoint such blocks is
larger. Both divide each chunk by their packet size, so that their packet counters
depend on how the stream is cut.
-/

namespace ConnectionOrder

open Machine Pairing Quotients

/-! ## Pairs -/

/-- What three counters that start from zero hold after the events w. -/
theorem fresh_observed (w : List Side) :
    (w.foldl observe fresh).oneBeforeTwo = beginning .one (Blocks.cut Full w) ∧
    (w.foldl observe fresh).twoBeforeOne = beginning .two (Blocks.cut Full w) ∧
    (w.foldl observe fresh).both = (Blocks.cut Full w).length := by
  obtain ⟨hone, htwo, hboth⟩ := foldl_observe fresh [] rfl not_full_nil w
  rw [hone, htwo, hboth]
  exact ⟨Nat.zero_add _, Nat.zero_add _, Nat.zero_add _⟩

/-- From a state with nothing pending, while the two connections stay. -/
theorem pair_counters_blocks :
    (∀ (s : ServerExp2.State) (is : List ServerExp2.Input), s.pick = -1 →
      s.firstSocket ≠ s.secondSocket → Along ServerExp2.step (fun s _ => s.count = 2) s is →
      let blocks := Blocks.cut Full (collect ServerExp2.step ServerExp2.heard s is)
      let counters := (run ServerExp2.step s is).counters
      counters.both = s.counters.both + blocks.length ∧
      counters.socket1BeforeSocket2 = s.counters.socket1BeforeSocket2 + beginning .one blocks ∧
      counters.socket2BeforeSocket1 = s.counters.socket2BeforeSocket1 + beginning .two blocks) ∧
    (∀ (s : ServerEpx3.State) (is : List ServerEpx3.Input), s.pick = -1 →
      s.slots.persistentFd ≠ -1 → s.slots.nonPersistentFd ≠ -1 →
      s.slots.persistentFd ≠ s.slots.nonPersistentFd →
      Along ServerEpx3.step ServerEpx3.Steady s is →
      let blocks := Blocks.cut Full (collect ServerEpx3.step ServerEpx3.heard s is)
      let progress := (run ServerEpx3.step s is).progress
      progress.both = s.progress.both + blocks.length ∧
      progress.persistentCount =
        s.progress.persistentCount + UInt64.ofNat (beginning .one blocks) ∧
      progress.nonPersistentCount =
        s.progress.nonPersistentCount + UInt64.ofNat (beginning .two blocks)) ∧
    ∀ w : List Side, IsGreatest
      {n | ∃ family, Blocks.Packs Full w family ∧ family.card = n} (Blocks.cut Full w).length := by
  refine ⟨?_, ?_, ?_⟩
  · intro s is hpick _ hcount
    obtain ⟨_, hone, htwo, hboth⟩ := ServerExp2.paired_run hpick hcount
    obtain ⟨hone', htwo', hboth'⟩ := fresh_observed (collect ServerExp2.step ServerExp2.heard s is)
    rw [hone'] at hone
    rw [htwo'] at htwo
    rw [hboth'] at hboth
    exact ⟨hboth, hone, htwo⟩
  · intro s is hpick hper hnon hne hsteady
    obtain ⟨_, _, _, hone, htwo, hboth⟩ := ServerEpx3.paired_run hpick hper hnon hne hsteady
    obtain ⟨hone', htwo', hboth'⟩ := fresh_observed (collect ServerEpx3.step ServerEpx3.heard s is)
    rw [hone'] at hone
    rw [htwo'] at htwo
    rw [hboth'] at hboth
    exact ⟨hboth, hone, htwo⟩
  · exact Blocks.isGreatest_cut (fun _ _ => full_of_infix) not_full_nil

def sendsExp2 : ServerExp2.Input :=
  .event ⟨none, true, true, .data ServerExp2.chunkOne, fun _ => ⟨0, 0⟩⟩

/-- Connections 4 and 5 of serverexp2 send in the order 4, 5, 5, 4. -/
def crossedExp2 : List ServerExp2.Input :=
  [.wait (some [4, 5]), sendsExp2, sendsExp2, .wait (some [5, 4]), sendsExp2, sendsExp2]

def acceptedExp2 : ServerExp2.State :=
  run ServerExp2.step (ServerExp2.start 3)
    [.wait (some [3]), .event ⟨some 4, true, true, .again, fun _ => ⟨0, 0⟩⟩,
      .wait (some [3]), .event ⟨some 5, true, true, .again, fun _ => ⟨0, 0⟩⟩]

def crossedEpx3 : List ServerEpx3.Input :=
  [ServerEpx3.ready [4, 5] 1, ServerEpx3.receives (.data ServerEpx3.chunkP) true 1,
    ServerEpx3.receives (.data ServerEpx3.chunkN) true 1, ServerEpx3.ready [5, 4] 2,
    ServerEpx3.receives (.data ServerEpx3.chunkN) true 2,
    ServerEpx3.receives (.data ServerEpx3.chunkP) true 2]

def acceptedEpx3 : ServerEpx3.State :=
  run ServerEpx3.step ServerEpx3.freshStart
    [ServerEpx3.ready [3] 0, ServerEpx3.accepts 4 true 0, ServerEpx3.ready [3] 0,
      ServerEpx3.accepts 5 true 0]

theorem pair_counters_crossed :
    (run ServerExp2.step acceptedExp2 crossedExp2).counters.both = 2 ∧
    (run ServerEpx3.step acceptedEpx3 crossedEpx3).progress.both = 2 ∧
    (run ServerEpx3.step acceptedEpx3 crossedEpx3).progress.persistentCount = 1 := by
  obtain ⟨hexp2, hepx3, _⟩ := pair_counters_blocks
  obtain ⟨hboth, _⟩ := hexp2 acceptedExp2 crossedExp2 (by decide) (by decide) (by decide)
  obtain ⟨hboth', hone, _⟩ := hepx3 acceptedEpx3 crossedEpx3 (by decide) (by decide) (by decide)
    (by decide) (by with_unfolding_all decide)
  refine ⟨hboth.trans ?_, hboth'.trans ?_, hone.trans ?_⟩
  · decide
  · with_unfolding_all decide
  · with_unfolding_all decide

/-! ## Packets -/

/-- Whenever a non-persistent connection finishes, nonper_packets is the quotient of
nonper_bytes_read, and at the end of a run of serverexp2 both packet counters are,
exactly when the chunks are aligned: what they hold beyond whole packets is less than
a packet, as long as the total fits. Two ways to cut a stream agree exactly when they
leave the same amount beyond whole packets. -/
theorem packets_exact_iff (x : ServerEpx3.Run) (y : ServerExp2.Run) :
    ((∀ n (h : n < x.inputs.length), ServerEpx3.action (x.stateAt n) x.inputs[n] = .finish →
        (x.stateAt n).progress.nonperPackets =
          (x.stateAt n).progress.nonperBytesRead / UInt64.ofNat ServerEpx3.packetSize) ↔
      ∀ n (h : n < x.inputs.length), ServerEpx3.action (x.stateAt n) x.inputs[n] = .finish →
        Aligned (2 ^ 64) ServerEpx3.packetSize (ServerEpx3.countedLengths x n)) ∧
    ((y.final.counters.conn1Packets =
          y.final.counters.conn1Bytes / UInt64.ofNat ServerExp2.packetSize ∧
        y.final.counters.conn2Packets =
          y.final.counters.conn2Bytes / UInt64.ofNat ServerExp2.packetSize) ↔
      Aligned (2 ^ 64) ServerExp2.packetSize (y.observed ServerExp2.counted1) ∧
        Aligned (2 ^ 64) ServerExp2.packetSize (y.observed ServerExp2.counted2)) ∧
    (∀ (x' : ServerEpx3.Run) (n m : Nat),
      (ServerEpx3.countedLengths x n).sum = (ServerEpx3.countedLengths x' m).sum →
      ((x.stateAt n).progress.nonperPackets = (x'.stateAt m).progress.nonperPackets ↔
        excess ServerEpx3.packetSize (ServerEpx3.countedLengths x n) ≡
          excess ServerEpx3.packetSize (ServerEpx3.countedLengths x' m)
            [MOD ServerEpx3.packetSize * 2 ^ 64])) ∧
    (∀ y' : ServerExp2.Run,
      ((y.observed ServerExp2.counted1).sum = (y'.observed ServerExp2.counted1).sum →
        (y.final.counters.conn1Packets = y'.final.counters.conn1Packets ↔
          excess ServerExp2.packetSize (y.observed ServerExp2.counted1) ≡
            excess ServerExp2.packetSize (y'.observed ServerExp2.counted1)
              [MOD ServerExp2.packetSize * 2 ^ 64])) ∧
      ((y.observed ServerExp2.counted2).sum = (y'.observed ServerExp2.counted2).sum →
        (y.final.counters.conn2Packets = y'.final.counters.conn2Packets ↔
          excess ServerExp2.packetSize (y.observed ServerExp2.counted2) ≡
            excess ServerExp2.packetSize (y'.observed ServerExp2.counted2)
              [MOD ServerExp2.packetSize * 2 ^ 64]))) ∧
    ∀ (size : Nat) (amounts : List Nat), 0 < size → amounts.sum < 2 ^ 64 →
      (Aligned (2 ^ 64) size amounts ↔ excess size amounts < size) := by
  refine ⟨?_, ?_, fun x' n m h => ?_, fun y' => ⟨fun h => ?_, fun h => ?_⟩,
    fun size amounts => aligned_iff_of_lt⟩
  · simp only [ServerEpx3.nonper_packets_iff]
  · have htallied := ServerExp2.tallied_run y
    rw [htallied.bytes1, htallied.packets1, htallied.bytes2, htallied.packets2]
    exact and_congr (counted_eq_iff (by decide) (by decide) _)
      (counted_eq_iff (by decide) (by decide) _)
  · exact ServerEpx3.nonper_packets_congr x x' h
  · rw [(ServerExp2.tallied_run y).packets1, (ServerExp2.tallied_run y').packets1]
    exact counted_congr_iff (by decide) h
  · rw [(ServerExp2.tallied_run y).packets2, (ServerExp2.tallied_run y').packets2]
    exact counted_congr_iff (by decide) h

def halfPacket : Chunk ServerEpx3.bufferSize :=
  ⟨List.replicate 512 78, by decide, by rw [List.length_replicate]; decide⟩

def wholePacket : Chunk ServerEpx3.bufferSize :=
  ⟨List.replicate 1024 78, by decide, by rw [List.length_replicate]; decide⟩

/-- A connection sends 1024 bytes, which arrive in the given pieces, and closes. -/
def sendsPieces (chunks : List (Chunk ServerEpx3.bufferSize)) : List ServerEpx3.Input :=
  [ServerEpx3.ready [3] 0, ServerEpx3.accepts 4 true 0, ServerEpx3.ready [3] 0,
    ServerEpx3.accepts 5 true 0] ++
  chunks.flatMap (fun chunk =>
    [ServerEpx3.ready [5] 1, ServerEpx3.receives (.data chunk) true 1]) ++
  [ServerEpx3.ready [5] 2, ServerEpx3.receives .eof true 2]

theorem permitted_halves : Along ServerEpx3.step ServerEpx3.Permitted ServerEpx3.freshStart
    (sendsPieces [halfPacket, halfPacket]) := by
  with_unfolding_all decide

theorem permitted_whole : Along ServerEpx3.step ServerEpx3.Permitted ServerEpx3.freshStart
    (sendsPieces [wholePacket]) := by
  with_unfolding_all decide

def halvesRun : ServerEpx3.Run :=
  ⟨ServerEpx3.freshStart, sendsPieces [halfPacket, halfPacket], ServerEpx3.initial_freshStart,
    permitted_halves⟩

def wholeRun : ServerEpx3.Run :=
  ⟨ServerEpx3.freshStart, sendsPieces [wholePacket], ServerEpx3.initial_freshStart,
    permitted_whole⟩

theorem countedLengths_halves : ServerEpx3.countedLengths halvesRun 9 = [512, 512] := by
  have hlengths : ServerEpx3.countedLengths halvesRun 9 =
      [halfPacket.length, halfPacket.length] := by with_unfolding_all rfl
  have hhalf : halfPacket.length = 512 := List.length_replicate
  rw [hlengths, hhalf]

theorem countedLengths_whole : ServerEpx3.countedLengths wholeRun 7 = [1024] := by
  have hlengths : ServerEpx3.countedLengths wholeRun 7 = [wholePacket.length] := by
    with_unfolding_all rfl
  have hwhole : wholePacket.length = 1024 := List.length_replicate
  rw [hlengths, hwhole]

theorem packets_differ_halves :
    (halvesRun.stateAt 9).progress.nonperPackets ≠ (wholeRun.stateAt 7).progress.nonperPackets := by
  obtain ⟨_, _, hcongr, _⟩ := packets_exact_iff halvesRun
    (Execution.empty (ServerExp2.start 3) ⟨3, by decide, rfl⟩)
  have hsum : (ServerEpx3.countedLengths halvesRun 9).sum =
      (ServerEpx3.countedLengths wholeRun 7).sum := by
    rw [countedLengths_halves, countedLengths_whole]
    rfl
  intro heq
  have hexcess := (hcongr wholeRun 9 7 hsum).mp heq
  rw [countedLengths_halves, countedLengths_whole] at hexcess
  exact absurd hexcess (by decide)

theorem packets_lost_halves :
    (halvesRun.stateAt 9).progress.nonperBytesRead = 1024 ∧
    (wholeRun.stateAt 7).progress.nonperBytesRead = 1024 ∧
    (halvesRun.stateAt 9).progress.nonperPackets = 0 ∧
    (wholeRun.stateAt 7).progress.nonperPackets = 1 ∧
    ¬∀ n (h : n < halvesRun.inputs.length),
      ServerEpx3.action (halvesRun.stateAt n) halvesRun.inputs[n] = .finish →
        (halvesRun.stateAt n).progress.nonperPackets =
          (halvesRun.stateAt n).progress.nonperBytesRead / UInt64.ofNat ServerEpx3.packetSize := by
  obtain ⟨hbytes, hpackets⟩ := ServerEpx3.tallied_nonper halvesRun 9
  obtain ⟨hbytes', hpackets'⟩ := ServerEpx3.tallied_nonper wholeRun 7
  rw [countedLengths_halves] at hbytes hpackets
  rw [countedLengths_whole] at hbytes' hpackets'
  refine ⟨hbytes, hbytes', hpackets, hpackets', ?_⟩
  intro h
  have hquotient := h 9 (by decide) (by with_unfolding_all rfl)
  rw [hbytes, hpackets] at hquotient
  exact absurd hquotient (by decide)

end ConnectionOrder
