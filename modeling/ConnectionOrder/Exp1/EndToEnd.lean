import ConnectionOrder.Exp1.LossLaw
import ConnectionOrder.Exp1.Server8
import ConnectionOrder.Interleaving

/-!
# From the sending threads to the tracker

client_final with server_final or server7, and client9copy with server8 copy. The
connections deliver independently of one another, each in its own order. Every recv ends
at the end of a message here; what other ends do to the tracker is in Segmentation.
-/

namespace ConnectionOrder.EndToEnd

open Machine Monitor Scan Lines LeftMaxima Interleaving ServerFinal
open ClientFinal (Shared sendPackets schedule)

/-- What a pair of programs has between send and the tracker. A message is the connection
and the packet id it is sent with. -/
structure Wire (size : Nat) where
  encode : List (Int × Int) → List UInt8
  handleConnection : Tracker → Recv size → Option Tracker
  decodes : ∀ (messages : List (Int × Int)),
    (∀ message ∈ messages, 0 ≤ message.2 ∧ message.2 ≤ intMax) →
    ∀ chunk : Chunk size, chunk.bytes = encode messages →
      ∀ t, handleConnection t (.data chunk) = (messages.map Prod.snd).foldlM track t

/-- `order` is bookkeeping: the messages the server has read, the first one first. -/
structure State (n : Nat) where
  client : Monitor.State (Fin n) Int Shared
  order : List (Int × Int)
  tracker : Option Tracker

/-- A step of the client, or one recv of the server. -/
inductive Input (n size : Nat) where
  | client (input : Monitor.Input (Fin n) Bool)
  | recv (conn : Int) (count : Nat) (chunk : Chunk size)

variable {n size : Nat} {packets : Int} {fails : Fin n → Bool} {w : Wire size}

def start (n : Nat) : State n := ⟨Monitor.start ClientFinal.initial, [], some Tracker.start⟩

/-- The messages that a connection has sent and the server has not read. -/
def waiting (s : State n) (conn : Int) : List (Int × Int) :=
  unread Prod.fst s.order s.client.shared.sent conn

def step (w : Wire size) (packets : Int) (s : State n) : Input n size → State n
  | .client input => { s with client := Monitor.step (sendPackets n packets) s.client input }
  | .recv conn count chunk =>
    { s with
      order := s.order ++ (waiting s conn).take count
      tracker := s.tracker.bind fun t => w.handleConnection t (.data chunk) }

/-- A recv returns the next messages of one connection, the last of them whole. -/
def Permitted (w : Wire size) (packets : Int) (fails : Fin n → Bool) (s : State n) :
    Input n size → Prop
  | .client input => Rotation.Permitted (sendPackets n packets) fails s.client input
  | .recv conn count chunk => chunk.bytes = w.encode ((waiting s conn).take count)

instance (w : Wire size) (packets : Int) (fails : Fin n → Bool) (s : State n) :
    (input : Input n size) → Decidable (Permitted w packets fails s input)
  | .client input =>
    inferInstanceAs (Decidable (Rotation.Permitted (sendPackets n packets) fails s.client input))
  | .recv _ _ _ => inferInstanceAs (Decidable (_ = _))

abbrev Run (w : Wire size) (packets : Int) (fails : Fin n → Bool) :=
  Execution (step w packets) (fun s => s = start n) (Permitted w packets fails)

def ids (s : State n) : List Int := s.order.map Prod.snd

/-- The tracker knows the largest packet id that was read, and reports those that had not
been read before a larger one; once everything has been read, these are the ones that
were overtaken, and there are none exactly if the order of sending was kept. -/
structure Reports (s : State n) (t : Tracker) : Prop where
  tracker : s.tracker = some t
  expected : t.expected = 1 + (ids s).foldl max 0
  missing : ∃ missing : List Int, missing.Pairwise (· < ·) ∧
    (∀ id, id ∈ missing ↔ 1 ≤ id ∧ id < t.expected ∧
      ∀ before after, ids s = before ++ id :: after → ∃ other ∈ before, id < other) ∧
    t.outOfOrder = missing.take maxOutOfOrder
  complete : (∀ conn, waiting s conn = []) →
    t.expected = s.client.shared.sent.length + 1 ∧
      (t.outOfOrder = [] ↔ s.order = s.client.shared.sent)

/-! ## The invariant -/

structure Sound (fails : Fin n → Bool) (packets : Int) (s : State n) (m : Nat) : Prop where
  client : (ClientFinal.rotation n packets).At fails s.client m
  merges : Merges Prod.fst s.order s.client.shared.sent
  tracker : s.tracker = (ids s).foldlM track Tracker.start

theorem Sound.sent {s : State n} {m : Nat} (h : Sound fails packets s m) :
    s.client.shared.sent = schedule n m := h.client.shows.sent

theorem mem_schedule_snd {m : Nat} {message : Int × Int} (h : message ∈ schedule n m) :
    1 ≤ message.2 ∧ message.2 ≤ m := by
  obtain ⟨k, hk, rfl⟩ := List.mem_map.mp h
  have hlt := List.mem_range.mp hk
  dsimp only
  omega

theorem Sound.order_range {s : State n} {m : Nat} (h : Sound fails packets s m) :
    ∀ id ∈ ids s, 1 ≤ id ∧ id ≤ m := by
  intro id hid
  obtain ⟨message, hmessage, rfl⟩ := List.mem_map.mp hid
  exact mem_schedule_snd (h.sent ▸ h.merges.mem hmessage)

theorem sound_start (fails : Fin n → Bool) (packets : Int) : Sound fails packets (start n) 0 where
  client := Rotation.Laws.at_start _ (ClientFinal.shows_initial n)
  merges := merges_nil _
  tracker := rfl

theorem Sound.client_step {s : State n} {m : Nat} (h : Sound fails packets s m)
    {input : Monitor.Input (Fin n) Bool}
    (hp : Rotation.Permitted (sendPackets n packets) fails s.client input) :
    ∃ m', Sound fails packets
      { s with client := Monitor.step (sendPackets n packets) s.client input } m' := by
  have hnext := h.client.step hp.2 (move_of_enabled hp.1)
  refine ⟨_, hnext, ?_, h.tracker⟩
  have hprefix : ∀ k, schedule n m <+: schedule n (m + k) := by
    intro k
    induction k with
    | zero => exact List.prefix_refl _
    | succ k ih =>
      rw [← Nat.add_assoc, ClientFinal.schedule_succ]
      exact ih.trans (List.prefix_append _ _)
  obtain ⟨more, hmore⟩ := hprefix input.acts
  change Merges Prod.fst s.order (Monitor.step (sendPackets n packets) s.client input).shared.sent
  rw [hnext.shows.sent, ← hmore, ← h.sent]
  exact h.merges.give more

theorem Sound.recv_step {s : State n} {m : Nat} (h : Sound fails packets s m)
    (hmax : n * packets.toNat < intMax) {conn : Int} {count : Nat} {chunk : Chunk size}
    (hchunk : chunk.bytes = w.encode ((waiting s conn).take count)) :
    Sound fails packets (step w packets s (.recv conn count chunk)) m where
  client := h.client
  merges := h.merges.take conn count
  tracker := by
    have hbound := h.client.bounded
    have hrange : ∀ message ∈ (waiting s conn).take count, 0 ≤ message.2 ∧ message.2 ≤ intMax := by
      intro message hmem
      have hlane := List.mem_of_mem_drop (List.mem_of_mem_take hmem)
      have hsched := mem_schedule_snd (h.sent ▸ (mem_lane.mp hlane).1)
      omega
    change s.tracker.bind (fun t => w.handleConnection t (.data chunk)) =
      ((s.order ++ (waiting s conn).take count).map Prod.snd).foldlM track Tracker.start
    rw [List.map_append, List.foldlM_append, h.tracker]
    exact congrArg _ (funext fun t => w.decodes _ hrange chunk hchunk t)

theorem sound_run (hmax : n * packets.toNat < intMax) (x : Run w packets fails) :
    ∃ m, Sound fails packets x.final m := by
  have hall := x.invariant (P := fun s => ∃ m, Sound fails packets s m)
    (fun s hs => hs ▸ ⟨0, sound_start fails packets⟩) ?_
  · exact hall.final
  · rintro s input hp ⟨m, h⟩
    cases input with
    | client input => exact h.client_step hp
    | recv conn count chunk => exact ⟨m, h.recv_step hmax hp⟩

/-! ## What the tracker says -/

theorem ids_schedule (n m : Nat) : (schedule n m).map Prod.snd = Int.range 1 (m + 1) := by
  have hlength : ((m : Int) + 1 - 1).toNat = m := by omega
  rw [schedule, List.map_map, Int.range, hlength]
  apply List.map_congr_left
  intro k _
  exact Int.add_comm _ _

theorem pairwise_schedule (n m : Nat) :
    (schedule n m).Pairwise fun message other => message.2 < other.2 := by
  have hids := pairwise_range 1 (m + 1)
  rwa [← ids_schedule n m, List.pairwise_map] at hids

/-- A packet id is sent once, and read at most once. -/
theorem Sound.nodup {s : State n} {m : Nat} (h : Sound fails packets s m) : (ids s).Nodup := by
  have hids : (s.client.shared.sent.map Prod.snd).Nodup := by
    rw [h.sent, ids_schedule]
    exact (pairwise_range 1 (m + 1)).imp ne_of_lt
  refine List.Nodup.map_on ?_ (h.merges.nodup (List.Nodup.of_map Prod.snd hids))
  intro message hmessage other hother heq
  exact List.inj_on_of_nodup_map hids (h.merges.mem hmessage) (h.merges.mem hother) heq

theorem Sound.foldl_max {s : State n} {m : Nat} (h : Sound fails packets s m)
    (hall : ∀ conn, waiting s conn = []) :
    (ids s).Perm (Int.range 1 (m + 1)) ∧ (ids s).foldl max 0 = m := by
  have hperm : (ids s).Perm (Int.range 1 (m + 1)) := by
    rw [← ids_schedule n m, ← h.sent]
    exact (h.merges.perm hall).map Prod.snd
  refine ⟨hperm, le_antisymm ?_ ?_⟩
  · rw [foldl_max_le_iff]
    exact ⟨Int.natCast_nonneg m, fun id hid => (h.order_range id hid).2⟩
  · cases Nat.eq_zero_or_pos m with
    | inl hzero =>
      rw [hzero]
      exact le_foldl_max 0 (ids s)
    | inr hpos =>
      have hmem : (m : Int) ∈ ids s := by
        rw [hperm.mem_iff, Int.mem_range_iff]
        omega
      exact (foldl_max_le_iff.mp (le_refl ((ids s).foldl max 0))).2 m hmem

theorem Sound.inOrder_iff {s : State n} {m : Nat} (h : Sound fails packets s m)
    (hall : ∀ conn, waiting s conn = []) :
    (ids s).Pairwise (· < ·) ↔ s.order = s.client.shared.sent := by
  have hsorted := pairwise_schedule n m
  rw [← h.sent] at hsorted
  constructor
  · intro horder
    rw [ids, List.pairwise_map] at horder
    refine (h.merges.perm hall).eq_of_pairwise ?_ horder hsorted
    exact fun _ _ _ _ hlt hgt => absurd hgt (lt_asymm hlt)
  · intro heq
    rw [ids, heq, List.pairwise_map]
    exact hsorted

theorem Sound.reports {s : State n} {m : Nat} (h : Sound fails packets s m)
    (hmax : n * packets.toNat < intMax) : ∃ t, Reports s t := by
  have hbound := h.client.bounded
  have hrange : ∀ id ∈ ids s, id < intMax := by
    intro id hid
    have hle := (h.order_range id hid).2
    omega
  obtain ⟨t, hfold, hexpected, hout⟩ := track_law Tracker.start [] (ids s) hrange rfl
  have hbound : Tracker.start.expected - 1 = 0 := rfl
  rw [hbound] at hexpected hout
  refine ⟨t, h.tracker.trans hfold, hexpected, ⟨skipped 0 (ids s), pairwise_skipped 0 (ids s), ?_,
    hout⟩, ?_⟩
  · intro id
    rw [mem_skipped_iff, hexpected]
    constructor
    · rintro ⟨hlow, hhigh, hnot⟩
      exact ⟨by omega, by omega, (notMem_maxima_iff hlow h.nodup).mp hnot⟩
    · rintro ⟨hlow, hhigh, hover⟩
      have hpos : 0 < id := by omega
      exact ⟨hpos, by omega, (notMem_maxima_iff hpos h.nodup).mpr hover⟩
  · intro hall
    obtain ⟨hperm, hlast⟩ := h.foldl_max hall
    constructor
    · rw [hexpected, hlast, h.sent, ClientFinal.length_schedule]
      exact Int.add_comm _ _
    · rw [hout, List.nil_append, ← h.inOrder_iff hall, ← skipped_eq_nil_iff hperm,
        List.take_eq_nil_iff]
      exact or_iff_right (by decide)

/-! ## The two pairs of programs -/

def encodeFinal (messages : List (Int × Int)) : List UInt8 :=
  (messages.flatMap fun message => ClientFinal.message message.1 message.2).map Char.toUInt8

theorem lines_encodeFinal (messages : List (Int × Int)) : lines newline (encodeFinal messages) =
    messages.map fun message => Codec.bodyBytes message.1 message.2 := by
  have hencode : encodeFinal messages =
      terminate newline (messages.map fun message => Codec.bodyBytes message.1 message.2) := by
    rw [encodeFinal, terminate, List.flatMap_map, List.map_flatMap]
    congr
    funext message
    rw [Codec.bodyBytes, show ClientFinal.message message.1 message.2 =
      Codec.body message.1 message.2 ++ ['\n'] from rfl, List.map_append]
    rfl
  rw [hencode, ← List.append_nil (terminate _ _), lines_terminate, lines_nil, List.append_nil]
  intro line hline
  obtain ⟨message, _, rfl⟩ := List.mem_map.mp hline
  exact Codec.newline_notMem_map (Codec.plain_body _ _)

theorem packetSeq_bodyBytes (conn : Int) {id : Int} (hlow : 0 ≤ id) (hhigh : id ≤ intMax) :
    packetSeq (Codec.bodyBytes conn id) = some id := by
  rw [packetSeq, Codec.bodyBytes, Codec.cString_map (Codec.plain_body _ _), Codec.sscanf_body,
    toInt_of_range (le_trans (by decide) hlow) hhigh]

theorem packets_encodeFinal {messages : List (Int × Int)}
    (h : ∀ message ∈ messages, 0 ≤ message.2 ∧ message.2 ≤ intMax) :
    ServerFinal.packets (lines newline (encodeFinal messages)) = messages.map Prod.snd := by
  rw [lines_encodeFinal, ServerFinal.packets, List.filterMap_map, ← List.filterMap_eq_map]
  apply List.filterMap_congr
  intro message hmessage
  exact packetSeq_bodyBytes message.1 (h message hmessage).1 (h message hmessage).2

/-- "TCP:%d | PACKET:%d\n", read by server_final and by server7, whose handle_connection is
the same. -/
def finalWire : Wire ServerFinal.bufferSize where
  encode := encodeFinal
  handleConnection := ServerFinal.handleConnection
  decodes messages hrange chunk hchunk t := by
    rw [ServerFinal.handleConnection, handleBuffer_eq, hchunk, foldlM_trackLine,
      packets_encodeFinal hrange]

/-- "%d\n", read by server8 copy. -/
def copyWire : Wire Server8.recvSize where
  encode messages := Server8.encode (messages.map Prod.snd)
  handleConnection := Server8.handleConnection
  decodes messages hrange chunk hchunk t := by
    refine Server8.handleConnection_encode ?_ chunk hchunk t
    intro id hid
    obtain ⟨message, hmessage, rfl⟩ := List.mem_map.mp hid
    obtain ⟨hlow, hhigh⟩ := hrange message hmessage
    exact ⟨le_trans (by decide) hlow, hhigh⟩

/-- Both pairs of programs, whatever the threads and the connections do in between. -/
theorem overtaken_reported {n : Nat} {packets : Int} (hmax : n * packets.toNat < intMax)
    (fails : Fin n → Bool) :
    (∀ x : Run finalWire packets fails, ∃ t, Reports x.final t) ∧
      ∀ x : Run copyWire packets fails, ∃ t, Reports x.final t := by
  constructor
  · intro x
    obtain ⟨m, h⟩ := sound_run hmax x
    exact h.reports hmax
  · intro x
    obtain ⟨m, h⟩ := sound_run hmax x
    exact h.reports hmax

def secondMessage : Chunk ServerFinal.bufferSize := ⟨encodeFinal [(2, 2)], by decide, by decide⟩

def firstMessage : Chunk ServerFinal.bufferSize := ⟨encodeFinal [(1, 1)], by decide, by decide⟩

def sender1 : Fin 2 := ⟨0, Nat.zero_lt_two⟩

def sender2 : Fin 2 := ⟨1, Nat.one_lt_two⟩

/-- Two connections with one packet each; the second packet arrives first. -/
def overtaking : List (Input 2 ServerFinal.bufferSize) :=
  [.client (.connect sender1 true), .client (.connect sender2 true),
    .client (.again sender1 true), .client (.again sender2 true), .client (.lock sender1),
    .client (.test sender1), .client (.act sender1 true), .client (.lock sender2),
    .client (.test sender2), .client (.act sender2 true), .recv 2 1 secondMessage,
    .recv 1 1 firstMessage]

theorem permitted_overtaking :
    Along (step finalWire 1) (Permitted finalWire 1 fun _ => false) (start 2) overtaking := by
  with_unfolding_all decide

def overtakingRun : Run finalWire 1 fun _ : Fin 2 => false :=
  ⟨start 2, overtaking, rfl, permitted_overtaking⟩

theorem reports_overtaking : ∃ t, Reports overtakingRun.final t :=
  (overtaken_reported (by decide) fun _ => false).1 overtakingRun

end ConnectionOrder.EndToEnd
