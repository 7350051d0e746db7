import ConnectionOrder.ServerEpx3.State

/-!
# The event loop of server_epx3

One definition for each part of the loop of main, in the order of the source.
The two copies of "finish the non-persistent connection and promote the next one"
are the same text and share their definitions. A `continue` after a refused
promotion or a rejected demotion is a predicate on the state it is decided in.
-/

namespace ConnectionOrder.ServerEpx3

/-! ## Finishing the non-persistent connection -/

def contribution (p : Progress) (oneconn2Duration : ℚ) : Sums where
  nonPersistentCount := p.nonPersistentCount
  persistentCount := p.persistentCount
  totalWhenBothPresent := UInt64.ofInt p.both
  onlyPersistentCount := p.onepertotalCount - UInt64.ofInt p.both
  onlyNonPersistentCount := p.onenonpertotalCount - UInt64.ofInt p.both
  perTotalBytesRead := p.perBytesRead
  nonperTotalBytesRead := p.nonperBytesRead
  oneconn2Duration := oneconn2Duration
  perPackets := p.perPackets
  nonperPackets := p.nonperPackets

/-- The update of temp_stats. The ratios and throughputs are assigned, not summed. -/
def ConnectionStats.fold (temp : ConnectionStats) (p : Progress) (oneconn2Duration : ℚ) :
    ConnectionStats where
  toSums := temp.toSums + contribution p oneconn2Duration
  persistentRatio := if 0 < p.both then (p.persistentCount.toNat : ℚ) / (p.both : ℚ) else 0
  nonPersistentRatio := if 0 < p.both then (p.nonPersistentCount.toNat : ℚ) / (p.both : ℚ) else 0
  throughputMbpsper :=
    if 0 < oneconn2Duration then (p.perBytesRead.toNat : ℚ) * 8 / (oneconn2Duration * 1000000) else 0
  throughputMbpsnonper :=
    if 0 < oneconn2Duration then (p.nonperBytesRead.toNat : ℚ) * 8 / (oneconn2Duration * 1000000) else 0

def Report.record (r : Report) (p : Progress) (oneconn2Duration : ℚ) : Report :=
  if (r.connectionCount + 1) % summaryInterval = 0 ∧ r.statsCount < statsCapacity then
    { tempStats := ConnectionStats.zero
      statsArray := Function.update r.statsArray r.statsCount (r.tempStats.fold p oneconn2Duration)
      statsCount := r.statsCount + 1
      connectionCount := r.connectionCount + 1 }
  else
    { tempStats := r.tempStats.fold p oneconn2Duration
      statsArray := r.statsArray
      statsCount := r.statsCount
      connectionCount := r.connectionCount + 1 }

/-- active_clients--, EPOLL_CTL_DEL, shutdown and close. -/
def dropClient (s : State) (fd : Fd) : State :=
  { s with
    activeClients := s.activeClients - 1
    kernel := (s.kernel.delete fd).close fd }

def oneconn2Duration (s : State) : ℚ := timeDiff s.clocks.conn2Start s.clocks.conn2End

/-- Lines 297 to 334, and again 507 to 544. -/
def finishNonPersistent (s : State) : State :=
  { s with
    totals := { s.totals with conn2Duration := s.totals.conn2Duration + oneconn2Duration s }
    report := s.report.record s.progress (oneconn2Duration s)
    slots := { s.slots with nonPersistentFd := -1 }
    progress := Progress.zero
    clocks := { s.clocks with conn2Started := false } }

/-- Lines 336 to 354, and again 546 to 564. -/
def promoteQueued (s : State) (add : Bool) : State :=
  if h : 0 < s.slots.nonPersistentQueue.count then
    let next := s.slots.nonPersistentQueue.front h
    let queue := s.slots.nonPersistentQueue.pop
    let progress := { s.progress with nonperBytesRead := 0, nonperPackets := 0 }
    if add then
      { s with
        kernel := s.kernel.add next.fd
        progress := progress
        slots := { s.slots with
          nonPersistentFd := next.fd
          nonPersistentConnectTime := next.connectTime
          nonPersistentQueue := queue } }
    else
      { s with
        kernel := s.kernel.close next.fd
        activeClients := s.activeClients - 1
        progress := progress
        slots := { s.slots with
          nonPersistentFd := -1
          nonPersistentConnectTime := next.connectTime
          nonPersistentQueue := queue } }
  else s

def PromotionRefused (s : State) (add : Bool) : Prop :=
  0 < s.slots.nonPersistentQueue.count ∧ add = false

instance (s : State) (add : Bool) : Decidable (PromotionRefused s add) :=
  inferInstanceAs (Decidable (_ ∧ _))

/-! ## From epoll_wait to the first event -/

def IdleStop (s : State) (batch : Option (List Fd)) (currentTime : Timeval) : Prop :=
  batch = some [] ∧ noEventTimeout ≤ timeDiff s.clocks.lastEventTime currentTime

instance (s : State) (batch : Option (List Fd)) (currentTime : Timeval) :
    Decidable (IdleStop s batch currentTime) := inferInstanceAs (Decidable (_ ∧ _))

def Inactive (s : State) (currentTime : Timeval) : Prop :=
  s.slots.nonPersistentFd ≠ -1 ∧
  inactiveTimeout ≤ timeDiff s.slots.nonPersistentConnectTime currentTime ∧
  s.progress.nonperBytesRead = 0

instance (s : State) (currentTime : Timeval) : Decidable (Inactive s currentTime) :=
  inferInstanceAs (Decidable (_ ∧ _ ∧ _))

def expireInactive (s : State) : State :=
  finishNonPersistent (dropClient s s.slots.nonPersistentFd)

def noteEvents (s : State) (batch : Option (List Fd)) (eventTime : Timeval) : State :=
  if batch = some [] then s
  else { s with clocks := { s.clocks with lastEventTime := eventTime } }

def epollWait (s : State) (batch : Option (List Fd)) (currentTime eventTime : Timeval)
    (add : Bool) : State :=
  if IdleStop s batch currentTime then { s with running := false }
  else
    let s := noteEvents s batch eventTime
    if Inactive s currentTime then
      if PromotionRefused (expireInactive s) add then promoteQueued (expireInactive s) add
      else { promoteQueued (expireInactive s) add with pending := batch.getD [] }
    else { s with pending := batch.getD [] }

/-! ## The accept branch -/

def registerClient (s : State) (fd : Fd) (add : Bool) : State :=
  if add then { s with kernel := s.kernel.add fd }
  else { s with kernel := s.kernel.close fd, activeClients := s.activeClients - 1 }

def placeClient (s : State) (fd : Fd) (connectTime : Timeval) (add : Bool) : State :=
  if s.slots.persistentFd = -1 then
    registerClient { s with slots := { s.slots with persistentFd := fd } } fd add
  else if s.slots.nonPersistentFd = -1 then
    registerClient { s with slots := { s.slots with
      nonPersistentFd := fd
      nonPersistentConnectTime := connectTime } } fd add
  else if h : s.slots.nonPersistentQueue.count < maxNonPersistent then
    { s with slots := { s.slots with
      nonPersistentQueue := s.slots.nonPersistentQueue.push ⟨fd, connectTime⟩ h } }
  else
    { s with
      kernel := s.kernel.close fd
      activeClients := s.activeClients - 1
      rejected := s.rejected + 1 }

def acceptClient (s : State) (answers : Answers) : State :=
  match answers.accept with
  | none => s
  | some fd =>
    placeClient { s with kernel := s.kernel.accept fd, activeClients := s.activeClients + 1 }
      fd answers.time answers.add

/-! ## Data -/

def DemotionRejected (s : State) : Prop :=
  s.slots.nonPersistentFd ≠ -1 ∧ ¬s.slots.nonPersistentQueue.count < maxNonPersistent

instance (s : State) : Decidable (DemotionRejected s) := inferInstanceAs (Decidable (_ ∧ _))

def demote (s : State) (eventFd : Fd) : State :=
  if s.slots.nonPersistentFd = -1 then
    { s with
      slots := { s.slots with
        nonPersistentFd := s.slots.persistentFd
        nonPersistentConnectTime := s.clocks.conn1Start
        persistentFd := -1 }
      clocks := { s.clocks with conn1Started := false }
      progress := { s.progress with
        nonperBytesRead := s.progress.perBytesRead
        nonperPackets := s.progress.perPackets
        perBytesRead := 0
        perPackets := 0 }
      totals := { s.totals with
        allNonperBytes := s.totals.allNonperBytes + s.progress.perBytesRead
        allNonpacktes := s.totals.allNonpacktes + s.progress.perPackets } }
  else if h : s.slots.nonPersistentQueue.count < maxNonPersistent then
    { s with
      slots := { s.slots with
        nonPersistentQueue :=
          s.slots.nonPersistentQueue.push ⟨s.slots.persistentFd, s.clocks.conn1Start⟩ h
        persistentFd := -1 }
      clocks := { s.clocks with conn1Started := false }
      progress := { s.progress with perBytesRead := 0, perPackets := 0 }
      totals := { s.totals with
        allNonperBytes := s.totals.allNonperBytes + s.progress.perBytesRead
        allNonpacktes := s.totals.allNonpacktes + s.progress.perPackets } }
  else
    { dropClient s eventFd with
      slots := { s.slots with persistentFd := -1 }
      clocks := { s.clocks with conn1Started := false }
      rejected := s.rejected + 1 }

/-- Lines 460 to 470. -/
def pairPersistent (s : State) : State :=
  if s.slots.persistentFd ≠ -1 ∧ s.slots.nonPersistentFd ≠ -1 then
    if s.pick = -1 then { s with pick := s.slots.persistentFd }
    else if s.pick = s.slots.nonPersistentFd then
      { s with
        progress := { s.progress with
          nonPersistentCount := s.progress.nonPersistentCount + 1
          both := s.progress.both + 1 }
        totals := { s.totals with
          allNonPersistentCount := s.totals.allNonPersistentCount + 1
          allBoth := s.totals.allBoth + 1 }
        pick := -1 }
    else s
  else s

/-- Lines 484 to 494. -/
def pairNonPersistent (s : State) : State :=
  if s.slots.persistentFd ≠ -1 ∧ s.slots.nonPersistentFd ≠ -1 then
    if s.pick = -1 then { s with pick := s.slots.nonPersistentFd }
    else if s.pick = s.slots.persistentFd then
      { s with
        progress := { s.progress with
          persistentCount := s.progress.persistentCount + 1
          both := s.progress.both + 1 }
        totals := { s.totals with
          allPersistentCount := s.totals.allPersistentCount + 1
          allBoth := s.totals.allBoth + 1 }
        pick := -1 }
    else s
  else s

def tallyPersistent (s : State) (bytesRead : Nat) (time endTime : Timeval) : State :=
  { s with
    clocks := { s.clocks with
      conn1Start := if s.clocks.conn1Started then s.clocks.conn1Start else time
      conn1Started := true
      conn1End := endTime }
    progress := { s.progress with
      perBytesRead := s.progress.perBytesRead + UInt64.ofNat bytesRead
      perPackets := s.progress.perPackets + UInt64.ofNat (bytesRead / packetSize)
      onepertotalCount := s.progress.onepertotalCount + 1 }
    totals := { s.totals with
      allPerBytes := s.totals.allPerBytes + UInt64.ofNat bytesRead
      allPerpackets := s.totals.allPerpackets + UInt64.ofNat (bytesRead / packetSize)
      allOnlyPersistentCount := s.totals.allOnlyPersistentCount + 1 } }

def tallyNonPersistent (s : State) (bytesRead : Nat) (time endTime : Timeval) : State :=
  { s with
    clocks := { s.clocks with
      conn2Start := if s.clocks.conn2Started then s.clocks.conn2Start else time
      conn2Started := true
      conn2End := endTime }
    progress := { s.progress with
      nonperBytesRead := s.progress.nonperBytesRead + UInt64.ofNat bytesRead
      nonperPackets := s.progress.nonperPackets + UInt64.ofNat (bytesRead / packetSize)
      onenonpertotalCount := s.progress.onenonpertotalCount + 1 }
    totals := { s.totals with
      allNonperBytes := s.totals.allNonperBytes + UInt64.ofNat bytesRead
      allNonpacktes := s.totals.allNonpacktes + UInt64.ofNat (bytesRead / packetSize)
      allOnlyNonPersistentCount := s.totals.allOnlyNonPersistentCount + 1 } }

def countData (s : State) (eventFd : Fd) (bytesRead : Nat) (time endTime : Timeval) : State :=
  if eventFd = s.slots.persistentFd then
    pairPersistent (tallyPersistent s bytesRead time endTime)
  else if eventFd = s.slots.nonPersistentFd then
    pairNonPersistent (tallyNonPersistent s bytesRead time endTime)
  else s

def Misidentified (s : State) (eventFd : Fd) (chunk : Chunk bufferSize) : Prop :=
  eventFd = s.slots.persistentFd ∧ chunk.head ≠ persistentByte

instance (s : State) (eventFd : Fd) (chunk : Chunk bufferSize) :
    Decidable (Misidentified s eventFd chunk) := inferInstanceAs (Decidable (_ ∧ _))

def readData (s : State) (eventFd : Fd) (chunk : Chunk bufferSize) (time endTime : Timeval) :
    State :=
  if Misidentified s eventFd chunk then
    if DemotionRejected s then demote s eventFd
    else countData (demote s eventFd) eventFd chunk.length time endTime
  else countData s eventFd chunk.length time endTime

/-! ## End of file and errors -/

/-- Lines 567 to 569. -/
def stopWhenDone (s : State) : State :=
  if s.activeClients = 0 ∧ s.slots.nonPersistentQueue.count = 0 then { s with running := false }
  else s

def closeClient (s : State) (eventFd : Fd) (time : Timeval) (add : Bool) : State :=
  let s := dropClient s eventFd
  if eventFd = s.slots.persistentFd then
    stopWhenDone { s with
      clocks := { s.clocks with conn1End := time, conn1Started := false }
      slots := { s.slots with persistentFd := -1 } }
  else if eventFd = s.slots.nonPersistentFd then
    if PromotionRefused (finishNonPersistent s) add then promoteQueued (finishNonPersistent s) add
    else stopWhenDone (promoteQueued (finishNonPersistent s) add)
  else stopWhenDone s

def clientEvent (s : State) (eventFd : Fd) (answers : Answers) : State :=
  match answers.recv with
  | .data chunk => readData s eventFd chunk answers.time answers.endTime
  | .eof | .error => closeClient s eventFd answers.time answers.add
  | .again => s

def handleEvent (s : State) (eventFd : Fd) (answers : Answers) : State :=
  if eventFd = s.serverFd then acceptClient s answers
  else clientEvent s eventFd answers

def step (s : State) : Input → State
  | .wait batch currentTime eventTime add => epollWait s batch currentTime eventTime add
  | .event answers =>
    match s.pending with
    | [] => s
    | eventFd :: rest => handleEvent { s with pending := rest } eventFd answers
  | .signal => { s with running := false }

/-! ## After the loop -/

/-- Lines 575 to 578. -/
def Report.saveRemaining (r : Report) : Report :=
  if r.connectionCount % summaryInterval ≠ 0 ∧ r.statsCount < statsCapacity ∧
      0 < r.tempStats.totalWhenBothPresent then
    { r with
      statsArray := Function.update r.statsArray r.statsCount r.tempStats
      statsCount := r.statsCount + 1 }
  else r

/-- start_conn and end_conn of summary i in write_stats_to_file. -/
def startConn (i : Nat) : Nat := i * summaryInterval

def endConn (r : Report) (i : Nat) : Nat :=
  if r.connectionCount < (i + 1) * summaryInterval then r.connectionCount
  else (i + 1) * summaryInterval

end ConnectionOrder.ServerEpx3
