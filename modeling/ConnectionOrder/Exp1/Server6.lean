import ConnectionOrder.Lines
import ConnectionOrder.Machine
import ConnectionOrder.Memory
import ConnectionOrder.Sockets

/-!
# The line buffer of server6

One connection: its record, and what handle_connection does with one recv. The bytes
behind the last newline are moved to the front of the buffer and stay there until
the next call. A record that has been freed is `none`. packet_count is an integer: it is
the number of lines logged for the connection, and an int as long as they are fewer than
2 ^ 31.
-/

namespace ConnectionOrder.Server6

open Lines Machine Memory

def bufferSize : Nat := 65536

def newline : UInt8 := 10

structure Connection where
  fd : Fd
  buffer : List UInt8
  bufUsed : Nat
  packetCount : Int
  size : buffer.length = bufferSize

/-- calloc and the assignments after it. -/
def Connection.new (fd : Fd) : Connection := ⟨fd, List.replicate bufferSize 0, 0, 0, by simp⟩

/-- "CONN:%d|PKT:%d|DATA:%s\n" -/
structure Entry where
  conn : Fd
  pkt : Int
  data : List UInt8
deriving DecidableEq

/-- `%s` prints up to the first NUL. -/
def cString (s : List UInt8) : List UInt8 := s.takeWhile fun b => b ≠ 0

/-- The position of the first newline in buffer[start..stop). -/
def memchr (buffer : List UInt8) (start stop : Nat) : Option Nat :=
  (cut newline (slice buffer start stop)).map fun p => start + p.1.length

theorem memchr_lt {buffer : List UInt8} {start stop position : Nat}
    (h : memchr buffer start stop = some position) : position < stop := by
  obtain ⟨⟨line, rest⟩, hcut, rfl⟩ := Option.map_eq_some_iff.mp h
  have hlength := congrArg List.length (cut_eq_some hcut).1
  have hslice := length_slice_le buffer start stop
  rw [List.length_append, List.length_cons] at hlength
  dsimp only
  omega

theorem memchr_le {buffer : List UInt8} {start stop position : Nat}
    (h : memchr buffer start stop = some position) : start ≤ position := by
  obtain ⟨p, _, rfl⟩ := Option.map_eq_some_iff.mp h
  exact Nat.le_add_right start p.1.length

/-- The connection inside the while loop, with the offset of start. -/
structure Loop where
  conn : Connection
  start : Nat
  log : List Entry

/-- One turn for a newline that was found: it becomes a NUL, and the line is printed. -/
def Loop.turn (l : Loop) (position : Nat) : Loop :=
  let buffer := l.conn.buffer.set position 0
  { conn := { l.conn with
      buffer := buffer
      packetCount := l.conn.packetCount + 1
      size := by rw [List.length_set, l.conn.size] }
    start := position + 1
    log := l.log ++ [⟨l.conn.fd, l.conn.packetCount + 1, cString (buffer.drop l.start)⟩] }

/-- The while loop, `stop` being the offset of end. -/
def scan (stop : Nat) (l : Loop) : Loop :=
  if l.start < stop then
    match h : memchr l.conn.buffer l.start stop with
    | none => l
    | some position =>
      have := memchr_le h
      have := memchr_lt h
      scan stop (l.turn position)
  else l
termination_by stop - l.start
decreasing_by
  rw [Loop.turn]
  dsimp only
  omega

/-- What is kept after the loop: the bytes from start on, at the front of the buffer. -/
def Loop.keep (l : Loop) (stop : Nat) : Connection :=
  { l.conn with
    bufUsed := stop - l.start
    buffer := overwrite l.conn.buffer 0 (slice l.conn.buffer l.start stop)
    size := by rw [length_overwrite, l.conn.size] }

def received (conn : Connection) (bytes : List UInt8) : Connection :=
  { conn with
    buffer := overwrite conn.buffer conn.bufUsed bytes
    bufUsed := conn.bufUsed + bytes.length
    size := by rw [length_overwrite, conn.size] }

def handleConnection (conn : Connection) : Recv bufferSize → Option Connection × List Entry
  | .data chunk =>
    let conn := received conn chunk.bytes
    let loop := scan conn.bufUsed ⟨conn, 0, []⟩
    (some (loop.keep conn.bufUsed), loop.log)
  | .eof | .again | .error => (none, [])

/-! ## The loop -/

/-- The entries for lines, `count` being the number of the last entry before them. -/
def entries (fd : Fd) (count : Int) (ls : List (List UInt8)) : List Entry :=
  ls.mapIdx fun i line => ⟨fd, count + i + 1, line⟩

theorem entries_cons (fd : Fd) (count : Int) (line : List UInt8) (ls : List (List UInt8)) :
    entries fd count (line :: ls) = ⟨fd, count + 1, line⟩ :: entries fd (count + 1) ls := by
  rw [entries, List.mapIdx_cons, entries]
  congr 1
  · congr 1
    omega
  · congr 1
    funext i other
    congr 1
    omega

theorem entries_append (fd : Fd) (count : Int) (ls ls' : List (List UInt8)) :
    entries fd count (ls ++ ls') = entries fd count ls ++ entries fd (count + ls.length) ls' := by
  induction ls generalizing count with
  | nil =>
    have hnone : count + (([] : List (List UInt8)).length : Int) = count := Int.add_zero count
    rw [hnone]
    rfl
  | cons line ls ih =>
    rw [List.cons_append, entries_cons, entries_cons, ih, List.cons_append, List.length_cons]
    congr 3
    omega

theorem memchr_eq_some {buffer : List UInt8} {start stop position : Nat}
    (h : memchr buffer start stop = some position) :
    ∃ line rest, newline ∉ line ∧ slice buffer start stop = line ++ newline :: rest ∧
      position = start + line.length := by
  obtain ⟨⟨line, rest⟩, hcut, rfl⟩ := Option.map_eq_some_iff.mp h
  obtain ⟨hslice, hline⟩ := cut_eq_some hcut
  exact ⟨line, rest, hline, hslice, rfl⟩

theorem cString_line {line rest : List UInt8} (h : 0 ∉ line) :
    cString (line ++ 0 :: rest) = line := by
  have hline : ∀ b ∈ line, decide (b ≠ 0) = true := by
    intro b hb
    exact decide_eq_true fun hzero => h (hzero ▸ hb)
  rw [cString, List.takeWhile_append_of_pos hline, List.takeWhile_cons_of_neg (by decide),
    List.append_nil]

/-- What a turn prints and leaves, where the text still to be scanned begins with a line. -/
theorem turn_spec {l : Loop} {stop position : Nat} {line rest : List UInt8}
    (hstart : l.start ≤ stop) (hstop : stop ≤ bufferSize)
    (hslice : slice l.conn.buffer l.start stop = line ++ newline :: rest) (hnul : 0 ∉ line)
    (hposition : position = l.start + line.length) :
    (l.turn position).log = l.log ++ [⟨l.conn.fd, l.conn.packetCount + 1, line⟩] ∧
    slice (l.turn position).conn.buffer (l.turn position).start stop = rest := by
  have hsize : stop ≤ l.conn.buffer.length := by
    rw [l.conn.size]
    exact hstop
  constructor
  · have hdrop : (l.conn.buffer.set position 0).drop l.start =
        line ++ 0 :: (rest ++ l.conn.buffer.drop stop) := by
      rw [List.drop_set, if_neg (by omega), drop_eq_slice_append _ hstart hsize, hslice, hposition,
        Nat.add_sub_cancel_left, List.append_assoc, List.set_append_right _ _ (Nat.le_refl _),
        Nat.sub_self]
      rfl
    rw [Loop.turn]
    dsimp only
    rw [hdrop, cString_line hnul]
  · rw [Loop.turn]
    dsimp only
    have hnext : position + 1 = l.start + (line ++ [newline]).length := by
      rw [hposition, List.length_append, List.length_singleton, Nat.add_assoc]
    have hsplit : line ++ newline :: rest = (line ++ [newline]) ++ rest := List.append_cons _ _ _
    rw [slice_set (Nat.lt_add_one position), hnext, ← slice_drop, hslice, hsplit, List.drop_left]

/-- The text in buffer[start..stop) has been taken apart into lines. -/
structure Scanned (stop : Nat) (l r : Loop) : Prop where
  fd : r.conn.fd = l.conn.fd
  count : r.conn.packetCount =
    l.conn.packetCount + (lines newline (slice l.conn.buffer l.start stop)).length
  log : r.log = l.log ++
    entries l.conn.fd l.conn.packetCount (lines newline (slice l.conn.buffer l.start stop))
  rest : slice r.conn.buffer r.start stop = remainder newline (slice l.conn.buffer l.start stop)

theorem scanned_of_notMem {stop : Nat} {l : Loop}
    (h : newline ∉ slice l.conn.buffer l.start stop) : Scanned stop l l := by
  constructor
  · rfl
  · rw [lines_of_notMem h]
    exact (Int.add_zero _).symm
  · rw [lines_of_notMem h]
    exact (List.append_nil _).symm
  · rw [remainder_of_notMem h]

theorem scan_spec {stop : Nat} (l : Loop) (hstart : l.start ≤ stop) (hstop : stop ≤ bufferSize)
    (hnul : 0 ∉ slice l.conn.buffer l.start stop) : Scanned stop l (scan stop l) := by
  fun_induction scan stop l with
  | case1 l hlt hnone =>
    have hcut := Option.map_eq_none_iff.mp hnone
    exact scanned_of_notMem (cut_eq_none.mp hcut)
  | case2 l hlt position hsome _ hbound ih =>
    obtain ⟨line, rest, hline, hslice, hposition⟩ := memchr_eq_some hsome
    rw [hslice, List.mem_append, not_or, List.mem_cons, not_or] at hnul
    obtain ⟨hlog, hrest⟩ := turn_spec hstart hstop hslice hnul.1 hposition
    obtain ⟨hfd, hcount, hlog', hrest'⟩ := ih hbound (by rw [hrest]; exact hnul.2.2)
    rw [hrest] at hcount hlog' hrest'
    constructor
    · exact hfd
    · rw [hcount, hslice, lines_line hline, List.length_cons]
      change l.conn.packetCount + 1 + _ = _
      omega
    · rw [hlog', hlog, hslice, lines_line hline, entries_cons, List.append_assoc]
      rfl
    · rw [hrest', hslice, remainder_line hline]
  | case3 l hlt =>
    have hempty : slice l.conn.buffer l.start stop = [] := by
      apply List.length_eq_zero_iff.mp
      have hlength := length_slice_le l.conn.buffer l.start stop
      omega
    exact scanned_of_notMem (hempty ▸ List.not_mem_nil)

/-! ## One call -/

/-- The connection after the bytes `s` of its stream. -/
structure Holds (fd : Fd) (s : List UInt8) (conn : Connection) : Prop where
  fd : conn.fd = fd
  held : conn.buffer.take conn.bufUsed = remainder newline s
  used : conn.bufUsed = (remainder newline s).length
  count : conn.packetCount = (lines newline s).length

theorem holds_new (fd : Fd) : Holds fd [] (Connection.new fd) :=
  ⟨rfl, List.take_zero, rfl, rfl⟩

/-- memmove puts the rest of the slice in front. -/
theorem Loop.keep_held (l : Loop) {stop : Nat} (hstop : stop ≤ bufferSize) :
    (l.keep stop).buffer.take (l.keep stop).bufUsed = slice l.conn.buffer l.start stop ∧
      (l.keep stop).bufUsed = (slice l.conn.buffer l.start stop).length := by
  have hlength : (l.keep stop).bufUsed = (slice l.conn.buffer l.start stop).length := by
    rw [length_slice (l.conn.size.symm ▸ hstop)]
    rfl
  have hsize : 0 + (slice l.conn.buffer l.start stop).length ≤ l.conn.buffer.length := by
    rw [← hlength, l.conn.size]
    change 0 + (stop - l.start) ≤ bufferSize
    omega
  have htake := take_overwrite hsize
  rw [Nat.zero_add, List.take_zero, List.nil_append, ← hlength] at htake
  exact ⟨htake, hlength⟩

theorem handleConnection_data {fd : Fd} {s : List UInt8} {conn : Connection}
    (h : Holds fd s conn) {chunk : Chunk bufferSize}
    (hroom : chunk.length ≤ bufferSize - conn.bufUsed) (hused : conn.bufUsed ≤ bufferSize)
    (hnul : 0 ∉ remainder newline s ++ chunk.bytes) :
    (∃ conn', (handleConnection conn (.data chunk)).1 = some conn' ∧
      Holds fd (s ++ chunk.bytes) conn') ∧
    (handleConnection conn (.data chunk)).2 = entries fd (lines newline s).length
      (lines newline (remainder newline s ++ chunk.bytes)) := by
  have hfits : conn.bufUsed + chunk.bytes.length ≤ bufferSize := by
    have hlength : chunk.length = chunk.bytes.length := rfl
    omega
  let start : Loop := ⟨received conn chunk.bytes, 0, []⟩
  let stop := conn.bufUsed + chunk.bytes.length
  have htext : slice start.conn.buffer start.start stop =
      remainder newline s ++ chunk.bytes := by
    change (overwrite conn.buffer conn.bufUsed chunk.bytes).take _ = _
    rw [take_overwrite (by rw [conn.size]; exact hfits), h.held]
  obtain ⟨hfd, hcount, hlog, hrest⟩ := scan_spec start (Nat.zero_le stop) hfits (htext ▸ hnul)
  rw [htext] at hcount hlog hrest
  constructor
  · refine ⟨(scan stop start).keep stop, rfl, ?_⟩
    obtain ⟨hheld, hkept⟩ := Loop.keep_held (scan stop start) hfits
    rw [hrest, ← remainder_append] at hheld hkept
    constructor
    · exact hfd.trans h.fd
    · exact hheld
    · exact hkept
    · change (scan stop start).conn.packetCount = _
      rw [hcount, lines_append s chunk.bytes, List.length_append, Nat.cast_add, ← h.count]
      rfl
  · change (scan stop start).log = _
    rw [hlog, ← h.fd, ← h.count]
    rfl

/-! ## Every run -/

def step (s : Option Connection) (r : Recv bufferSize) : Option Connection :=
  s.bind fun conn => (handleConnection conn r).1

/-- recv is given the room that is left; no call follows the one that frees the record. -/
def Permitted : Option Connection → Recv bufferSize → Prop
  | none, _ => False
  | some conn, .data chunk => chunk.length ≤ bufferSize - conn.bufUsed
  | some _, _ => True

def logged (s : Option Connection) (r : Recv bufferSize) : List Entry :=
  s.elim [] fun conn => (handleConnection conn r).2

abbrev Run (fd : Fd) := Execution step (fun s => s = some (Connection.new fd)) Permitted

def bytesOf : Recv bufferSize → List UInt8
  | .data chunk => chunk.bytes
  | .eof | .again | .error => []

def stream (rs : List (Recv bufferSize)) : List UInt8 := rs.flatMap bytesOf

theorem stream_snoc (rs : List (Recv bufferSize)) (r : Recv bufferSize) :
    stream (rs ++ [r]) = stream rs ++ bytesOf r := by
  rw [stream, List.flatMap_append, List.flatMap_singleton, stream]

/-- No NUL, and every line shorter than the buffer. -/
structure Fits (s : List UInt8) : Prop where
  noNul : 0 ∉ s
  lines : ∀ line ∈ lines newline s, line.length < bufferSize
  rest : (remainder newline s).length < bufferSize

theorem Fits.front {s t : List UInt8} (h : Fits (s ++ t)) : Fits s := by
  obtain ⟨hnul, hlines, hrest⟩ := h
  refine ⟨fun hmem => hnul (List.mem_append_left t hmem), fun line hline => ?_,
    remainder_shorter hlines hrest⟩
  apply hlines
  rw [lines_append]
  exact List.mem_append_left _ hline

theorem Fits.notMem_held {s t : List UInt8} (h : Fits (s ++ t)) :
    0 ∉ remainder newline s ++ t := by
  have hparts : terminate newline (Lines.lines newline s) ++ remainder newline s = s :=
    terminate_lines s
  intro hmem
  apply h.noNul
  rw [← hparts, List.append_assoc]
  exact List.mem_append_right _ hmem

/-- The log is that of the whole lines so far, and an open connection holds the rest. -/
structure Framed (fd : Fd) (rs : List (Recv bufferSize)) (log : List Entry)
    (s : Option Connection) : Prop where
  log : log = entries fd 0 (Lines.lines newline (stream rs))
  holds : ∀ conn, s = some conn → Holds fd (stream rs) conn

theorem Framed.step {fd : Fd} {rs : List (Recv bufferSize)} {log : List Entry}
    {s : Option Connection} {r : Recv bufferSize} (h : Framed fd rs log s) (hp : Permitted s r)
    (hfits : Fits (stream (rs ++ [r]))) :
    Framed fd (rs ++ [r]) (log ++ logged s r) (Server6.step s r) := by
  obtain ⟨hlog, hholds⟩ := h
  rw [stream_snoc] at hfits
  cases s with
  | none => cases hp
  | some conn =>
    have hconn := hholds conn rfl
    cases r with
    | eof | again | error =>
      constructor
      · rw [stream_snoc]
        change log ++ [] = entries fd 0 (Lines.lines newline (stream rs ++ []))
        rw [List.append_nil, List.append_nil]
        exact hlog
      · intro conn' hnone
        cases hnone
    | data chunk =>
      have hused : conn.bufUsed ≤ bufferSize := by
        rw [hconn.used]
        exact Nat.le_of_lt hfits.front.rest
      obtain ⟨⟨conn', hstep, hnext⟩, hnew⟩ :=
        handleConnection_data hconn hp hused hfits.notMem_held
      constructor
      · change log ++ (handleConnection conn (.data chunk)).2 = _
        rw [hnew, hlog, stream_snoc, bytesOf, lines_append (stream rs), entries_append,
          Int.zero_add]
      · intro conn'' hsome
        change (handleConnection conn (.data chunk)).1 = some conn'' at hsome
        rw [hstep] at hsome
        cases hsome
        rw [stream_snoc]
        exact hnext

theorem framed_run {fd : Fd} (x : Run fd) (h : Fits (stream x.inputs)) :
    Framed fd x.inputs (x.observed logged) x.final := by
  have hall : Fits (stream x.inputs) → Framed fd x.inputs
      (collect step logged x.start x.inputs) (run step x.start x.inputs) := by
    apply x.history_induction (P := fun rs => Fits (stream rs) →
      Framed fd rs (collect step logged x.start rs) (run step x.start rs))
    · intro _
      refine ⟨rfl, fun conn hsome => ?_⟩
      rw [run_nil, x.begins] at hsome
      cases hsome
      exact holds_new fd
    · intro rs r _ hp ih hfits
      have hfront : Fits (stream rs) := by
        rw [stream_snoc] at hfits
        exact hfits.front
      rw [collect_snoc, run_snoc]
      exact (ih hfront).step hp hfits
  exact hall h

/-- However recv cuts a stream, its terminated lines are logged in order, numbered from
1, and the buffer holds what is behind the last of them. -/
theorem framing_exact (fd : Fd) (x : Run fd) (hnul : 0 ∉ stream x.inputs)
    (hlines : ∀ line ∈ Lines.lines newline (stream x.inputs), line.length < bufferSize)
    (hrest : (remainder newline (stream x.inputs)).length < bufferSize) :
    (x.observed logged =
      (Lines.lines newline (stream x.inputs)).mapIdx fun i line => ⟨fd, i + 1, line⟩) ∧
    ∀ n conn, x.stateAt n = some conn →
      conn.buffer.take conn.bufUsed = remainder newline (stream (x.inputs.take n)) ∧
      conn.bufUsed = (remainder newline (stream (x.inputs.take n))).length ∧
      conn.bufUsed < bufferSize := by
  have hfits : Fits (stream x.inputs) := ⟨hnul, hlines, hrest⟩
  constructor
  · rw [(framed_run x hfits).log, entries]
    congr 1
    funext i line
    rw [Int.zero_add]
  · intro n conn hconn
    have hfront : Fits (stream (x.upTo n).inputs) := by
      rw [← List.take_append_drop n x.inputs, stream, List.flatMap_append] at hfits
      exact hfits.front
    have hholds := (framed_run (x.upTo n) hfront).holds conn hconn
    refine ⟨hholds.held, hholds.used, ?_⟩
    rw [hholds.used]
    exact hfront.rest

def ab : Chunk bufferSize := ⟨[97, 98], by decide, by decide⟩

/-- "c", newline, newline, "d" -/
def restOfLine : Chunk bufferSize := ⟨[99, 10, 10, 100], by decide, by decide⟩

theorem permitted_splitLine : Along step Permitted (some (Connection.new 7))
    [.data ab, .data restOfLine] := by
  have hroom : ab.length ≤ bufferSize - (Connection.new 7).bufUsed := by decide
  obtain ⟨⟨conn, hstep, hholds⟩, _⟩ := handleConnection_data (holds_new 7) hroom (by decide)
    (by decide)
  refine ⟨hroom, ?_, trivial⟩
  change Permitted (handleConnection (Connection.new 7) (.data ab)).1 (.data restOfLine)
  rw [hstep]
  change restOfLine.length ≤ bufferSize - conn.bufUsed
  rw [hholds.used]
  decide

def splitLineRun : Run 7 :=
  ⟨some (Connection.new 7), [.data ab, .data restOfLine], rfl, permitted_splitLine⟩

theorem framing_exact_splitLine : splitLineRun.observed logged =
    [⟨7, 1, [97, 98, 99]⟩, ⟨7, 2, []⟩] :=
  (framing_exact 7 splitLineRun (by decide) (by decide) (by decide)).1

end ConnectionOrder.Server6
