import ConnectionOrder.Patterns
import ConnectionOrder.ServerExp2.Consistency

/-!
# What serverexp2 prints at its end

print_order_ratio, line by line. A double is a rational number here, or what a division
by zero gives; the sign of the latter's nan is left to the machine.
-/

namespace ConnectionOrder.ServerExp2

open PyText FixedPoint Patterns Machine

inductive Double where
  | finite (x : ℚ)
  | infinite (negative : Bool)
  | nan (negative : Bool)
deriving DecidableEq

def divide (nanSign : Bool) (x y : ℚ) : Double :=
  if y = 0 then if x = 0 then .nan nanSign else .infinite (x < 0) else .finite (x / y)

def minus (negative : Bool) : Text := if negative then ['-'] else []

/-- `%.2f` and, with six places, `%f`. -/
def Double.text (places : Nat) : Double → Text
  | .finite x => fixed places x
  | .infinite negative => minus negative ++ "inf".toList
  | .nan negative => minus negative ++ "nan".toList

/-- The argument of one conversion. -/
inductive Figure where
  | double (places : Nat) (x : Double)
  | int (n : Int)
deriving DecidableEq

def Figure.text : Figure → Text
  | .double places x => x.text places
  | .int n => Scan.decimal n

/-- One printf of a label with its figure. -/
structure ReportLine where
  label : Text
  figure : Figure
  unit : Text
deriving DecidableEq

def ReportLine.text (l : ReportLine) : Text := l.label ++ (equals ++ (l.figure.text ++ l.unit))

def noUnit : Text := []
def times : Text := " times".toList
def sec : Text := " sec".toList
def mbps : Text := " Mbps".toList

def size (n : UInt64) : Figure := .int n.toNat

section Report

variable (nanSign : Bool) (c : Counters) (k : Clocks)

def conn1Duration : ℚ := timeDiff k.conn1Start k.conn1End

def conn2Duration : ℚ := timeDiff k.conn2Start k.conn2End

def totalTime : ℚ := conn1Duration k + conn2Duration k

def throughput (bytes : UInt64) (duration : ℚ) : Double :=
  divide nanSign (bytes.toNat * 8) (duration * 1000000)

def orderRatio (before : Int) : Double :=
  divide nanSign before ((c.socket1BeforeSocket2 + c.socket2BeforeSocket1 : Int) : ℚ)

def throughputLines : List ReportLine :=
  [⟨"Throughput Conn1".toList, .double 2 (throughput nanSign c.conn1Bytes (conn1Duration k)),
      mbps⟩,
    ⟨"Throughput Conn2".toList, .double 2 (throughput nanSign c.conn2Bytes (conn2Duration k)),
      mbps⟩]

def heading : List Text := [[], "--- Order Ratio Analysis ---".toList]

def orderLines : List ReportLine :=
  [⟨"Socket 1 before Socket 2".toList, .int c.socket1BeforeSocket2, times⟩,
    ⟨"Socket 2 before Socket 1".toList, .int c.socket2BeforeSocket1, times⟩,
    ⟨"Socket 2 and Socket 1".toList, .int c.both, times⟩,
    ⟨"First Socket Count".toList, .int (firstSocketCount c), noUnit⟩,
    ⟨"Second Socket Count".toList, .int (secondSocketCount c), noUnit⟩,
    ⟨"Conn1 bytes".toList, size c.conn1Bytes, noUnit⟩,
    ⟨"Conn2 bytes".toList, size c.conn2Bytes, noUnit⟩,
    ⟨"Conn1 packets".toList, size c.conn1Packets, noUnit⟩,
    ⟨"Conn2 packets".toList, size c.conn2Packets, noUnit⟩,
    ⟨"Conn1 duration".toList, .double 6 (.finite (conn1Duration k)), sec⟩,
    ⟨"Conn2 duration".toList, .double 6 (.finite (conn2Duration k)), sec⟩,
    ⟨"Total Time".toList, .double 6 (.finite (totalTime k)), sec⟩,
    ⟨"Ratio (Socket 1 before Socket 2 / Total)".toList,
      .double 6 (orderRatio nanSign c c.socket1BeforeSocket2), noUnit⟩,
    ⟨"Ratio (Socket 2 before Socket 1 / Total)".toList,
      .double 6 (orderRatio nanSign c c.socket2BeforeSocket1), noUnit⟩]

/-- The product of the bytes and 8 is one of uint64_t. -/
def totalLines : List ReportLine :=
  if 0 < totalTime k then
    [⟨"Throughput".toList,
      .double 6 (divide nanSign (c.totalDataBytes * 8).toNat (totalTime k * 1000000)), mbps⟩]
  else []

def reportLines : List ReportLine :=
  throughputLines nanSign c k ++ orderLines nanSign c k ++ totalLines nanSign c k

/-- print_order_ratio -/
def printOrderRatio : List Text :=
  (throughputLines nanSign c k).map ReportLine.text ++ heading ++
    (orderLines nanSign c k ++ totalLines nanSign c k).map ReportLine.text

end Report

/-! ## The figures as numbers -/

/-- The number that is printed, if it is one. -/
def Figure.finite? : Figure → Option ℚ
  | .double places (.finite x) => some (rounded places x)
  | .double _ _ => none
  | .int n => some n

/-- The number that is printed, if it is one without a sign. -/
def Figure.unsigned? : Figure → Option ℚ
  | .double places (.finite x) => if x < 0 then none else some (rounded places x)
  | .double _ _ => none
  | .int n => if n < 0 then none else some n

/-- No count and no time is negative. -/
structure NonNegative (c : Counters) (k : Clocks) : Prop where
  first : 0 ≤ c.socket1BeforeSocket2
  second : 0 ≤ c.socket2BeforeSocket1
  both : 0 ≤ c.both
  firstCount : 0 ≤ firstSocketCount c
  secondCount : 0 ≤ secondSocketCount c
  one : 0 ≤ conn1Duration k
  two : 0 ≤ conn2Duration k

theorem unsigned_finite {places : Nat} {x : ℚ} (h : 0 ≤ x) :
    (Figure.double places (.finite x)).unsigned? = (Figure.double places (.finite x)).finite? :=
  if_neg (not_lt.mpr h)

theorem unsigned_int {n : Int} (h : 0 ≤ n) : (Figure.int n).unsigned? = (Figure.int n).finite? :=
  if_neg (not_lt.mpr h)

theorem unsigned_divide (nanSign : Bool) (places : Nat) {x y : ℚ} (hx : 0 ≤ x) (hy : 0 ≤ y) :
    (Figure.double places (divide nanSign x y)).unsigned? =
      (Figure.double places (divide nanSign x y)).finite? := by
  rw [divide]
  split
  · split <;> rfl
  · exact unsigned_finite (div_nonneg hx hy)

theorem unsigned_report (nanSign : Bool) {c : Counters} {k : Clocks} (h : NonNegative c k) :
    ∀ l ∈ reportLines nanSign c k, l.figure.unsigned? = l.figure.finite? := by
  have htotal : 0 ≤ totalTime k := add_nonneg h.one h.two
  have hthroughput : ∀ (bytes : UInt64) {duration : ℚ}, 0 ≤ duration →
      (Figure.double 2 (throughput nanSign bytes duration)).unsigned? =
        (Figure.double 2 (throughput nanSign bytes duration)).finite? :=
    fun bytes duration hduration => unsigned_divide nanSign 2
      (mul_nonneg (Nat.cast_nonneg _) (by decide)) (mul_nonneg hduration (by decide))
  have hratio : ∀ {before : Int}, 0 ≤ before →
      (Figure.double 6 (orderRatio nanSign c before)).unsigned? =
        (Figure.double 6 (orderRatio nanSign c before)).finite? :=
    fun hbefore => unsigned_divide nanSign 6 (Int.cast_nonneg hbefore)
      (Int.cast_nonneg (Int.add_nonneg h.first h.second))
  have hsize : ∀ n : UInt64, (size n).unsigned? = (size n).finite? :=
    fun n => unsigned_int (Int.natCast_nonneg _)
  intro l hl
  rw [reportLines, List.mem_append, List.mem_append] at hl
  rcases hl with (hl | hl) | hl
  · revert l
    simp only [throughputLines, List.forall_mem_cons]
    exact ⟨hthroughput _ h.one, hthroughput _ h.two, fun _ hl => absurd hl List.not_mem_nil⟩
  · revert l
    simp only [orderLines, List.forall_mem_cons]
    exact ⟨unsigned_int h.first, unsigned_int h.second, unsigned_int h.both,
      unsigned_int h.firstCount, unsigned_int h.secondCount, hsize _, hsize _, hsize _, hsize _,
      unsigned_finite h.one, unsigned_finite h.two, unsigned_finite htotal, hratio h.first,
      hratio h.second, fun _ hl => absurd hl List.not_mem_nil⟩
  · rw [totalLines] at hl
    split at hl
    · cases List.mem_singleton.mp hl
      exact unsigned_divide nanSign 6 (Nat.cast_nonneg _) (mul_nonneg htotal (by decide))
    · cases hl

/-! ## The counters at the end of a run -/

def Ordered (c : Counters) : Prop := 0 ≤ c.socket1BeforeSocket2 ∧ 0 ≤ c.socket2BeforeSocket1

theorem Ordered.pairSocket1 {s : State} (h : Ordered s.counters) :
    Ordered (pairSocket1 s).counters := by
  obtain ⟨hone, htwo⟩ := h
  rw [ServerExp2.pairSocket1]
  split
  · exact ⟨hone, htwo⟩
  · split
    · exact ⟨hone, Int.le_add_one htwo⟩
    · exact ⟨hone, htwo⟩

theorem Ordered.pairSocket2 {s : State} (h : Ordered s.counters) :
    Ordered (pairSocket2 s).counters := by
  obtain ⟨hone, htwo⟩ := h
  rw [ServerExp2.pairSocket2]
  split
  · exact ⟨hone, htwo⟩
  · split
    · exact ⟨Int.le_add_one hone, htwo⟩
    · exact ⟨hone, htwo⟩

theorem Ordered.countData {s : State} (h : Ordered s.counters) (fd : Fd) (received : Nat)
    (clock : Fin 5 → Timeval) : Ordered (countData s fd received clock).counters := by
  rw [ServerExp2.countData]
  dsimp only
  split
  · exact Ordered.pairSocket1 ⟨h.1, h.2⟩
  · split
    · exact Ordered.pairSocket2 ⟨h.1, h.2⟩
    · exact h

theorem Ordered.step {s : State} (h : Ordered s.counters) (i : Input) :
    Ordered (step s i).counters := by
  cases i with
  | wait batch | signal => exact h
  | event answers =>
    rw [ServerExp2.step]
    cases s.pending with
    | nil => exact h
    | cons eventFd rest =>
      dsimp only
      rw [handleEvent]
      split
      · rw [(acceptClient_counting _ answers).2]
        exact h
      · rw [clientEvent]
        cases answers.recv with
        | eof | again | error => exact h
        | data chunk =>
          obtain ⟨_, hnote⟩ := note_totals { s with pending := rest } eventFd answers.clock
          dsimp only
          rw [hnote]
          split
          · refine Ordered.countData ?_ _ _ _
            exact ⟨h.1, h.2⟩
          · exact h

theorem ordered_final (x : Run) : Ordered x.final.counters := by
  have hordered : x.Always fun s => Ordered s.counters := by
    refine x.invariant (fun s hs => ?_) fun s i _ h => h.step i
    obtain ⟨_, _, rfl⟩ := hs
    exact ⟨Int.le_refl 0, Int.le_refl 0⟩
  exact hordered.final

/-- Only a clock that was set back makes a figure of the report negative. -/
theorem nonNegative_final (x : Run) (hone : 0 ≤ conn1Duration x.final.clocks)
    (htwo : 0 ≤ conn2Duration x.final.clocks) :
    NonNegative x.final.counters x.final.clocks := by
  obtain ⟨hfirst, hsecond⟩ := ordered_final x
  have hconsistent := (always_accounted x).final.2.consistent
  exact ⟨hfirst, hsecond, hconsistent.both ▸ Int.add_nonneg hfirst hsecond,
    hconsistent.firstCount, hconsistent.secondCount, hone, htwo⟩

/-! ## The range of the ints -/

/-- What one step can do to the ints that only ever move by one. -/
structure Raised (s s' : State) : Prop where
  count : s.count ≤ s'.count ∧ s'.count ≤ s.count + 1
  activeClients : s.activeClients - 1 ≤ s'.activeClients ∧
    s'.activeClients ≤ s.activeClients + 1
  one : s'.counters.socket1totalCount ≤ s.counters.socket1totalCount + 1
  two : s'.counters.socket2totalCount ≤ s.counters.socket2totalCount + 1

/-- No connection is new, and one may be gone. -/
theorem Raised.of_count {s s' : State} (hcount : s'.count = s.count)
    (hactive : s'.activeClients = s.activeClients ∨ s'.activeClients = s.activeClients - 1)
    (hone : s'.counters.socket1totalCount ≤ s.counters.socket1totalCount + 1)
    (htwo : s'.counters.socket2totalCount ≤ s.counters.socket2totalCount + 1) : Raised s s' :=
  ⟨by omega, by omega, hone, htwo⟩

theorem Raised.of_counters {s s' : State} (hcount : s'.count = s.count)
    (hactive : s'.activeClients = s.activeClients ∨ s'.activeClients = s.activeClients - 1)
    (hcounters : s'.counters = s.counters) : Raised s s' := by
  refine Raised.of_count hcount hactive ?_ ?_
  · rw [hcounters]
    omega
  · rw [hcounters]
    omega

theorem raised_acceptClient (s : State) (answers : Answers) :
    Raised s (acceptClient s answers) := by
  have hcounters := (acceptClient_counting s answers).2
  have hints : (acceptClient s answers).count = s.count + 1 ∧
      ((acceptClient s answers).activeClients = s.activeClients ∨
        (acceptClient s answers).activeClients = s.activeClients + 1) := by
    rw [acceptClient]
    cases answers.accept with
    | none => exact ⟨rfl, .inl rfl⟩
    | some fd =>
      dsimp only
      rw [nameSocket_shape, registerClient]
      split_ifs <;> exact ⟨rfl, .inr rfl⟩
  obtain ⟨hcount, hactive⟩ := hints
  refine ⟨?_, ?_, ?_, ?_⟩
  · omega
  · omega
  · rw [hcounters]
    omega
  · rw [hcounters]
    omega

theorem countData_ints (s : State) (fd : Fd) (received : Nat) (clock : Fin 5 → Timeval) :
    (countData s fd received clock).count = s.count ∧
    (countData s fd received clock).activeClients = s.activeClients ∧
    (countData s fd received clock).counters.socket1totalCount =
      s.counters.socket1totalCount ∧
    (countData s fd received clock).counters.socket2totalCount =
      s.counters.socket2totalCount := by
  rw [countData]
  dsimp only
  split
  · obtain ⟨_, _, _, hshape⟩ := pairSocket1_shape (tallyConn1
      { s with counters := { s.counters with
          totalDataBytes := s.counters.totalDataBytes + UInt64.ofNat received } }
      received clock)
    rw [hshape]
    exact ⟨rfl, rfl, rfl, rfl⟩
  · split
    · obtain ⟨_, _, _, hshape⟩ := pairSocket2_shape (tallyConn2
        { s with counters := { s.counters with
            totalDataBytes := s.counters.totalDataBytes + UInt64.ofNat received } }
        received clock)
      rw [hshape]
      exact ⟨rfl, rfl, rfl, rfl⟩
    · exact ⟨rfl, rfl, rfl, rfl⟩

theorem unit_le (p : Prop) [Decidable p] : unit p ≤ 1 := by
  rw [unit]
  split <;> decide

theorem raised_clientEvent (s : State) (fd : Fd) (answers : Answers) :
    Raised s (clientEvent s fd answers) := by
  rw [clientEvent]
  cases answers.recv with
  | eof => exact Raised.of_counters rfl (.inr rfl) rfl
  | again | error => exact Raised.of_counters rfl (.inl rfl) rfl
  | data chunk =>
    obtain ⟨clocks, hnote⟩ := note_totals s fd answers.clock
    have hone : s.counters.socket1totalCount + unit (fd = s.firstSocket) ≤
        s.counters.socket1totalCount + 1 := Int.add_le_add_left (unit_le _) _
    have htwo : s.counters.socket2totalCount + unit (fd = s.secondSocket) ≤
        s.counters.socket2totalCount + 1 := Int.add_le_add_left (unit_le _) _
    dsimp only
    rw [hnote]
    split
    · obtain ⟨hcount, hactive, htotal1, htotal2⟩ := countData_ints
        { s with
          clocks := clocks
          counters := { s.counters with
            socket1totalCount := s.counters.socket1totalCount + unit (fd = s.firstSocket)
            socket2totalCount := s.counters.socket2totalCount + unit (fd = s.secondSocket) } }
        fd chunk.length answers.clock
      exact Raised.of_count hcount (.inl hactive) (htotal1.trans_le hone) (htotal2.trans_le htwo)
    · exact Raised.of_count rfl (.inl rfl) hone htwo

theorem raised_step (s : State) (i : Input) : Raised s (step s i) := by
  cases i with
  | wait batch | signal => exact Raised.of_counters rfl (.inl rfl) rfl
  | event answers =>
    rw [step]
    cases s.pending with
    | nil => exact Raised.of_counters rfl (.inl rfl) rfl
    | cons eventFd rest =>
      dsimp only
      rw [handleEvent]
      split
      · obtain ⟨hcount, hactive, hone, htwo⟩ :=
          raised_acceptClient { s with pending := rest } answers
        exact ⟨hcount, hactive, hone, htwo⟩
      · obtain ⟨hcount, hactive, hone, htwo⟩ :=
          raised_clientEvent { s with pending := rest } eventFd answers
        exact ⟨hcount, hactive, hone, htwo⟩

/-- After `n` steps. -/
structure Within (n : Nat) (s : State) : Prop where
  count : 0 ≤ s.count ∧ s.count ≤ n
  activeClients : -n ≤ s.activeClients ∧ s.activeClients ≤ n
  one : s.counters.socket1totalCount ≤ n
  two : s.counters.socket2totalCount ≤ n

theorem within_run (x : Run) : Within x.inputs.length x.final := by
  apply x.history_induction (P := fun is => Within is.length (run step x.start is))
  · obtain ⟨_, _, hstart⟩ := x.begins
    rw [run_nil, hstart]
    exact ⟨⟨Int.le_refl 0, Int.le_refl 0⟩, ⟨Int.le_refl 0, Int.le_refl 0⟩, Int.le_refl 0,
      Int.le_refl 0⟩
  · intro is i _ _ ih
    obtain ⟨hcount, hactive, hone, htwo⟩ := raised_step (run step x.start is) i
    obtain ⟨hcount', hactive', hone', htwo'⟩ := ih
    rw [run_snoc, List.length_append, List.length_singleton]
    refine ⟨?_, ?_, ?_, ?_⟩ <;> omega

/-- The ints stay in the range of the number of steps. -/
theorem counters_bounded (x : Run) : Within x.inputs.length x.final ∧
    (0 ≤ x.final.counters.socket1BeforeSocket2 ∧ 0 ≤ x.final.counters.socket2BeforeSocket1) ∧
    x.final.counters.both = x.final.counters.socket1BeforeSocket2 +
      x.final.counters.socket2BeforeSocket1 ∧
    x.final.counters.both ≤ x.inputs.length := by
  have hwithin := within_run x
  have hconsistent := (always_accounted x).final.2.consistent
  exact ⟨hwithin, ordered_final x, hconsistent.both, hconsistent.one.trans hwithin.one⟩

/-! ## The lines as patterns -/

def Figure.kind : Figure → Number
  | .double _ _ => .numeral
  | .int _ => .digits

def Figure.places : Figure → Nat
  | .double places _ => places
  | .int _ => 1

/-- The pattern that is made for a line. -/
def ReportLine.pattern (l : ReportLine) : Pattern := ⟨l.label, l.figure.kind, l.unit⟩

def ReportLine.format (l : ReportLine) : Pattern × Nat := (l.pattern, l.figure.places)

def totalFormat : Pattern × Nat := (⟨"Throughput".toList, .numeral, mbps⟩, 6)

/-- What the lines of a report have in common with those of any other. -/
def lineFormats : List (Pattern × Nat) :=
  let k : Clocks := ⟨false, false, ⟨0, 0⟩, ⟨0, 0⟩, ⟨0, 0⟩, ⟨0, 0⟩⟩
  (throughputLines false Counters.zero k ++ orderLines false Counters.zero k).map
    ReportLine.format ++ [totalFormat]

/-- Only the last line may be missing. -/
theorem formats_report (nanSign : Bool) (c : Counters) (k : Clocks) :
    (reportLines nanSign c k).map ReportLine.format <+: lineFormats := by
  have hfirst : (throughputLines nanSign c k ++ orderLines nanSign c k).map ReportLine.format ++
      [totalFormat] = lineFormats := by
    simp only [lineFormats, throughputLines, orderLines, size, List.map_append, List.map_cons,
      List.map_nil, ReportLine.format, ReportLine.pattern, Figure.kind, Figure.places]
  rw [reportLines, List.map_append, ← hfirst, totalLines]
  split
  · rw [List.map_singleton]
    exact List.prefix_refl _
  · rw [List.map_nil, List.append_nil]
    exact List.prefix_append _ _

theorem labels_nodup (nanSign : Bool) (c : Counters) (k : Clocks) :
    ((reportLines nanSign c k).map ReportLine.label).Nodup := by
  have hall : (lineFormats.map fun f => f.1.label).Nodup := by decide
  have hsub := ((formats_report nanSign c k).sublist.map fun f => f.1.label).nodup hall
  rw [List.map_map] at hsub
  exact hsub

def linePatterns : List Pattern := lineFormats.map Prod.fst

theorem pattern_mem {nanSign : Bool} {c : Counters} {k : Clocks} {l : ReportLine}
    (h : l ∈ reportLines nanSign c k) : l.pattern ∈ linePatterns :=
  List.mem_map_of_mem (f := Prod.fst)
    ((formats_report nanSign c k).subset (List.mem_map_of_mem (f := ReportLine.format) h))

theorem places_pos {nanSign : Bool} {c : Counters} {k : Clocks} {l : ReportLine}
    (h : l ∈ reportLines nanSign c k) : 0 < l.figure.places := by
  have hall : ∀ f ∈ lineFormats, 0 < f.2 := by decide
  have hformat : l.format ∈ (reportLines nanSign c k).map ReportLine.format :=
    List.mem_map_of_mem h
  exact hall _ ((formats_report nanSign c k).subset hformat)

theorem linePatterns_ok : ∀ p ∈ linePatterns, p.Ok := by decide

theorem linePatterns_apart : Apart linePatterns := by decide

/-! ## A line in front of a pattern -/

/-- A figure is a numeral, or begins with what no numeral has. -/
theorem text_cases (f : Figure) :
    (∃ x, f.unsigned? = some x ∧ f.kind.Matches f.text) ∨
    (f.unsigned? = none ∧ ∀ s, ∀ c ∈ (f.text ++ s).head?, isNumeral c = false) := by
  cases f with
  | int n =>
    cases Decidable.em (n < 0) with
    | inl hneg =>
      refine .inr ⟨if_pos hneg, fun s => ?_⟩
      rw [Figure.text, Scan.decimal, if_pos hneg]
      rintro c ⟨⟩
      rfl
    | inr hnonneg =>
      refine .inl ⟨n, if_neg hnonneg, decimal_ne_nil n, ?_⟩
      rw [Figure.text, Scan.decimal, if_neg hnonneg]
      exact fun c hc => Scan.isDigit_toDigits hc
  | double places x =>
    cases x with
    | finite x =>
      cases Decidable.em (x < 0) with
      | inl hneg =>
        refine .inr ⟨if_pos hneg, fun s => ?_⟩
        rw [Figure.text, Double.text, fixed, if_pos hneg]
        rintro c ⟨⟩
        rfl
      | inr hnonneg =>
        exact .inl ⟨_, if_neg hnonneg, fixed_ne_nil places x,
          fun c hc => isNumeral_fixed (not_lt.mp hnonneg) hc⟩
    | infinite negative | nan negative =>
      refine .inr ⟨rfl, fun s => ?_⟩
      cases negative with
      | true | false =>
        rintro c ⟨⟩
        rfl

/-- A figure is read where it is a number without a sign. -/
theorem value_figure {l : ReportLine} (h : l.pattern.Ok) :
    l.pattern.value (l.figure.text ++ l.unit) = l.figure.unsigned?.map fun _ => l.figure.text := by
  rcases text_cases l.figure with ⟨x, hvalue, hmatches⟩ | ⟨hvalue, hhead⟩
  · rw [hvalue]
    exact value_own h.number hmatches
  · rw [hvalue]
    exact value_eq_none (hhead l.unit)

theorem notMem_text {c : Char} (hsigned : isSigned c = false) (hword : c ∉ "infnan".toList)
    (f : Figure) : c ∉ f.text := by
  have hminus : ∀ negative, c ∉ minus negative := by
    intro negative hmem
    cases negative with
    | true =>
      cases List.mem_singleton.mp hmem
      cases hsigned
    | false => cases hmem
  have hwords : "inf".toList ⊆ "infnan".toList ∧ "nan".toList ⊆ "infnan".toList := by decide
  intro hmem
  cases f with
  | int n => exact Bool.eq_false_iff.mp hsigned (isSigned_decimal hmem)
  | double places x =>
    cases x with
    | finite x => exact Bool.eq_false_iff.mp hsigned (isSigned_fixed hmem)
    | infinite negative =>
      exact (List.mem_append.mp hmem).elim (hminus negative) fun h => hword (hwords.1 h)
    | nan negative =>
      exact (List.mem_append.mp hmem).elim (hminus negative) fun h => hword (hwords.2 h)

/-- A pattern finds its own line's figure, and nothing in the line of another. -/
theorem search_line {p : Pattern} {l : ReportLine} (hp : p ∈ linePatterns)
    (hl : l.pattern ∈ linePatterns) : p.search l.text =
      if l.label = p.label then l.figure.unsigned?.map fun _ => l.figure.text else none := by
  have hok := linePatterns_ok p hp
  have hok' := linePatterns_ok _ hl
  have hlabel : '=' ∉ l.label := hok'.label
  have hrest : '=' ∉ l.figure.text ++ l.unit := by
    rw [List.mem_append, not_or]
    exact ⟨notMem_text rfl (by decide) l.figure, hok'.unit⟩
  split
  · rename_i hsame
    have heq : p = l.pattern := linePatterns_apart p hp _ hl (hsame ▸ List.suffix_refl _)
    rw [ReportLine.text, search_own hok.label hlabel hrest hok.nonempty hsame.symm, heq,
      value_figure hok']
  · rename_i hother
    refine search_other hok.label hlabel hrest hok.nonempty fun hsuffix => hother ?_
    exact (congrArg Pattern.label (linePatterns_apart p hp _ hl hsuffix)).symm

/-! ## The whole report in front of a pattern -/

/-- The figure behind a label. -/
def figure? (label : Text) (ls : List ReportLine) : Option Figure :=
  (ls.find? fun l => l.label = label).map ReportLine.figure

def Figure.unsignedText? (f : Figure) : Option Text := f.unsigned?.map fun _ => f.text

theorem findSome?_lines {p : Pattern} (hp : p ∈ linePatterns) {ls : List ReportLine}
    (hls : ∀ l ∈ ls, l.pattern ∈ linePatterns) (hnodup : (ls.map ReportLine.label).Nodup) :
    (ls.map ReportLine.text).findSome? p.search =
      (figure? p.label ls).bind Figure.unsignedText? := by
  induction ls with
  | nil => rfl
  | cons l ls ih =>
    rw [List.map_cons, List.nodup_cons] at hnodup
    have hrest := ih (fun l' hl' => hls l' (List.mem_cons_of_mem l hl')) hnodup.2
    rw [List.map_cons, List.findSome?_cons, search_line hp (hls l List.mem_cons_self), hrest,
      figure?, figure?, List.find?_cons]
    cases Decidable.em (l.label = p.label) with
    | inl hsame =>
      have hnone : (ls.find? fun l => decide (l.label = p.label)) = none := by
        rw [List.find?_eq_none]
        intro l' hl' hlabel
        rw [decide_eq_true_iff] at hlabel
        exact hnodup.1 (hsame.trans hlabel.symm ▸ List.mem_map_of_mem hl')
      rw [if_pos hsame, decide_eq_true hsame, hnone]
      dsimp only
      rw [Option.map_some, Option.bind_some, Figure.unsignedText?]
      cases l.figure.unsigned? with
      | none => rfl
      | some x => rfl
    | inr hother =>
      rw [if_neg hother, decide_eq_false hother]

theorem search_report {p : Pattern} (hp : p ∈ linePatterns) {before : List Text}
    (hbefore : ∀ line ∈ before, ¬equals <:+: line) (nanSign : Bool) (c : Counters) (k : Clocks) :
    p.search (Lines.terminate '\n' (before ++ printOrderRatio nanSign c k)) =
      (figure? p.label (reportLines nanSign c k)).bind Figure.unsignedText? := by
  have hfront : before.findSome? p.search = none :=
    List.findSome?_eq_none_iff.mpr fun line hline => search_eq_none (hbefore line hline)
  have hheading : heading.findSome? p.search = none := by
    have hplain : ∀ line ∈ heading, ¬equals <:+: line := by decide
    exact List.findSome?_eq_none_iff.mpr fun line hline => search_eq_none (hplain line hline)
  have hlines := findSome?_lines hp (fun _ hl => pattern_mem hl) (labels_nodup nanSign c k)
  have hsearch := search_terminate (linePatterns_ok p hp).stops
    (before ++ printOrderRatio nanSign c k) []
  rw [List.append_nil, Pattern.search, Option.or_none] at hsearch
  rw [hsearch, List.findSome?_append, hfront, Option.none_or, printOrderRatio,
    List.findSome?_append, List.findSome?_append, hheading, Option.or_none,
    ← List.findSome?_append, ← List.map_append, ← List.append_assoc]
  exact hlines

end ConnectionOrder.ServerExp2
