import Mathlib.Data.List.Basic

/-!
# A stream whose reader is woken by edges

One direction of a connection: what the writer sends is in flight, then queued,
then taken by the reader. Each arrival raises the edge, and a report to the reader
clears it. A reader that takes only so much at a report depends on another edge for
what it leaves behind.
-/

namespace ConnectionOrder.EdgeTriggered

universe u

variable {α : Type u}

/-- `ended` is set by the writer, `fin` by the arrival of that news, `closed` by the
reader. -/
structure Stream (α : Type u) where
  sent : List α
  inFlight : List α
  queue : List α
  passed : List α
  ended : Bool
  fin : Bool
  edge : Bool
  closed : Bool

namespace Stream

def idle : Stream α := ⟨[], [], [], [], false, false, false, false⟩

def send (c : Stream α) (data : List α) : Stream α :=
  { c with sent := c.sent ++ data, inFlight := c.inFlight ++ data }

def finish (c : Stream α) : Stream α := { c with ended := true }

/-- The next `n` arrive. What arrives at a closed stream is dropped. -/
def arrive (c : Stream α) (n : Nat) : Stream α :=
  { c with
    inFlight := c.inFlight.drop n
    queue := if c.closed then c.queue else c.queue ++ c.inFlight.take n
    edge := true }

def arriveFin (c : Stream α) : Stream α := { c with fin := true, edge := true }

def report (c : Stream α) : Stream α := { c with edge := false }

def take (c : Stream α) (n : Nat) : Stream α :=
  { c with queue := c.queue.drop n, passed := c.passed ++ c.queue.take n }

def close (c : Stream α) : Stream α := { c with closed := true }

/-- A reader that takes up to `n` at once and takes an empty queue for the end. -/
def read (c : Stream α) (n : Nat) : Stream α := if c.queue.isEmpty then c.close else c.take n

/-- There is something to take, or the end to be seen. -/
def Readable (c : Stream α) : Prop := c.queue ≠ [] ∨ c.fin = true

/-- Something is still to arrive. -/
def Coming (c : Stream α) : Prop := c.inFlight ≠ [] ∨ (c.ended = true ∧ c.fin = false)

/-- Everything sent has been taken, and the reader has closed if the writer has. -/
structure Settled (c : Stream α) : Prop where
  queue : c.queue = []
  fin : c.fin = true → c.closed = true
  passed : c.passed = c.sent
  ended : c.ended = true → c.closed = true

/-- Nothing is lost, and whoever has something to see will be woken: an edge is up, a
report is on its way (`reported`), or something more will arrive. -/
structure Healthy (c : Stream α) (reported : Prop) : Prop where
  conserved : c.sent = c.passed ++ c.queue ++ c.inFlight
  last : c.fin = true → c.ended = true ∧ c.inFlight = []
  closed : c.closed = true → c.fin = true ∧ c.queue = []
  noticed : c.closed = false → c.Readable → c.edge = true ∨ reported ∨ c.Coming

/-- A read of `n` finds something, and leaves nothing behind that no later edge announces. -/
def Drained (c : Stream α) (n : Nat) : Prop :=
  c.Readable ∧
    (c.edge = true ∨ c.Coming ∨ (c.queue.length ≤ n ∧ (c.fin = true → c.queue = [])))

instance (c : Stream α) : Decidable c.Readable :=
  inferInstanceAs (Decidable (c.queue ≠ [] ∨ c.fin = true))

instance (c : Stream α) : Decidable c.Coming :=
  inferInstanceAs (Decidable (c.inFlight ≠ [] ∨ (c.ended = true ∧ c.fin = false)))

instance (c : Stream α) (n : Nat) : Decidable (c.Drained n) :=
  inferInstanceAs (Decidable (_ ∧ _))

/-! ## The writer and the network -/

variable {c : Stream α} {reported : Prop}

theorem healthy_idle : (idle : Stream α).Healthy reported where
  conserved := rfl
  last hfin := absurd hfin Bool.false_ne_true
  closed hclosed := absurd hclosed Bool.false_ne_true
  noticed _ hreadable := absurd hreadable (by simp [Readable, idle])

theorem Healthy.mono {reported' : Prop} (h : c.Healthy reported) (himp : reported → reported') :
    c.Healthy reported' where
  conserved := h.conserved
  last := h.last
  closed := h.closed
  noticed hopen hreadable := (h.noticed hopen hreadable).imp_right (Or.imp_left himp)

theorem Healthy.send (h : c.Healthy reported) (hended : c.ended = false) (data : List α) :
    (c.send data).Healthy reported := by
  refine ⟨?_, ?_, h.closed, ?_⟩
  · change c.sent ++ data = c.passed ++ c.queue ++ (c.inFlight ++ data)
    rw [h.conserved, List.append_assoc _ c.inFlight]
  · intro hfin
    rw [(h.last hfin).1] at hended
    cases hended
  · intro hopen hreadable
    refine (h.noticed hopen hreadable).imp_right (Or.imp_right ?_)
    rintro (hflight | hfin)
    · exact .inl fun hnil => hflight (List.append_eq_nil_iff.mp hnil).1
    · exact .inr hfin

theorem Healthy.finish (h : c.Healthy reported) : c.finish.Healthy reported := by
  refine ⟨h.conserved, fun hfin => ⟨rfl, (h.last hfin).2⟩, h.closed, ?_⟩
  intro hopen hreadable
  refine (h.noticed hopen hreadable).imp_right (Or.imp_right ?_)
  rintro (hflight | ⟨_, hfin⟩)
  · exact .inl hflight
  · exact .inr ⟨rfl, hfin⟩

theorem Healthy.arrive (h : c.Healthy reported) (n : Nat) : (c.arrive n).Healthy reported := by
  refine ⟨?_, ?_, ?_, fun _ _ => .inl rfl⟩
  · change c.sent =
      c.passed ++ (if c.closed = true then c.queue else c.queue ++ c.inFlight.take n) ++
        c.inFlight.drop n
    split
    · rename_i hclosed
      rw [h.conserved, (h.last (h.closed hclosed).1).2, List.drop_nil]
    · rw [List.append_assoc, List.append_assoc, List.take_append_drop, ← List.append_assoc,
        h.conserved]
  · intro hfin
    refine ⟨(h.last hfin).1, ?_⟩
    change c.inFlight.drop n = []
    rw [(h.last hfin).2, List.drop_nil]
  · intro hclosed
    refine ⟨(h.closed hclosed).1, ?_⟩
    exact (if_pos hclosed).trans (h.closed hclosed).2

theorem Healthy.arriveFin (h : c.Healthy reported) (hended : c.ended = true)
    (hflight : c.inFlight = []) : c.arriveFin.Healthy reported :=
  ⟨h.conserved, fun _ => ⟨hended, hflight⟩, fun hclosed => ⟨rfl, (h.closed hclosed).2⟩,
    fun _ _ => .inl rfl⟩

/-! ## The reader -/

theorem Healthy.report (h : c.Healthy reported) : c.report.Healthy True :=
  ⟨h.conserved, h.last, h.closed, fun _ _ => .inr (.inl trivial)⟩

theorem healthy_close_iff (h : c.Healthy True) (hqueue : c.queue = []) :
    c.close.Healthy False ↔ c.fin = true := by
  constructor
  · exact fun hclosed => (hclosed.closed rfl).1
  · intro hfin
    exact ⟨h.conserved, h.last, fun _ => ⟨hfin, hqueue⟩,
      fun hopen => absurd hopen.symm Bool.false_ne_true⟩

theorem readable_take_iff (n : Nat) :
    (c.take n).Readable ↔ ¬(c.queue.length ≤ n ∧ c.fin = false) := by
  rw [not_and, ← Bool.not_eq_true, not_not, Readable]
  change c.queue.drop n ≠ [] ∨ c.fin = true ↔ _
  rw [Ne, List.drop_eq_nil_iff]
  exact Decidable.imp_iff_not_or.symm

theorem healthy_take_iff (h : c.Healthy True) (hopen : c.closed = false) (n : Nat) :
    (c.take n).Healthy False ↔
      (c.edge = true ∨ c.Coming ∨ (c.queue.length ≤ n ∧ c.fin = false)) := by
  have hcoming : (c.take n).Coming ↔ c.Coming := Iff.rfl
  constructor
  · intro htaken
    by_cases hdrained : c.queue.length ≤ n ∧ c.fin = false
    · exact .inr (.inr hdrained)
    · rcases htaken.noticed hopen ((readable_take_iff n).mpr hdrained) with hedge | hno | hlater
      · exact .inl hedge
      · exact hno.elim
      · exact .inr (.inl hlater)
  · intro hwoken
    refine ⟨?_, h.last, fun hclosed => ?_, fun _ hreadable => ?_⟩
    · change c.sent = c.passed ++ c.queue.take n ++ c.queue.drop n ++ c.inFlight
      rw [List.append_assoc c.passed, List.take_append_drop, h.conserved]
    · exact absurd (hopen.symm.trans hclosed) Bool.false_ne_true
    · rcases hwoken with hedge | hlater | hdrained
      · exact .inl hedge
      · exact .inr (.inr hlater)
      · exact absurd hdrained ((readable_take_iff n).mp hreadable)

/-- One read keeps a stream healthy exactly when it drains it. -/
theorem healthy_read_iff (h : c.Healthy True) (hopen : c.closed = false) (n : Nat) :
    (c.read n).Healthy False ↔ c.Drained n := by
  rw [read, Drained, Readable]
  cases hqueue : c.queue with
  | nil =>
    rw [if_pos (by rfl), healthy_close_iff h hqueue]
    simp
  | cons head tail =>
    rw [if_neg (by simp), healthy_take_iff h hopen, hqueue]
    simp

/-- Where nothing is left to arrive and every edge has been reported and served. -/
theorem Healthy.settled (h : c.Healthy False) (hquiet : ¬c.Coming)
    (hserved : c.closed = false → ¬(c.edge = true ∧ c.Readable)) : c.Settled := by
  rw [Coming, not_or, not_not, not_and, Bool.not_eq_false] at hquiet
  obtain ⟨hflight, hended⟩ := hquiet
  have hseen : c.closed = false → ¬c.Readable := by
    intro hopen hreadable
    rcases h.noticed hopen hreadable with hedge | hno | hlater
    · exact hserved hopen ⟨hedge, hreadable⟩
    · exact hno
    · rcases hlater with hmore | ⟨hover, hfin⟩
      · exact hmore hflight
      · rw [hended hover] at hfin
        cases hfin
  have hqueue : c.queue = [] := by
    cases hclosed : c.closed with
    | true => exact (h.closed hclosed).2
    | false => exact not_not.mp fun hne => hseen hclosed (.inl hne)
  have hfin : c.fin = true → c.closed = true := by
    intro hfin
    rw [← Bool.not_eq_false]
    exact fun hopen => hseen hopen (.inr hfin)
  refine ⟨hqueue, hfin, ?_, fun hover => hfin (hended hover)⟩
  rw [h.conserved, hqueue, hflight, List.append_nil, List.append_nil]

end Stream

end ConnectionOrder.EdgeTriggered
