import ConnectionOrder.ServerEpx3.Summaries
import Mathlib.Algebra.FreeMonoid.Basic
import Mathlib.Tactic.FieldSimp
import Mathlib.Tactic.Ring

/-!
# The derived figures of a summary

Ratios and throughputs are assigned at each finished connection, so a summary shows
those of the last connection of its interval. They are the figures of the interval
when the last connection is in proportion to the connections before it.
-/

namespace ConnectionOrder.ServerEpx3

open Machine

/-! ## Quotients of sums -/

def ratio (x y : ℚ) : ℚ := if 0 < y then x / y else 0

def throughput (bytes duration : ℚ) : ℚ :=
  if 0 < duration then bytes * 8 / (duration * 1000000) else 0

/-- x to y is as X to Y, or the quotient of the side that has none is zero anyway. -/
def InProportion (X Y x y : ℚ) : Prop :=
  if 0 < y then if 0 < Y + y then x * Y = X * y else x = 0
  else 0 < Y + y → X + x = 0

instance (X Y x y : ℚ) : Decidable (InProportion X Y x y) := inferInstanceAs (Decidable (ite _ _ _))

theorem ratio_eq_iff (X Y x y : ℚ) : ratio x y = ratio (X + x) (Y + y) ↔ InProportion X Y x y := by
  rw [ratio, ratio, InProportion]
  split
  · rename_i hy
    split
    · rename_i hsum
      rw [div_eq_div_iff hy.ne' hsum.ne', mul_add, add_mul]
      exact add_left_inj (x * y)
    · rw [div_eq_zero_iff]
      exact or_iff_left hy.ne'
  · split
    · rename_i hsum
      rw [eq_comm, div_eq_zero_iff]
      simp [hsum, hsum.ne']
    · rename_i hsum
      exact iff_of_true rfl fun habsurd => absurd habsurd hsum

theorem throughput_eq_ratio (bytes duration : ℚ) :
    throughput bytes duration = ratio bytes duration * (8 / 1000000) := by
  rw [throughput, ratio]
  split
  · rename_i hpos
    field_simp
  · rw [zero_mul]

theorem throughput_eq_iff (X Y x y : ℚ) :
    throughput x y = throughput (X + x) (Y + y) ↔ InProportion X Y x y := by
  rw [throughput_eq_ratio, throughput_eq_ratio, mul_left_inj' (by norm_num), ratio_eq_iff]

/-! ## The connections of an interval -/

/-- What the server holds about a connection when it finishes. -/
structure Outcome where
  progress : Progress
  duration : ℚ

namespace Outcome

def persistentCount (o : Outcome) : ℚ := o.progress.persistentCount.toNat

def nonPersistentCount (o : Outcome) : ℚ := o.progress.nonPersistentCount.toNat

def both (o : Outcome) : ℚ := o.progress.both

def perBytesRead (o : Outcome) : ℚ := o.progress.perBytesRead.toNat

def nonperBytesRead (o : Outcome) : ℚ := o.progress.nonperBytesRead.toNat

def total (f : Outcome → ℚ) (os : List Outcome) : ℚ := (os.map f).sum

theorem total_append_singleton (f : Outcome → ℚ) (os : List Outcome) (o : Outcome) :
    total f (os ++ [o]) = total f os + f o := by
  rw [total, List.map_append, List.sum_append, List.map_singleton, List.sum_singleton, total]

end Outcome

open Outcome

/-- The derived fields are the figures of all these connections together. -/
structure Describes (c : ConnectionStats) (os : List Outcome) : Prop where
  persistentRatio : c.persistentRatio = ratio (total persistentCount os) (total both os)
  nonPersistentRatio : c.nonPersistentRatio = ratio (total nonPersistentCount os) (total both os)
  throughputMbpsper :
    c.throughputMbpsper = throughput (total perBytesRead os) (total duration os)
  throughputMbpsnonper :
    c.throughputMbpsnonper = throughput (total nonperBytesRead os) (total duration os)

/-- The last connection has its pairs and bytes in proportion to the others. -/
def LastInProportion (os : List Outcome) : Prop :=
  ∀ earlier last, os = earlier ++ [last] →
    InProportion (total persistentCount earlier) (total both earlier) last.persistentCount
      last.both ∧
    InProportion (total nonPersistentCount earlier) (total both earlier) last.nonPersistentCount
      last.both ∧
    InProportion (total perBytesRead earlier) (total duration earlier) last.perBytesRead
      last.duration ∧
    InProportion (total nonperBytesRead earlier) (total duration earlier) last.nonperBytesRead
      last.duration

def foldAll (os : List Outcome) : ConnectionStats :=
  os.foldl (fun temp o => temp.fold o.progress o.duration) ConnectionStats.zero

theorem describes_foldAll_iff {os : List Outcome} (hne : os ≠ []) :
    Describes (foldAll os) os ↔ LastInProportion os := by
  obtain ⟨earlier, last, rfl⟩ := os.eq_nil_or_concat.resolve_left hne
  rw [List.concat_eq_append] at hne ⊢
  have hratio : ∀ (n : UInt64), (if 0 < last.progress.both then
      (n.toNat : ℚ) / (last.progress.both : ℚ) else 0) = ratio n.toNat last.both := by
    intro n
    rw [ratio, both]
    simp only [Int.cast_pos]
  have hlast : foldAll (earlier ++ [last]) =
      (foldAll earlier).fold last.progress last.duration := by
    rw [foldAll, List.foldl_append]
    rfl
  constructor
  · rintro ⟨hper, hnon, hthroughput, hthroughput'⟩ earlier' last' heq
    obtain ⟨rfl, hlasts⟩ := List.append_inj' heq rfl
    obtain rfl : last = last' := List.singleton_inj.mp hlasts
    rw [hlast] at hper hnon hthroughput hthroughput'
    rw [total_append_singleton, total_append_singleton] at hper hnon hthroughput hthroughput'
    exact ⟨(ratio_eq_iff _ _ _ _).mp ((hratio _).symm.trans hper),
      (ratio_eq_iff _ _ _ _).mp ((hratio _).symm.trans hnon),
      (throughput_eq_iff _ _ _ _).mp hthroughput, (throughput_eq_iff _ _ _ _).mp hthroughput'⟩
  · intro hproportion
    obtain ⟨hper, hnon, hthroughput, hthroughput'⟩ := hproportion earlier last rfl
    rw [hlast]
    constructor <;> rw [total_append_singleton, total_append_singleton]
    · exact (hratio _).trans ((ratio_eq_iff _ _ _ _).mpr hper)
    · exact (hratio _).trans ((ratio_eq_iff _ _ _ _).mpr hnon)
    · exact (throughput_eq_iff _ _ _ _).mpr hthroughput
    · exact (throughput_eq_iff _ _ _ _).mpr hthroughput'

/-! ## The intervals of a run -/

def outcomes (s : State) (i : Input) : List Outcome :=
  match action s i with
  | .finish => [⟨s.progress, oneconn2Duration s⟩]
  | .quiet | .place .. | .data .. | .leave _ | .stray _ => []

/-- The batches with the connections themselves in place of their sums. -/
structure Records (b : Batches (FreeAddMonoid Outcome)) (r : Report) : Prop where
  count : r.statsCount = b.count
  total : r.connectionCount = b.total
  rest : r.tempStats = foldAll b.rest.toList
  slot : ∀ i < b.count, r.statsArray i = foldAll (b.slots i).toList

theorem foldAll_append (os : FreeAddMonoid Outcome) (o : Outcome) :
    foldAll (os + FreeAddMonoid.of o).toList =
      (foldAll os.toList).fold o.progress o.duration := by
  rw [foldAll, FreeAddMonoid.toList_add, List.foldl_append]
  rfl

/-- The next slot is filled on both sides. -/
theorem slots_update {statsArray : Nat → ConnectionStats} {slots : Nat → FreeAddMonoid Outcome}
    {n : Nat} {temp : ConnectionStats} {rest : FreeAddMonoid Outcome}
    (hslots : ∀ i < n, statsArray i = foldAll (slots i).toList)
    (hrest : temp = foldAll rest.toList) (i : Nat) (hi : i < n + 1) :
    Function.update statsArray n temp i = foldAll (Function.update slots n rest i).toList := by
  rcases Nat.lt_succ_iff_lt_or_eq.mp hi with hlt | rfl
  · rw [Function.update_of_ne hlt.ne, Function.update_of_ne hlt.ne]
    exact hslots i hlt
  · rw [Function.update_self, Function.update_self]
    exact hrest

theorem Records.record {b : Batches (FreeAddMonoid Outcome)} {r : Report} (h : Records b r)
    (o : Outcome) : Records (b.push summaryInterval statsCapacity (FreeAddMonoid.of o))
      (r.record o.progress o.duration) := by
  have hfold : r.tempStats.fold o.progress o.duration =
      foldAll (b.rest + FreeAddMonoid.of o).toList := by
    rw [foldAll_append, h.rest]
  rw [Report.record, Batches.push, h.count, h.total]
  split
  · exact ⟨rfl, rfl, rfl, slots_update h.slot hfold⟩
  · exact ⟨rfl, rfl, hfold, h.slot⟩

theorem Records.saveRemaining {b : Batches (FreeAddMonoid Outcome)} {r : Report}
    (h : Records b r) : Records (b.save summaryInterval statsCapacity r.keepsRest)
      r.saveRemaining := by
  have hkeep : r.keepsRest = true ↔ 0 < r.tempStats.totalWhenBothPresent := decide_eq_true_iff
  rw [Report.saveRemaining, Batches.save, ← h.count, ← h.total]
  simp only [hkeep]
  split
  · exact ⟨rfl, rfl, h.rest, slots_update (fun i hi => h.slot i (h.count ▸ hi)) h.rest⟩
  · exact h

theorem records_run (x : Run) : ∃ slots b, Batches.Sums summaryInterval statsCapacity slots
    ((x.observed outcomes).map FreeAddMonoid.of) b ∧ Records b x.final.report := by
  apply x.history_induction (P := fun is => ∃ slots b,
    Batches.Sums summaryInterval statsCapacity slots
      ((collect step outcomes x.start is).map FreeAddMonoid.of) b ∧
    Records b (run step x.start is).report)
  · obtain ⟨_, _, _, _, _, hstart⟩ := x.begins
    rw [run_nil, hstart]
    exact ⟨fun _ => 0, _, Batches.sums_empty _, rfl, rfl, rfl,
      fun i hi => absurd hi (Nat.not_lt_zero i)⟩
  · rintro is i _ _ ⟨slots, b, hsums, hrecords⟩
    rw [collect_snoc, run_snoc, report_step, outcomes, List.map_append]
    cases action (run step x.start is) i with
    | quiet | leave | stray | place | data =>
      dsimp only
      rw [List.map_nil, List.append_nil]
      exact ⟨slots, b, hsums, hrecords⟩
    | finish => exact ⟨slots, _, hsums.push _, hrecords.record _⟩

/-- The connections whose summary is number i. -/
def interval (x : Run) (i : Nat) : List Outcome :=
  Batches.segment summaryInterval (x.observed outcomes) i

theorem sum_map_of (os : List Outcome) :
    (os.map FreeAddMonoid.of).sum = FreeAddMonoid.ofList os := by
  induction os with
  | nil => rfl
  | cons o os ih =>
    rw [List.map_cons, List.sum_cons, ih]
    rfl

theorem saved_foldAll (x : Run) {i : Nat} (hi : i < x.final.report.saveRemaining.statsCount) :
    interval x i ≠ [] ∧
    x.final.report.saveRemaining.statsArray i = foldAll (interval x i) := by
  obtain ⟨slots, b, hsums, hrecords⟩ := records_run x
  have hsaved := hrecords.saveRemaining
  have hlt := lt_of_lt_of_eq hi hsaved.count
  obtain ⟨hpos, hslot⟩ := hsums.slot_save summaryInterval_pos x.final.report.keepsRest hlt
  have hsegment : Batches.segment summaryInterval ((x.observed outcomes).map FreeAddMonoid.of) i =
      (interval x i).map FreeAddMonoid.of := by
    rw [Batches.segment, interval, Batches.segment, List.map_take, List.map_drop]
  rw [hsegment] at hpos hslot
  constructor
  · exact List.length_pos_iff.mp (by rwa [List.length_map] at hpos)
  · rw [hsaved.slot i hlt, hslot, sum_map_of]
    rfl

/-- The derived fields of a written summary describe its interval exactly when the
last connection of the interval is in proportion to those before it. -/
theorem summary_describes_iff (x : Run) {i : Nat}
    (hi : i < x.final.report.saveRemaining.statsCount) :
    Describes (x.final.report.saveRemaining.statsArray i) (interval x i) ↔
      LastInProportion (interval x i) := by
  obtain ⟨hne, hfold⟩ := saved_foldAll x hi
  rw [hfold]
  exact describes_foldAll_iff hne

/-! ## The same connections in another order -/

theorem total_perm (f : Outcome → ℚ) {os os' : List Outcome} (h : os.Perm os') :
    total f os = total f os' := (h.map f).sum_eq

structure SameFigures (c c' : ConnectionStats) : Prop where
  persistentRatio : c'.persistentRatio = c.persistentRatio
  nonPersistentRatio : c'.nonPersistentRatio = c.nonPersistentRatio
  throughputMbpsper : c'.throughputMbpsper = c.throughputMbpsper
  throughputMbpsnonper : c'.throughputMbpsnonper = c.throughputMbpsnonper

theorem sameFigures_iff {c c' : ConnectionStats} {os os' : List Outcome} (hc : Describes c os)
    (h : os.Perm os') : SameFigures c c' ↔ Describes c' os' := by
  obtain ⟨hper, hnon, hthroughput, hthroughput'⟩ := hc
  rw [total_perm _ h, total_perm _ h] at hper hnon hthroughput hthroughput'
  constructor
  · rintro ⟨h1, h2, h3, h4⟩
    exact ⟨h1.trans hper, h2.trans hnon, h3.trans hthroughput, h4.trans hthroughput'⟩
  · rintro ⟨h1, h2, h3, h4⟩
    exact ⟨h1.trans hper.symm, h2.trans hnon.symm, h3.trans hthroughput.symm,
      h4.trans hthroughput'.symm⟩

/-- Two summaries of the same connections, in the orders of two runs: where the one shows
the figures of its interval, the other shows the same figures exactly if its own last
connection is in proportion. -/
theorem summary_reordered (x y : Run) {i j : Nat}
    (hi : i < x.final.report.saveRemaining.statsCount)
    (hj : j < y.final.report.saveRemaining.statsCount)
    (h : (interval x i).Perm (interval y j)) (hlast : LastInProportion (interval x i)) :
    SameFigures (x.final.report.saveRemaining.statsArray i)
        (y.final.report.saveRemaining.statsArray j) ↔
      LastInProportion (interval y j) := by
  obtain ⟨hne, hfold⟩ := saved_foldAll x hi
  obtain ⟨hne', hfold'⟩ := saved_foldAll y hj
  rw [hfold, hfold', sameFigures_iff ((describes_foldAll_iff hne).mpr hlast) h]
  exact describes_foldAll_iff hne'

/-- The first connection sees a pair, the second one closes at once. -/
def pairThenNone : List Input :=
  [ready [3] 0, accepts 4 true 0, ready [3] 0, accepts 5 true 0, ready [4, 5] 1,
    receives (.data chunkP) true 1, receives (.data chunkN) true 1, ready [5] 2,
    receives .eof true 2, ready [3] 3, accepts 5 true 3, ready [5] 4, receives .eof true 4, .signal]

theorem permitted_pairThenNone : Along step Permitted freshStart pairThenNone := by
  with_unfolding_all decide

def pairThenNoneRun : Run :=
  ⟨freshStart, pairThenNone, initial_freshStart, permitted_pairThenNone⟩

theorem saved_pairThenNone : 0 < pairThenNoneRun.final.report.saveRemaining.statsCount := by
  with_unfolding_all decide

theorem describes_pairThenNone_iff :
    Describes (pairThenNoneRun.final.report.saveRemaining.statsArray 0)
        (interval pairThenNoneRun 0) ↔
      LastInProportion (interval pairThenNoneRun 0) :=
  summary_describes_iff pairThenNoneRun saved_pairThenNone

theorem misdescribed_pairThenNone : pairThenNoneRun.EachStep AddObeyed ∧
    Exited pairThenNoneRun.final ∧
    0 < pairThenNoneRun.final.report.saveRemaining.statsCount ∧
    (pairThenNoneRun.final.report.saveRemaining.statsArray 0).persistentRatio = 0 ∧
    ratio (total persistentCount (interval pairThenNoneRun 0))
      (total both (interval pairThenNoneRun 0)) = 1 ∧
    ¬Describes (pairThenNoneRun.final.report.saveRemaining.statsArray 0)
      (interval pairThenNoneRun 0) := by
  have hshown : (pairThenNoneRun.final.report.saveRemaining.statsArray 0).persistentRatio = 0 := by
    with_unfolding_all decide
  have hratio : ratio (total persistentCount (interval pairThenNoneRun 0))
      (total both (interval pairThenNoneRun 0)) = 1 := by with_unfolding_all decide
  refine ⟨(by with_unfolding_all decide : Along step AddObeyed freshStart pairThenNone),
    ⟨by with_unfolding_all decide, by with_unfolding_all decide⟩, saved_pairThenNone, hshown,
    hratio, ?_⟩
  rintro ⟨hper, _⟩
  rw [hshown, hratio] at hper
  exact absurd hper (by decide)

end ConnectionOrder.ServerEpx3
