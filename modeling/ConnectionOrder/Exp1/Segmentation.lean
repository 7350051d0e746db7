import ConnectionOrder.Exp1.ServerFinal
import ConnectionOrder.LeftMaxima

/-!
# How the tracker depends on the cuts of recv

handle_connection scans the terminated lines of each buffer and drops the rest, so
a line that is cut loses its front. The tracker reacts to the left-to-right maxima
of the packet numbers it is fed, which decides when the loss matters.
-/

namespace ConnectionOrder.ServerFinal

open Lines Scan LeftMaxima

def stream (chunks : List (Chunk bufferSize)) : List UInt8 := chunks.flatMap Chunk.bytes

/-- The lines that handle_connection scans. -/
def pieces (chunks : List (Chunk bufferSize)) : List (List UInt8) :=
  chunks.flatMap fun chunk => lines newline chunk.bytes

def packets (scanned : List (List UInt8)) : List Int := scanned.filterMap packetSeq

theorem packets_eq (scanned : List (List UInt8)) :
    packets scanned = (scanned.map packetSeq).filterMap id := by
  rw [packets, List.filterMap_map]
  rfl

/-- From every tracker, receiving these chunks has a result, and it is the one that the
terminated lines of the whole stream have. -/
def SegmentationFree (chunks : List (Chunk bufferSize)) : Prop :=
  ∀ t : Tracker, ∃ t', (chunks.map Recv.data).foldlM handleConnection t = some t' ∧
    (lines newline (stream chunks)).foldlM trackLine t = some t'

/-- The same new maxima, and no number on which global_expected_seq overflows. -/
def SameMaxima (ps qs : List Int) : Prop :=
  intMax ∉ ps ∧ intMax ∉ qs ∧ maxima 0 ps = maxima 0 qs

/-! ## One packet number -/

theorem track_of_lt {t : Tracker} {p : Int} (h : p < t.expected) : track t p = some t := by
  rw [track, if_neg (by omega), if_pos h]

theorem track_overflow {t : Tracker} {p : Int} (h : intMax ≤ p) : track t p = none := by
  have hrange := t.inRange
  rw [track]
  split
  · exact dif_neg (by omega)
  · rw [if_neg (by omega)]
    exact dif_neg (by omega)

theorem track_new {t : Tracker} {p : Int} (h : t.expected ≤ p) (hmax : p < intMax) :
    ∃ t', track t p = some t' ∧ t'.expected = p + 1 ∧
      t'.outOfOrder = noteMissing t.outOfOrder t.expected (p - t.expected).toNat := by
  have hpos := t.positive
  cases eq_or_lt_of_le h with
  | inl heq =>
    subst heq
    rw [track, if_pos rfl, Tracker.expect, dif_pos (by omega), Int.sub_self]
    exact ⟨_, rfl, rfl, rfl⟩
  | inr hlt =>
    rw [track, if_neg (by omega), if_neg (by omega), Tracker.expect, dif_pos (by omega)]
    exact ⟨_, rfl, rfl, rfl⟩

theorem mem_noteMissing_of_mem {out : List Int} {a : Int} (h : a ∈ out) (i : Int) (n : Nat) :
    a ∈ noteMissing out i n := by
  induction n generalizing out i with
  | zero => exact h
  | succ n ih =>
    apply ih
    split
    · exact List.mem_append_left _ h
    · exact h

theorem mem_of_mem_noteMissing {out : List Int} {a i : Int} {n : Nat}
    (h : a ∈ noteMissing out i n) (hlt : a < i) : a ∈ out := by
  induction n generalizing out i with
  | zero => exact h
  | succ n ih =>
    have hout := ih h (by omega)
    split at hout
    · rw [List.mem_append, List.mem_singleton] at hout
      exact hout.resolve_right (by omega)
    · exact hout

/-! ## What a list of packet numbers does -/

theorem foldlM_track_eq_none {ps : List Int} (t : Tracker) (h : ∀ p ∈ ps, p ≤ intMax) :
    ps.foldlM track t = none ↔ intMax ∈ ps := by
  induction ps generalizing t with
  | nil => simp
  | cons p ps ih =>
    have hrest := fun p hp => h p (List.mem_cons_of_mem _ hp)
    rw [List.foldlM_cons, List.mem_cons]
    cases eq_or_lt_of_le (h p List.mem_cons_self) with
    | inl heq =>
      rw [track_overflow (le_of_eq heq.symm)]
      exact iff_of_true rfl (.inl heq.symm)
    | inr hlt =>
      rw [or_iff_right (ne_of_gt hlt)]
      cases lt_or_ge p t.expected with
      | inl hold =>
        rw [track_of_lt hold]
        exact ih t hrest
      | inr hnew =>
        obtain ⟨t', htrack, _⟩ := track_new hnew hlt
        rw [htrack]
        exact ih t' hrest

theorem foldlM_track_maxima (t : Tracker) (ps : List Int) :
    ps.foldlM track t = (maxima (t.expected - 1) ps).foldlM track t := by
  induction ps generalizing t with
  | nil => rfl
  | cons p ps ih =>
    cases lt_or_ge p t.expected with
    | inl hold =>
      rw [List.foldlM_cons, track_of_lt hold, maxima_cons_of_le (by omega)]
      exact ih t
    | inr hnew =>
      rw [maxima_cons_of_lt (by omega), List.foldlM_cons, List.foldlM_cons]
      cases lt_or_ge p intMax with
      | inl hlt =>
        obtain ⟨t', htrack, hnext, _⟩ := track_new hnew hlt
        have hrest := ih t'
        rw [hnext, Int.add_sub_cancel] at hrest
        rw [htrack]
        exact hrest
      | inr hmax =>
        rw [track_overflow hmax]
        rfl

theorem foldlM_track_congr {ps qs : List Int} (t : Tracker) (h : maxima 0 ps = maxima 0 qs) :
    ps.foldlM track t = qs.foldlM track t := by
  have hbound : 0 ≤ t.expected - 1 := by
    have hpos := t.positive
    omega
  rw [foldlM_track_maxima, foldlM_track_maxima t qs, ← maxima_maxima hbound ps, h,
    maxima_maxima hbound qs]

/-- Numbers below global_expected_seq are never noted. -/
theorem outOfOrder_below {t t' : Tracker} {ps : List Int} {a : Int}
    (hfold : ps.foldlM track t = some t') (h : a < t.expected) :
    a < t'.expected ∧ (a ∈ t'.outOfOrder ↔ a ∈ t.outOfOrder) := by
  induction ps generalizing t with
  | nil =>
    cases hfold
    exact ⟨h, Iff.rfl⟩
  | cons p ps ih =>
    rw [List.foldlM_cons] at hfold
    cases lt_or_ge p t.expected with
    | inl hold =>
      rw [track_of_lt hold] at hfold
      exact ih hfold h
    | inr hnew =>
      cases lt_or_ge p intMax with
      | inl hlt =>
        obtain ⟨next, htrack, hnext, hout⟩ := track_new hnew hlt
        rw [htrack] at hfold
        obtain ⟨hbelow, hiff⟩ := ih hfold (by omega)
        refine ⟨hbelow, hiff.trans ?_⟩
        rw [hout]
        exact ⟨fun hmem => mem_of_mem_noteMissing hmem h,
          fun hmem => mem_noteMissing_of_mem hmem _ _⟩
      | inr hmax =>
        rw [track_overflow hmax] at hfold
        cases hfold

/-- From a tracker that expects `a` and has noted nothing, the result tells whether
`a` is the first number to come that is not old. -/
theorem outOfOrder_at {t t' : Tracker} {ps : List Int} (hfold : ps.foldlM track t = some t')
    (hempty : t.outOfOrder = []) :
    (t.expected ∈ t'.outOfOrder ∨ t'.expected = t.expected) ↔
      ps.find? (fun x => t.expected ≤ x) ≠ some t.expected := by
  induction ps with
  | nil =>
    cases hfold
    simp
  | cons p ps ih =>
    rw [List.foldlM_cons] at hfold
    cases lt_or_ge p t.expected with
    | inl hold =>
      rw [track_of_lt hold] at hfold
      rw [List.find?_cons_of_neg (by simpa using hold)]
      exact ih hfold
    | inr hnew =>
      rw [List.find?_cons_of_pos (by simpa using hnew)]
      cases lt_or_ge p intMax with
      | inl hlt =>
        obtain ⟨next, htrack, hnext, hout⟩ := track_new hnew hlt
        rw [htrack] at hfold
        obtain ⟨hbelow, hiff⟩ := outOfOrder_below (a := t.expected) hfold (by omega)
        rw [hiff, hout, hempty, or_iff_left (by omega)]
        cases eq_or_lt_of_le hnew with
        | inl heq => simp [← heq, noteMissing]
        | inr hgap =>
          -- There is room for the first missing number in an empty array.
          obtain ⟨n, hn⟩ : ∃ n, (p - t.expected).toNat = n + 1 :=
            ⟨(p - t.expected).toNat - 1, by omega⟩
          refine iff_of_true ?_ (by simpa using ne_of_gt hgap)
          rw [hn, noteMissing]
          exact mem_noteMissing_of_mem List.mem_cons_self _ _
      | inr hmax =>
        rw [track_overflow hmax] at hfold
        cases hfold

theorem foldlM_track_agree_iff {ps qs : List Int} (hps : ∀ p ∈ ps, p ≤ intMax)
    (hqs : ∀ q ∈ qs, q ≤ intMax) :
    (∀ t : Tracker, ∃ t', ps.foldlM track t = some t' ∧ qs.foldlM track t = some t') ↔
      SameMaxima ps qs := by
  constructor
  · intro hall
    have hdefined : ∀ {l : List Int}, (∀ p ∈ l, p ≤ intMax) →
        (∃ t', l.foldlM track Tracker.start = some t') → intMax ∉ l := by
      rintro l hl ⟨t', hfold⟩ hmem
      rw [(foldlM_track_eq_none _ hl).mpr hmem] at hfold
      cases hfold
    obtain ⟨start', hstart, hstart'⟩ := hall Tracker.start
    refine ⟨hdefined hps ⟨start', hstart⟩, hdefined hqs ⟨start', hstart'⟩, ?_⟩
    refine maxima_congr fun a hpos => ?_
    cases le_or_gt a intMax with
    | inr hlarge =>
      have hnone : ∀ {l : List Int}, (∀ p ∈ l, p ≤ intMax) → l.find? (fun x => a ≤ x) ≠ some a := by
        intro l hl hfind
        exact absurd (hl a (List.mem_of_find?_eq_some hfind)) (by omega)
      exact iff_of_false (hnone hps) (hnone hqs)
    | inl hrange =>
      -- The tracker that expects a and has noted nothing tells the two lists apart.
      let t : Tracker := ⟨a, [], by omega, hrange, Nat.zero_le _⟩
      obtain ⟨t', hfold, hfold'⟩ := hall t
      have hps := outOfOrder_at hfold rfl
      have hqs := outOfOrder_at hfold' rfl
      exact not_iff_not.mp (hps.symm.trans hqs)
  · rintro ⟨hdefined, _, hmaxima⟩ t
    obtain ⟨t', hfold⟩ := Option.ne_none_iff_exists'.mp
      (mt (foldlM_track_eq_none t hps).mp hdefined)
    exact ⟨t', hfold, (foldlM_track_congr t hmaxima).symm.trans hfold⟩

/-! ## Chunks -/

theorem packetSeq_le {line : List UInt8} {n : Int} (h : packetSeq line = some n) : n ≤ intMax := by
  rw [packetSeq] at h
  split at h
  · rename_i m hscan
    cases h
    exact sscanf_le (hscan ▸ List.mem_singleton_self n)
  · cases h

theorem packets_le {scanned : List (List UInt8)} : ∀ p ∈ packets scanned, p ≤ intMax := by
  intro p hp
  obtain ⟨line, _, hline⟩ := List.mem_filterMap.mp hp
  exact packetSeq_le hline

theorem foldlM_trackLine (t : Tracker) (scanned : List (List UInt8)) :
    scanned.foldlM trackLine t = (packets scanned).foldlM track t := by
  induction scanned generalizing t with
  | nil => rfl
  | cons line scanned ih =>
    rw [List.foldlM_cons, trackLine, packets]
    cases hline : packetSeq line with
    | none =>
      rw [List.filterMap_cons_none hline]
      exact ih t
    | some n =>
      rw [List.filterMap_cons_some hline, List.foldlM_cons]
      exact congrArg _ (funext ih)

theorem foldlM_handleConnection (t : Tracker) (chunks : List (Chunk bufferSize)) :
    (chunks.map Recv.data).foldlM handleConnection t = (pieces chunks).foldlM trackLine t := by
  induction chunks generalizing t with
  | nil => rfl
  | cons chunk chunks ih =>
    rw [List.map_cons, List.foldlM_cons, handleConnection, handleBuffer_eq, pieces,
      List.flatMap_cons, List.foldlM_append]
    exact congrArg _ (funext ih)

/-- The cuts of recv do not matter exactly when the lines that handle_connection scans
and the lines of the stream carry the same left-to-right maxima, none of them INT_MAX. -/
theorem segmentationFree_iff (chunks : List (Chunk bufferSize)) :
    SegmentationFree chunks ↔
      SameMaxima (packets (pieces chunks)) (packets (lines newline (stream chunks))) := by
  rw [← foldlM_track_agree_iff packets_le packets_le, SegmentationFree]
  simp only [foldlM_handleConnection, foldlM_trackLine]

theorem pieces_eq_lines {chunks : List (Chunk bufferSize)}
    (h : ∀ chunk ∈ chunks, remainder newline chunk.bytes = []) :
    pieces chunks = lines newline (stream chunks) := by
  induction chunks with
  | nil => rfl
  | cons chunk chunks ih =>
    have hrest := ih fun c hc => h c (List.mem_cons_of_mem _ hc)
    rw [pieces] at hrest ⊢
    rw [List.flatMap_cons, hrest, stream, stream, List.flatMap_cons, lines_append,
      h chunk List.mem_cons_self, List.nil_append]

theorem segmentationFree_of_whole_lines {chunks : List (Chunk bufferSize)}
    (h : ∀ chunk ∈ chunks, remainder newline chunk.bytes = [])
    (hmax : intMax ∉ packets (pieces chunks)) : SegmentationFree chunks := by
  rw [segmentationFree_iff, SameMaxima, ← pieces_eq_lines h]
  exact ⟨hmax, hmax, rfl⟩

/-- "TCP:1 | PACK" and "ET:1", newline, "TCP:2 | PACKET:2", newline. -/
def badCut : List (Chunk bufferSize) :=
  [⟨[84, 67, 80, 58, 49, 32, 124, 32, 80, 65, 67, 75], by decide, by decide⟩,
    ⟨[69, 84, 58, 49, 10, 84, 67, 80, 58, 50, 32, 124, 32, 80, 65, 67, 75, 69, 84, 58, 50, 10],
      by decide, by decide⟩]

theorem lost_badCut :
    ((badCut.map Recv.data).foldlM handleConnection Tracker.start).map Tracker.outOfOrder =
      some [1] ∧
    ((lines newline (stream badCut)).foldlM trackLine Tracker.start).map Tracker.outOfOrder =
      some [] ∧
    ¬SegmentationFree badCut := by
  have hcut : ((badCut.map Recv.data).foldlM handleConnection Tracker.start).map
      Tracker.outOfOrder = some [1] := by
    rw [foldlM_handleConnection]
    decide
  have hwhole : ((lines newline (stream badCut)).foldlM trackLine Tracker.start).map
      Tracker.outOfOrder = some [] := by
    decide
  refine ⟨hcut, hwhole, fun h => ?_⟩
  obtain ⟨t, hchunks, hlines⟩ := h Tracker.start
  rw [hchunks, ← hlines, hwhole] at hcut
  exact absurd hcut (by decide)

end ConnectionOrder.ServerFinal
