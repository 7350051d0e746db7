import ConnectionOrder.Exp1.ClientFinal
import ConnectionOrder.Exp1.Segmentation
import Mathlib.Data.Int.Basic

/-!
# The server reads what the client writes

The messages of client_final, received in one chunk, are taken apart by
handle_connection of server_final line by line and number by number.
-/

namespace ConnectionOrder.Codec

open Lines Scan ClientFinal ServerFinal

/-- The bytes of these messages in a row. -/
def encode (pairs : List (Int32 × Int32)) : List UInt8 :=
  (pairs.flatMap fun pair => message pair.1.toInt pair.2.toInt).map Char.toUInt8

/-- A message without its newline. -/
def body (connId packetId : Int) : List Char :=
  ['T', 'C', 'P', ':'] ++ decimal connId ++
    [' ', '|', ' ', 'P', 'A', 'C', 'K', 'E', 'T', ':'] ++ decimal packetId

def bodyBytes (connId packetId : Int) : List UInt8 := (body connId packetId).map Char.toUInt8

/-! ## The characters of a message -/

/-- A character that is one byte, ends no line and ends no string. -/
def Plain (c : Char) : Prop := c.toNat < 256 ∧ c.toNat ≠ 10 ∧ c.toNat ≠ 0

instance (c : Char) : Decidable (Plain c) := inferInstanceAs (Decidable (_ ∧ _ ∧ _))

theorem plain_of_isDigit {c : Char} (h : c.isDigit = true) : Plain c := by
  rw [Char.isDigit, Bool.and_eq_true, decide_eq_true_eq, decide_eq_true_eq] at h
  have hlow : 48 ≤ c.toNat := h.1
  have hhigh : c.toNat ≤ 57 := h.2
  exact ⟨by omega, by omega, by omega⟩

theorem toNat_toUInt8 {c : Char} (h : c.toNat < 256) : c.toUInt8.toNat = c.toNat := by
  change c.val.toUInt8.toNat = c.toNat
  rw [UInt32.toNat_toUInt8]
  exact Nat.mod_eq_of_lt h

theorem ofUInt8_toUInt8 {c : Char} (h : c.toNat < 256) : Char.ofUInt8 c.toUInt8 = c := by
  apply Char.ext
  apply UInt32.toNat_inj.mp
  exact (UInt8.toNat_toUInt32 _).trans (toNat_toUInt8 h)

theorem Plain.toUInt8_ne {c : Char} (h : Plain c) : c.toUInt8 ≠ newline ∧ c.toUInt8 ≠ 0 := by
  obtain ⟨hbyte, hnewline, hnul⟩ := h
  constructor
  · intro heq
    rw [← toNat_toUInt8 hbyte, heq] at hnewline
    exact hnewline rfl
  · intro heq
    rw [← toNat_toUInt8 hbyte, heq] at hnul
    exact hnul rfl

theorem plain_decimal {n : Int} : ∀ c ∈ decimal n, Plain c := by
  intro c hc
  cases decimal_chars hc with
  | inl hminus => exact hminus ▸ by decide
  | inr hdigit => exact plain_of_isDigit hdigit

theorem plain_word {word : List Char} (h : word.all (fun c => decide (Plain c)) = true) :
    ∀ c ∈ word, Plain c :=
  fun c hc => of_decide_eq_true (List.all_eq_true.mp h c hc)

theorem plain_body (connId packetId : Int) : ∀ c ∈ body connId packetId, Plain c := by
  intro c hc
  rw [body, List.mem_append, List.mem_append, List.mem_append] at hc
  rcases hc with ((hword | hconn) | hword) | hpacket
  · exact plain_word rfl c hword
  · exact plain_decimal c hconn
  · exact plain_word rfl c hword
  · exact plain_decimal c hpacket

theorem newline_notMem_map {s : List Char} (h : ∀ c ∈ s, Plain c) :
    newline ∉ s.map Char.toUInt8 := by
  intro hmem
  obtain ⟨c, hc, heq⟩ := List.mem_map.mp hmem
  exact (h c hc).toUInt8_ne.1 heq

theorem cString_map {s : List Char} (h : ∀ c ∈ s, Plain c) : cString (s.map Char.toUInt8) = s := by
  rw [cString, List.takeWhile_eq_self_iff.mpr, List.map_map]
  · conv_rhs => rw [← List.map_id s]
    exact List.map_congr_left fun c hc => ofUInt8_toUInt8 (h c hc).1
  · intro b hb
    obtain ⟨c, hc, rfl⟩ := List.mem_map.mp hb
    exact decide_eq_true (h c hc).toUInt8_ne.2

/-! ## One message -/

/-- sscanf finds the packet id of a message and nothing else. -/
theorem sscanf_body (connId packetId : Int) :
    sscanf recordFormat (body connId packetId) = [toInt packetId] := by
  let word : List Char := ['P', 'A', 'C', 'K', 'E', 'T', ':']
  have hfirst : scanNumber (decimal connId ++ (' ' :: '|' :: ' ' :: (word ++ decimal packetId))) =
      some (connId, ' ' :: '|' :: ' ' :: (word ++ decimal packetId)) := by
    apply scanNumber_decimal
    intro c hc
    cases hc
    rfl
  have hlast : scanNumber (decimal packetId) = some (packetId, []) := by
    have h : scanNumber (decimal packetId ++ []) = some (packetId, []) :=
      scanNumber_decimal packetId fun c hc => by cases hc
    rwa [List.append_nil] at h
  calc sscanf recordFormat (body connId packetId)
      = sscanf (['T', 'C', 'P', ':'].map .text ++ ([.number false, .blank, .text '|', .blank] ++
          (word.map .text ++ [.number true])))
          (['T', 'C', 'P', ':'] ++ (decimal connId ++ (' ' :: '|' :: ' ' ::
            (word ++ decimal packetId)))) := by
        simp only [recordFormat, body, List.append_assoc]
        rfl
    _ = sscanf ([.blank, .text '|', .blank] ++ (word.map .text ++ [.number true]))
          (' ' :: '|' :: ' ' :: (word ++ decimal packetId)) := by
        rw [sscanf_texts, List.cons_append, sscanf_number _ hfirst]
        rfl
    _ = sscanf (word.map .text ++ [.number true]) (word ++ decimal packetId) := rfl
    _ = [toInt packetId] := by
        rw [sscanf_texts, sscanf_number _ hlast]
        rfl

theorem packetSeq_body (connId : Int) (packetId : Int32) :
    packetSeq (bodyBytes connId packetId.toInt) = some packetId.toInt := by
  have hrange : toInt packetId.toInt = packetId.toInt :=
    toInt_of_range packetId.le_toInt (Int.le_of_lt_add_one packetId.toInt_lt)
  rw [packetSeq, bodyBytes, cString_map (plain_body _ _), sscanf_body, hrange]

theorem length_message (connId packetId : Int32) :
    (message connId.toInt packetId.toInt).length + 1 ≤ msgSize := by
  have hconn := length_decimal connId.le_toInt (Int.le_of_lt_add_one connId.toInt_lt)
  have hpacket := length_decimal packetId.le_toInt (Int.le_of_lt_add_one packetId.toInt_lt)
  simp only [message, msgSize, List.length_append, List.length_cons, List.length_nil]
  omega

/-! ## A chunk of messages -/

theorem encode_eq (pairs : List (Int32 × Int32)) :
    encode pairs =
      terminate newline (pairs.map fun pair => bodyBytes pair.1.toInt pair.2.toInt) := by
  rw [encode, terminate, List.flatMap_map, List.map_flatMap]
  congr
  funext pair
  rw [bodyBytes, show message pair.1.toInt pair.2.toInt = body pair.1.toInt pair.2.toInt ++ ['\n']
    from rfl, List.map_append]
  rfl

theorem lines_encode (pairs : List (Int32 × Int32)) :
    lines newline (encode pairs) = pairs.map fun pair => bodyBytes pair.1.toInt pair.2.toInt := by
  rw [encode_eq, ← List.append_nil (terminate _ _), lines_terminate, lines_nil, List.append_nil]
  intro line hline
  obtain ⟨pair, _, rfl⟩ := List.mem_map.mp hline
  exact newline_notMem_map (plain_body _ _)

/-- From one chunk of messages the server extracts one packet id for each line, in
order, and feeds each to the tracker; every message fits the client's buffer. -/
theorem decode_encode (pairs : List (Int32 × Int32)) (chunk : Chunk bufferSize)
    (h : chunk.bytes = encode pairs) :
    (lines newline chunk.bytes).map packetSeq = pairs.map (fun pair => some pair.2.toInt) ∧
    (∀ t, handleConnection t (.data chunk) =
      (pairs.map fun pair => pair.2.toInt).foldlM track t) ∧
    ∀ pair ∈ pairs, (message pair.1.toInt pair.2.toInt).length + 1 ≤ msgSize := by
  have hids : (lines newline chunk.bytes).map packetSeq =
      pairs.map fun pair => some pair.2.toInt := by
    rw [h, lines_encode, List.map_map]
    exact List.map_congr_left fun pair _ => packetSeq_body _ _
  refine ⟨hids, fun t => ?_, fun pair _ => length_message pair.1 pair.2⟩
  have hpackets : packets (lines newline chunk.bytes) = pairs.map fun pair => pair.2.toInt := by
    rw [packets_eq, hids, List.filterMap_map]
    exact congrFun List.filterMap_eq_map' pairs
  rw [handleConnection, handleBuffer_eq, foldlM_trackLine, hpackets]

def twoMessages : Chunk bufferSize := ⟨encode [(1, 7), (-2, 9)], by decide, by decide⟩

theorem decode_twoMessages :
    (lines newline twoMessages.bytes).map packetSeq = [some 7, some 9] ∧
    (∀ t, handleConnection t (.data twoMessages) = [7, 9].foldlM track t) ∧
    ∀ pair ∈ [((1 : Int32), (7 : Int32)), (-2, 9)],
      (message pair.1.toInt pair.2.toInt).length + 1 ≤ msgSize :=
  decode_encode [(1, 7), (-2, 9)] twoMessages rfl

end ConnectionOrder.Codec
