import ConnectionOrder.CStrings
import ConnectionOrder.Machine
import ConnectionOrder.Sockets

/-!
# server

Two threads and a buffer: main appends what it reads, print_buffer_periodically prints the
buffer from time to time. Every access to the buffer is a step of its own, one byte at a
time, and the steps of the threads come in any order. An access outside the buffer has no
result.
-/

namespace ConnectionOrder.CommonBuffer

open Machine Memory CStrings

def maxEvents : Nat := 10

def bufferSize : Nat := 1024

def maxClients : Nat := 2

def commonSize : Nat := bufferSize * maxClients

/-- BUFFER_SIZE - 1 -/
def readSize : Nat := bufferSize - 1

/-- Where main is: in the event loop, in front of the lock, in strlen, in strncat, first
looking for the end and then copying, in front of the unlock. `k` is an index of
common_buffer, `n` what strncat may still copy. -/
inductive Main where
  | loop
  | lock (buffer : List UInt8)
  | strlen (buffer : List UInt8) (k : Nat)
  | seek (buffer : List UInt8) (n k : Nat)
  | copy (src : List UInt8) (n k : Nat)
  | unlock

inductive Printer where
  | sleep
  | lock
  | printf (k : Nat) (out : List UInt8)
  | unlock

inductive Thread where
  | main
  | printer
deriving DecidableEq

/-- `holder` has buffer_mutex, `printed` are the strings that printf has printed. -/
structure State where
  kernel : Kernel
  serverFd : Fd
  exited : Bool
  pending : List Fd
  main : Main
  printer : Printer
  holder : Option Thread
  commonBuffer : List UInt8
  printed : List (List UInt8)

inductive Input where
  | wait (batch : Option (List Fd))
  | accept (clientFd : Option Fd)
  | read (received : Recv readSize)
  | main
  | printer

def start (serverFd : Fd) : State where
  kernel := { sockets := ∅, registered := {serverFd}, conn := fun _ => 0, accepted := 0 }
  serverFd := serverFd
  exited := false
  pending := []
  main := .loop
  printer := .sleep
  holder := none
  commonBuffer := List.replicate commonSize 0
  printed := []

/-! ## The threads -/

/-- `buffer` after memset and read. -/
def fill (chunk : Chunk readSize) : List UInt8 :=
  overwrite (List.replicate bufferSize 0) 0 chunk.bytes

/-- The for loop goes on with the next event. -/
def handleAccept (s : State) : Option Fd → State
  | none => { s with pending := s.pending.tail }
  | some clientFd =>
    { s with pending := s.pending.tail, kernel := (s.kernel.accept clientFd).add clientFd }

def handleRead (s : State) (received : Recv readSize) : State :=
  match s.pending with
  | [] => s
  | fd :: rest =>
    match received with
    | .data chunk => { s with pending := rest, main := .lock (fill chunk) }
    | .eof | .again | .error =>
      { s with pending := rest, kernel := (s.kernel.close fd).delete fd }

/-- The next step of main from the lock to the unlock. -/
def mainStep (s : State) : Option State :=
  match s.main with
  | .loop => some s
  | .lock buffer => some { s with main := .strlen buffer 0, holder := some .main }
  | .strlen buffer k => (readAt s.commonBuffer k).map fun b =>
    if b ≠ 0 then { s with main := .strlen buffer (k + 1) }
    else { s with main := .seek buffer (commonSize - k - 1) 0 }
  | .seek buffer n k => (readAt s.commonBuffer k).map fun b =>
    if b ≠ 0 then { s with main := .seek buffer n (k + 1) }
    else { s with main := .copy buffer n k }
  | .copy _ 0 k => (updateAt s.commonBuffer k fun _ => 0).map fun commonBuffer =>
    { s with commonBuffer := commonBuffer, main := .unlock }
  | .copy src (n + 1) k => (readAt src 0).bind fun b =>
    (updateAt s.commonBuffer k fun _ => b).map fun commonBuffer =>
      { s with
        commonBuffer := commonBuffer
        main := if b ≠ 0 then .copy src.tail n (k + 1) else .unlock }
  | .unlock => some { s with main := .loop, holder := none }

/-- sleep(10) ends at some time. -/
def printerStep (s : State) : Option State :=
  match s.printer with
  | .sleep => some { s with printer := .lock }
  | .lock => some { s with printer := .printf 0 [], holder := some .printer }
  | .printf k out => (readAt s.commonBuffer k).map fun b =>
    if b ≠ 0 then { s with printer := .printf (k + 1) (out ++ [b]) }
    else { s with printer := .unlock, printed := s.printed ++ [out] }
  | .unlock => some { s with printer := .sleep, holder := none }

def act (s : State) : Input → Option State
  | .wait none => some { s with exited := true }
  | .wait (some batch) => some { s with pending := batch }
  | .accept clientFd => some (handleAccept s clientFd)
  | .read received => some (handleRead s received)
  | .main => mainStep s
  | .printer => printerStep s

/-- `none` is undefined behaviour. -/
def step (s : Option State) (i : Input) : Option State := s.bind fun s => act s i

/-! ## What the environment may do -/

/-- main is in the event loop, and the event is for this kind of descriptor. -/
def Dispatches (s : State) (server : Bool) : Prop :=
  s.main = .loop ∧ ∃ fd ∈ s.pending.head?, (decide (fd = s.serverFd)) = server

/-- A thread waits in pthread_mutex_lock until nobody has the mutex. -/
def Allowed (s : State) (i : Input) : Prop :=
  s.exited = false ∧
  match i with
  | .wait batch => s.main = .loop ∧ s.pending = [] ∧
      ∀ fds ∈ batch, fds.length ≤ maxEvents ∧ fds.Nodup ∧ ∀ fd ∈ fds, fd ∈ s.kernel.registered
  | .accept clientFd => Dispatches s true ∧
      ∀ fd ∈ clientFd, fd ≠ s.serverFd ∧ fd ∉ s.kernel.sockets
  | .read _ => Dispatches s false
  | .main => s.main ≠ .loop ∧ ∀ buffer, s.main = .lock buffer → s.holder = none
  | .printer => s.printer = .lock → s.holder = none

def Permitted (s : Option State) (i : Input) : Prop := ∃ s' ∈ s, Allowed s' i

def Initial (s : Option State) : Prop := ∃ serverFd, s = some (start serverFd)

abbrev Run := Execution step Initial Permitted

/-! ## The text in the buffer -/

def Main.inside : Main → Bool
  | .strlen .. | .seek .. | .copy .. | .unlock => true
  | .loop | .lock _ => false

def Printer.inside : Printer → Bool
  | .printf .. | .unlock => true
  | .sleep | .lock => false

/-- A text that has been read and waits for the lock. -/
def Main.waiting : Main → List (List UInt8)
  | .lock buffer => [text 0 buffer]
  | .loop | .strlen .. | .seek .. | .copy .. | .unlock => []

/-- What strncat is still going to append to a string of this length. -/
def Main.rest (length : Nat) : Main → List UInt8
  | .strlen buffer _ | .seek buffer _ _ => (text 0 buffer).take (commonSize - 1 - length)
  | .copy src n _ => (text 0 src).take n
  | .loop | .lock _ | .unlock => []

/-- What main keeps while the buffer has a string of this length. -/
def Main.Fits (length : Nat) : Main → Prop
  | .loop | .unlock => True
  | .lock buffer => 0 ∈ buffer
  | .strlen buffer k => 0 ∈ buffer ∧ k ≤ length
  | .seek buffer n k => 0 ∈ buffer ∧ n = commonSize - 1 - length ∧ k ≤ length
  | .copy src n k => 0 ∈ src ∧ n + length < commonSize ∧ k = length

/-- The steps that main has in front of it until it is back in the event loop. -/
def Main.turns (length : Nat) : Main → Nat
  | .loop => 0
  | .unlock => 1
  | .copy _ n _ => n + 2
  | .seek _ n k => length - k + n + 3
  | .strlen _ k => length - k + commonSize + 3
  | .lock _ => length + commonSize + 4

def Printer.Fits (content : List UInt8) : Printer → Prop
  | .printf k out => k ≤ content.length ∧ out = content.take k
  | .sleep | .lock | .unlock => True

/-- The buffer after the first `j` of these texts. -/
def snapshot (texts : List (List UInt8)) (j : Nat) : List UInt8 :=
  (texts.take j).flatten.take (commonSize - 1)

/-- Each printed string is the buffer after some of the texts, and never an older one than
the string before it. -/
def Snapshots (texts printed : List (List UInt8)) : Prop :=
  ∃ moments : List Nat, moments.Pairwise (· ≤ ·) ∧ (∀ j ∈ moments, j ≤ texts.length) ∧
    printed = moments.map (snapshot texts)

/-- The string in the buffer, after the lock was taken for these texts. -/
structure At (s : State) (texts : List (List UInt8)) (content : List UInt8) : Prop where
  memory : s.commonBuffer = pad 0 commonSize content
  plain : 0 ∉ content
  room : content.length < commonSize
  appends : content ++ s.main.rest content.length = snapshot texts texts.length
  main : s.main.Fits content.length
  printer : s.printer.Fits content
  mainHas : s.main.inside = true ↔ s.holder = some .main
  printerHas : s.printer.inside = true ↔ s.holder = some .printer
  printed : Snapshots texts s.printed

theorem snapshot_append {texts : List (List UInt8)} {j : Nat} (h : j ≤ texts.length)
    (more : List (List UInt8)) : snapshot (texts ++ more) j = snapshot texts j := by
  rw [snapshot, snapshot, List.take_append_of_le_length h]

theorem snapshot_length (texts : List (List UInt8)) :
    snapshot texts texts.length = texts.flatten.take (commonSize - 1) := by
  rw [snapshot, List.take_length]

theorem Snapshots.append {texts printed : List (List UInt8)} (h : Snapshots texts printed)
    (more : List (List UInt8)) : Snapshots (texts ++ more) printed := by
  obtain ⟨moments, hsorted, hbound, rfl⟩ := h
  refine ⟨moments, hsorted, fun j hj => ?_, ?_⟩
  · rw [List.length_append]
    exact Nat.le_add_right_of_le (hbound j hj)
  · exact List.map_congr_left fun j hj => (snapshot_append (hbound j hj) more).symm

theorem Snapshots.print {texts printed : List (List UInt8)} (h : Snapshots texts printed) :
    Snapshots texts (printed ++ [snapshot texts texts.length]) := by
  obtain ⟨moments, hsorted, hbound, rfl⟩ := h
  refine ⟨moments ++ [texts.length], ?_, ?_, ?_⟩
  · rw [List.pairwise_append]
    refine ⟨hsorted, List.pairwise_singleton _ _, fun j hj k hk => ?_⟩
    rw [List.mem_singleton.mp hk]
    exact hbound j hj
  · intro j hj
    rcases List.mem_append.mp hj with hj | hj
    · exact hbound j hj
    · exact Nat.le_of_eq (List.mem_singleton.mp hj)
  · rw [List.map_append, List.map_singleton]

theorem at_start (serverFd : Fd) : At (start serverFd) [] [] where
  memory := rfl
  plain := List.not_mem_nil
  room := by decide
  appends := rfl
  main := trivial
  printer := trivial
  mainHas := iff_of_false Bool.false_ne_true (Option.some_ne_none _).symm
  printerHas := iff_of_false Bool.false_ne_true (Option.some_ne_none _).symm
  printed := ⟨[], List.Pairwise.nil, fun _ hj => absurd hj List.not_mem_nil, rfl⟩

variable {s : State} {texts : List (List UInt8)} {content : List UInt8}

namespace At

theorem printer_outside (h : At s texts content) (hmain : s.main.inside = true)
    (content' : List UInt8) : s.printer.Fits content' := by
  have hholder := h.mainHas.mp hmain
  have houtside : s.printer.inside ≠ true := by
    intro hprinter
    rw [h.printerHas.mp hprinter] at hholder
    cases hholder
  cases hphase : s.printer with
  | sleep | lock | unlock => trivial
  | printf k out =>
    rw [hphase] at houtside
    exact absurd rfl houtside

theorem main_outside (h : At s texts content) (hholder : s.holder ≠ some .main) :
    s.main.inside = false := by
  rw [← Bool.not_eq_true]
  exact fun hinside => hholder (h.mainHas.mp hinside)

theorem content_eq (h : At s texts content) (hmain : s.main.inside = false) :
    content = snapshot texts texts.length := by
  have hcontent := h.appends
  cases hphase : s.main with
  | loop | lock buffer =>
    rw [hphase] at hcontent
    rw [← hcontent, Main.rest, List.append_nil]
  | strlen | seek | copy | unlock =>
    rw [hphase] at hmain
    cases hmain

theorem text_of_mem {src : List UInt8} (h : 0 ∈ src) : ∃ b src', src = b :: src' ∧
    (b = 0 ∧ text 0 src = [] ∨ b ≠ 0 ∧ 0 ∈ src' ∧ text 0 src = b :: text 0 src') := by
  cases src with
  | nil => exact absurd h List.not_mem_nil
  | cons b src' =>
    refine ⟨b, src', rfl, ?_⟩
    rcases eq_or_ne b 0 with rfl | hne
    · exact .inl ⟨rfl, rfl⟩
    · refine .inr ⟨hne, (List.mem_cons.mp h).resolve_left hne.symm, ?_⟩
      exact List.takeWhile_cons_of_pos (decide_eq_true hne)

/-- main goes on inside, with a string that may have become longer. -/
theorem goOn (h : At s texts content) (hinside : s.main.inside = true) {main : Main}
    {content' : List UInt8} (hmain : main.inside = true) (hplain : 0 ∉ content')
    (hroom : content'.length < commonSize)
    (happends : content' ++ main.rest content'.length = snapshot texts texts.length)
    (hfits : main.Fits content'.length) :
    At { s with main := main, commonBuffer := pad 0 commonSize content' } texts content' where
  memory := rfl
  plain := hplain
  room := hroom
  appends := happends
  main := hfits
  printer := h.printer_outside hinside content'
  mainHas := iff_of_true hmain (h.mainHas.mp hinside)
  printerHas := h.printerHas
  printed := h.printed

theorem take_lock (h : At s texts content) {buffer : List UInt8} (hphase : s.main = .lock buffer)
    (hfree : s.holder = none) :
    At { s with main := .strlen buffer 0, holder := some .main } (texts ++ [text 0 buffer])
      content where
  memory := h.memory
  plain := h.plain
  room := h.room
  appends := by
    have hcontent := h.content_eq (by rw [hphase]; rfl)
    rw [snapshot_length] at hcontent
    rw [snapshot_length, List.flatten_append, List.flatten_singleton, Main.rest, hcontent]
    exact take_append_take _ _ _
  main := by
    have hmain := h.main
    rw [hphase] at hmain
    exact ⟨hmain, Nat.zero_le _⟩
  printer := h.printer
  mainHas := iff_of_true rfl rfl
  printerHas := by
    refine iff_of_false (fun hinside => ?_) (fun hholder => by cases hholder)
    rw [h.printerHas.mp hinside] at hfree
    cases hfree
  printed := h.printed.append _

theorem mainStep (h : At s texts content) (hloop : s.main ≠ .loop)
    (hfree : ∀ buffer, s.main = .lock buffer → s.holder = none) :
    ∃ main holder commonBuffer content', CommonBuffer.mainStep s = some { s with
        main := main, holder := holder, commonBuffer := commonBuffer } ∧
      At { s with main := main, holder := holder, commonBuffer := commonBuffer }
        (texts ++ s.main.waiting) content' ∧ main.waiting = [] ∧
      main.turns content'.length < s.main.turns content.length := by
  have hmain := h.main
  have happends := h.appends
  have hbuffer := h.room
  rw [CommonBuffer.mainStep]
  cases hphase : s.main with
  | loop => exact absurd hphase hloop
  | lock buffer =>
    refine ⟨_, _, _, content, rfl, h.take_lock hphase (hfree buffer hphase), rfl, ?_⟩
    rw [Main.turns, Main.turns]
    omega
  | strlen buffer k =>
    rw [hphase] at hmain happends
    have hinside : s.main.inside = true := by rw [hphase]; rfl
    rw [Main.waiting, List.append_nil, h.memory]
    dsimp only
    rcases readAt_cases h.plain h.room hmain.2 with ⟨b, hread, hb, hlt, _⟩ | ⟨hread, rfl⟩
    · rw [hread, Option.map_some, if_pos hb]
      refine ⟨_, _, _, content, rfl,
        h.goOn hinside rfl h.plain h.room happends ⟨hmain.1, hlt⟩, rfl, ?_⟩
      rw [Main.turns, Main.turns]
      omega
    · rw [hread, Option.map_some, if_neg (not_not_intro rfl)]
      refine ⟨_, _, _, content, rfl, h.goOn hinside rfl h.plain h.room happends
        ⟨hmain.1, Nat.sub_right_comm _ _ _, Nat.zero_le _⟩, rfl, ?_⟩
      rw [Main.turns, Main.turns]
      omega
  | seek buffer n k =>
    rw [hphase] at hmain happends
    obtain ⟨hnul, rfl, hk⟩ := hmain
    have hinside : s.main.inside = true := by rw [hphase]; rfl
    rw [Main.waiting, List.append_nil, h.memory]
    dsimp only
    rcases readAt_cases h.plain h.room hk with ⟨b, hread, hb, hlt, _⟩ | ⟨hread, rfl⟩
    · rw [hread, Option.map_some, if_pos hb]
      refine ⟨_, _, _, content, rfl,
        h.goOn hinside rfl h.plain h.room happends ⟨hnul, rfl, hlt⟩, rfl, ?_⟩
      rw [Main.turns, Main.turns]
      omega
    · rw [hread, Option.map_some, if_neg (not_not_intro rfl)]
      refine ⟨_, _, _, content, rfl, h.goOn hinside rfl h.plain h.room happends
        ⟨hnul, by omega, rfl⟩, rfl, ?_⟩
      rw [Main.turns, Main.turns]
      omega
  | copy src n k =>
    rw [hphase] at hmain happends
    obtain ⟨hnul, hroom, rfl⟩ := hmain
    have hinside : s.main.inside = true := by rw [hphase]; rfl
    rw [Main.waiting, List.append_nil, h.memory]
    rw [Main.rest] at happends
    cases n with
    | zero =>
      dsimp only
      rw [updateAt_end_nul h.room, Option.map_some]
      refine ⟨_, _, _, content, rfl, h.goOn hinside rfl h.plain h.room happends trivial, rfl, ?_⟩
      rw [Main.turns, Main.turns]
      omega
    | succ n =>
      obtain ⟨b, src', rfl, hcase⟩ := text_of_mem hnul
      have hsrc : readAt (b :: src') 0 = some b := rfl
      dsimp only
      rw [hsrc, Option.bind_some]
      rcases hcase with ⟨rfl, htext⟩ | ⟨hb, hnul', htext⟩
      · rw [htext, List.take_nil] at happends
        rw [updateAt_end_nul h.room, Option.map_some, if_neg (not_not_intro rfl)]
        refine ⟨_, _, _, content, rfl, h.goOn hinside rfl h.plain h.room happends trivial, rfl, ?_⟩
        rw [Main.turns, Main.turns]
        omega
      · rw [htext, List.take_succ_cons, List.append_cons] at happends
        rw [updateAt_end h.room, Option.map_some, if_pos hb, List.tail_cons]
        have hlength : (content ++ [b]).length = content.length + 1 := List.length_append
        have hplain : 0 ∉ content ++ [b] := by
          intro hmem
          rcases List.mem_append.mp hmem with hmem | hmem
          · exact h.plain hmem
          · exact hb (List.mem_singleton.mp hmem).symm
        refine ⟨_, _, _, content ++ [b], rfl,
          h.goOn hinside rfl hplain (by omega) happends ⟨hnul', by omega, hlength.symm⟩, rfl, ?_⟩
        rw [Main.turns, Main.turns]
        omega
  | unlock =>
    rw [hphase] at happends
    have hinside : s.main.inside = true := by rw [hphase]; rfl
    have hholder := h.mainHas.mp hinside
    rw [Main.waiting, List.append_nil]
    refine ⟨.loop, none, s.commonBuffer, content, rfl, ⟨h.memory, h.plain, h.room, happends,
      trivial, h.printer, ?_, ?_, h.printed⟩, rfl, Nat.zero_lt_one⟩
    · exact iff_of_false Bool.false_ne_true (Option.some_ne_none _).symm
    · refine iff_of_false (fun hprinter => ?_) (Option.some_ne_none _).symm
      rw [h.printerHas.mp hprinter] at hholder
      cases hholder

theorem printerStep (h : At s texts content) (hfree : s.printer = .lock → s.holder = none) :
    ∃ printer holder printed, CommonBuffer.printerStep s = some { s with
        printer := printer, holder := holder, printed := printed } ∧
      At { s with printer := printer, holder := holder, printed := printed } texts content := by
  have hprinter := h.printer
  have houtside : s.printer.inside = false → s.holder ≠ some .printer := by
    intro hinside hholder
    rw [h.printerHas.mpr hholder] at hinside
    cases hinside
  rw [CommonBuffer.printerStep]
  cases hphase : s.printer with
  | sleep =>
    have hholder := houtside (by rw [hphase]; rfl)
    exact ⟨_, _, _, rfl, h.memory, h.plain, h.room, h.appends, h.main, trivial, h.mainHas,
      iff_of_false Bool.false_ne_true hholder, h.printed⟩
  | lock =>
    have hmain := h.main_outside (by rw [hfree hphase]; exact (Option.some_ne_none _).symm)
    refine ⟨_, _, _, rfl, h.memory, h.plain, h.room, h.appends, h.main,
      ⟨Nat.zero_le _, List.take_zero.symm⟩, iff_of_false ?_ ?_, iff_of_true rfl rfl, h.printed⟩
    · exact hmain ▸ Bool.false_ne_true
    · exact fun hholder => by cases hholder
  | printf k out =>
    rw [hphase] at hprinter
    obtain ⟨hk, rfl⟩ := hprinter
    have hinside : s.printer.inside = true := by rw [hphase]; rfl
    have hholder := h.printerHas.mp hinside
    dsimp only
    rw [h.memory]
    rcases readAt_cases h.plain h.room hk with ⟨b, hread, hb, hlt, htake⟩ | ⟨hread, rfl⟩
    · rw [hread, Option.map_some, if_pos hb]
      exact ⟨_, _, _, rfl, rfl, h.plain, h.room, h.appends, h.main, ⟨hlt, htake.symm⟩, h.mainHas,
        iff_of_true rfl hholder, h.printed⟩
    · have hmain := h.main_outside (by rw [hholder]; exact fun heq => by cases heq)
      rw [hread, Option.map_some, if_neg (not_not_intro rfl), List.take_length]
      refine ⟨_, _, _, rfl, rfl, h.plain, h.room, h.appends, h.main, trivial, h.mainHas,
        iff_of_true rfl hholder, ?_⟩
      rw [h.content_eq hmain]
      exact h.printed.print
  | unlock =>
    have hinside : s.printer.inside = true := by rw [hphase]; rfl
    have hholder := h.printerHas.mp hinside
    have hmain := h.main_outside (by rw [hholder]; exact fun heq => by cases heq)
    refine ⟨_, _, _, rfl, h.memory, h.plain, h.room, h.appends, h.main, trivial, ?_, ?_,
      h.printed⟩
    · exact iff_of_false (hmain ▸ Bool.false_ne_true) (Option.some_ne_none _).symm
    · exact iff_of_false Bool.false_ne_true (Option.some_ne_none _).symm

end At

/-! ## The descriptors -/

/-- An event that is still to be served is for a descriptor that is open. -/
structure Serves (s : State) : Prop where
  listening : s.serverFd ∉ s.kernel.sockets
  watched : ∀ fd, fd ≠ s.serverFd → (fd ∈ s.kernel.registered ↔ fd ∈ s.kernel.sockets)
  nodup : s.pending.Nodup
  pending : ∀ fd ∈ s.pending, fd ≠ s.serverFd → fd ∈ s.kernel.sockets

theorem serves_start (serverFd : Fd) : Serves (start serverFd) where
  listening := Finset.notMem_empty serverFd
  watched fd hne :=
    iff_of_false (fun hmem => hne (Finset.mem_singleton.mp hmem)) (Finset.notMem_empty fd)
  nodup := List.nodup_nil
  pending _ hmem := absurd hmem List.not_mem_nil

namespace Serves

theorem wait (h : Serves s) {batch : List Fd} (hnodup : batch.Nodup)
    (hbatch : ∀ fd ∈ batch, fd ∈ s.kernel.registered) : Serves { s with pending := batch } where
  listening := h.listening
  watched := h.watched
  nodup := hnodup
  pending fd hmem hne := (h.watched fd hne).mp (hbatch fd hmem)

theorem rest (h : Serves s) {fd : Fd} {rest : List Fd} (hpend : s.pending = fd :: rest) :
    Serves { s with pending := rest } where
  listening := h.listening
  watched := h.watched
  nodup := (List.nodup_cons.mp (hpend ▸ h.nodup)).2
  pending other hmem hne := h.pending other (hpend ▸ List.mem_cons_of_mem fd hmem) hne

theorem accept (h : Serves s) {clientFd : Fd} (hserver : clientFd ≠ s.serverFd) :
    Serves { s with kernel := (s.kernel.accept clientFd).add clientFd } where
  listening hmem :=
    (Finset.mem_insert.mp hmem).elim (fun heq => hserver heq.symm) h.listening
  watched fd hne := by
    change fd ∈ insert clientFd s.kernel.registered ↔ fd ∈ insert clientFd s.kernel.sockets
    rw [Finset.mem_insert, Finset.mem_insert, h.watched fd hne]
  nodup := h.nodup
  pending fd hmem hne := Finset.mem_insert_of_mem (h.pending fd hmem hne)

theorem close (h : Serves s) {fd : Fd} (hpend : fd ∉ s.pending) :
    Serves { s with kernel := (s.kernel.close fd).delete fd } where
  listening hmem := h.listening (Finset.mem_of_mem_erase hmem)
  watched other hne := by
    change other ∈ (s.kernel.registered.erase fd).erase fd ↔ other ∈ s.kernel.sockets.erase fd
    rw [Finset.erase_idem, Finset.mem_erase, Finset.mem_erase, h.watched other hne]
  nodup := h.nodup
  pending other hmem hne :=
    Finset.mem_erase.mpr ⟨fun heq => hpend (heq ▸ hmem), h.pending other hmem hne⟩

end Serves

/-! ## Runs -/

def reads : Option State → Input → List (List UInt8)
  | _, .read (.data chunk) => [text 0 chunk.bytes]
  | _, .read _ | _, .wait _ | _, .accept _ | _, .main | _, .printer => []

theorem length_fill (chunk : Chunk readSize) : chunk.bytes.length < bufferSize :=
  Nat.lt_of_le_of_lt chunk.bound (by decide)

theorem fill_eq (chunk : Chunk readSize) : fill chunk = pad 0 bufferSize chunk.bytes :=
  overwrite_replicate (Nat.le_of_lt (length_fill chunk))

theorem text_fill (chunk : Chunk readSize) : text 0 (fill chunk) = text 0 chunk.bytes := by
  rw [fill_eq]
  exact text_pad bufferSize chunk.bytes

theorem nul_mem_fill (chunk : Chunk readSize) : 0 ∈ fill chunk := by
  rw [fill_eq, pad_eq_cons (length_fill chunk)]
  exact List.mem_append_right _ List.mem_cons_self

/-- What holds between the steps. `read` are the texts read so far. -/
structure Sound (s : State) (read : List (List UInt8)) : Prop where
  serves : Serves s
  buffer : ∃ texts content, At s texts content ∧ read = texts ++ s.main.waiting

theorem sound_start (serverFd : Fd) : Sound (start serverFd) [] where
  serves := serves_start serverFd
  buffer := ⟨[], [], at_start serverFd, rfl⟩

theorem At.frame (h : At s texts content) {kernel : Kernel} {exited : Bool} {pending : List Fd} :
    At { s with kernel := kernel, exited := exited, pending := pending } texts content :=
  ⟨h.memory, h.plain, h.room, h.appends, h.main, h.printer, h.mainHas, h.printerHas, h.printed⟩

theorem At.read (h : At s texts content) (hloop : s.main = .loop) {pending : List Fd}
    (chunk : Chunk readSize) :
    At { s with pending := pending, main := .lock (fill chunk) } texts content where
  memory := h.memory
  plain := h.plain
  room := h.room
  appends := by
    have happends := h.appends
    rwa [hloop] at happends
  main := nul_mem_fill chunk
  printer := h.printer
  mainHas := by
    have hmain := h.mainHas
    rwa [hloop] at hmain
  printerHas := h.printerHas
  printed := h.printed

theorem Sound.handleRead {read : List (List UInt8)} (h : Sound s read)
    (hdispatch : Dispatches s false) (received : Recv readSize) :
    Sound (handleRead s received) (read ++ reads (some s) (.read received)) := by
  obtain ⟨texts, content, hat, rfl⟩ := h.buffer
  obtain ⟨hloop, fd, hfd, hclient⟩ := hdispatch
  rw [CommonBuffer.handleRead]
  cases hpend : s.pending with
  | nil =>
    rw [hpend] at hfd
    cases hfd
  | cons other rest =>
    rw [hpend] at hfd
    cases hfd
    have hserves := h.serves.rest hpend
    have hnodup := hpend ▸ h.serves.nodup
    cases received with
    | data chunk =>
      refine ⟨⟨hserves.listening, hserves.watched, hserves.nodup, hserves.pending⟩, texts, content,
        hat.read hloop chunk, ?_⟩
      rw [hloop, Main.waiting, text_fill]
      exact congrArg (· ++ [text 0 chunk.bytes]) (List.append_nil texts)
    | eof | again | error =>
      refine ⟨hserves.close (List.nodup_cons.mp hnodup).1, texts, content, hat.frame, ?_⟩
      exact List.append_nil _

theorem Sound.handleAccept {read : List (List UInt8)} (h : Sound s read)
    (hdispatch : Dispatches s true) {clientFd : Option Fd}
    (hclient : ∀ fd ∈ clientFd, fd ≠ s.serverFd) : Sound (handleAccept s clientFd) read := by
  obtain ⟨texts, content, hat, rfl⟩ := h.buffer
  obtain ⟨hloop, fd, hfd, _⟩ := hdispatch
  cases hpend : s.pending with
  | nil =>
    rw [hpend] at hfd
    cases hfd
  | cons other rest =>
    have hserves := h.serves.rest hpend
    rw [← @List.tail_cons _ other rest, ← hpend] at hserves
    cases clientFd with
    | none => exact ⟨hserves, texts, content, hat.frame, rfl⟩
    | some clientFd =>
      exact ⟨hserves.accept (hclient clientFd rfl), texts, content, hat.frame, rfl⟩

theorem Sound.act {read : List (List UInt8)} (h : Sound s read) {i : Input} (hp : Allowed s i) :
    ∃ s', act s i = some s' ∧ Sound s' (read ++ reads (some s) i) := by
  obtain ⟨_, hp⟩ := hp
  obtain ⟨texts, content, hat, hread⟩ := h.buffer
  cases i with
  | wait batch =>
    cases batch with
    | none =>
      refine ⟨_, rfl, ⟨h.serves.listening, h.serves.watched, h.serves.nodup, h.serves.pending⟩,
        texts, content, hat.frame, ?_⟩
      exact (List.append_nil _).trans hread
    | some batch =>
      obtain ⟨_, _, hbatch⟩ := hp
      obtain ⟨_, hnodup, hregistered⟩ := hbatch batch rfl
      refine ⟨_, rfl, h.serves.wait hnodup hregistered, texts, content, hat.frame, ?_⟩
      exact (List.append_nil _).trans hread
  | accept clientFd =>
    refine ⟨_, rfl, ?_⟩
    rw [reads, List.append_nil]
    exact h.handleAccept hp.1 fun fd hfd => (hp.2 fd hfd).1
  | read received => exact ⟨_, rfl, h.handleRead hp received⟩
  | main =>
    obtain ⟨main, holder, commonBuffer, content', hstep, hnext, hwaiting, _⟩ :=
      hat.mainStep hp.1 hp.2
    refine ⟨_, hstep, ⟨h.serves.listening, h.serves.watched, h.serves.nodup, h.serves.pending⟩,
      _, content', hnext, ?_⟩
    rw [hwaiting, hread, reads]
  | printer =>
    obtain ⟨printer, holder, printed, hstep, hnext⟩ := hat.printerStep hp
    refine ⟨_, hstep, ⟨h.serves.listening, h.serves.watched, h.serves.nodup, h.serves.pending⟩,
      texts, content, hnext, ?_⟩
    exact (List.append_nil _).trans hread

def State.turns (s : State) : Nat := s.main.turns (text 0 s.commonBuffer).length

/-- Once it has the lock, main comes closer to the event loop with each of its steps. -/
theorem Sound.turns_lt {read : List (List UInt8)} (h : Sound s read) (hloop : s.main ≠ .loop)
    (hfree : ∀ buffer, s.main = .lock buffer → s.holder = none) :
    ∃ main holder commonBuffer, mainStep s = some { s with
        main := main, holder := holder, commonBuffer := commonBuffer } ∧
      State.turns { s with main := main, holder := holder, commonBuffer := commonBuffer } <
        s.turns := by
  obtain ⟨texts, content, hat, _⟩ := h.buffer
  obtain ⟨main, holder, commonBuffer, content', hstep, hnext, _, hturns⟩ :=
    hat.mainStep hloop hfree
  refine ⟨main, holder, commonBuffer, hstep, ?_⟩
  have htext : text 0 s.commonBuffer = content := by
    rw [hat.memory, text_pad, text_eq_self hat.plain]
  have htext' : text 0 commonBuffer = content' := by
    rw [show commonBuffer = pad 0 commonSize content' from hnext.memory, text_pad,
      text_eq_self hnext.plain]
  rw [State.turns, State.turns, htext, htext']
  exact hturns

theorem Sound.holder_eq_none {read : List (List UInt8)} (h : Sound s read)
    (hmain : s.main.inside = false) (hprinter : s.printer.inside = false) : s.holder = none := by
  obtain ⟨_, _, hat, _⟩ := h.buffer
  cases hholder : s.holder with
  | none => rfl
  | some thread =>
    cases thread with
    | main =>
      rw [hat.mainHas.mpr hholder] at hmain
      cases hmain
    | printer =>
      rw [hat.printerHas.mpr hholder] at hprinter
      cases hprinter

theorem sound_final (x : Run) : ∃ s, x.final = some s ∧ Sound s (x.observed reads) := by
  apply x.history_induction (P := fun is =>
    ∃ s, run step x.start is = some s ∧ Sound s (collect step reads x.start is))
  · obtain ⟨serverFd, hstart⟩ := x.begins
    exact ⟨_, hstart, sound_start serverFd⟩
  · rintro is i _ ⟨s', hs', hp⟩ ⟨s, hs, hsound⟩
    rw [hs] at hs'
    cases hs'
    obtain ⟨next, hact, hnext⟩ := hsound.act hp
    rw [run_snoc, collect_snoc, hs]
    exact ⟨next, hact, hnext⟩

/-- What the buffer and the output show of what has been read. -/
structure Shows (s : State) (read : List (List UInt8)) : Prop where
  exclusive : s.main.inside = true → s.printer.inside = false
  settled : s.main = .loop → text 0 s.commonBuffer = read.flatten.take (commonSize - 1)
  printed : Snapshots read s.printed
  pending : ∀ fd ∈ s.pending, fd ≠ s.serverFd → fd ∈ s.kernel.sockets

theorem Sound.shows {read : List (List UInt8)} (h : Sound s read) : Shows s read := by
  obtain ⟨texts, content, hat, rfl⟩ := h.buffer
  refine ⟨fun hmain => ?_, fun hloop => ?_, hat.printed.append _, h.serves.pending⟩
  · rw [← Bool.not_eq_true]
    intro hprinter
    have hholder := hat.mainHas.mp hmain
    rw [hat.printerHas.mp hprinter] at hholder
    cases hholder
  · have hcontent := hat.content_eq (by rw [hloop]; rfl)
    rw [hloop, Main.waiting, List.append_nil, hat.memory, text_pad, text_eq_self hat.plain,
      hcontent, snapshot_length]

/-- In every interleaving of the two threads no access is outside the buffer, which holds
what was read as far as there is room, and every printed string consists of whole reads. -/
theorem prints_whole_reads (x : Run) :
    ∃ s, x.final = some s ∧ Shows s (x.observed reads) := by
  obtain ⟨s, hfinal, hsound⟩ := sound_final x
  exact ⟨s, hfinal, hsound.shows⟩

end ConnectionOrder.CommonBuffer
