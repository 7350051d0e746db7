import ConnectionOrder.Exp1.Client8

/-!
# A connection that fails

A thread whose connect fails returns without ever passing the turn on, and the turn
still comes to it. Both clients are then left with threads that wait for ever, unless
nothing is left to send when the turn gets there.
-/

namespace ConnectionOrder.FailedConnects

open Machine Monitor Rotation

/-- No thread waits for one that is gone, and when nothing moves any more every thread
has returned and those that connected have sent all their packets. -/
def FinalUnblocked (n : Nat) (packets : Int) (fails : Fin n → Bool) : Prop :=
  ∀ x : Run (ClientFinal.sendPackets n packets) fails ClientFinal.initial,
    x.Always (fun s => ¬Blocked ClientFinal.Owns s) ∧
    x.Always (Finished (ClientFinal.sendPackets n packets) fails ClientFinal.sentBy packets.toNat)

def Client8Unblocked (c : Client8.Config) (fails : Fin c.conns → Bool) : Prop :=
  ∀ x : Run (Client8.sendPackets c) fails Client8.initial,
    x.Always (fun s => ¬Blocked Client8.Owns s) ∧
    x.Always (Finished (Client8.sendPackets c) fails Client8.sentBy c.rounds)

theorem finalUnblocked_iff (n : Nat) (packets : Int) (fails : Fin n → Bool) :
    FinalUnblocked n packets fails ↔ Harmless fails packets.toNat := by
  apply Laws.never_blocks_iff (r := ClientFinal.rotation n packets) (ClientFinal.shows_initial n)
  intro i
  refine ⟨!fails i, ?_⟩
  cases hi : fails i <;> simp [ClientFinal.sendPackets]

theorem client8Unblocked_iff (c : Client8.Config) (fails : Fin c.conns → Bool) :
    Client8Unblocked c fails ↔ Harmless fails c.rounds := by
  apply Laws.never_blocks_iff (r := Client8.rotation c) (Client8.shows_initial c.conns)
  intro i
  refine ⟨!fails i, ?_⟩
  cases hi : fails i <;> simp [Client8.sendPackets]

/-- Both clients run on exactly when each thread that failed comes after all those that
connected and there is but one round, or no round at all. -/
theorem unblocked_iff (c : Client8.Config) (fails : Fin c.conns → Bool) :
    FinalUnblocked c.conns c.packets.toInt fails ∧ Client8Unblocked c fails ↔
      Harmless fails c.rounds := by
  rw [finalUnblocked_iff, client8Unblocked_iff]
  exact and_self_iff

/-- The first of four connections fails, the second one waits. -/
def fourConns : Client8.Config := ⟨4, 16, by decide⟩

def firstFails : Fin fourConns.conns → Bool := fun i => i.val = 0

def secondWaits : List (Input (Fin fourConns.conns) Bool) :=
  let first : Fin fourConns.conns := ⟨0, by decide⟩
  let second : Fin fourConns.conns := ⟨1, by decide⟩
  [.connect first false, .connect second true, .again second true, .lock second, .test second]

def finalRun : Run (ClientFinal.sendPackets fourConns.conns 16) firstFails ClientFinal.initial :=
  ⟨_, secondWaits, rfl, by decide⟩

def client8Run : Run (Client8.sendPackets fourConns) firstFails Client8.initial :=
  ⟨_, secondWaits, rfl, by decide⟩

theorem blocked_firstFails :
    ¬FinalUnblocked fourConns.conns 16 firstFails ∧ ¬Client8Unblocked fourConns firstFails := by
  constructor
  · intro h
    exact (h finalRun).1.final ⟨⟨1, by decide⟩, ⟨0, by decide⟩, 0, rfl, rfl, rfl⟩
  · intro h
    exact (h client8Run).1.final ⟨⟨1, by decide⟩, ⟨0, by decide⟩, 1, rfl, rfl, rfl⟩

end ConnectionOrder.FailedConnects
