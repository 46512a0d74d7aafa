import Rebar.Lib.Channel
import Rebar.Lib.HashMap
import Rebar.Lib.Msgpack
import Rebar.Process.Types

/-!
# Mailboxes

The model of `MailboxTx::send` in `process/mailbox.rs` and of `ProcessTable::send` in
`process/table.rs`.  Of the process table `send` reads only the handles.

* `send_eq`   exactly one message is queued, if there is a mailbox that takes it, or nothing changes.
-/

namespace Rebar

/-- `ProcessId::new` -/
def ProcessId.new (nodeId localId : UInt64) : ProcessId := ⟨nodeId.toNat, localId.toNat⟩

structure Message where
  sender : ProcessId
  payload : Value
  timestamp : Option Nat

/-- `Message::new` at the time `now` -/
def Message.new (now : Nat) (sender : ProcessId) (payload : Value) : Message :=
  ⟨sender, payload, some now⟩

inductive SendError where
  | processDead (pid : ProcessId)
  | mailboxFull (pid : ProcessId)
  | nodeUnreachable (nodeId : Nat)
deriving DecidableEq

abbrev Mailbox := Channel Message

def Mailbox.send (box : Mailbox) (msg : Message) : Except SendError Mailbox :=
  match box.trySend msg with
  | .ok box => .ok box
  | .error .full => .error (.mailboxFull msg.sender)
  | .error .closed => .error (.processDead msg.sender)

/-- the handles of the processes, by the mailboxes they send to -/
abbrev Processes := HashMap ProcessId Mailbox

def Processes.send (table : Processes) (pid : ProcessId) (msg : Message) :
    Processes × Except SendError Unit :=
  match table.lookup pid with
  | none => (table, .error (.processDead pid))
  | some box =>
    match Mailbox.send box msg with
    | .ok box => (table.insert pid box, .ok ())
    | .error (.mailboxFull _) => (table, .error (.mailboxFull pid))
    | .error _ => (table, .error (.processDead pid))

theorem mailbox_send_eq (box : Mailbox) (msg : Message) :
    (box.Accepts ∧ Mailbox.send box msg = .ok { box with queue := box.queue ++ [msg] }) ∨
      (¬ box.Accepts ∧ ∃ e, Mailbox.send box msg = .error e) := by
  rcases Channel.trySend_eq box msg with ⟨haccepts, hsend⟩ | ⟨haccepts, e, hsend⟩
  · exact Or.inl ⟨haccepts, by rw [Mailbox.send, hsend]⟩
  · refine Or.inr ⟨haccepts, ?_⟩
    rw [Mailbox.send, hsend]
    cases e <;> exact ⟨_, rfl⟩

theorem send_eq (table : Processes) (pid : ProcessId) (msg : Message) :
    (∃ box, table.lookup pid = some box ∧ box.Accepts ∧
        table.send pid msg = (table.insert pid { box with queue := box.queue ++ [msg] }, .ok ())) ∨
      ((∀ box, table.lookup pid = some box → ¬ box.Accepts) ∧
        ∃ e, table.send pid msg = (table, .error e)) := by
  cases hbox : table.lookup pid with
  | none => exact Or.inr ⟨nofun, _, by rw [Processes.send, hbox]⟩
  | some box =>
    rcases mailbox_send_eq box msg with ⟨haccepts, hsend⟩ | ⟨haccepts, e, hsend⟩
    · refine Or.inl ⟨box, rfl, haccepts, ?_⟩
      rw [Processes.send, hbox]
      dsimp only
      rw [hsend]
    · refine Or.inr ⟨fun box' hbox' => Option.some.inj hbox' ▸ haccepts, ?_⟩
      rw [Processes.send, hbox]
      dsimp only
      rw [hsend]
      cases e <;> exact ⟨_, rfl⟩

end Rebar
