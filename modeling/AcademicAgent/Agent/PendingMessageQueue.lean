import AcademicAgent.AgentHost.Messages

/-!
# Queued messages of an agent

The agent keeps messages that wait for a running turn in queues.
-/

namespace AcademicAgent

/-- `"all" | "one-at-a-time"`. -/
inductive QueueMode where
  | all
  | oneAtATime
  deriving DecidableEq

/-- The messages that wait, and how they are handed out. -/
structure PendingMessageQueue where
  messages : List AgentMessage := []
  mode : QueueMode := .oneAtATime
  deriving DecidableEq

namespace PendingMessageQueue

section

variable (q : PendingMessageQueue)

def enqueue (message : AgentMessage) : PendingMessageQueue :=
  { q with messages := q.messages ++ [message] }

/-- The messages handed out, and the queue that stays. -/
def drain : List AgentMessage × PendingMessageQueue :=
  match q.mode with
  | .all => (q.messages, { q with messages := [] })
  | .oneAtATime => (q.messages.take 1, { q with messages := q.messages.drop 1 })

def clear : PendingMessageQueue := { q with messages := [] }

@[simp] theorem messages_enqueue (message : AgentMessage) :
    (q.enqueue message).messages = q.messages ++ [message] := rfl

@[simp] theorem messages_clear : q.clear.messages = [] := rfl

theorem drain_append : q.drain.1 ++ q.drain.2.messages = q.messages := by
  rw [drain]
  cases q.mode with
  | all => exact List.append_nil _
  | oneAtATime => exact List.take_append_drop 1 q.messages

end

theorem drain_eq_nil {q : PendingMessageQueue} (h : q.drain.1 = []) :
    q.messages = [] ∧ q.drain.2 = q := by
  obtain ⟨messages, mode⟩ := q
  cases mode with
  | all =>
    simp only [drain] at h ⊢
    simp [h]
  | oneAtATime =>
    cases messages with
    | nil => simp [drain]
    | cons m ms => simp [drain] at h

end PendingMessageQueue

end AcademicAgent
