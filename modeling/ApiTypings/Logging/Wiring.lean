import ApiTypings.Logging.Sink

/-!
The way of a record from the gate to the sinks.

Our handler at the gate puts records in a queue, and a listener takes them out and writes them to
its sinks. The two are attached together and taken away together, and a mark is set that logging is
configured. Handlers are found at the gate, but a listener is stopped only if it is recorded.
-/

namespace ApiTypings.Logging

/-- A listener at work: the queue that it takes records from, and the sinks it writes them to. -/
structure Listener where
  queue : Nat
  sinks : List Sink

/-- Whether logging counts as configured, the queues that our handlers at the gate put records in,
the listeners at work, the queue of the listener that is recorded, and how many queues were made. -/
structure Wiring where
  configured : Bool
  handlers : List Nat
  listeners : List Listener
  recorded : Option Nat
  queues : Nat

namespace Wiring

/-- Before anything is configured. -/
def bare : Wiring := ⟨false, [], [], none, 0⟩

/-- Takes our handlers away, and stops the recorded listener and forgets it. -/
def detach (w : Wiring) : Wiring :=
  { w with
    handlers := []
    listeners := w.listeners.filter fun l => w.recorded != some l.queue
    recorded := none }

/-- Starts a listener on a new queue, adds a handler and records the listener. -/
def attach (w : Wiring) (sinks : List Sink) : Wiring where
  configured := true
  handlers := w.handlers ++ [w.queues]
  listeners := w.listeners ++ [⟨w.queues, sinks⟩]
  recorded := some w.queues
  queues := w.queues + 1

/-- The listener that is recorded, if it is at work. -/
def listener? (w : Wiring) : Option Listener :=
  w.recorded.bind fun q => w.listeners.find? (·.queue == q)

/-- The sinks that a record from the gate gets to. -/
def sinks (w : Wiring) : List Sink :=
  w.handlers.flatMap fun q => (w.listeners.filter (·.queue == q)).flatMap (·.sinks)

/-- The same wiring with each sink replaced. -/
def mapSinks (f : Sink → Sink) (w : Wiring) : Wiring :=
  { w with listeners := w.listeners.map fun l => { l with sinks := l.sinks.map f } }

end Wiring

end ApiTypings.Logging
