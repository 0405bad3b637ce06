import CodeAtlas.Signal.Event

/-! The signal bus.

A signal goes to everyone subscribed at that moment and waits there until it is
taken. Nobody waits for a slow listener: past its capacity it loses the oldest
signals. -/
namespace CodeAtlas

/-- The least power of two that is not below `n`. -/
def nextPowerOfTwo (n : Nat) : Nat :=
  if n ≤ 1 then 1 else Nat.pow 2 ((n - 1).log2 + 1)

/-- A listener and the signals it has not taken yet, oldest first. -/
structure Subscription where
  id : Nat
  pending : List GraphEvent := []

structure EventBus where
  capacity : Nat
  subscriptions : List Subscription := []
  nextId : Nat := 0
  isOpen : Bool := true

/-- What a listener that waits for a signal gets. -/
inductive Received where
  | event (e : GraphEvent)
  | closed
  | nothing

namespace EventBus

def defaultCapacity : Nat := 256

/-- Room is made for a power of two of signals. -/
def ofCapacity (capacity : Nat) : EventBus := { capacity := nextPowerOfTwo capacity }

/-- The last `n` items. -/
def newest {α : Type} (n : Nat) (xs : List α) : List α := xs.drop (xs.length - n)

def emit (bus : EventBus) (e : GraphEvent) : EventBus :=
  { bus with subscriptions := bus.subscriptions.map fun s =>
      { s with pending := newest bus.capacity (s.pending ++ [e]) } }

def emitAll (bus : EventBus) (events : List GraphEvent) : EventBus := events.foldl emit bus

/-- A new listener, which hears what is emitted from now on. -/
def subscribe (bus : EventBus) : Nat × EventBus :=
  (bus.nextId,
    { bus with subscriptions := bus.subscriptions ++ [{ id := bus.nextId }], nextId := bus.nextId + 1 })

def unsubscribe (bus : EventBus) (id : Nat) : EventBus :=
  { bus with subscriptions := bus.subscriptions.filter (·.id != id) }

def listenerCount (bus : EventBus) : Nat := bus.subscriptions.length

/-- No more signals; those still waiting can be taken. -/
def close (bus : EventBus) : EventBus := { bus with isOpen := false }

def find? (bus : EventBus) (id : Nat) : Option Subscription := bus.subscriptions.find? (·.id == id)

/-- Leave a listener with these signals. -/
def leave (bus : EventBus) (id : Nat) (pending : List GraphEvent) : EventBus :=
  { bus with subscriptions := bus.subscriptions.map fun s =>
      if s.id == id then { s with pending } else s }

/-- Take the oldest waiting signal. -/
def receive (bus : EventBus) (id : Nat) : Received × EventBus :=
  match (bus.find? id).map Subscription.pending with
  | some (e :: rest) => (.event e, bus.leave id rest)
  | _ => (if bus.isOpen then .nothing else .closed, bus)

/-- Take every waiting signal. -/
def drain (bus : EventBus) (id : Nat) : List GraphEvent × EventBus :=
  (((bus.find? id).map Subscription.pending).getD [], bus.leave id [])

end EventBus

end CodeAtlas
