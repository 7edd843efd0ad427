import MotionScript.Event

/-!
# The bus

Events are published to the subscribers of their type and to the subscribers of all types. Each
subscriber receives from a channel whose queue has a bounded length; an event that finds it full is
lost for that subscriber and for no other. Publishing never waits. That a receiver has gone is found
out only when an event is next sent to it, and then its sender is given up.
-/
namespace MotionScript

/-- The events on their way to one receiver, and whether the receiver is still there. -/
structure Channel where
  queue : List Event := []
  isOpen : Bool := true

namespace Channel

def capacity : Nat := 256

/-- Puts an event into the queue, or loses it if there is no room. Nothing can be sent to a receiver
that has gone. -/
def trySend (c : Channel) (event : Event) : Option Channel :=
  if c.isOpen then
    some (if c.queue.length < capacity then { c with queue := c.queue ++ [event] } else c)
  else none

end Channel

/-- The sending end of a channel: the type of events that is wanted, or none for all types, and the
number of the channel. -/
structure Sender where
  wanted : Option EventType
  number : Nat
  deriving DecidableEq

structure Bus where
  /-- The channels in the order in which their receivers subscribed. -/
  channels : List Channel := []
  /-- The senders that have not been given up, in the same order. -/
  senders : List Sender := []

namespace Bus

def subscribe (b : Bus) (wanted : Option EventType) : Nat × Bus :=
  let number := b.channels.length
  (number, { channels := b.channels ++ [{}], senders := b.senders ++ [{ wanted, number }] })

/-- Sends an event by one sender after the other, as far as they want just this, and gives the
senders that are kept and the channels afterwards. -/
def sendBy (wanted : Option EventType) (event : Event) :
    List Sender → List Channel → List Sender × List Channel
  | [], channels => ([], channels)
  | sender :: later, channels =>
    if sender.wanted = wanted then
      match (channels[sender.number]?).bind (·.trySend event) with
      | some channel =>
        let (kept, channels) := sendBy wanted event later (channels.set sender.number channel)
        (sender :: kept, channels)
      | none => sendBy wanted event later channels
    else
      let (kept, channels) := sendBy wanted event later channels
      (sender :: kept, channels)

def send (b : Bus) (wanted : Option EventType) (event : Event) : Bus :=
  let (senders, channels) := sendBy wanted event b.senders b.channels
  { channels, senders }

/-- Sends an event to the subscribers of its type, and then to those of all types. -/
def publish (b : Bus) (event : Event) : Bus := (b.send (some event.type) event).send none event

def publishAll (b : Bus) (events : List Event) : Bus := events.foldl publish b

def notify (b : Bus) (text : String) : Bus := b.publish (.feedback text)

def open? (b : Bus) (number : Nat) : Option Channel :=
  (b.channels[number]?).bind fun c => if c.isOpen then some c else none

/-- The next event of a subscriber: nothing from one that has gone or is unknown, and no event from
an empty queue. -/
def receive (b : Bus) (number : Nat) : Option (Option Event) × Bus :=
  match b.open? number with
  | none => (none, b)
  | some c =>
    (some c.queue.head?,
      { b with channels := b.channels.set number { c with queue := c.queue.tail } })

def drain (b : Bus) (number : Nat) : Option (List Event) × Bus :=
  match b.open? number with
  | none => (none, b)
  | some c => (some c.queue, { b with channels := b.channels.set number { c with queue := [] } })

/-- Ends a subscription; what waits for the subscriber is lost. -/
def close (b : Bus) (number : Nat) : Bus :=
  { b with channels := b.channels.modify number fun c => { c with queue := [], isOpen := false } }

/-- How many events a log keeps of those that are published before it first looks: all but what is
said to people, out of the events that find room in its queue. -/
def loggedCount (events : List Event) : Nat :=
  let (log, bus) := subscribe {} none
  (((bus.publishAll events).drain log).1.getD []).countP (·.type != .feedback)

end Bus
end MotionScript
