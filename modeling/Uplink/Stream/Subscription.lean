import Uplink.Variant

/-! Subscriptions to topics. Each has a channel with a bounded buffer; a message is offered to every
topic without waiting. A topic keeps its channel until it is unsubscribed, subscribed again, or
found without a receiver. -/

namespace Uplink.Stream

/-- The number of a channel, in the order in which channels were made. -/
abbrev ChannelId := Nat

structure Channel where
  /-- Messages that the receiver has not taken yet, oldest first. -/
  buffer : List Variant
  /-- Whether the receiver still exists. -/
  hasReceiver : Bool

/-- What becomes of a message that is offered to a channel. -/
inductive Offer where
  | delivered
  | dropped
  | noReceiver
deriving DecidableEq

namespace Channel

def new : Channel := ⟨[], true⟩

/-- What becomes of the next message, with at most `capacity` messages in the buffer. -/
def offer (capacity : Nat) (c : Channel) : Offer :=
  if !c.hasReceiver then .noReceiver
  else if capacity ≤ c.buffer.length then .dropped
  else .delivered

/-- The channel after a message is offered to it. -/
def accept (capacity : Nat) (v : Variant) (c : Channel) : Channel :=
  match c.offer capacity with
  | .delivered => { c with buffer := c.buffer ++ [v] }
  | _ => c

/-- The channel after its receiver is dropped. -/
def close (_ : Channel) : Channel := ⟨[], false⟩

end Channel

structure Subscriptions where
  topics : KeyMap ChannelId
  channels : List Channel

namespace Subscriptions

def empty : Subscriptions := ⟨∅, []⟩

/-- Whether a channel has a receiver. -/
def hasReceiver (s : Subscriptions) (id : ChannelId) : Bool :=
  (s.channels[id]?.map Channel.hasReceiver).getD false

/-- Whether messages are still offered to a channel. -/
def isSubscribed (s : Subscriptions) (id : ChannelId) : Bool :=
  s.topics.entries.any (·.2 == id)

/-- A topic with a new channel in place of any that it has, and the channel's number. -/
def subscribe (s : Subscriptions) (topic : String) : Subscriptions × ChannelId :=
  (⟨s.topics.insert topic s.channels.length, s.channels ++ [.new]⟩, s.channels.length)

def unsubscribe (s : Subscriptions) (topic : String) : Subscriptions :=
  { s with topics := s.topics.erase topic }

/-- No topic any more; receivers keep what their buffers hold. -/
def clear (s : Subscriptions) : Subscriptions := { s with topics := ∅ }

/-- What becomes of a message that is offered to every topic, by topic. -/
def offers (capacity : Nat) (s : Subscriptions) : List (String × ChannelId × Offer) :=
  s.topics.entries.map fun (topic, id) =>
    (topic, id, ((s.channels[id]?).map (Channel.offer capacity)).getD .noReceiver)

/-- The subscriptions after a message is offered to every topic. -/
def offer (capacity : Nat) (v : Variant) (s : Subscriptions) : Subscriptions :=
  { s with channels := s.channels.mapIdx fun id c =>
      if s.isSubscribed id then c.accept capacity v else c }

/-- The topics whose channels had no receiver when a message was offered. -/
def gone (offers : List (String × ChannelId × Offer)) : List String :=
  (offers.filter (·.2.2 == .noReceiver)).map (·.1)

/-- How many channels had no room for the message. -/
def droppedCount (offers : List (String × ChannelId × Offer)) : Nat :=
  (offers.filter (·.2.2 == .dropped)).length

/-- Forgets a topic if the channel that it has now is without a receiver. -/
def forget (s : Subscriptions) (topic : String) : Subscriptions :=
  match s.topics.get? topic with
  | some id => if s.hasReceiver id then s else s.unsubscribe topic
  | none => s

/-- Forgets those of some topics whose channels are without receivers now. -/
def forgetAll (s : Subscriptions) (topics : List String) : Subscriptions := topics.foldl forget s

/-- Takes the oldest message from a channel. -/
def receive? (s : Subscriptions) (id : ChannelId) : Option (Variant × Subscriptions) :=
  match s.channels[id]? with
  | some ⟨v :: rest, true⟩ => some (v, { s with channels := s.channels.set id ⟨rest, true⟩ })
  | _ => none

/-- Drops the receiver of a channel, with what its buffer holds. -/
def dropReceiver (s : Subscriptions) (id : ChannelId) : Subscriptions :=
  { s with channels := s.channels.modify id Channel.close }

end Subscriptions

end Uplink.Stream
