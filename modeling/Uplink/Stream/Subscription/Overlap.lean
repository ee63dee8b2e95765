import Uplink.Stream.Subscription

/-! Messages offered by several tasks at a time. An offer notes the topics whose channels have no
receiver, and forgets them in a later step; offers, subscriptions and lost receivers may come in
between. -/

namespace Uplink.Stream.Subscriptions

/-- Subscriptions that are shared, and the topics that each unfinished offer is going to forget. -/
structure Shared where
  subscriptions : Subscriptions
  unfinished : List (List String)

/-- What may happen next to subscriptions that are shared. -/
inductive Move where
  /-- A message is offered to every topic. -/
  | offer (value : Variant)
  /-- The `n`th unfinished offer forgets its topics. -/
  | forget (n : Nat)
  | subscribe (topic : String)
  | unsubscribe (topic : String)
  | receive (id : ChannelId)
  | dropReceiver (id : ChannelId)

namespace Shared

/-- The state after a move, with at most `capacity` messages in a buffer; nothing if the move is not
possible. An offer that found every receiver is finished at once. -/
def next? (capacity : Nat) (s : Shared) : Move → Option Shared
  | .offer v =>
    let topics := gone (s.subscriptions.offers capacity)
    some ⟨s.subscriptions.offer capacity v,
      if topics = [] then s.unfinished else s.unfinished ++ [topics]⟩
  | .forget n =>
    s.unfinished[n]?.map fun topics =>
      ⟨s.subscriptions.forgetAll topics, s.unfinished.eraseIdx n⟩
  | .subscribe topic => some { s with subscriptions := (s.subscriptions.subscribe topic).1 }
  | .unsubscribe topic => some { s with subscriptions := s.subscriptions.unsubscribe topic }
  | .receive id =>
    (s.subscriptions.receive? id).map fun (_, subscriptions) => { s with subscriptions }
  | .dropReceiver id => some { s with subscriptions := s.subscriptions.dropReceiver id }

end Shared

end Uplink.Stream.Subscriptions
