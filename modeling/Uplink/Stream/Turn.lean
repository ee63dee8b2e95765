/-! Turns at something that one user holds at a time: users wait in a queue, and whoever comes to a
free resource while others wait has to queue behind them. -/

namespace Uplink.Stream

structure Turn (α : Type u) where
  holder : Option α
  queue : List α
deriving DecidableEq

namespace Turn

variable {α : Type u} [DecidableEq α]

def free : Turn α := ⟨none, []⟩

/-- Whether `a` may take the turn now: nobody holds it, and nobody waits before `a`. -/
def mayTake (t : Turn α) (a : α) : Bool :=
  t.holder.isNone && (t.queue.isEmpty || t.queue.head? == some a)

/-- The turn held by `a`, who waits no more. -/
def take (t : Turn α) (a : α) : Turn α := ⟨some a, t.queue.erase a⟩

/-- The turn with `a` at the end of the queue, unless `a` waits already. -/
def join (t : Turn α) (a : α) : Turn α :=
  if a ∈ t.queue then t else { t with queue := t.queue ++ [a] }

/-- The turn without `a`, whether `a` holds it or waits for it. -/
def leave (t : Turn α) (a : α) : Turn α :=
  ⟨if t.holder = some a then none else t.holder, t.queue.erase a⟩

end Turn

end Uplink.Stream
