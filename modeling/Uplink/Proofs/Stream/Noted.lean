import Uplink.Proofs.Stream.Transition

/-! What a history tells of the stream after it. The state is the one that was entered last, the
write half in place is the one that was put there last unless it was taken away again, and the
stream is cancelled once that was noted. -/

namespace Uplink.Stream.Connection

/-- The state after some events, from a state before them. -/
def stateAfter (s : State) (events : List Event) : State :=
  events.foldl (fun s e => match e with
    | .entered s' => s'
    | _ => s) s

/-- The write half in place after some events, from the one before them. -/
def sinkAfter (sink : Option SocketId) (events : List Event) : Option SocketId :=
  events.foldl (fun sink e => match e with
    | .installed s => some s
    | .withdrawn _ => none
    | _ => sink) sink

/-- Whether the stream is cancelled after some events, from whether it was before them. -/
def cancelledAfter (cancelled : Bool) (events : List Event) : Bool :=
  events.foldl (fun cancelled e => match e with
    | .cancelled => true
    | _ => cancelled) cancelled

/-- A stream before its first dial has succeeded. -/
def unopened (address : String) (settings : StreamSettings) (now : Instant) (epoch : Int) :
    Connection :=
  { opened address settings now epoch with state := .connecting, sink := none }

/-- An element of two lists in a row is in the one or in the other. -/
theorem split_append {α : Type} {xs ys before after : List α} {x : α}
    (h : xs ++ ys = before ++ x :: after) :
    (∃ rest, xs = before ++ x :: rest ∧ after = rest ++ ys) ∨
      ∃ rest, before = xs ++ rest ∧ ys = rest ++ x :: after := by
  rcases List.append_eq_append_iff.mp h with ⟨rest, hbefore, hys⟩ | ⟨rest, hxs, hrest⟩
  · exact .inr ⟨rest, hbefore, hys⟩
  · cases rest with
    | nil => exact .inr ⟨[], by simpa using hxs.symm, hrest.symm⟩
    | cons y rest =>
      obtain ⟨rfl, hafter⟩ := List.cons.inj hrest
      exact .inl ⟨rest, hxs, hafter⟩

variable {c c' d : Connection} {t : Task} {e : Ending} {next : Option Ending} {m : Move}
  {history events past : List Event} {schedule : Schedule}

theorem stateAfter_append (s : State) (events more : List Event) :
    stateAfter s (events ++ more) = stateAfter (stateAfter s events) more :=
  List.foldl_append

theorem sinkAfter_append (sink : Option SocketId) (events more : List Event) :
    sinkAfter sink (events ++ more) = sinkAfter (sinkAfter sink events) more :=
  List.foldl_append

theorem cancelledAfter_append (cancelled : Bool) (events more : List Event) :
    cancelledAfter cancelled (events ++ more) =
      cancelledAfter (cancelledAfter cancelled events) more :=
  List.foldl_append

theorem cancelledAfter_true (events : List Event) : cancelledAfter true events = true := by
  induction events with
  | nil => rfl
  | cons x rest ih => cases x <;> exact ih

theorem cancelledAfter_of_mem (cancelled : Bool) (h : .cancelled ∈ events) :
    cancelledAfter cancelled events = true := by
  obtain ⟨before, after, rfl⟩ := List.append_of_mem h
  rw [cancelledAfter_append]
  exact cancelledAfter_true after

/-- A state that was not there before was entered. -/
theorem stateAfter_eq_or_mem (s : State) (events : List Event) :
    stateAfter s events = s ∨ .entered (stateAfter s events) ∈ events := by
  induction events generalizing s with
  | nil => exact .inl rfl
  | cons x rest ih =>
    cases x with
    | entered s' =>
      rcases ih s' with hsame | hmem
      · refine .inr (List.mem_cons.mpr (.inl ?_))
        rw [stateAfter, List.foldl_cons]
        exact congrArg Event.entered hsame
      · exact .inr (List.mem_cons_of_mem _ hmem)
    | _ => exact (ih s).imp id (List.mem_cons_of_mem _)

/-! ### Moves -/

/-- What a move notes leads to the stream after it. -/
structure Notes (c c' : Connection) (events : List Event) : Prop where
  state : c'.state = stateAfter c.state events
  sink : c'.sink = sinkAfter c.sink events
  cancelled : c'.cancelled = cancelledAfter c.cancelled events

theorem EndingStep.notes (h : EndingStep c t e c' next events) : Notes c c' events := by
  cases h with
  | say => split <;> exact ⟨rfl, rfl, rfl⟩
  | _ => exact ⟨rfl, rfl, rfl⟩

theorem ReaderStep.notes (h : ReaderStep c c' events) : Notes c c' events := by
  cases h with
  | read f => cases f <;> exact ⟨rfl, rfl, rfl⟩
  | pong => split <;> exact ⟨rfl, rfl, rfl⟩
  | ending _ hending => exact ⟨hending.notes.state, hending.notes.sink, hending.notes.cancelled⟩
  | _ => exact ⟨rfl, rfl, rfl⟩

theorem HeartbeatStep.notes (h : HeartbeatStep c c' events) : Notes c c' events := by
  cases h with
  | ending _ hending => exact ⟨hending.notes.state, hending.notes.sink, hending.notes.cancelled⟩
  | _ => exact ⟨rfl, rfl, rfl⟩

theorem SendStep.notes {n : CallId} (h : SendStep c n c' events) : Notes c c' events := by
  cases h <;> exact ⟨rfl, rfl, rfl⟩

theorem CloseStep.notes {n : CallId} (h : CloseStep c n c' events) : Notes c c' events := by
  cases h with
  | @abort t => cases t <;> exact ⟨rfl, rfl, rfl⟩
  | ending _ hending => exact ⟨hending.notes.state, hending.notes.sink, hending.notes.cancelled⟩
  | ended _ hending =>
    obtain ⟨hstate, hsink, hcancelled⟩ := hending.notes
    refine ⟨?_, ?_, ?_⟩
    · rw [stateAfter_append]; exact hstate
    · rw [sinkAfter_append]; exact hsink
    · rw [cancelledAfter_append]; exact hcancelled
  | _ => exact ⟨rfl, rfl, rfl⟩

theorem Transition.notes (h : Transition c m c' events) : Notes c c' events := by
  cases h with
  | @suspend t => cases t <;> exact ⟨rfl, rfl, rfl⟩
  | reader h => exact h.notes
  | heartbeat h => exact h.notes
  | sending h => exact h.notes
  | closing h => exact h.notes
  | reapReader => unfold abandoned; split <;> exact ⟨rfl, rfl, rfl⟩
  | dropHandle =>
    obtain ⟨_, _, habort⟩ := abort_frame c.tasks { c with cancelled := true, tasks := [] }
    rw [habort]
    exact ⟨rfl, rfl, rfl⟩
  | _ => exact ⟨rfl, rfl, rfl⟩

theorem Notes.trans (h : Notes c c' events) {c₂ : Connection} {more : List Event}
    (h' : Notes c' c₂ more) : Notes c c₂ (events ++ more) where
  state := by rw [stateAfter_append, ← h.state, h'.state]
  sink := by rw [sinkAfter_append, ← h.sink, h'.sink]
  cancelled := by rw [cancelledAfter_append, ← h.cancelled, h'.cancelled]

/-- A run leads from what was there before its past to what its history tells. -/
theorem Reaches.notes {start : Connection} (h : Reaches schedule d past c history)
    (hd : Notes start d past) : Notes start c history := by
  induction h with
  | refl => exact hd
  | move _ _ hnext ih => exact ih.trans (Transition.of_next? hnext).notes

/-- The opening of a stream leads from a stream that is connecting and has no write half. -/
theorem notes_opening (address : String) (settings : StreamSettings) (began now : Instant)
    (epoch : Int) : Notes (unopened address settings now epoch) (opened address settings now epoch)
      ((opened address settings now epoch).opening began) :=
  ⟨rfl, rfl, rfl⟩

theorem Run.notes {address : String} {settings : StreamSettings} {began now : Instant} {epoch : Int}
    (hrun : Run schedule address settings began now epoch c history) :
    c.state = stateAfter .connecting history ∧ c.sink = sinkAfter none history ∧
      c.cancelled = cancelledAfter false history := by
  obtain ⟨hstate, hsink, hcancelled⟩ :=
    hrun.2.notes (notes_opening address settings began now epoch)
  exact ⟨hstate, hsink, hcancelled⟩

end Uplink.Stream.Connection
