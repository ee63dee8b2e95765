import Uplink.Proofs.Stream.Transition

/-! The order of messages. The reader offers every message that it has read, one after the other
and before it reads the next; it reads no socket again once it reads a newer one. -/

namespace Uplink.Stream

/-- Whether an event tells of a message that is read or offered. -/
def Event.isOfMessage : Event → Bool
  | .read _ (.data _) | .offered .. => true
  | _ => false

/-- The message that was read and is to be offered next, if there is one. -/
def ReaderPoint.pending : ReaderPoint → List Variant
  | .offering v => [v]
  | _ => []

/-- The socket that a dial has opened and that is to be read once it is in place. -/
def ReaderPoint.incoming? : ReaderPoint → Option SocketId
  | .placing s | .opening s => some s
  | _ => none

namespace Connection

/-- The messages that were read, each with its socket. -/
def messagesRead (history : List Event) : List (SocketId × Message) :=
  history.filterMap fun
    | .read s (.data m) => some (s, m)
    | _ => none

/-- The messages that were offered to every topic. -/
def messagesOffered (history : List Event) : List Variant :=
  history.filterMap fun
    | .offered v _ => some v
    | _ => none

/-- The message that was read and is to be offered next, if there is one. -/
def pending (c : Connection) : List Variant := c.reader.point.pending

variable {c c' : Connection} {history events : List Event} {t : Task} {e : Ending}
  {next : Option Ending} {m : Move}

theorem messagesRead_eq_nil (h : ∀ e ∈ events, e.isOfMessage = false) :
    messagesRead events = [] := by
  refine List.filterMap_eq_nil_iff.mpr fun e he => ?_
  have := h e he
  split
  · simp [Event.isOfMessage] at this
  · rfl

theorem messagesOffered_eq_nil (h : ∀ e ∈ events, e.isOfMessage = false) :
    messagesOffered events = [] := by
  refine List.filterMap_eq_nil_iff.mpr fun e he => ?_
  have := h e he
  split
  · simp [Event.isOfMessage] at this
  · rfl

/-- What a transition means for the messages that are read and for the sockets that they are read
from. -/
inductive ReadingStep (c c' : Connection) : List Event → Prop where
  | idle {events : List Event} :
      c'.pending = c.pending ∨ c'.pending = [] ∧ c.reader.parked = true →
      (c'.reader.parked = true → c.reader.parked = true ∨ c'.pending = []) →
      c'.source = c.source → c'.sockets = c.sockets →
      c'.reader.point.incoming? = c.reader.point.incoming? ∨ c'.reader.point.incoming? = none →
      (∀ e ∈ events, e.isOfMessage = false) → ReadingStep c c' events
  | read (m : Message) : c.pending = [] → c' = c.readerAt (.offering (.decode m.payload)) →
      ReadingStep c c' [.read c.source (.data m)]
  | offer (v : Variant) (offers : List (String × ChannelId × Offer)) :
      c.reader.point = .offering v → c'.pending = [] → c'.source = c.source →
      c'.sockets = c.sockets → c'.reader.point.incoming? = none →
      ReadingStep c c' [.offered v offers]
  | dialed {events : List Event} : c.pending = [] →
      c' = ({ c with sockets := c.sockets + 1 }).readerAt (.placing c.sockets) →
      (∀ e ∈ events, e.isOfMessage = false) → ReadingStep c c' events
  | reopen {s : SocketId} {events : List Event} : c.reader.point = .opening s →
      c' = (c.reopen s).readerAt .selecting →
      (∀ e ∈ events, e.isOfMessage = false) → ReadingStep c c' events

theorem isOfMessage_write {p : Prop} [Decidable p] (s : SocketId) (f : Outbound) :
    (if p then Event.wrote s f else .writeFailed s f).isOfMessage = false := by split <;> rfl

theorem EndingStep.isOfMessage (h : EndingStep c t e c' next events) :
    ∀ e ∈ events, e.isOfMessage = false := by
  cases h <;> simp [isOfMessage_write] <;> rfl

theorem incoming?_ending (next : Option Ending) :
    ReaderPoint.incoming? ((next.map .ending).getD .finished) = none := by cases next <;> rfl

theorem pending_ending (next : Option Ending) :
    ReaderPoint.pending ((next.map .ending).getD .finished) = [] := by cases next <;> rfl

theorem pending_eq_nil {p : ReaderPoint} (hpoint : c.reader.point = p) (hp : p.pending = []) :
    c.pending = [] := by rw [pending, hpoint, hp]

/-- The reader between two points where it holds no message. -/
theorem ReadingStep.of_points {p q : ReaderPoint} {d : Connection} (hpoint : c.reader.point = p)
    (hp : p.pending = []) (hq : q.pending = [])
    (hincoming : q.incoming? = p.incoming? ∨ q.incoming? = none) (hsource : d.source = c.source)
    (hsockets : d.sockets = c.sockets) (hevents : ∀ e ∈ events, e.isOfMessage = false) :
    ReadingStep c (d.readerAt q) events :=
  .idle (.inl (by rw [pending, pending, hpoint, hp, point_readerAt, hq])) (fun _ => .inr hq)
    hsource hsockets (by rw [hpoint, point_readerAt]; exact hincoming) hevents

theorem ReadingStep.of_readerStep (h : ReaderStep c c' events) : ReadingStep c c' events := by
  cases h with
  | read f hpoint =>
    cases f with
    | data m => exact .read m (pending_eq_nil hpoint rfl) rfl
    | ping p | pong p | close =>
      exact .of_points hpoint rfl rfl (.inr rfl) rfl rfl (by simp [readFrame, Event.isOfMessage])
  | offer hpoint =>
    refine .offer _ _ hpoint ?_ rfl rfl ?_
    · rw [pending, point_readerAt]
      cases Subscriptions.gone _ <;> rfl
    · rw [point_readerAt]
      cases Subscriptions.gone _ <;> rfl
  | dialed hpoint => exact .dialed (pending_eq_nil hpoint rfl) rfl (by simp [Event.isOfMessage])
  | reopen hpoint => exact .reopen hpoint rfl (by simp [Event.isOfMessage])
  | place hpoint =>
    exact .of_points hpoint rfl rfl (.inl rfl) rfl rfl (by simp [Event.isOfMessage])
  | ending hpoint hending =>
    obtain ⟨_, _, _, _, _, rfl⟩ := hending.frame
    exact .of_points hpoint rfl (pending_ending _) (.inr (incoming?_ending _)) rfl rfl
      hending.isOfMessage
  | pong sig hpoint =>
    exact .of_points hpoint rfl rfl (.inr rfl) rfl rfl (by simp [isOfMessage_write])
  | _ =>
    exact .of_points ‹c.reader.point = _› rfl rfl (.inr rfl) rfl rfl (by simp [Event.isOfMessage])

/-- A step that leaves the reader where it is. -/
theorem ReadingStep.of_reader_eq (hreader : c'.reader.point = c.reader.point)
    (hparked : c'.reader.parked = c.reader.parked) (hsource : c'.source = c.source)
    (hsockets : c'.sockets = c.sockets) (hevents : ∀ e ∈ events, e.isOfMessage = false) :
    ReadingStep c c' events :=
  .idle (.inl (by rw [pending, pending, hreader])) (fun h => .inl (hparked ▸ h)) hsource hsockets
    (.inl (by rw [hreader])) hevents

theorem ReadingStep.of_heartbeatStep (h : HeartbeatStep c c' events) :
    ReadingStep c c' events := by
  cases h with
  | ending hpoint hending =>
    have hevents := hending.isOfMessage
    obtain ⟨_, _, _, _, _, rfl⟩ := hending.frame
    exact .of_reader_eq rfl rfl rfl rfl hevents
  | _ => exact .of_reader_eq rfl rfl rfl rfl (by simp [Event.isOfMessage])

theorem ReadingStep.of_sendStep {n : CallId} (h : SendStep c n c' events) :
    ReadingStep c c' events := by
  cases h <;> exact .of_reader_eq rfl rfl rfl rfl (by simp [Event.isOfMessage])

theorem ReadingStep.of_closeStep {n : CallId} (h : CloseStep c n c' events) :
    ReadingStep c c' events := by
  cases h with
  | abort =>
    obtain ⟨_, _, habort⟩ := abort_frame [_] c
    rw [List.foldl_cons, List.foldl_nil] at habort
    rw [habort]
    exact .of_reader_eq rfl rfl rfl rfl (by simp [Event.isOfMessage])
  | ending hpoint hending =>
    have hevents := hending.isOfMessage
    obtain ⟨_, _, _, _, _, rfl⟩ := hending.frame
    exact .of_reader_eq rfl rfl rfl rfl hevents
  | ended hpoint hending =>
    have hevents := hending.isOfMessage
    obtain ⟨_, _, _, _, _, rfl⟩ := hending.frame
    refine .of_reader_eq rfl rfl rfl rfl fun e he => ?_
    rcases List.mem_append.mp he with he | he
    · exact hevents e he
    · rw [List.mem_singleton.mp he]; rfl
  | _ => exact .of_reader_eq rfl rfl rfl rfl (by simp [Event.isOfMessage])

theorem ReadingStep.of_transition (h : Transition c m c' events) : ReadingStep c c' events := by
  cases h with
  | @suspend t hwaits =>
    cases t with
    | reader =>
      -- The reader waits at no point where it holds a message.
      have hpending : c.pending = [] := by
        cases hpoint : c.reader.point with
        | offering v => simp [waits, hpoint] at hwaits
        | _ => exact pending_eq_nil hpoint rfl
      exact .idle (.inl rfl) (fun _ => .inr hpending) rfl rfl (.inl rfl) (by simp)
    | _ => exact .of_reader_eq rfl rfl rfl rfl (by simp)
  | reader h => exact .of_readerStep h
  | heartbeat h => exact .of_heartbeatStep h
  | sending h => exact .of_sendStep h
  | closing h => exact .of_closeStep h
  | reapReader haborted hparked =>
    refine .idle (.inr ⟨rfl, hparked⟩) (fun _ => .inr rfl) rfl rfl (.inr rfl) ?_
    unfold abandoned
    split <;> simp [Event.isOfMessage]
  | dropHandle =>
    obtain ⟨_, _, habort⟩ := abort_frame c.tasks { c with cancelled := true, tasks := [] }
    rw [habort]
    exact .of_reader_eq rfl rfl rfl rfl (by simp [Event.isOfMessage])
  | _ => exact .of_reader_eq rfl rfl rfl rfl (by simp [Event.isOfMessage])

/-- The order of what was read and offered, in a state after a history. -/
structure InOrder (c : Connection) (history : List Event) : Prop where
  offered : messagesOffered history ++ c.pending =
    (messagesRead history).map fun r => .decode r.2.payload
  sockets : (messagesRead history).Pairwise fun r r' => r.1 ≤ r'.1
  le_source : ∀ r ∈ messagesRead history, r.1 ≤ c.source
  source_lt : c.source < c.sockets
  incoming : ∀ s, c.reader.point.incoming? = some s → c.source < s ∧ s < c.sockets
  parked : c.reader.parked = true → c.pending = []

theorem InOrder.step (h : InOrder c history) (hstep : ReadingStep c c' events) :
    InOrder c' (history ++ events) := by
  have hread : messagesRead (history ++ events) = messagesRead history ++ messagesRead events :=
    List.filterMap_append
  have hoffered : messagesOffered (history ++ events) =
      messagesOffered history ++ messagesOffered events := List.filterMap_append
  cases hstep with
  | idle hpending hparked hsource hsockets hincoming hevents =>
    rw [messagesRead_eq_nil hevents, List.append_nil] at hread
    rw [messagesOffered_eq_nil hevents, List.append_nil] at hoffered
    have hsame : c'.pending = c.pending := by
      rcases hpending with hsame | ⟨hnone, hparked⟩
      · exact hsame
      · rw [hnone, h.parked hparked]
    refine ⟨by rw [hoffered, hread, hsame, h.offered], hread ▸ h.sockets, ?_, ?_, ?_, ?_⟩
    · rw [hread, hsource]; exact h.le_source
    · rw [hsource, hsockets]; exact h.source_lt
    · intro s hs
      rcases hincoming with hincoming | hincoming
      · rw [hsource, hsockets]; exact h.incoming s (hincoming ▸ hs)
      · rw [hincoming] at hs; cases hs
    · intro hp
      rcases hparked hp with hp | hp
      · rw [hsame, h.parked hp]
      · exact hp
  | read m hnone heq =>
    subst heq
    have hone : messagesRead [.read c.source (.data m)] = [(c.source, m)] := rfl
    have horder := h.offered
    rw [hnone, List.append_nil] at horder
    rw [hone] at hread
    refine ⟨?_, ?_, ?_, h.source_lt, by simp [ReaderPoint.incoming?], by simp⟩
    · rw [hoffered, hread, horder, List.map_append, List.append_assoc]
      rfl
    · rw [hread, List.pairwise_append]
      refine ⟨h.sockets, List.pairwise_singleton _ _, fun r hr r' hr' => ?_⟩
      rw [List.mem_singleton.mp hr']
      exact h.le_source r hr
    · rw [hread]
      intro r hr
      rcases List.mem_append.mp hr with hr | hr
      · exact h.le_source r hr
      · rw [List.mem_singleton.mp hr]; exact Nat.le_refl _
  | offer v offers hpoint hnone hsource hsockets hincoming =>
    have hone : messagesOffered [.offered v offers] = [v] := rfl
    have hzero : messagesRead [.offered v offers] = [] := rfl
    have hheld : c.pending = [v] := by rw [pending, hpoint]; rfl
    rw [hone, ← hheld] at hoffered
    rw [hzero, List.append_nil] at hread
    refine ⟨by rw [hoffered, hread, hnone, List.append_nil, h.offered], hread ▸ h.sockets, ?_, ?_,
      by simp [hincoming], fun _ => hnone⟩
    · rw [hread, hsource]; exact h.le_source
    · rw [hsource, hsockets]; exact h.source_lt
  | dialed hnone heq hevents =>
    subst heq
    rw [messagesRead_eq_nil hevents, List.append_nil] at hread
    rw [messagesOffered_eq_nil hevents, List.append_nil] at hoffered
    refine ⟨?_, hread ▸ h.sockets, hread ▸ h.le_source, ?_, ?_, by simp⟩
    · rw [hoffered, hread, ← h.offered, hnone]; rfl
    · exact Nat.lt_succ_of_lt h.source_lt
    · intro s hs
      cases hs
      exact ⟨h.source_lt, Nat.lt_succ_self _⟩
  | reopen hpoint heq hevents =>
    subst heq
    rw [messagesRead_eq_nil hevents, List.append_nil] at hread
    rw [messagesOffered_eq_nil hevents, List.append_nil] at hoffered
    obtain ⟨hlt, hsockets⟩ := h.incoming _ (by rw [hpoint]; rfl)
    refine ⟨?_, hread ▸ h.sockets, ?_, hsockets, by simp [ReaderPoint.incoming?], by simp⟩
    · have hnone : c.pending = [] := pending_eq_nil hpoint rfl
      rw [hoffered, hread, ← h.offered, hnone]; rfl
    · rw [hread]
      exact fun r hr => Nat.le_of_lt (Nat.lt_of_le_of_lt (h.le_source r hr) hlt)

end Connection

end Uplink.Stream
