import Uplink.Proofs.Registry.Turn

/-! Calls on a registry as if they were made one after another. Each call acts in one turn, the last
that it gets; in the order of these turns, calls find and leave what they would on a plain map. -/

namespace Uplink.Stream.Registry

/-- Whether a dial of a call has succeeded. -/
def hasOpened (history : List Event) (n : Nat) : Bool :=
  history.any fun
    | .dialEnded m _ succeeded => m == n && succeeded
    | _ => false

/-- How many dials a call has begun. -/
def dialCount (history : List Event) (n : Nat) : Nat := history.countP (Event.startsDialOf n)

/-- A run of a registry, with the turns in which calls have acted. -/
inductive Turned (schedule : Schedule) (epoch : Int) :
    Registry → List Event → List ActingTurn → Prop where
  | start : Turned schedule epoch (empty epoch) [] []
  | move {r r' : Registry} {history events : List Event} {turns : List ActingTurn} {m : Move} :
      Turned schedule epoch r history turns → r.admits schedule m = true →
      r.next? m = some (r', events) →
      Turned schedule epoch r' (history ++ events)
        (turns ++ (r.actingTurn? history.length m).toList)

variable {schedule : Schedule} {epoch : Int} {r r' : Registry} {history events : List Event}
  {turns : List ActingTurn} {turn : Option ActingTurn} {n m : Nat} {p q : Point}

theorem Run.turned (h : Run schedule epoch r history) :
    ∃ turns, Turned schedule epoch r history turns := by
  induction h with
  | refl => exact ⟨[], .start⟩
  | move _ hadmits hnext ih =>
    obtain ⟨turns, hturned⟩ := ih
    exact ⟨_, hturned.move hadmits hnext⟩

theorem Turned.reaches (h : Turned schedule epoch r history turns) :
    Run schedule epoch r history := by
  induction h with
  | start => exact .refl
  | move _ hadmits hnext ih => exact ih.move hadmits hnext

/-- The registry after some moves that its schedule admits, with its history. -/
def follow? (schedule : Schedule) (r : Registry) (history : List Event) :
    List Move → Option (Registry × List Event)
  | [] => some (r, history)
  | m :: rest =>
    if r.admits schedule m then
      (r.next? m).bind fun (r, events) => r.follow? schedule (history ++ events) rest
    else none

theorem Reaches.of_follow? {d : Registry} {past history' : List Event} (moves : List Move)
    (hreaches : Reaches schedule d past r history)
    (h : r.follow? schedule history moves = some (r', history')) :
    Reaches schedule d past r' history' := by
  induction moves generalizing r history with
  | nil => cases h; exact hreaches
  | cons m rest ih =>
    simp only [follow?] at h
    split at h
    · obtain ⟨⟨r₁, events⟩, hnext, hrest⟩ := Option.bind_eq_some_iff.mp h
      exact ih (hreaches.move ‹_› hnext) hrest
    · cases h

/-! ### What is noted of calls -/

theorem mem_filter_isOfCall {e : Event} (h : e.isOfCall = true) :
    e ∈ events ↔ e ∈ events.filter Event.isOfCall := by simp [h]

theorem dialCount_append : dialCount (history ++ events) n =
    dialCount history n + dialCount events n := List.countP_append

theorem dialCount_filter : dialCount (events.filter Event.isOfCall) n = dialCount events n := by
  rw [dialCount, dialCount, List.countP_filter]
  refine List.countP_congr fun e _ => ?_
  cases e <;> simp [Event.startsDialOf, Event.isOfCall]

theorem hasOpened_append : hasOpened (history ++ events) n =
    (hasOpened history n || hasOpened events n) := List.any_append

theorem hasOpened_filter : hasOpened (events.filter Event.isOfCall) n = hasOpened events n := by
  rw [hasOpened, hasOpened, List.any_filter]
  congr 1
  funext e
  cases e <;> rfl

theorem dialCount_notes : dialCount (p.notes n) m = if m = n then p.starts else 0 := by
  cases p with
  | dialing address settings since =>
    by_cases hm : m = n
    · simp [dialCount, Point.notes, Event.startsDialOf, Point.starts, hm]
    · simp [dialCount, Point.notes, Event.startsDialOf, hm, Ne.symm hm]
  | _ => simp [dialCount, Point.notes, Event.startsDialOf, Point.starts]

theorem hasOpened_notes : hasOpened (p.notes n) m = false := by cases p <;> rfl

theorem turned_not_mem_notes : Event.turned m ∉ p.notes n := by cases p <;> simp [Point.notes]

/-- Where no dial succeeds, the same dials have succeeded as before. -/
theorem hasOpened_append_eq (h : ∀ n, hasOpened events n = false) :
    hasOpened (history ++ events) = hasOpened history := by
  funext n
  rw [hasOpened_append, h, Bool.or_false]

theorem Acts.filter_turned {call : Call} (h : Acts r r' n q call events) :
    (Event.turned n :: events).filter Event.isOfCall = .turned n :: q.notes n := by
  rw [List.filter_cons_of_pos rfl, h.notes]

/-- No dial succeeds in the turn in which a call acts. -/
theorem Acts.hasOpened_eq {call : Call} (h : Acts r r' n q call events) (m : Nat) :
    hasOpened (.turned n :: events) m = false := by
  rw [← hasOpened_filter, h.filter_turned]
  exact hasOpened_notes

theorem Proceeds.hasOpened_eq (h : Proceeds r r' n p q events) (m : Nat) :
    hasOpened events m = false := by
  obtain ⟨ended, hevents, hended⟩ := h.notes
  rw [← hasOpened_filter, hevents, hasOpened_append, hasOpened_notes, Bool.or_false]
  rcases hended with rfl | ⟨address, rfl⟩
  · rfl
  · simp [hasOpened]

theorem returned_mem_notes {answer : Answer} :
    Event.returned m answer ∈ p.notes n ↔ m = n ∧ p = .returned answer := by
  cases p <;> simp [Point.notes]
  exact fun _ => eq_comm

/-- A turn that stands in a list with a new one at its end stands before it or is the new one. -/
theorem split_snoc {before after : List ActingTurn} {t u : ActingTurn}
    (h : turns ++ [u] = before ++ t :: after) :
    (∃ rest, after = rest ++ [u] ∧ turns = before ++ t :: rest) ∨
      after = [] ∧ t = u ∧ before = turns := by
  rcases List.eq_nil_or_concat after with rfl | ⟨rest, v, rfl⟩
  · obtain ⟨hbefore, ht⟩ := List.append_inj' h rfl
    exact .inr ⟨rfl, (List.cons.inj ht).1.symm, hbefore.symm⟩
  · rw [List.concat_eq_append] at h ⊢
    rw [← List.cons_append, ← List.append_assoc] at h
    obtain ⟨hturns, hv⟩ := List.append_inj' h rfl
    exact .inl ⟨rest, by rw [(List.cons.inj hv).1], hturns⟩

/-! ### Callers and their turns -/

/-- The turns so far are those of the calls that have acted, and the call that keeps its turn was
the last to get it. -/
structure Kept (r : Registry) (turns : List ActingTurn) : Prop where
  nodup : (turns.map ActingTurn.caller).Nodup
  acted : ∀ n, n ∈ turns.map ActingTurn.caller ↔ ∃ p, r.point? n = some p ∧ p.hasActed = true
  call_eq : ∀ t ∈ turns, ∀ p c, r.point? t.caller = some p → p.call? = some c → c = t.call
  keeper : ∀ n, r.turn.holder = some n ↔ ∃ p, r.point? n = some p ∧ p.keepsTurn = true
  last : ∀ n, r.turn.holder = some n → ∃ before t, turns = before ++ [t] ∧ t.caller = n

theorem Kept.start : Kept (empty epoch) [] where
  nodup := List.nodup_nil
  acted := by
    intro n
    constructor
    · intro h; cases h
    · rintro ⟨p, hp, -⟩; cases hp
  call_eq := by intro t ht; cases ht
  keeper := by
    intro n
    constructor
    · intro h; cases h
    · rintro ⟨p, hp, -⟩; cases hp
  last := by intro n h; cases h

namespace Kept

variable (h : Kept r turns)
include h

theorem holder_eq (hpoint : r.point? n = some p) (hkeeps : p.keepsTurn = true) :
    r.turn.holder = some n := (h.keeper n).mpr ⟨p, hpoint, hkeeps⟩

theorem not_keeps (hholder : r.turn.holder = none) (hpoint : r.point? n = some p) :
    p.keepsTurn = false := by
  rw [← Bool.not_eq_true]
  intro hkeeps
  rw [h.holder_eq hpoint hkeeps] at hholder
  cases hholder

theorem not_mem_of_not_acted (hpoint : r.point? n = some p) (hacted : p.hasActed = false) :
    n ∉ turns.map ActingTurn.caller := by
  intro hmem
  obtain ⟨q, hq, hqacted⟩ := (h.acted n).mp hmem
  rw [hpoint] at hq
  cases hq
  rw [hacted] at hqacted
  cases hqacted

/-- Once a call has left a point where it kept the turn, nobody keeps the turn. -/
theorem holder_leave (hpoint : r.point? n = some p) (hkeeps : p.keepsTurn = true) :
    (r.turn.leave n).holder = none := by
  rw [Turn.leave, h.holder_eq hpoint hkeeps, if_pos rfl]

/-- A call goes on from one point to another, both before it acts or both after. -/
theorem comes (hcomes : Comes r r' n p q) (hacted : q.hasActed = p.hasActed)
    (hcall : ∀ c, q.call? = some c → p.call? = some c)
    (hholder : q.keepsTurn = p.keepsTurn ∧ r'.turn.holder = r.turn.holder ∨
      p.keepsTurn = true ∧ q.keepsTurn = false ∧ r'.turn.holder = none) : Kept r' turns := by
  refine ⟨h.nodup, fun m => ?_, fun t ht x c hx hc => ?_, fun m => ?_, fun m hm => ?_⟩
  · rw [h.acted, hcomes.point?]
    split
    · next hmn =>
      subst hmn
      rw [hcomes.source]
      simp [hacted]
    · rfl
  · rw [hcomes.point?] at hx
    split at hx
    · next hmn =>
      cases hx
      exact h.call_eq t ht p c (hmn ▸ hcomes.source) (hcall c hc)
    · exact h.call_eq t ht x c hx hc
  · rw [hcomes.point?]
    rcases hholder with ⟨hkeeps, hholder⟩ | ⟨hp, hq, hholder⟩
    · rw [hholder, h.keeper]
      split
      · next hmn =>
        subst hmn
        rw [hcomes.source]
        simp [hkeeps]
      · rfl
    · rw [hholder]
      constructor
      · intro hnone; cases hnone
      · rintro ⟨x, hx, hkeeps⟩
        split at hx
        · cases hx; rw [hq] at hkeeps; cases hkeeps
        · next hmn =>
          have hm := h.holder_eq hx hkeeps
          rw [h.holder_eq hcomes.source hp] at hm
          exact absurd (Option.some.inj hm).symm hmn
  · rcases hholder with ⟨-, hholder⟩ | ⟨-, -, hholder⟩
    · exact h.last m (hholder ▸ hm)
    · rw [hholder] at hm; cases hm

theorem act {call : Call} {place : Nat} {live : ConnectionId → Bool} (hcomes : Comes r r' n p q)
    (hp : p.hasActed = false) (hq : q.hasActed = true) (hcall : ∀ c, q.call? = some c → c = call)
    (hfree : r.turn.holder = none)
    (hholder : r'.turn.holder = if q.keepsTurn then some n else none) :
    Kept r' (turns ++ [⟨place, n, call, live⟩]) := by
  have hnew := h.not_mem_of_not_acted hcomes.source hp
  have hmap : (turns ++ [(⟨place, n, call, live⟩ : ActingTurn)]).map ActingTurn.caller =
      turns.map ActingTurn.caller ++ [n] := List.map_append
  refine ⟨?_, fun m => ?_, fun t ht x c hx hc => ?_, fun m => ?_, fun m hm => ?_⟩
  · rw [hmap, List.nodup_append]
    refine ⟨h.nodup, List.pairwise_singleton _ n, ?_⟩
    intro a ha b hb
    rw [List.mem_singleton.mp hb]
    rintro rfl
    exact hnew ha
  · rw [hmap, List.mem_append, List.mem_singleton, h.acted, hcomes.point?]
    by_cases hmn : m = n
    · simp [hmn, hq]
    · simp [hmn]
  · rw [hcomes.point?] at hx
    rcases List.mem_append.mp ht with ht | ht
    · have hne : t.caller ≠ n := fun heq => hnew (heq ▸ List.mem_map_of_mem ht)
      rw [if_neg hne] at hx
      exact h.call_eq t ht x c hx hc
    · rw [List.mem_singleton.mp ht] at hx ⊢
      rw [if_pos rfl] at hx
      cases hx
      exact hcall c hc
  · rw [hcomes.point?, hholder]
    by_cases hmn : m = n
    · subst hmn
      simp
    · rw [if_neg hmn]
      constructor
      · intro hm
        split at hm
        · exact absurd (Option.some.inj hm).symm hmn
        · cases hm
      · rintro ⟨x, hx, hkeeps⟩
        rw [h.not_keeps hfree hx] at hkeeps
        cases hkeeps
  · refine ⟨turns, _, rfl, ?_⟩
    rw [hholder] at hm
    split at hm
    · exact Option.some.inj hm
    · cases hm

theorem step {place : Nat} (hstep : TurnStep r r' place turn events) :
    Kept r' (turns ++ turn.toList) := by
  cases hstep with
  | idle hpoint _ _ hholder _ =>
    rw [Option.toList_none, List.append_nil]
    refine ⟨h.nodup, ?_, ?_, ?_, fun m hm => h.last m (hholder ▸ hm)⟩
    · intro m; rw [hpoint]; exact h.acted m
    · intro t ht x c hx; rw [hpoint] at hx; exact h.call_eq t ht x c hx
    · intro m; rw [hpoint, hholder]; exact h.keeper m
  | @call n call hnone hpoint _ hholder =>
    rw [Option.toList_none, List.append_nil]
    refine ⟨h.nodup, fun m => ?_, fun t ht x c hx => ?_, fun m => ?_,
      fun m hm => h.last m (hholder ▸ hm)⟩
    · rw [h.acted, hpoint]
      by_cases hmn : m = n
      · simp [hmn, hnone, Point.hasActed]
      · simp [hmn]
    · rw [hpoint] at hx
      have hne : t.caller ≠ n := by
        intro heq
        obtain ⟨y, hy, -⟩ := (h.acted n).mp (heq ▸ List.mem_map_of_mem ht)
        rw [hnone] at hy
        cases hy
      rw [if_neg hne] at hx
      exact h.call_eq t ht x c hx
    · rw [hholder, h.keeper, hpoint]
      by_cases hmn : m = n
      · simp [hmn, hnone, Point.keepsTurn]
      · simp [hmn]
  | miss hcomes _ hfree hholder =>
    rw [Option.toList_none, List.append_nil]
    exact h.comes hcomes rfl (fun _ hc => hc) (.inl ⟨rfl, hholder.trans hfree.symm⟩)
  | act hcomes _ hp hfree hholder hacts =>
    exact h.act hcomes hp hacts.hasActed hacts.call_eq hfree hholder
  | proceed hcomes hproceeds =>
    rw [Option.toList_none, List.append_nil]
    refine h.comes hcomes (hproceeds.hasActed'.trans hproceeds.hasActed.symm) hproceeds.call_eq ?_
    rcases hproceeds.turn with ⟨hkeeps, hturn⟩ | ⟨hkeeps, hleaves, hturn⟩
    · exact .inl ⟨hkeeps, by rw [hturn]⟩
    · exact .inr ⟨hkeeps, hleaves, by rw [hturn, h.holder_leave hcomes.source hkeeps]⟩
  | opened hcomes _ hturn =>
    rw [Option.toList_none, List.append_nil]
    refine h.comes hcomes rfl (by simp [Point.call?]) (.inr ⟨rfl, rfl, ?_⟩)
    rw [hturn, h.holder_leave hcomes.source rfl]

end Kept

theorem Turned.kept (h : Turned schedule epoch r history turns) : Kept r turns := by
  induction h with
  | start => exact .start
  | move _ _ hnext ih => exact ih.step (.of_next? hnext)

/-! ### Notes and turns -/

/-- What is noted of the turns in which calls have acted, and of dials and answers. -/
structure Noted (r : Registry) (history : List Event) (turns : List ActingTurn) : Prop where
  called : ∀ n p c, r.point? n = some p → p.call? = some c → .called n c ∈ history
  called_turn : ∀ t ∈ turns, .called t.caller t.call ∈ history
  turned : ∀ t ∈ turns, history[t.place]? = some (.turned t.caller)
  last : ∀ t ∈ turns, ∀ i, t.place < i → history[i]? ≠ some (.turned t.caller)
  ordered : turns.Pairwise fun t u => t.place < u.place
  returned : ∀ n answer, .returned n answer ∈ history ↔ r.point? n = some (.returned answer)
  undialed : ∀ n, (∀ p, r.point? n = some p → p.hasActed = false) → dialCount history n = 0
  unopened : ∀ n, (∀ p, r.point? n = some p → p.hasActed = false ∨ p.keepsTurn = true) →
    hasOpened history n = false

theorem Noted.start : Noted (empty epoch) [] [] where
  called := by intro n p c hp; cases hp
  called_turn := by intro t ht; cases ht
  turned := by intro t ht; cases ht
  last := by intro t ht; cases ht
  ordered := List.Pairwise.nil
  returned := by
    intro n answer
    constructor <;> intro h <;> cases h
  undialed := fun _ _ => rfl
  unopened := fun _ _ => rfl

/-- Notes that tell of no turn of a call that has acted leave the places of turns as they are. -/
theorem Noted.turned_append (h : Noted r history turns)
    (hturned : ∀ t ∈ turns, Event.turned t.caller ∉ events) :
    (∀ t ∈ turns, (history ++ events)[t.place]? = some (.turned t.caller)) ∧
      ∀ t ∈ turns, ∀ i, t.place < i → (history ++ events)[i]? ≠ some (.turned t.caller) := by
  constructor
  · intro t ht
    have hplace := h.turned t ht
    rw [List.getElem?_append_left (List.getElem?_eq_some_iff.mp hplace).1, hplace]
  · intro t ht i hi hsome
    rw [List.getElem?_append] at hsome
    split at hsome
    · exact h.last t ht i hi hsome
    · exact hturned t ht (List.mem_of_getElem? hsome)

theorem Noted.place_lt (h : Noted r history turns) {t : ActingTurn} (ht : t ∈ turns) :
    t.place < history.length := (List.getElem?_eq_some_iff.mp (h.turned t ht)).1

/-- A step that gives no call the turn in which it acts. -/
theorem Noted.same (h : Noted r history turns) {noted : List Event}
    (hevents : events.filter Event.isOfCall = noted)
    (hcalled : ∀ n p c, r'.point? n = some p → p.call? = some c →
      .called n c ∈ noted ∨ ∃ q, r.point? n = some q ∧ q.call? = some c)
    (hturned : ∀ t ∈ turns, Event.turned t.caller ∉ noted)
    (hreturned : ∀ n answer, .returned n answer ∈ noted ∨ r.point? n = some (.returned answer) ↔
      r'.point? n = some (.returned answer))
    (hundialed : ∀ n, (∀ p, r'.point? n = some p → p.hasActed = false) →
      (∀ p, r.point? n = some p → p.hasActed = false) ∧ dialCount noted n = 0)
    (hunopened : ∀ n, (∀ p, r'.point? n = some p → p.hasActed = false ∨ p.keepsTurn = true) →
      (∀ p, r.point? n = some p → p.hasActed = false ∨ p.keepsTurn = true) ∧
        hasOpened noted n = false) : Noted r' (history ++ events) turns := by
  have hmem : ∀ e : Event, e.isOfCall = true → (e ∈ history ++ events ↔ e ∈ history ∨ e ∈ noted) :=
    fun e he => by rw [List.mem_append, ← hevents, ← mem_filter_isOfCall he]
  have hquiet : ∀ t ∈ turns, Event.turned t.caller ∉ events := fun t ht hnow =>
    hturned t ht (hevents ▸ (mem_filter_isOfCall rfl).mp hnow)
  obtain ⟨hplace, hlast⟩ := h.turned_append hquiet
  refine ⟨fun n p c hp hc => ?_, fun t ht => ?_, hplace, hlast, h.ordered, fun n answer => ?_,
    fun n hn => ?_, fun n hn => ?_⟩
  · rw [hmem _ rfl]
    rcases hcalled n p c hp hc with hnow | ⟨q, hq, hqc⟩
    · exact .inr hnow
    · exact .inl (h.called n q c hq hqc)
  · rw [hmem _ rfl]
    exact .inl (h.called_turn t ht)
  · rw [hmem _ rfl, h.returned, ← hreturned]
    exact Or.comm
  · obtain ⟨hbefore, hnow⟩ := hundialed n hn
    rw [dialCount_append, h.undialed n hbefore, ← dialCount_filter, hevents, hnow]
  · obtain ⟨hbefore, hnow⟩ := hunopened n hn
    rw [hasOpened_append, h.unopened n hbefore, ← hasOpened_filter, hevents, hnow]
    rfl

theorem Point.starts_of_not_acted (h : p.hasActed = false) : p.starts = 0 := by
  cases p <;> first | rfl | cases h

/-- A step of a call. -/
theorem Noted.comes (h : Noted r history turns) (hcomes : Comes r r' n p q) (head : List Event)
    (hevents : events.filter Event.isOfCall = head ++ q.notes n)
    (hhead : ∀ e ∈ head, e = .turned n ∨ ∃ address succeeded, e = .dialEnded n address succeeded)
    (hturned : .turned n ∈ head → n ∉ turns.map ActingTurn.caller)
    (hopened : hasOpened head n = true → q.hasActed = true ∧ q.keepsTurn = false)
    (hp : ∀ answer, p ≠ .returned answer) (hcall : ∀ c, q.call? = some c → p.call? = some c)
    (hacted : q.hasActed = false → p.hasActed = false)
    (hkeeps : q.keepsTurn = true → p.hasActed = false ∨ p.keepsTurn = true) :
    Noted r' (history ++ events) turns := by
  have hnotEnded : ∀ e : Event, (∀ a b, e ≠ .dialEnded n a b) → e ≠ .turned n → e ∉ head := by
    intro e hended hturn hmem
    rcases hhead e hmem with heq | ⟨a, b, heq⟩
    · exact hturn heq
    · exact hended a b heq
  refine h.same hevents ?_ ?_ ?_ ?_ ?_
  · intro m x c hx hc
    rw [hcomes.point?] at hx
    split at hx
    · next hmn =>
      cases hx
      exact .inr ⟨p, hmn ▸ hcomes.source, hcall c hc⟩
    · exact .inr ⟨x, hx, hc⟩
  · intro t ht hmem
    rcases List.mem_append.mp hmem with hmem | hmem
    · have hcaller : t.caller = n := by
        rcases hhead _ hmem with heq | ⟨a, b, heq⟩ <;> cases heq
        rfl
      exact hturned (hcaller ▸ hmem) (hcaller ▸ List.mem_map_of_mem ht)
    · exact turned_not_mem_notes hmem
  · intro m answer
    have hnot : Event.returned m answer ∉ head := hnotEnded _ (by simp) (by simp)
    rw [List.mem_append, or_iff_right hnot, returned_mem_notes, hcomes.point?]
    by_cases hmn : m = n
    · subst hmn
      rw [hcomes.source]
      simp [hp]
    · simp [hmn]
  · intro m hm
    have hhere : dialCount head m = 0 := by
      rw [dialCount, List.countP_eq_zero]
      intro e he
      rcases hhead e he with rfl | ⟨a, b, rfl⟩ <;> exact Bool.false_ne_true
    rw [dialCount_append, hhere, dialCount_notes, Nat.zero_add]
    by_cases hmn : m = n
    · subst hmn
      have hq : q.hasActed = false := hm q (by rw [hcomes.point?, if_pos rfl])
      refine ⟨fun x hx => ?_, by rw [if_pos rfl, Point.starts_of_not_acted hq]⟩
      rw [hcomes.source] at hx
      cases hx
      exact hacted hq
    · refine ⟨fun x hx => hm x ?_, if_neg hmn⟩
      rw [hcomes.point?, if_neg hmn, hx]
  · intro m hm
    rw [hasOpened_append, hasOpened_notes, Bool.or_false]
    by_cases hmn : m = n
    · subst hmn
      have hq : q.hasActed = false ∨ q.keepsTurn = true := hm q (by rw [hcomes.point?, if_pos rfl])
      refine ⟨fun x hx => ?_, ?_⟩
      · rw [hcomes.source] at hx
        cases hx
        rcases hq with hq | hq
        · exact .inl (hacted hq)
        · exact hkeeps hq
      · rw [← Bool.not_eq_true]
        intro hopen
        obtain ⟨hqacted, hqkeeps⟩ := hopened hopen
        rcases hq with hq | hq
        · rw [hqacted] at hq; cases hq
        · rw [hqkeeps] at hq; cases hq
    · refine ⟨fun x hx => hm x (by rw [hcomes.point?, if_neg hmn, hx]), ?_⟩
      rw [hasOpened, List.any_eq_false]
      intro e he
      rcases hhead e he with rfl | ⟨a, b, rfl⟩ <;> simp [Ne.symm hmn]

/-- The turn in which a call acts comes after all others. -/
theorem Noted.snoc {call : Call} {live : ConnectionId → Bool} (h : Noted r history turns)
    (h' : Noted r' (history ++ .turned n :: events) turns) (hcalled : .called n call ∈ history)
    (hevents : events.filter Event.isOfCall = p.notes n) :
    Noted r' (history ++ .turned n :: events)
      (turns ++ [⟨history.length, n, call, live⟩]) := by
  refine ⟨h'.called, fun t ht => ?_, fun t ht => ?_, fun t ht => ?_, ?_, h'.returned, h'.undialed,
    h'.unopened⟩
  · rcases List.mem_append.mp ht with ht | ht
    · exact h'.called_turn t ht
    · rw [List.mem_singleton.mp ht]
      exact List.mem_append_left _ hcalled
  · rcases List.mem_append.mp ht with ht | ht
    · exact h'.turned t ht
    · rw [List.mem_singleton.mp ht]
      simp
  · rcases List.mem_append.mp ht with ht | ht
    · exact h'.last t ht
    · rw [List.mem_singleton.mp ht]
      intro i hi hsome
      rw [List.getElem?_append_right (Nat.le_of_lt hi), List.getElem?_cons] at hsome
      have hpos : i - history.length ≠ 0 := Nat.sub_ne_zero_of_lt hi
      rw [if_neg hpos] at hsome
      have hmem := (mem_filter_isOfCall rfl).mp (List.mem_of_getElem? hsome)
      rw [hevents] at hmem
      exact turned_not_mem_notes hmem
  · rw [List.pairwise_append]
    refine ⟨h'.ordered, List.pairwise_singleton _ _, fun t ht u hu => ?_⟩
    rw [List.mem_singleton.mp hu]
    exact h.place_lt ht

theorem Noted.call {call : Call} (h : Noted r history turns) (hnone : r.point? n = none)
    (hpoint : ∀ m, r'.point? m = if m = n then some (.looking call) else r.point? m) :
    Noted r' (history ++ [.called n call]) turns := by
  have hbefore : ∀ {P : Point → Prop} {m}, (∀ p, r'.point? m = some p → P p) →
      ∀ p, r.point? m = some p → P p := by
    intro P m hm p hp
    by_cases hmn : m = n
    · rw [hmn, hnone] at hp; cases hp
    · exact hm p (by rw [hpoint, if_neg hmn, hp])
  refine h.same rfl (fun m p c hp hc => ?_) (by simp) (fun m answer => ?_)
    (fun m hm => ⟨hbefore hm, rfl⟩) (fun m hm => ⟨hbefore hm, rfl⟩)
  · rw [hpoint] at hp
    split at hp
    · next hmn =>
      cases hp
      cases hc
      exact .inl (hmn ▸ List.mem_singleton_self _)
    · exact .inr ⟨p, hp, hc⟩
  · rw [hpoint]
    by_cases hmn : m = n
    · simp [hmn, hnone, Event.isOfCall]
    · simp [hmn, Event.isOfCall]

/-- A call that has acted goes on. -/
theorem Noted.proceed (h : Noted r history turns) (hcomes : Comes r r' n p q)
    (hproceeds : Proceeds r r' n p q events) : Noted r' (history ++ events) turns := by
  obtain ⟨ended, hevents, hended⟩ := hproceeds.notes
  refine h.comes hcomes ended hevents ?_ ?_ ?_ hproceeds.unanswered hproceeds.call_eq ?_ ?_
  · intro e he
    rcases hended with rfl | ⟨address, rfl⟩
    · cases he
    · exact .inr ⟨address, false, List.mem_singleton.mp he⟩
  · intro hmem
    rcases hended with rfl | ⟨address, rfl⟩
    · cases hmem
    · cases List.mem_singleton.mp hmem
  · intro hopen
    rcases hended with rfl | ⟨address, rfl⟩
    · cases hopen
    · simp [hasOpened] at hopen
  · intro hacted
    rw [hproceeds.hasActed'] at hacted
    cases hacted
  · intro hkeeps
    rcases hproceeds.turn with ⟨hsame, -⟩ | ⟨hkept, -, -⟩
    · exact .inr (hsame ▸ hkeeps)
    · exact .inr hkept

theorem Noted.step (h : Noted r history turns) (hkept : Kept r turns)
    (hstep : TurnStep r r' history.length turn events) :
    Noted r' (history ++ events) (turns ++ turn.toList) := by
  cases hstep with
  | idle hpoint _ _ _ hevents =>
    rw [Option.toList_none, List.append_nil]
    refine h.same hevents (fun n p c hp hc => .inr ⟨p, hpoint n ▸ hp, hc⟩) (by simp) ?_ ?_ ?_
    · intro n answer
      rw [hpoint]
      simp
    · exact fun n hn => ⟨fun p hp => hn p ((hpoint n).trans hp), rfl⟩
    · exact fun n hn => ⟨fun p hp => hn p ((hpoint n).trans hp), rfl⟩
  | call hnone hpoint =>
    rw [Option.toList_none, List.append_nil]
    exact h.call hnone hpoint
  | @miss n address settings hcomes _ _ _ =>
    rw [Option.toList_none, List.append_nil]
    have hnew := hkept.not_mem_of_not_acted hcomes.source rfl
    exact h.comes hcomes [.turned n] rfl (by simp) (fun _ => hnew)
      (fun hopen => by cases hopen) (by simp) (fun _ hc => hc) (fun _ => rfl)
      (fun hkeeps => by cases hkeeps)
  | @act n p q call events hcomes hcall hp _ _ hacts =>
    have hnew := hkept.not_mem_of_not_acted hcomes.source hp
    have hnotReturned : ∀ answer, p ≠ .returned answer := by
      rintro answer rfl
      cases hp
    refine h.snoc (h.comes hcomes [.turned n] hacts.filter_turned (by simp) (fun _ => hnew)
      (fun hopen => by cases hopen) hnotReturned ?_ (fun _ => hp) (fun _ => .inl hp))
      (h.called n p call hcomes.source hcall) hacts.notes
    intro c hc
    rw [hacts.call_eq c hc]
    exact hcall
  | proceed hcomes hproceeds =>
    rw [Option.toList_none, List.append_nil]
    exact h.proceed hcomes hproceeds
  | @opened n address settings since hcomes _ _ =>
    rw [Option.toList_none, List.append_nil]
    exact h.comes hcomes [.dialEnded n address true] rfl
      (fun e he => .inr ⟨address, true, List.mem_singleton.mp he⟩) (by simp) (fun _ => ⟨rfl, rfl⟩)
      (by simp) (by simp [Point.call?]) (fun hacted => by cases hacted)
      (fun hkeeps => by cases hkeeps)

theorem Turned.noted (h : Turned schedule epoch r history turns) : Noted r history turns := by
  induction h with
  | start => exact .start
  | move hbefore _ hnext ih => exact ih.step hbefore.kept (.of_next? hnext)

/-! ### One after another -/

/-- What the calls have found and left is what they would, one after another, in the order of the
turns in which they acted. -/
structure Linear (r : Registry) (history : List Event) (turns : List ActingTurn) : Prop where
  plain : r.plain = Plain.empty.follow (hasOpened history) turns
  acts : ∀ before t after, turns = before ++ t :: after → ∃ p, r.point? t.caller = some p ∧
    p.Shows ((Plain.empty.follow (hasOpened history) before).target t.live
      (hasOpened history t.caller) t.call) ∧
    dialCount history t.caller =
      (if (Plain.empty.follow (hasOpened history) before).dials t.live t.call then
        t.call.dialsBegun p else 0) ∧
    (hasOpened history t.caller = true →
      (Plain.empty.follow (hasOpened history) before).dials t.live t.call = true)

theorem Linear.start : Linear (empty epoch) [] [] where
  plain := rfl
  acts := by
    intro before t after h
    cases before <;> cases h

/-- A call that has not found a target does dial. -/
theorem Plain.dials_of_target {s : Plain} {live : ConnectionId → Bool} {opens : Bool} {call : Call}
    (h : s.target live opens call = .undialed) : s.dials live call = true := by
  cases call with
  | connect address settings =>
    rw [target] at h
    split at h
    · cases h
    · next hnone => rw [dials_connect, hnone]; rfl
  | get address | close address | subscribe address topic | send address message =>
    rw [target] at h
    split at h <;> cases h
  | closeAll => cases h

/-- A step in which no dial succeeds, and after which every call that had acted shows what it
showed. -/
theorem Linear.same (h : Linear r history turns) (hopened : ∀ n, hasOpened events n = false)
    (hplain : r'.plain = r.plain)
    (hcalls : ∀ t ∈ turns, ∀ p, r.point? t.caller = some p → ∃ q, r'.point? t.caller = some q ∧
      ∀ target, p.Shows target → q.Shows target ∧
        (dialCount events t.caller ≠ 0 → target = .undialed) ∧
        t.call.dialsBegun q = t.call.dialsBegun p + dialCount events t.caller) :
    Linear r' (history ++ events) turns := by
  have hsame : hasOpened (history ++ events) = hasOpened history := hasOpened_append_eq hopened
  refine ⟨by rw [hplain, hsame, h.plain], fun before t after heq => ?_⟩
  obtain ⟨p, hp, hshows, hcount, hdials⟩ := h.acts before t after heq
  have hmem : t ∈ turns := heq ▸ List.mem_append_right _ List.mem_cons_self
  obtain ⟨q, hq, hkeep⟩ := hcalls t hmem p hp
  obtain ⟨hshows', hundialed, hbegun⟩ := hkeep _ hshows
  rw [hsame]
  refine ⟨q, hq, hshows', ?_, hdials⟩
  rw [dialCount_append, hcount]
  split
  · rw [hbegun]
  · next hnot =>
    have hzero : dialCount events t.caller = 0 := by
      rw [← Decidable.not_not (p := _ = 0)]
      exact fun hne => hnot (Plain.dials_of_target (hundialed hne))
    rw [hzero]

/-- A step in which a call acts. -/
theorem Linear.act (h : Linear r history turns) (hkept : Kept r turns)
    (hnoted : Noted r history turns) {call : Call} (hcomes : Comes r r' n p q)
    (hp : p.hasActed = false) (hacts : Acts r r' n q call events) :
    Linear r' (history ++ .turned n :: events)
      (turns ++ [⟨history.length, n, call, r.isLive⟩]) := by
  have hnew := hkept.not_mem_of_not_acted hcomes.source hp
  have hcount : ∀ m, dialCount (.turned n :: events) m = if m = n then q.starts else 0 := by
    intro m
    rw [← dialCount_filter, hacts.filter_turned, ← dialCount_notes]
    exact List.countP_cons_of_neg Bool.false_ne_true
  have hclosed : hasOpened history n = false := by
    refine hnoted.unopened n fun x hx => ?_
    rw [hcomes.source] at hx
    cases hx
    exact .inl hp
  have hsame : hasOpened (history ++ .turned n :: events) = hasOpened history :=
    hasOpened_append_eq hacts.hasOpened_eq
  constructor
  · rw [Plain.follow_snoc, hsame, ← h.plain, hclosed, hacts.plain]
  · intro before t after heq
    rw [hsame]
    rcases split_snoc heq with ⟨rest, rfl, hturns⟩ | ⟨rfl, rfl, rfl⟩
    · obtain ⟨x, hx, hshows, hdialed, hdials⟩ := h.acts before t rest hturns
      have hne : t.caller ≠ n := by
        rintro rfl
        exact hnew (List.mem_map_of_mem (hturns ▸ List.mem_append_right _ List.mem_cons_self))
      refine ⟨x, by rw [hcomes.point?, if_neg hne, hx], hshows, ?_, hdials⟩
      rw [dialCount_append, hcount, if_neg hne, Nat.add_zero, hdialed]
    · refine ⟨q, by rw [hcomes.point?, if_pos rfl], ?_, ?_, ?_⟩
      · rw [hclosed, ← h.plain]
        exact hacts.shows
      · have hzero : dialCount history n = 0 := by
          refine hnoted.undialed n fun x hx => ?_
          rw [hcomes.source] at hx
          cases hx
          exact hp
        rw [dialCount_append, hcount, if_pos rfl, hzero, Nat.zero_add, ← h.plain]
        exact hacts.starts
      · rw [hclosed]
        intro hopen
        cases hopen

/-- A step in which the dial of a call succeeds: its stream is tracked as if the call had acted only
now. -/
theorem Linear.opened (h : Linear r history turns) (hkept : Kept r turns)
    (hnoted : Noted r history turns) {address : String} {settings : StreamSettings}
    {since : Instant} (hcomes : Comes r r' n (.dialing address settings since)
      (.returned (.connected r.connections.length)))
    (hplain : r'.plain =
      ⟨r.tracked.insert address r.connections.length, r.connections.length + 1⟩) :
    Linear r' (history ++ [.dialEnded n address true, .tracked address r.connections.length,
      .returned n (.connected r.connections.length)]) turns := by
  obtain ⟨first, u, rfl, rfl⟩ := hkept.last n (hkept.holder_eq hcomes.source rfl)
  have hnodup := hkept.nodup
  rw [List.map_append, List.nodup_append] at hnodup
  have hothers : ∀ t ∈ first, t.caller ≠ u.caller := fun t ht =>
    hnodup.2.2 _ (List.mem_map_of_mem ht) _ (List.mem_singleton_self _)
  obtain ⟨settings', hcall⟩ : ∃ settings', u.call = .connect address settings' :=
    ⟨settings, (hkept.call_eq u (by simp) _ _ hcomes.source rfl).symm⟩
  have hopen : ∀ m, hasOpened (history ++ [.dialEnded u.caller address true,
      .tracked address r.connections.length,
      .returned u.caller (.connected r.connections.length)]) m =
        (hasOpened history m || u.caller == m) := by
    intro m
    rw [hasOpened_append]
    simp [hasOpened]
  have hself := (hopen u.caller).trans (by simp : _ = true)
  have hfollow : ∀ before, (∀ t ∈ before, t.caller ≠ u.caller) → Plain.empty.follow (hasOpened
      (history ++ [.dialEnded u.caller address true, .tracked address r.connections.length,
        .returned u.caller (.connected r.connections.length)])) before =
          Plain.empty.follow (hasOpened history) before := by
    intro before hbefore
    refine Plain.follow_congr fun t ht => ?_
    simp [hopen, Ne.symm (hbefore t ht)]
  have hnotYet : hasOpened history u.caller = false := by
    refine hnoted.unopened u.caller fun x hx => ?_
    rw [hcomes.source] at hx
    cases hx
    exact .inr rfl
  obtain ⟨x, hx, hshows, hcount, -⟩ := h.acts first u [] rfl
  rw [hcomes.source] at hx
  cases hx
  -- The call dials, so that before its turn nothing live was tracked for its address.
  have hdials := Plain.dials_of_target hshows
  have hnone := hdials
  rw [hcall, Plain.dials_connect, Option.isNone_iff_eq_none] at hnone
  have hbefore := h.plain
  rw [Plain.follow_snoc, hcall, Plain.perform, hnone, hnotYet] at hbefore
  have htracked :
      r.tracked = (Plain.empty.follow (hasOpened history) first).tracked.erase address :=
    congrArg Plain.tracked hbefore
  have hlength : r.connections.length = (Plain.empty.follow (hasOpened history) first).opened :=
    congrArg Plain.opened hbefore
  constructor
  · rw [hplain, Plain.follow_snoc, hfollow first hothers, hself, hcall, Plain.perform, hnone,
      htracked, hlength, KeyMap.insert_erase_self]
    rfl
  · intro before t after heq
    rcases split_snoc heq with ⟨rest, rfl, hturns⟩ | ⟨rfl, rfl, rfl⟩
    · obtain ⟨y, hy, hyshows, hycount, hydials⟩ := h.acts before t (rest ++ [u]) heq
      have ht : t ∈ first := hturns ▸ List.mem_append_right _ List.mem_cons_self
      have hsub : ∀ v ∈ before, v.caller ≠ u.caller := fun v hv =>
        hothers v (hturns ▸ List.mem_append_left _ hv)
      have hstill : hasOpened (history ++ [.dialEnded u.caller address true,
          .tracked address r.connections.length,
          .returned u.caller (.connected r.connections.length)]) t.caller =
            hasOpened history t.caller := by
        simp [hopen, Ne.symm (hothers t ht)]
      rw [hfollow before hsub, hstill]
      refine ⟨y, by rw [hcomes.point?, if_neg (hothers t ht), hy], hyshows, ?_, hydials⟩
      rw [dialCount_append, hycount]
      rfl
    · rw [hfollow before hothers, hself]
      refine ⟨_, by rw [hcomes.point?, if_pos rfl], ?_, ?_, fun _ => hdials⟩
      · rw [hcall, Plain.target, hnone, if_pos rfl, ← hlength]
        rfl
      · rw [dialCount_append, hcount]
        rfl

/-- A call that has acted goes on, and shows what it showed. -/
theorem Linear.proceed (h : Linear r history turns) (hkept : Kept r turns)
    (hcomes : Comes r r' n p q) (hproceeds : Proceeds r r' n p q events) :
    Linear r' (history ++ events) turns := by
  have hcount : ∀ m, dialCount events m = if m = n then q.starts else 0 := by
    intro m
    obtain ⟨ended, hevents, hended⟩ := hproceeds.notes
    rw [← dialCount_filter, hevents, dialCount_append, dialCount_notes]
    rcases hended with rfl | ⟨address, rfl⟩ <;> exact Nat.zero_add _
  refine h.same hproceeds.hasOpened_eq hproceeds.plain fun t ht x hx => ?_
  by_cases hcaller : t.caller = n
  · have hcall := hkept.call_eq t ht x
    rw [hcaller, hcomes.source] at hx
    cases hx
    refine ⟨q, by rw [hcaller, hcomes.point?, if_pos rfl], fun target htarget => ?_⟩
    refine ⟨hproceeds.shows target htarget, ?_, ?_⟩
    · rw [hcount, if_pos hcaller]
      intro hstarts
      have hqshows := hproceeds.shows target htarget
      cases q with
      | dialing => exact hqshows
      | _ => exact absurd rfl hstarts
    · rw [hcount, if_pos hcaller, Nat.add_comm]
      exact (hproceeds.starts t.call fun c hc => hcall c (hcaller ▸ hcomes.source) hc).symm
  · refine ⟨x, by rw [hcomes.point?, if_neg hcaller, hx], fun _ htarget => ⟨htarget, ?_, ?_⟩⟩
    · rw [hcount, if_neg hcaller]
      exact fun hne => absurd rfl hne
    · rw [hcount, if_neg hcaller, Nat.add_zero]

theorem Linear.step (h : Linear r history turns) (hkept : Kept r turns)
    (hnoted : Noted r history turns) (hstep : TurnStep r r' history.length turn events) :
    Linear r' (history ++ events) (turns ++ turn.toList) := by
  cases hstep with
  | idle hpoint htracked hlength _ hevents =>
    rw [Option.toList_none, List.append_nil]
    have hcount : ∀ m, dialCount events m = 0 := fun m => by
      rw [← dialCount_filter, hevents]; rfl
    refine h.same (fun m => by rw [← hasOpened_filter, hevents]; rfl) ?_ fun t _ p hp => ?_
    · rw [Registry.plain, htracked, hlength]
      rfl
    · exact ⟨p, by rw [hpoint, hp], fun _ hshows => ⟨hshows, fun hne => absurd (hcount _) hne,
        by rw [hcount, Nat.add_zero]⟩⟩
  | @call n call hnone hpoint hplain _ =>
    rw [Option.toList_none, List.append_nil]
    refine h.same (fun _ => rfl) hplain fun t _ p hp => ?_
    have hne : t.caller ≠ n := by
      rintro rfl
      rw [hnone] at hp
      cases hp
    exact ⟨p, by rw [hpoint, if_neg hne, hp], fun _ hshows => ⟨hshows, fun hne => absurd rfl hne,
      rfl⟩⟩
  | @miss n address settings hcomes hplain _ _ =>
    rw [Option.toList_none, List.append_nil]
    have hnew := hkept.not_mem_of_not_acted hcomes.source rfl
    refine h.same (fun _ => rfl) hplain fun t ht p hp => ?_
    have hne : t.caller ≠ n := fun heq => hnew (heq ▸ List.mem_map_of_mem ht)
    exact ⟨p, by rw [hcomes.point?, if_neg hne, hp], fun _ hshows =>
      ⟨hshows, fun hne => absurd rfl hne, rfl⟩⟩
  | act hcomes _ hp _ _ hacts => exact h.act hkept hnoted hcomes hp hacts
  | proceed hcomes hproceeds =>
    rw [Option.toList_none, List.append_nil]
    exact h.proceed hkept hcomes hproceeds
  | opened hcomes hplain _ =>
    rw [Option.toList_none, List.append_nil]
    exact h.opened hkept hnoted hcomes hplain

theorem Turned.linear (h : Turned schedule epoch r history turns) : Linear r history turns := by
  induction h with
  | start => exact .start
  | move hbefore _ hnext ih => exact ih.step hbefore.kept hbefore.noted (.of_next? hnext)

end Uplink.Stream.Registry
