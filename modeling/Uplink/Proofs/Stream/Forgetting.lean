import Uplink.Proofs.Stream.Subscription
import Uplink.Stream.Subscription.Overlap

/-! Offers by several tasks at a time. The topics that an offer is going to forget are out of date
as soon as they are noted, so that each is looked at again when it is forgotten. That makes it
harmless: whatever came in between, only a topic whose channel has no receiver at that moment is
given up, and a channel whose receiver lives is lost to no topic but by another subscription or the
end of it. -/

namespace Uplink.Stream.Subscriptions

variable {s : Subscriptions} {capacity : Nat} {topic t : String} {id : ChannelId} {v : Variant}

/-- Whether a topic has a channel, and nobody receives from it any more. -/
def isAbandoned (s : Subscriptions) (topic : String) : Bool :=
  (s.topics.get? topic).any fun id => !s.hasReceiver id

theorem isAbandoned_iff : s.isAbandoned topic = true ↔
    ∃ id, s.topics.get? topic = some id ∧ s.hasReceiver id = false := by
  simp [isAbandoned, Option.any_eq_true]

/-- An offer notes the topics that are abandoned, and no others. -/
theorem mem_gone_offers : topic ∈ gone (s.offers capacity) ↔ s.isAbandoned topic = true := by
  have hoffer (id : ChannelId) : ((s.channels[id]?).map (Channel.offer capacity)).getD .noReceiver =
      .noReceiver ↔ s.hasReceiver id = false := by
    unfold hasReceiver
    cases s.channels[id]? with
    | none => simp
    | some c =>
      simp only [Option.map_some, Option.getD_some, Channel.offer]
      cases c.hasReceiver <;> simp
      split <;> simp
  simp only [gone, offers, List.mem_map, List.mem_filter, beq_iff_eq, isAbandoned_iff,
    KeyMap.get?_eq_some_iff]
  constructor
  · rintro ⟨_, ⟨⟨⟨topic, id⟩, hmem, rfl⟩, hnone⟩, rfl⟩
    exact ⟨id, hmem, (hoffer id).mp hnone⟩
  · rintro ⟨id, hmem, hdead⟩
    exact ⟨_, ⟨⟨(topic, id), hmem, rfl⟩, (hoffer id).mpr hdead⟩, rfl⟩

/-- Of the topics to be forgotten, those are given up that are abandoned when it comes to that. -/
theorem get?_forgetAll_eq (topics : List String) : (s.forgetAll topics).topics.get? t =
    if t ∈ topics ∧ s.isAbandoned t = true then none else s.topics.get? t := by
  unfold forgetAll
  induction topics generalizing s with
  | nil => simp
  | cons topic topics ih =>
    have hreceiver (id : ChannelId) : (s.forget topic).hasReceiver id = s.hasReceiver id := by
      rw [hasReceiver, hasReceiver, channels_forget]
    have hget : (s.forget topic).topics.get? t =
        if t = topic ∧ s.isAbandoned t = true then none else s.topics.get? t := get?_forget
    rw [List.foldl_cons, ih, hget]
    by_cases hhead : t = topic ∧ s.isAbandoned t = true
    · rw [if_pos hhead, ite_self, if_pos ⟨hhead.1 ▸ List.mem_cons_self, hhead.2⟩]
    · rw [if_neg hhead] at hget ⊢
      have hsame : (s.forget topic).isAbandoned t = s.isAbandoned t := by
        simp only [isAbandoned, hreceiver, hget]
      by_cases ht : t = topic
      · have hkept : ¬s.isAbandoned t = true := fun h => hhead ⟨ht, h⟩
        simp [hsame, hkept]
      · simp [hsame, ht]

namespace Shared

variable {s t : Shared} {m : Move} {moves before after : List Move}
  {topics : List String}

/-- No topic yet, and no offer under way. -/
def start : Shared := ⟨.empty, []⟩

/-- The state after some moves, if all of them are possible. -/
def follow? (capacity : Nat) (s : Shared) (moves : List Move) : Option Shared :=
  moves.foldlM (next? capacity) s

theorem follow?_cons_eq_some : s.follow? capacity (m :: moves) = some t ↔
    ∃ s', s.next? capacity m = some s' ∧ s'.follow? capacity moves = some t := by
  simp [follow?, Option.bind_eq_some_iff]

theorem follow?_append : s.follow? capacity (before ++ after) =
    (s.follow? capacity before).bind fun found => found.follow? capacity after :=
  List.foldlM_append

/-! ### Single moves -/

/-- The channels of topics exist, and what a later subscription makes is another one. -/
def Numbered (s : Shared) : Prop :=
  ∀ topic id, s.subscriptions.topics.get? topic = some id → id < s.subscriptions.channels.length

/-- What a move leaves of the channels that there are: all of them, and no receiver comes back. -/
theorem channels_of_next? (h : s.next? capacity m = some t) :
    s.subscriptions.channels.length ≤ t.subscriptions.channels.length ∧
      ∀ id < s.subscriptions.channels.length, t.subscriptions.hasReceiver id = true →
        s.subscriptions.hasReceiver id = true := by
  cases m with
  | offer v =>
    cases h
    refine ⟨by simp [Subscriptions.offer], fun id _ hreceiver => ?_⟩
    rwa [hasReceiver_offer] at hreceiver
  | forget n =>
    obtain ⟨topics, -, rfl⟩ := Option.map_eq_some_iff.mp h
    refine ⟨by simp, fun id _ hreceiver => ?_⟩
    rwa [hasReceiver, channels_forgetAll] at hreceiver
  | subscribe topic =>
    cases h
    refine ⟨by simp [Subscriptions.subscribe], fun id hlt hreceiver => ?_⟩
    simpa [hasReceiver_subscribe, Nat.ne_of_lt hlt] using hreceiver
  | unsubscribe topic =>
    cases h
    exact ⟨Nat.le_refl _, fun _ _ hreceiver => hreceiver⟩
  | receive id =>
    obtain ⟨⟨v, rest⟩, hreceive, rfl⟩ := Option.map_eq_some_iff.mp h
    obtain ⟨-, -, -, hsame, -, hlength⟩ := receive?_spec hreceive
    exact ⟨Nat.le_of_eq hlength.symm, fun i _ hreceiver => hsame i ▸ hreceiver⟩
  | dropReceiver id =>
    cases h
    refine ⟨by simp [Subscriptions.dropReceiver], fun i _ hreceiver => ?_⟩
    rw [hasReceiver_dropReceiver] at hreceiver
    exact (Bool.and_eq_true_iff.mp hreceiver).1

/-- What a move leaves of the channel of a topic: only to subscribe or unsubscribe the topic, or to
forget it once it is abandoned, takes it away. -/
theorem get?_of_next? (h : s.next? capacity m = some t) (topic : String) :
    t.subscriptions.topics.get? topic = s.subscriptions.topics.get? topic ∨
      (m = .subscribe topic ∧
        t.subscriptions.topics.get? topic = some s.subscriptions.channels.length) ∨
      (t.subscriptions.topics.get? topic = none ∧ (m = .unsubscribe topic ∨
        ∃ n topics, m = .forget n ∧ s.unfinished[n]? = some topics ∧ topic ∈ topics ∧
          s.subscriptions.isAbandoned topic = true)) := by
  cases m with
  | offer v => cases h; exact .inl rfl
  | forget n =>
    obtain ⟨topics, htopics, rfl⟩ := Option.map_eq_some_iff.mp h
    rw [get?_forgetAll_eq]
    split
    · next hgone => exact .inr (.inr ⟨rfl, .inr ⟨n, topics, rfl, htopics, hgone⟩⟩)
    · exact .inl rfl
  | subscribe other =>
    cases h
    rw [Subscriptions.subscribe, KeyMap.get?_insert]
    by_cases htopic : topic = other
    · exact .inr (.inl ⟨by rw [htopic], if_pos htopic⟩)
    · exact .inl (if_neg htopic)
  | unsubscribe other =>
    cases h
    rw [Subscriptions.unsubscribe, KeyMap.get?_erase]
    by_cases htopic : topic = other
    · exact .inr (.inr ⟨if_pos htopic, .inl (by rw [htopic])⟩)
    · exact .inl (if_neg htopic)
  | receive id =>
    obtain ⟨⟨v, rest⟩, hreceive, rfl⟩ := Option.map_eq_some_iff.mp h
    exact .inl (congrArg (KeyMap.get? · topic) (receive?_spec hreceive).2.2.1)
  | dropReceiver id => cases h; exact .inl rfl

theorem Numbered.next (hs : s.Numbered) (h : s.next? capacity m = some t) : t.Numbered := by
  intro topic id hid
  have hle := (channels_of_next? h).1
  rcases get?_of_next? h topic with hsame | ⟨rfl, hnew⟩ | ⟨hnone, -⟩
  · exact Nat.lt_of_lt_of_le (hs topic id (hsame ▸ hid)) hle
  · obtain rfl := Option.some.inj (hid.symm.trans hnew)
    cases h
    simp [Subscriptions.subscribe]
  · rw [hnone] at hid
    cases hid

/-- What unfinished offers noted: a move adds only what an offer finds at that moment. -/
theorem mem_unfinished_of_next? (h : s.next? capacity m = some t)
    (htopics : topics ∈ t.unfinished) :
    topics ∈ s.unfinished ∨
      ∃ v, m = .offer v ∧ topics = gone (s.subscriptions.offers capacity) := by
  cases m with
  | offer v =>
    cases h
    simp only at htopics
    split at htopics
    · exact .inl htopics
    · rcases List.mem_append.mp htopics with hold | hnew
      · exact .inl hold
      · exact .inr ⟨v, rfl, List.mem_singleton.mp hnew⟩
  | forget n =>
    obtain ⟨_, -, rfl⟩ := Option.map_eq_some_iff.mp h
    exact .inl (List.mem_of_mem_eraseIdx htopics)
  | receive id =>
    obtain ⟨_, -, rfl⟩ := Option.map_eq_some_iff.mp h
    exact .inl htopics
  | subscribe | unsubscribe | dropReceiver => cases h; exact .inl htopics

/-! ### Runs -/

theorem Numbered.follow (hs : s.Numbered) (h : s.follow? capacity moves = some t) :
    t.Numbered := by
  induction moves generalizing s with
  | nil => cases h; exact hs
  | cons m moves ih =>
    obtain ⟨s', hnext, hrest⟩ := follow?_cons_eq_some.mp h
    exact ih (hs.next hnext) hrest

/-- A receiver that is there after a run was there all along. -/
theorem hasReceiver_of_follow? (hlt : id < s.subscriptions.channels.length)
    (h : s.follow? capacity moves = some t) (hreceiver : t.subscriptions.hasReceiver id = true) :
    s.subscriptions.hasReceiver id = true := by
  induction moves generalizing s with
  | nil => cases h; exact hreceiver
  | cons m moves ih =>
    obtain ⟨s', hnext, hrest⟩ := follow?_cons_eq_some.mp h
    obtain ⟨hle, hback⟩ := channels_of_next? hnext
    exact hback id hlt (ih (Nat.lt_of_lt_of_le hlt hle) hrest)

/-- A run in which the topic is neither subscribed nor unsubscribed keeps its channel, if the
receiver lives to the end of the run. -/
theorem get?_of_follow? (hs : s.Numbered) (h : s.follow? capacity moves = some t)
    (hid : s.subscriptions.topics.get? topic = some id)
    (hreceiver : t.subscriptions.hasReceiver id = true)
    (hmoves : ∀ m ∈ moves, m ≠ .subscribe topic ∧ m ≠ .unsubscribe topic) :
    t.subscriptions.topics.get? topic = some id := by
  induction moves generalizing s with
  | nil => cases h; exact hid
  | cons m moves ih =>
    have hlive := hasReceiver_of_follow? (hs topic id hid) h hreceiver
    obtain ⟨s', hnext, hrest⟩ := follow?_cons_eq_some.mp h
    obtain ⟨⟨hsubscribe, hunsubscribe⟩, hmoves⟩ := List.forall_mem_cons.mp hmoves
    refine ih (hs.next hnext) hrest ?_ hmoves
    rcases get?_of_next? hnext topic with
      hsame | ⟨rfl, -⟩ | ⟨-, rfl | ⟨n, topics, rfl, -, -, hgone⟩⟩
    · exact hsame.trans hid
    · exact absurd rfl hsubscribe
    · exact absurd rfl hunsubscribe
    · obtain ⟨i, hi, hdead⟩ := isAbandoned_iff.mp hgone
      obtain rfl := Option.some.inj (hid.symm.trans hi)
      rw [hlive] at hdead
      cases hdead

/-- What an unfinished offer is going to forget, it noted in some earlier state of the run. -/
theorem exists_offer_of_follow? (h : s.follow? capacity moves = some t)
    (htopics : topics ∈ t.unfinished) : topics ∈ s.unfinished ∨
      ∃ before v after found, moves = before ++ .offer v :: after ∧
        s.follow? capacity before = some found ∧
        topics = gone (found.subscriptions.offers capacity) := by
  induction moves generalizing s with
  | nil => cases h; exact .inl htopics
  | cons m moves ih =>
    obtain ⟨s', hnext, hrest⟩ := follow?_cons_eq_some.mp h
    rcases ih hrest with hfirst | ⟨before, v, after, found, rfl, hbefore, hfound⟩
    · rcases mem_unfinished_of_next? hnext hfirst with hold | ⟨v, rfl, hfound⟩
      · exact .inl hold
      · exact .inr ⟨[], v, moves, s, rfl, rfl, hfound⟩
    · exact .inr ⟨m :: before, v, after, found, rfl,
        follow?_cons_eq_some.mpr ⟨s', hnext, hbefore⟩, hfound⟩

theorem numbered_start : start.Numbered := fun _ _ hid => nomatch hid

/-- In every run, whatever offers, subscriptions and lost receivers come between the two steps of an
offer. The first step is always possible and takes away no topic and no receiver. The second may
follow at any time, leaves all channels as they are, and gives up exactly those topics that the
first step found abandoned, in the state that it came in, and that are abandoned now. A topic keeps
the channel that it had at any earlier time, if the receiver still lives and the topic was not
subscribed or unsubscribed since. -/
theorem forgets_only_abandoned {s : Shared} (h : start.follow? capacity moves = some s) :
    (∀ v, ∃ t, s.next? capacity (.offer v) = some t ∧
      t.subscriptions.topics = s.subscriptions.topics ∧
      ∀ id, t.subscriptions.hasReceiver id = s.subscriptions.hasReceiver id) ∧
    (∀ n topics, s.unfinished[n]? = some topics →
      (∃ before v after found, moves = before ++ .offer v :: after ∧
        start.follow? capacity before = some found ∧
        ∀ topic, topic ∈ topics ↔ found.subscriptions.isAbandoned topic = true) ∧
      ∃ t, s.next? capacity (.forget n) = some t ∧
        t.subscriptions.channels = s.subscriptions.channels ∧
        ∀ topic, t.subscriptions.topics.get? topic =
          if topic ∈ topics ∧ s.subscriptions.isAbandoned topic = true then none
          else s.subscriptions.topics.get? topic) ∧
    ∀ before after past topic id, moves = before ++ after →
      start.follow? capacity before = some past →
      past.subscriptions.topics.get? topic = some id → s.subscriptions.hasReceiver id = true →
      (∀ m ∈ after, m ≠ .subscribe topic ∧ m ≠ .unsubscribe topic) →
      s.subscriptions.topics.get? topic = some id := by
  refine ⟨fun v => ⟨_, rfl, rfl, fun _ => hasReceiver_offer⟩, fun n topics htopics => ⟨?_, ?_⟩, ?_⟩
  · rcases exists_offer_of_follow? h (List.mem_of_getElem? htopics) with hnone | hfound
    · exact absurd hnone List.not_mem_nil
    · obtain ⟨before, v, after, found, hmoves, hbefore, rfl⟩ := hfound
      exact ⟨before, v, after, found, hmoves, hbefore, fun _ => mem_gone_offers⟩
  · refine ⟨_, congrArg (Option.map _) htopics, channels_forgetAll, fun topic => ?_⟩
    exact get?_forgetAll_eq topics
  · rintro before after past topic id rfl hbefore hid hreceiver hafter
    rw [follow?_append, hbefore, Option.bind_some] at h
    exact get?_of_follow? (numbered_start.follow hbefore) h hid hreceiver hafter

/-- Two offers find a topic abandoned; it is subscribed again, and one of them forgets. -/
def resubscribed : List Move :=
  [.subscribe "topic", .dropReceiver 0, .offer .null, .offer .null, .subscribe "topic", .forget 0]

/-- The topic has its new channel, and keeps it when the other one forgets too. -/
theorem forgets_only_abandoned_resubscribed : ∃ s t, start.follow? 1 resubscribed = some s ∧
    s.unfinished[0]? = some ["topic"] ∧ s.subscriptions.hasReceiver 1 = true ∧
    s.subscriptions.topics.get? "topic" = some 1 ∧
    s.next? 1 (.forget 0) = some t ∧ t.subscriptions.topics.get? "topic" = some 1 := by
  have hrun : start.follow? 1 resubscribed = some _ := rfl
  obtain ⟨-, hforget, hkept⟩ := forgets_only_abandoned hrun
  obtain ⟨-, t, hnext, -, hget⟩ := hforget 0 ["topic"] rfl
  have htopic := hkept [.subscribe "topic", .dropReceiver 0, .offer .null, .offer .null,
    .subscribe "topic"] [.forget 0] _ "topic" 1 rfl rfl rfl rfl (by simp)
  refine ⟨_, t, hrun, rfl, rfl, htopic, hnext, ?_⟩
  rw [hget, if_neg (by decide), htopic]

end Shared

end Uplink.Stream.Subscriptions
