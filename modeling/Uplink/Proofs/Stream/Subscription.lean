import Uplink.Stream.Subscription

/-! What each operation on subscriptions does to a topic, to a channel's receiver and to what its
buffer holds. -/

namespace Uplink.Stream

namespace Channel

theorem accept_of_lt {capacity : Nat} {v : Variant} {c : Channel} (hreceiver : c.hasReceiver = true)
    (hroom : c.buffer.length < capacity) :
    c.accept capacity v = ⟨c.buffer ++ [v], true⟩ := by
  simp [accept, offer, hreceiver, Nat.not_le.mpr hroom]

theorem accept_of_le {capacity : Nat} {v : Variant} {c : Channel}
    (hfull : capacity ≤ c.buffer.length) : c.accept capacity v = c := by
  unfold accept offer
  cases c.hasReceiver <;> simp [hfull]

@[simp] theorem hasReceiver_accept (capacity : Nat) (v : Variant) (c : Channel) :
    (c.accept capacity v).hasReceiver = c.hasReceiver := by
  unfold accept
  split <;> rfl

theorem offer_eq_dropped_iff {capacity : Nat} {c : Channel} :
    c.offer capacity = .dropped ↔ c.hasReceiver = true ∧ capacity ≤ c.buffer.length := by
  unfold offer
  cases c.hasReceiver <;> simp

end Channel

namespace Subscriptions

variable {s rest : Subscriptions} {capacity : Nat} {v : Variant} {id i : Nat}
  {topic t : String}

/-- What a channel holds. -/
def buffer (s : Subscriptions) (id : ChannelId) : List Variant :=
  ((s.channels[id]?).map Channel.buffer).getD []

theorem isSubscribed_iff : s.isSubscribed id = true ↔ ∃ topic, s.topics.get? topic = some id := by
  simp [isSubscribed, KeyMap.get?_eq_some_iff]

theorem exists_of_hasReceiver (h : s.hasReceiver id = true) :
    s.channels[id]? = some ⟨s.buffer id, true⟩ := by
  unfold hasReceiver at h
  unfold buffer
  cases hc : s.channels[id]? with
  | none => simp [hc] at h
  | some c =>
    obtain ⟨buffer, receiver⟩ := c
    simp only [hc, Option.map_some, Option.getD_some] at h ⊢
    rw [h]

/-! ### Offers -/

theorem hasReceiver_offer : (s.offer capacity v).hasReceiver id = s.hasReceiver id := by
  simp only [hasReceiver, offer, List.getElem?_mapIdx]
  cases s.channels[id]? with
  | none => rfl
  | some c => simp only [Option.map_some, Option.getD_some]; split <;> simp

theorem buffer_offer_of_room (hsub : s.isSubscribed id = true) (hreceiver : s.hasReceiver id = true)
    (hroom : (s.buffer id).length < capacity) :
    (s.offer capacity v).buffer id = s.buffer id ++ [v] := by
  have hc := exists_of_hasReceiver hreceiver
  rw [buffer, offer, List.getElem?_mapIdx, hc]
  simp only [Option.map_some, Option.getD_some, hsub, if_true]
  rw [Channel.accept_of_lt rfl hroom]

theorem buffer_offer_of_full (hfull : capacity ≤ (s.buffer id).length) :
    (s.offer capacity v).buffer id = s.buffer id := by
  simp only [buffer, offer, List.getElem?_mapIdx] at hfull ⊢
  cases hc : s.channels[id]? with
  | none => rfl
  | some c =>
    simp only [hc, Option.map_some, Option.getD_some] at hfull ⊢
    split
    · rw [Channel.accept_of_le hfull]
    · rfl

theorem buffer_offer_of_not (hsub : s.isSubscribed id = false) :
    (s.offer capacity v).buffer id = s.buffer id := by
  simp only [buffer, offer, List.getElem?_mapIdx, hsub]
  cases s.channels[id]? <;> rfl

/-! ### Topics -/

theorem get?_forget : (s.forget topic).topics.get? t =
    if t = topic ∧ (s.topics.get? t).any (fun id => !s.hasReceiver id) then none
    else s.topics.get? t := by
  unfold forget
  split
  · next id hid =>
    split
    · next hreceiver =>
      rw [if_neg]
      rintro ⟨rfl, hany⟩
      simp [hid, hreceiver] at hany
    · next hreceiver =>
      rw [unsubscribe, KeyMap.get?_erase]
      by_cases ht : t = topic
      · subst ht
        simp [hid, hreceiver]
      · simp [ht]
  · next hnone =>
    rw [if_neg]
    rintro ⟨rfl, hany⟩
    simp [hnone] at hany

@[simp] theorem channels_forget : (s.forget topic).channels = s.channels := by
  unfold forget
  split
  · split <;> rfl
  · rfl

@[simp] theorem channels_forgetAll {topics : List String} :
    (s.forgetAll topics).channels = s.channels := by
  unfold forgetAll
  induction topics generalizing s with
  | nil => rfl
  | cons topic topics ih => rw [List.foldl_cons, ih, channels_forget]

/-- Forgetting gives up no topic whose channel has its receiver, and takes up none. -/
theorem get?_forgetAll {topics : List String} (hreceiver : s.hasReceiver id = true) :
    (s.forgetAll topics).topics.get? t = some id ↔ s.topics.get? t = some id := by
  unfold forgetAll
  induction topics generalizing s with
  | nil => rfl
  | cons topic topics ih =>
    have hsame : (s.forget topic).hasReceiver id = s.hasReceiver id := by
      rw [hasReceiver, hasReceiver, channels_forget]
    rw [List.foldl_cons, ih (hsame ▸ hreceiver), get?_forget]
    split
    · next hgone =>
      obtain ⟨-, hany⟩ := hgone
      simp only [reduceCtorEq, false_iff]
      intro hid
      simp [hid, hreceiver] at hany
    · rfl

theorem get?_of_forgetAll {topics : List String}
    (h : (s.forgetAll topics).topics.get? t = some id) : s.topics.get? t = some id := by
  unfold forgetAll at h
  induction topics generalizing s with
  | nil => exact h
  | cons topic topics ih =>
    have hforget := ih h
    rw [get?_forget] at hforget
    split at hforget
    · cases hforget
    · exact hforget

/-! ### Channels -/

theorem hasReceiver_subscribe : (s.subscribe topic).1.hasReceiver id =
    (s.hasReceiver id || id == s.channels.length) := by
  simp only [hasReceiver, subscribe, List.getElem?_append]
  rcases Nat.lt_trichotomy id s.channels.length with hlt | heq | hgt
  · simp [hlt, Nat.ne_of_lt hlt]
  · simp [heq, Channel.new]
  · have hne : id - s.channels.length ≠ 0 := by omega
    simp [Nat.not_lt.mpr (Nat.le_of_lt hgt), Nat.ne_of_gt hgt, hne]

theorem buffer_subscribe : (s.subscribe topic).1.buffer id = s.buffer id := by
  simp only [buffer, subscribe, List.getElem?_append]
  split
  · rfl
  · next hge =>
    rw [List.getElem?_eq_none (Nat.not_lt.mp hge)]
    cases id - s.channels.length <;> rfl

theorem lt_length_of_hasReceiver (h : s.hasReceiver id = true) : id < s.channels.length :=
  (List.getElem?_eq_some_iff.mp (exists_of_hasReceiver h)).1

/-- A message can be taken from a channel that has a receiver, and is its oldest. -/
theorem receive?_spec (h : s.receive? id = some (v, rest)) :
    s.hasReceiver id = true ∧ s.buffer id = v :: rest.buffer id ∧ rest.topics = s.topics ∧
      (∀ i, rest.hasReceiver i = s.hasReceiver i) ∧ (∀ i, i ≠ id → rest.buffer i = s.buffer i) ∧
      rest.channels.length = s.channels.length := by
  unfold receive? at h
  split at h
  · next u tail hc =>
    cases h
    have hlt := (List.getElem?_eq_some_iff.mp hc).1
    refine ⟨by simp [hasReceiver, hc], ?_, rfl, fun i => ?_, fun i hi => ?_, List.length_set⟩
    · simp [buffer, hc, List.getElem?_set_self hlt]
    · by_cases hi : i = id
      · subst hi
        simp [hasReceiver, hc, List.getElem?_set_self hlt]
      · simp [hasReceiver, List.getElem?_set_ne (Ne.symm hi)]
    · simp [buffer, List.getElem?_set_ne (Ne.symm hi)]
  · cases h

theorem hasReceiver_dropReceiver :
    (s.dropReceiver id).hasReceiver i = (s.hasReceiver i && i != id) := by
  simp only [hasReceiver, dropReceiver, List.getElem?_modify]
  by_cases hi : id = i
  · subst hi
    cases s.channels[id]? <;> simp [Channel.close]
  · cases s.channels[i]? <;> simp [hi, Ne.symm hi]

theorem buffer_dropReceiver (hi : i ≠ id) : (s.dropReceiver id).buffer i = s.buffer i := by
  simp only [buffer, dropReceiver, List.getElem?_modify, if_neg (Ne.symm hi)]
  cases s.channels[i]? <;> rfl

end Subscriptions

end Uplink.Stream
