import Uplink.Text.Utf8

/-! UTF-8 text reads back, and nothing else does. What a character is encoded to starts no other
character, so that a text's bytes have its characters for pieces and no gap; and bytes without a gap
are what the characters they are read as are encoded to. -/

namespace Uplink.Text.Utf8

variable {b c d e : UInt8} {rest : List UInt8}

theorem isTail_iff : isTail b = true ↔ 0x80 ≤ b.toNat ∧ b.toNat ≤ 0xbf := by
  simp [isTail, UInt8.le_iff_toNat_le]

theorem leading_two (hb : 0xc2 ≤ b.toNat ∧ b.toNat < 0xe0) : leading b = (1, 0x80, 0xbf) := by
  have hnot : ¬b < 0xc2 := by rw [UInt8.lt_iff_toNat_lt]; exact Nat.not_lt.mpr hb.1
  have hlt : b < 0xe0 := UInt8.lt_iff_toNat_lt.mpr hb.2
  simp [leading, hnot, hlt]

/-- The range of what may follow a leading byte of three. -/
theorem leading_three (hb : 0xe0 ≤ b.toNat ∧ b.toNat < 0xf0) : leading b =
    (2, if b.toNat = 0xe0 then 0xa0 else 0x80, if b.toNat = 0xed then 0x9f else 0xbf) := by
  have hnot : ¬b < 0xc2 ∧ ¬b < 0xe0 := by
    simp only [UInt8.lt_iff_toNat_lt, UInt8.reduceToNat]
    omega
  have hlt : b < 0xf0 := UInt8.lt_iff_toNat_lt.mpr hb.2
  by_cases h0 : b.toNat = 0xe0
  · obtain rfl : b = 0xe0 := UInt8.toNat_inj.mp h0
    rfl
  · by_cases hd : b.toNat = 0xed
    · obtain rfl : b = 0xed := UInt8.toNat_inj.mp hd
      rfl
    · have hne : b ≠ 0xe0 ∧ b ≠ 0xed := by simpa [← UInt8.toNat_inj] using ⟨h0, hd⟩
      simp [leading, hnot, hlt, hne, h0, hd]

/-- The range of what may follow a leading byte of four. -/
theorem leading_four (hb : 0xf0 ≤ b.toNat ∧ b.toNat < 0xf5) : leading b =
    (3, if b.toNat = 0xf0 then 0x90 else 0x80, if b.toNat = 0xf4 then 0x8f else 0xbf) := by
  have hnot : ¬b < 0xc2 ∧ ¬b < 0xe0 ∧ ¬b < 0xf0 := by
    simp only [UInt8.lt_iff_toNat_lt, UInt8.reduceToNat]
    omega
  have hne : b ≠ 0xe0 ∧ b ≠ 0xed := by
    simp only [ne_eq, ← UInt8.toNat_inj, UInt8.reduceToNat]
    omega
  by_cases h0 : b.toNat = 0xf0
  · obtain rfl : b = 0xf0 := UInt8.toNat_inj.mp h0
    rfl
  · by_cases h4 : b.toNat = 0xf4
    · obtain rfl : b = 0xf4 := UInt8.toNat_inj.mp h4
      rfl
    · have hne' : b ≠ 0xf0 := by simpa [← UInt8.toNat_inj] using h0
      have hlt : b < 0xf4 := by
        simp only [UInt8.lt_iff_toNat_lt, UInt8.reduceToNat]
        omega
      simp [leading, hnot, hne, hne', hlt, h0, h4]

theorem next_one (hb : b.toNat < 0x80) : next b rest = (some (scalar b.toNat), rest) := by
  simp [next, UInt8.lt_iff_toNat_lt, hb]

theorem next_two (hb : 0xc2 ≤ b.toNat ∧ b.toNat < 0xe0) (hc : isTail c = true) :
    next b (c :: rest) = (some (scalar (b.toNat % 32 * 64 + c.toNat % 64)), rest) := by
  have hnot : ¬b < 0x80 := by
    simp only [UInt8.lt_iff_toNat_lt, UInt8.reduceToNat]
    omega
  have hrange : 0x80 ≤ c ∧ c ≤ 0xbf := by simpa [isTail] using hc
  simp [next, hnot, leading_two hb, hrange, continued]

theorem next_three (hb : 0xe0 ≤ b.toNat ∧ b.toNat < 0xf0) (hc : isTail c = true)
    (hd : isTail d = true) (hlow : b.toNat = 0xe0 → 0xa0 ≤ c.toNat)
    (hhigh : b.toNat = 0xed → c.toNat ≤ 0x9f) : next b (c :: d :: rest) =
      (some (scalar ((b.toNat % 16 * 64 + c.toNat % 64) * 64 + d.toNat % 64)), rest) := by
  have hnot : ¬b < 0x80 := by
    simp only [UInt8.lt_iff_toNat_lt, UInt8.reduceToNat]
    omega
  have htail := isTail_iff.mp hc
  have hrange : (if b.toNat = 0xe0 then 0xa0 else 0x80 : UInt8) ≤ c ∧
      c ≤ (if b.toNat = 0xed then 0x9f else 0xbf : UInt8) := by
    constructor <;> rw [UInt8.le_iff_toNat_le] <;> split
    · exact hlow ‹_›
    · exact htail.1
    · exact hhigh ‹_›
    · exact htail.2
  simp only [next, if_neg hnot, leading_three hb, if_pos hrange, continued, if_pos hd]
  rfl

theorem next_four (hb : 0xf0 ≤ b.toNat ∧ b.toNat < 0xf5) (hc : isTail c = true)
    (hd : isTail d = true) (he : isTail e = true) (hlow : b.toNat = 0xf0 → 0x90 ≤ c.toNat)
    (hhigh : b.toNat = 0xf4 → c.toNat ≤ 0x8f) : next b (c :: d :: e :: rest) =
      (some (scalar (((b.toNat % 8 * 64 + c.toNat % 64) * 64 + d.toNat % 64) * 64 +
        e.toNat % 64)), rest) := by
  have hnot : ¬b < 0x80 := by
    simp only [UInt8.lt_iff_toNat_lt, UInt8.reduceToNat]
    omega
  have htail := isTail_iff.mp hc
  have hrange : (if b.toNat = 0xf0 then 0x90 else 0x80 : UInt8) ≤ c ∧
      c ≤ (if b.toNat = 0xf4 then 0x8f else 0xbf : UInt8) := by
    constructor <;> rw [UInt8.le_iff_toNat_le] <;> split
    · exact hlow ‹_›
    · exact htail.1
    · exact hhigh ‹_›
    · exact htail.2
  simp only [next, if_neg hnot, leading_four hb, if_pos hrange, continued, if_pos hd, if_pos he]
  rfl

/-- The bytes of a character are one piece of any text that starts with them. -/
theorem pieces_encodeChar (char : Char) (rest : List UInt8) :
    pieces (String.utf8EncodeChar char ++ rest) = some char :: pieces rest := by
  have hvalid : char.toNat < 0xd800 ∨ 0xdfff < char.toNat ∧ char.toNat < 0x110000 := char.valid
  have hself : ∀ n, n = char.toNat → scalar n = char := fun n hn => by
    rw [scalar, hn, Char.ofNat_toNat]
  have hval : char.val.toNat = char.toNat := rfl
  have htail : ∀ n, isTail (UInt8.ofNat (n % 64 + 0x80)) = true := fun n => by
    rw [isTail_iff, UInt8.toNat_ofNat']
    omega
  unfold String.utf8EncodeChar
  simp only [hval]
  split
  · next h1 =>
    have hb : (UInt8.ofNat char.toNat).toNat = char.toNat := by
      rw [UInt8.toNat_ofNat']
      omega
    rw [List.singleton_append, pieces, next_one (by omega), hself _ hb]
  · next h1 =>
    split
    · next h2 =>
      have hb : (UInt8.ofNat (char.toNat / 64 % 0x20 + 0xc0)).toNat = char.toNat / 64 + 0xc0 := by
        rw [UInt8.toNat_ofNat']
        omega
      rw [List.cons_append, List.singleton_append, pieces, next_two (by omega) (htail _), hself]
      rw [hb, UInt8.toNat_ofNat']
      omega
    · next h2 =>
      split
      · next h3 =>
        have hb : (UInt8.ofNat (char.toNat / 4096 % 0x10 + 0xe0)).toNat =
            char.toNat / 4096 + 0xe0 := by
          rw [UInt8.toNat_ofNat']
          omega
        have hc : (UInt8.ofNat (char.toNat / 64 % 0x40 + 0x80)).toNat =
            char.toNat / 64 % 64 + 0x80 := by
          rw [UInt8.toNat_ofNat']
          omega
        simp only [List.cons_append, List.nil_append]
        rw [pieces, next_three (by omega) (htail _) (htail _) (by omega) (by omega), hself]
        rw [hb, hc, UInt8.toNat_ofNat']
        omega
      · next h3 =>
        have hb : (UInt8.ofNat (char.toNat / 262144 % 0x08 + 0xf0)).toNat =
            char.toNat / 262144 + 0xf0 := by
          rw [UInt8.toNat_ofNat']
          omega
        have hc : (UInt8.ofNat (char.toNat / 4096 % 0x40 + 0x80)).toNat =
            char.toNat / 4096 % 64 + 0x80 := by
          rw [UInt8.toNat_ofNat']
          omega
        have hd : (UInt8.ofNat (char.toNat / 64 % 0x40 + 0x80)).toNat =
            char.toNat / 64 % 64 + 0x80 := by
          rw [UInt8.toNat_ofNat']
          omega
        simp only [List.cons_append, List.nil_append]
        rw [pieces, next_four (by omega) (htail _) (htail _) (htail _) (by omega) (by omega), hself]
        rw [hb, hc, hd, UInt8.toNat_ofNat']
        omega

theorem pieces_encode (cs : List Char) : pieces (encode cs) = cs.map some := by
  induction cs with
  | nil => rw [encode, List.flatMap_nil, pieces]; rfl
  | cons c cs ih =>
    rw [encode, List.flatMap_cons, pieces_encodeChar, List.map_cons]
    exact congrArg _ ih

/-- The bytes of a text are well formed, and read back as the text. -/
theorem decode?_encode (cs : List Char) : decode? (encode cs) = some cs := by
  rw [decode?, pieces_encode]
  induction cs with
  | nil => rfl
  | cons c cs ih => simp [ih]

/-- A lossy reading of a text loses nothing. -/
theorem lossy_encode (cs : List Char) : lossy (encode cs) = cs := by
  rw [lossy, pieces_encode, List.map_map]
  exact List.map_id cs

/-! ### What is read -/

section Sequences

variable {char : Char} {bs : List UInt8} {n more : Nat}

theorem toNat_ofNat_of_scalar (h : n < 0xd800 ∨ 0xdfff < n ∧ n < 0x110000) :
    (Char.ofNat n).toNat = n := by
  rw [Char.ofNat, dif_pos (show n.isValidChar from h)]
  rfl

theorem leading_none (hb : b.toNat < 0xc2 ∨ 0xf5 ≤ b.toNat) : leading b = (0, 0, 0) := by
  rcases hb with hb | hb
  · have hlt : b < 0xc2 := UInt8.lt_iff_toNat_lt.mpr hb
    simp [leading, hlt]
  · have hnot : ¬b < 0xc2 ∧ ¬b < 0xe0 ∧ ¬b < 0xf0 ∧ ¬b < 0xf4 := by
      simp only [UInt8.lt_iff_toNat_lt, UInt8.reduceToNat]
      omega
    have hne : b ≠ 0xe0 ∧ b ≠ 0xed ∧ b ≠ 0xf0 ∧ b ≠ 0xf4 := by
      simp only [ne_eq, ← UInt8.toNat_inj, UInt8.reduceToNat]
      omega
    simp [leading, hnot, hne]

/-- Behind a leading byte there is a byte of the range that goes with it. -/
theorem exists_first {first : Nat} {low high : UInt8} (hb : 0x80 ≤ b.toNat)
    (hleading : leading b = (first, low, high)) (h : next b bs = (some char, rest)) :
    ∃ more c bs', first = more + 1 ∧ bs = c :: bs' ∧ low ≤ c ∧ c ≤ high ∧
      continued (b.toNat % (1 <<< (5 - more)) * 64 + c.toNat % 64) more bs' =
        (some char, rest) := by
  have hnot : ¬b < 0x80 := by
    simp only [UInt8.lt_iff_toNat_lt, UInt8.reduceToNat]
    omega
  unfold next at h
  rw [if_neg hnot, hleading] at h
  split at h
  · next more low' high' c bs' heq =>
    obtain ⟨rfl, rfl, rfl⟩ : first = more + 1 ∧ low = low' ∧ high = high' := by simpa using heq
    split at h
    · next hrange => exact ⟨more, c, bs', rfl, rfl, hrange.1, hrange.2, h⟩
    · cases h
  · cases h

/-- As long as more bytes are due, a continuation byte comes next. -/
theorem exists_tail (h : continued n (more + 1) bs = (some char, rest)) :
    ∃ c bs', bs = c :: bs' ∧ isTail c = true ∧
      continued (n * 64 + c.toNat % 64) more bs' = (some char, rest) := by
  cases bs with
  | nil => cases h
  | cons c bs' =>
    rw [continued] at h
    split at h
    · next hc => exact ⟨c, bs', rfl, hc, h⟩
    · cases h

/-- The first continuation byte may have a narrower range than the others. -/
theorem isTail_of_range {p q : Prop} [Decidable p] [Decidable q] {low high : UInt8}
    (hlow : 0x80 ≤ low.toNat) (hhigh : high.toNat ≤ 0xbf) (hle : (if p then low else 0x80) ≤ c)
    (hge : c ≤ if q then high else 0xbf) :
    isTail c = true ∧ (p → low.toNat ≤ c.toNat) ∧ (q → c.toNat ≤ high.toNat) := by
  have hlower : 0x80 ≤ c.toNat ∧ (p → low.toNat ≤ c.toNat) := by
    split at hle <;> rw [UInt8.le_iff_toNat_le] at hle
    · exact ⟨Nat.le_trans hlow hle, fun _ => hle⟩
    · next hp => exact ⟨hle, fun h => absurd h hp⟩
  have hupper : c.toNat ≤ 0xbf ∧ (q → c.toNat ≤ high.toNat) := by
    split at hge <;> rw [UInt8.le_iff_toNat_le] at hge
    · exact ⟨Nat.le_trans hge hhigh, fun _ => hge⟩
    · next hq => exact ⟨hge, fun h => absurd h hq⟩
  exact ⟨isTail_iff.mpr ⟨hlower.1, hupper.1⟩, hlower.2, hupper.2⟩

theorem toUInt8_eq {n : Nat} (h : n = b.toNat) : UInt8.ofNat n = b := by
  rw [h, UInt8.ofNat_toNat]

theorem encodeChar_two (hb : 0xc2 ≤ b.toNat ∧ b.toNat < 0xe0) (hc : isTail c = true) :
    String.utf8EncodeChar (scalar (b.toNat % 32 * 64 + c.toNat % 64)) = [b, c] := by
  rw [isTail_iff] at hc
  have hval : (scalar (b.toNat % 32 * 64 + c.toNat % 64)).val.toNat =
    b.toNat % 32 * 64 + c.toNat % 64 := toNat_ofNat_of_scalar (by omega)
  simp only [String.utf8EncodeChar, hval]
  rw [if_neg (by omega), if_pos (by omega), toUInt8_eq (b := b) (by omega),
    toUInt8_eq (b := c) (by omega)]

theorem encodeChar_three (hb : 0xe0 ≤ b.toNat ∧ b.toNat < 0xf0) (hc : isTail c = true)
    (hd : isTail d = true) (hlow : b.toNat = 0xe0 → 0xa0 ≤ c.toNat)
    (hhigh : b.toNat = 0xed → c.toNat ≤ 0x9f) : String.utf8EncodeChar
      (scalar ((b.toNat % 16 * 64 + c.toNat % 64) * 64 + d.toNat % 64)) = [b, c, d] := by
  rw [isTail_iff] at hc hd
  have hval : (scalar ((b.toNat % 16 * 64 + c.toNat % 64) * 64 + d.toNat % 64)).val.toNat =
    (b.toNat % 16 * 64 + c.toNat % 64) * 64 + d.toNat % 64 := toNat_ofNat_of_scalar (by omega)
  simp only [String.utf8EncodeChar, hval]
  rw [if_neg (by omega), if_neg (by omega), if_pos (by omega), toUInt8_eq (b := b) (by omega),
    toUInt8_eq (b := c) (by omega), toUInt8_eq (b := d) (by omega)]

theorem encodeChar_four (hb : 0xf0 ≤ b.toNat ∧ b.toNat < 0xf5) (hc : isTail c = true)
    (hd : isTail d = true) (he : isTail e = true) (hlow : b.toNat = 0xf0 → 0x90 ≤ c.toNat)
    (hhigh : b.toNat = 0xf4 → c.toNat ≤ 0x8f) : String.utf8EncodeChar
      (scalar (((b.toNat % 8 * 64 + c.toNat % 64) * 64 + d.toNat % 64) * 64 + e.toNat % 64)) =
        [b, c, d, e] := by
  rw [isTail_iff] at hc hd he
  have hval : (scalar (((b.toNat % 8 * 64 + c.toNat % 64) * 64 + d.toNat % 64) * 64 +
      e.toNat % 64)).val.toNat =
    ((b.toNat % 8 * 64 + c.toNat % 64) * 64 + d.toNat % 64) * 64 + e.toNat % 64 :=
      toNat_ofNat_of_scalar (by omega)
  simp only [String.utf8EncodeChar, hval]
  rw [if_neg (by omega), if_neg (by omega), if_neg (by omega), toUInt8_eq (b := b) (by omega),
    toUInt8_eq (b := c) (by omega), toUInt8_eq (b := d) (by omega), toUInt8_eq (b := e) (by omega)]

/-- The bytes that are read as a character are those it is encoded to. -/
theorem eq_of_next (h : next b bs = (some char, rest)) :
    b :: bs = String.utf8EncodeChar char ++ rest := by
  rcases Nat.lt_or_ge b.toNat 0x80 with hone | hge
  · rw [next_one hone] at h
    obtain ⟨rfl, rfl⟩ : scalar b.toNat = char ∧ bs = rest := by simpa using h
    have hval : (scalar b.toNat).val.toNat = b.toNat := toNat_ofNat_of_scalar (by omega)
    simp only [String.utf8EncodeChar, hval]
    rw [if_pos (by omega), toUInt8_eq rfl, List.singleton_append]
  have hcases : (b.toNat < 0xc2 ∨ 0xf5 ≤ b.toNat) ∨ (0xc2 ≤ b.toNat ∧ b.toNat < 0xe0) ∨
    (0xe0 ≤ b.toNat ∧ b.toNat < 0xf0) ∨ (0xf0 ≤ b.toNat ∧ b.toNat < 0xf5) := by omega
  rcases hcases with hb | hb | hb | hb
  · obtain ⟨more, _, _, hmore, -⟩ := exists_first hge (leading_none hb) h
    cases hmore
  · obtain ⟨more, c, bs, hmore, rfl, hlow, hhigh, h⟩ := exists_first hge (leading_two hb) h
    obtain rfl : 0 = more := Nat.succ.inj hmore
    have hc : isTail c = true := by simp [isTail, hlow, hhigh]
    obtain ⟨rfl, rfl⟩ := by simpa [continued] using h
    exact congrArg (· ++ _) (encodeChar_two hb hc).symm
  · obtain ⟨more, c, bs, hmore, rfl, hlow, hhigh, h⟩ := exists_first hge (leading_three hb) h
    obtain rfl : 1 = more := Nat.succ.inj hmore
    obtain ⟨d, bs, rfl, hd, h⟩ := exists_tail h
    obtain ⟨rfl, rfl⟩ := by simpa [continued] using h
    obtain ⟨hc, hlow, hhigh⟩ := isTail_of_range (by decide) (by decide) hlow hhigh
    exact congrArg (· ++ _) (encodeChar_three hb hc hd hlow hhigh).symm
  · obtain ⟨more, c, bs, hmore, rfl, hlow, hhigh, h⟩ := exists_first hge (leading_four hb) h
    obtain rfl : 2 = more := Nat.succ.inj hmore
    obtain ⟨d, bs, rfl, hd, h⟩ := exists_tail h
    obtain ⟨e, bs, rfl, he, h⟩ := exists_tail h
    obtain ⟨rfl, rfl⟩ := by simpa [continued] using h
    obtain ⟨hc, hlow, hhigh⟩ := isTail_of_range (by decide) (by decide) hlow hhigh
    exact congrArg (· ++ _) (encodeChar_four hb hc hd he hlow hhigh).symm

/-- Well-formed bytes are those of the text they are read as. -/
theorem eq_encode_of_decode? {cs : List Char} (h : decode? bs = some cs) : bs = encode cs := by
  rw [decode?] at h
  induction bs using pieces.induct generalizing cs with
  | case1 =>
    rw [pieces] at h
    obtain rfl := Option.some.inj h
    rfl
  | case2 b bs ih =>
    rw [pieces, List.mapM_cons] at h
    simp only [id, bind, Option.bind_eq_some_iff, pure, Option.some.injEq] at h
    obtain ⟨char, hchar, chars, hchars, rfl⟩ := h
    rw [encode, List.flatMap_cons, ← encode, ← ih hchars]
    exact eq_of_next (Prod.ext hchar rfl)

theorem decode?_eq_some_iff {cs : List Char} : decode? bs = some cs ↔ bs = encode cs :=
  ⟨eq_encode_of_decode?, fun h => h ▸ decode?_encode cs⟩

end Sequences

end Uplink.Text.Utf8
