import Uplink.Proofs.Json.Documents
import Uplink.Proofs.Json.NumberAccuracy
import Uplink.Proofs.Variant.RoundTrip

/-! What `decode` makes of any bytes. Those that are a JSON document in UTF-8 become its value, and
all others their text, of which nothing is lost where the bytes are well formed. -/

namespace Uplink.Variant

open Binary64 (one overflow scalable)
open Json (NumberText)
open Text.Utf8 (encode lossy)

/-- The bytes of a text that is a document. -/
def Spells (bytes : List UInt8) (j : Json) : Prop :=
  ∃ cs, bytes = encode cs ∧ Json.Grammar.Document cs j

variable {bytes : List UInt8} {j : Json}

theorem spells_iff : Spells bytes j ↔ (Text.Utf8.decode? bytes >>= Json.ofChars?) = some j := by
  simp only [Spells, bind, Option.bind_eq_some_iff, Text.Utf8.decode?_eq_some_iff,
    Json.ofChars?_eq_some_iff]

theorem decode_of_spells (h : Spells bytes j) : decode bytes = ofJson j := by
  rw [decode, spells_iff.mp h]

theorem decode_of_not_spells (h : ¬∃ j, Spells bytes j) :
    decode bytes = .string (String.ofList (lossy bytes)) := by
  have hnone : (Text.Utf8.decode? bytes >>= Json.ofChars?) = none :=
    Option.eq_none_iff_forall_ne_some.mpr fun j hj => h ⟨j, spells_iff.mpr hj⟩
  rw [decode, hnone]

theorem findEntry_ofMembers (key : String) (members : List (String × Json)) :
    findEntry key (ofMembers members) = (findEntry key members).map ofJson := by
  induction members with
  | nil => rfl
  | cons m members ih =>
    rw [ofMembers, findEntry, findEntry, ih]
    split <;> rfl

/-- Of the members with a key, the last counts. -/
theorem get?_ofPairs (members : List (String × Json)) (key : String) :
    (ofJson (.ofPairs members)).get? key =
      (members.reverse.find? (·.1 == key)).map fun m => ofJson m.2 := by
  have hlast := KeyMap.get?_ofList members key
  rw [KeyMap.get?] at hlast
  rw [Json.ofPairs, ofJson, get?, findEntry_ofMembers, hlast, Option.map_map]
  rfl

theorem wellFormed_powerOfTen {negative below : Bool} {ds : List Nat} (hne : ds ≠ [])
    (hds : ∀ d ∈ ds, d < 10) : NumberText.WellFormed ⟨negative, [1], [], some (below, ds)⟩ where
  whole_ne_nil := List.cons_ne_nil 1 []
  zero_alone := nofun
  whole_lt := by simp
  fraction_lt := nofun
  exponent_ne_nil := by
    rintro _ _ ⟨⟩
    exact hne
  exponent_lt := by
    rintro _ _ ⟨⟩
    exact hds

/-- Bytes decode to the value of the document they are as a whole, in which of members with one key
the last counts, and if they are none, to their text, in which nothing of well-formed bytes is lost.
The documents are those of the grammar whose numbers the reader has a value for. It has one for
every number up to two and a half spacings below `2^1024`, and none above `2^1024` by one part in
`2^49` or more. The value of an integer of 64 bits is the number nearest to it, and any other is off
by one part in `2^50`, or one unit, at most. With an exponent of more than 31 bits a number is zero
or has no value. -/
theorem decode_reads_documents :
    (∀ bytes j, Spells bytes j → decode bytes = ofJson j) ∧
      (∀ bytes, (¬∃ j, Spells bytes j) → decode bytes = .string (String.ofList (lossy bytes))) ∧
      (∀ cs, lossy (encode cs) = cs) ∧
      (∀ members key, (ofJson (.ofPairs members)).get? key =
        (members.reverse.find? (·.1 == key)).map fun m => ofJson m.2) ∧
      (∀ t : NumberText, t.WellFormed → t.power.natAbs < 2 ^ 31 →
        (t.units ≤ scalable → ∃ n, t.value? = some n) ∧
          (overflow * (1 + 1 / 2 ^ 49) ≤ t.units → t.value? = none) ∧
          (t.fraction = [] → t.exponent = none → Json.ofDigits t.whole < 2 ^ 64 →
            ∃ n, t.value? = some n ∧
              n.toBinary64 = .ofQuotient t.negative (Json.ofDigits t.whole * one) 1) ∧
          ∀ n, t.value? = some n → ∃ u onGrid, n.toBinary64 = .finite t.negative u onGrid ∧
            |(u : ℚ) - t.units| ≤ t.units / 2 ^ 50 + 1) ∧
      ∀ t : NumberText, t.WellFormed → 2 ^ 31 ≤ t.power.natAbs →
        t.value? = if t.power < 0 ∨ t.units = 0 then
          some (.real (.finite t.negative 0 Binary64.onGrid_zero) rfl) else none :=
  ⟨fun _ _ => decode_of_spells, fun _ => decode_of_not_spells, Text.Utf8.lossy_encode, get?_ofPairs,
    fun _ ht hpower => ⟨NumberText.value?_isSome ht (by omega), NumberText.value?_eq_none ht hpower,
      NumberText.value?_of_integer ht, fun _ => NumberText.exists_units ht hpower⟩,
    fun _ ht hpower => NumberText.value?_of_large_power ht hpower⟩

/-- An object with a key twice, bytes that are no text, and numbers: a fraction, an integer, one
that is too large, and one with an exponent of 32 bits. -/
theorem decode_reads_documents_mixed :
    let text := "\x7b\"k\":true, \"k\":[null]\x7d\n".toList
    let half : NumberText := ⟨false, [1], [5], none⟩
    let whole : NumberText := ⟨true, [7], [], none⟩
    let large : NumberText := ⟨true, [1], [], some (false, [3, 1, 0])⟩
    let tiny : NumberText := ⟨true, [1], [], some (true, [2, 1, 4, 7, 4, 8, 3, 6, 4, 8])⟩
    (∃ j, Spells (encode text) j ∧ decode (encode text) = ofJson j) ∧
      ((¬∃ j, Spells [0xff, 0x31] j) ∧
        decode [0xff, 0x31] = .string (String.ofList (lossy [0xff, 0x31]))) ∧
      (half.WellFormed ∧ ∃ n, half.value? = some n ∧ ∃ u onGrid,
        n.toBinary64 = .finite false u onGrid ∧ |(u : ℚ) - half.units| ≤ half.units / 2 ^ 50 + 1) ∧
      (whole.WellFormed ∧ ∃ n, whole.value? = some n ∧
        n.toBinary64 = .ofQuotient true (7 * one) 1) ∧
      (large.WellFormed ∧ large.value? = none) ∧
      (tiny.WellFormed ∧ tiny.value? = some (.real .negativeZero rfl)) := by
  intro text half whole large tiny
  obtain ⟨hdocument, hother, -, -, hnumber, hvast⟩ := decode_reads_documents
  have hhalf : half.WellFormed :=
    NumberText.wellFormed_of_point (by decide) nofun (by decide) (by decide)
  have hwhole : whole.WellFormed :=
    NumberText.wellFormed_of_point (by decide) nofun (by decide) nofun
  have hlarge : large.WellFormed := wellFormed_powerOfTen (by decide) (by decide)
  have htiny : tiny.WellFormed := wellFormed_powerOfTen (by decide) (by decide)
  refine ⟨?_, ?_, ⟨hhalf, ?_⟩, ⟨hwhole, ?_⟩, ⟨hlarge, ?_⟩, ⟨htiny, ?_⟩⟩
  · have hread : (Json.ofChars? text).isSome = true := by decide +kernel
    obtain ⟨j, hj⟩ := Option.isSome_iff_exists.mp hread
    have hspells : Spells (encode text) j := ⟨text, rfl, Json.ofChars?_eq_some_iff.mp hj⟩
    exact ⟨j, hspells, hdocument _ _ hspells⟩
  · have hnot : ¬∃ j, Spells [0xff, 0x31] j := by
      rintro ⟨j, hj⟩
      have hread := spells_iff.mp hj
      have hnone : Text.Utf8.decode? [0xff, 0x31] = none := by decide +kernel
      rw [hnone] at hread
      cases hread
    exact ⟨hnot, hother _ hnot⟩
  · have hunits : half.units ≤ scalable := by
      have hle : (2 ^ 64 * one : ℚ) ≤ scalable := by exact_mod_cast Binary64.significand_le_scalable
      have hone : (0 : ℚ) ≤ one := Nat.cast_nonneg _
      have hdigits : Json.ofDigits (half.whole ++ half.fraction) = 15 := by decide
      have hpower : half.power - half.fraction.length = -1 := by decide
      rw [NumberText.units, hdigits, hpower]
      generalize (one : ℚ) = w at *
      generalize (scalable : ℚ) = v at *
      norm_num at hle ⊢
      linarith
    obtain ⟨haccepted, -, -, hnear⟩ := hnumber half hhalf (by decide)
    obtain ⟨n, hn⟩ := haccepted hunits
    exact ⟨n, hn, hnear n hn⟩
  · exact (hnumber whole hwhole (by decide)).2.2.1 rfl rfl (by decide)
  · refine (hnumber large hlarge (by decide)).2.1 ?_
    have hdigits : Json.ofDigits (large.whole ++ large.fraction) = 1 := by decide
    have hpower : large.power - large.fraction.length = (310 : Nat) := by decide
    have hle : 2 * overflow ≤ 10 ^ 310 * one := by decide +kernel
    have hle : (2 * overflow : ℚ) ≤ 10 ^ 310 * one := by exact_mod_cast hle
    have hnonneg : (0 : ℚ) ≤ overflow := Nat.cast_nonneg _
    rw [NumberText.units, hdigits, hpower, zpow_natCast, Nat.cast_one, one_mul]
    refine le_trans ?_ hle
    norm_num
    linarith
  · rw [hvast tiny htiny (by decide)]
    exact if_pos (.inl (by decide))

/-- A number below the largest finite one is refused, and with it the document: its digits are
scaled to `2^1024`. -/
theorem decode_refuses_finite :
    let t : NumberText :=
      ⟨false, [1], [7, 9, 7, 6, 9, 3, 1, 3, 4, 8, 6, 2, 3, 1, 5, 7, 0, 8], some (false, [3, 0, 8])⟩
    t.WellFormed ∧ t.Spelled t.chars ∧ (∃ u, Binary64.OnGrid u ∧ t.units ≤ u) ∧
      decode (encode t.chars) = .string (String.ofList t.chars) := by
  intro t
  have hformed : t.WellFormed := by
    refine ⟨List.cons_ne_nil _ _, nofun, by decide, by decide, ?_, ?_⟩
    · rintro _ _ ⟨⟩
      exact List.cons_ne_nil _ _
    · rintro _ _ ⟨⟩
      decide
  refine ⟨hformed, t.spelled_chars, ⟨(2 ^ 54 - 2) * 2 ^ 2044, by decide +kernel, ?_⟩, ?_⟩
  · have hdigits : Json.ofDigits (t.whole ++ t.fraction) = 1797693134862315708 := by decide +kernel
    have hpower : t.power - t.fraction.length = (290 : Nat) := by decide +kernel
    have hle : 1797693134862315708 * 10 ^ 290 * Binary64.one ≤ (2 ^ 54 - 2) * 2 ^ 2044 := by
      decide +kernel
    rw [NumberText.units, hdigits, hpower, zpow_natCast]
    generalize (2 ^ 54 - 2) * 2 ^ 2044 = u at hle ⊢
    exact_mod_cast hle
  · have hnone : Json.ofChars? t.chars = none := by
      rw [← Option.isNone_iff_eq_none]
      decide +kernel
    have hnot : ¬∃ j, Spells (encode t.chars) j := by
      rintro ⟨j, hj⟩
      have hread := spells_iff.mp hj
      rw [Text.Utf8.decode?_encode] at hread
      exact absurd (hnone.symm.trans hread) nofun
    rw [decode_of_not_spells hnot, Text.Utf8.lossy_encode]
end Uplink.Variant
