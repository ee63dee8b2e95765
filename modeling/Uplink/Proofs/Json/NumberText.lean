import Uplink.Json.Number

/-! The texts of numbers. `NumberText.Spelled` says how the grammar lets a number be written, of
which `NumberText.chars` is one way. Whatever `take?` reads is so written; and in front of anything
that cannot be part of a number, it reads a number however it is written. -/

namespace Uplink.Json

/-- What a text may start with behind a number: nothing that a number could go on with. -/
def EndsNumber (cs : List Char) : Prop :=
  ∀ c ∈ cs.head?, c.isDigit = false ∧ c ≠ '.' ∧ c ≠ 'e' ∧ c ≠ 'E'

instance (cs : List Char) : Decidable (EndsNumber cs) :=
  match cs with
  | [] => isTrue nofun
  | c :: _ => decidable_of_iff (c.isDigit = false ∧ c ≠ '.' ∧ c ≠ 'e' ∧ c ≠ 'E') (by
      simp [EndsNumber])

namespace NumberText

/-- The grammar of numbers: a whole part without a zero in front of other digits, and at least one
digit in the exponent. -/
structure WellFormed (t : NumberText) : Prop where
  whole_ne_nil : t.whole ≠ []
  zero_alone : t.whole.head? = some 0 → t.whole = [0]
  whole_lt : ∀ d ∈ t.whole, d < 10
  fraction_lt : ∀ d ∈ t.fraction, d < 10
  exponent_ne_nil : ∀ below ds, t.exponent = some (below, ds) → ds ≠ []
  exponent_lt : ∀ below ds, t.exponent = some (below, ds) → ∀ d ∈ ds, d < 10

def fractionChars : List Nat → List Char
  | [] => []
  | ds => '.' :: ds.map Nat.digitChar

def exponentChars : Option (Bool × List Nat) → List Char
  | none => []
  | some (below, ds) => 'e' :: (if below then '-' else '+') :: ds.map Nat.digitChar

/-- A number with a small letter and a sign in front of its exponent. -/
def chars (t : NumberText) : List Char :=
  (if t.negative then ['-'] else []) ++
    (t.whole.map Nat.digitChar ++ (fractionChars t.fraction ++ exponentChars t.exponent))

/-- An exponent has a small or a large letter, and a plus need not be written. -/
inductive ExponentSpelled : Option (Bool × List Nat) → List Char → Prop
  | absent : ExponentSpelled none []
  | present {letter : Char} {below : Bool} {sign : List Char} (ds : List Nat)
      (hletter : letter = 'e' ∨ letter = 'E')
      (hsign : sign = [if below then '-' else '+'] ∨ below = false ∧ sign = []) :
      ExponentSpelled (some (below, ds)) (letter :: (sign ++ ds.map Nat.digitChar))

/-- The ways to write a number differ in its exponent only. -/
def Spelled (t : NumberText) (cs : List Char) : Prop :=
  ∃ exponent, ExponentSpelled t.exponent exponent ∧
    cs = (if t.negative then ['-'] else []) ++
      (t.whole.map Nat.digitChar ++ (fractionChars t.fraction ++ exponent))

theorem exponentSpelled_exponentChars (exponent : Option (Bool × List Nat)) :
    ExponentSpelled exponent (exponentChars exponent) := by
  rcases exponent with _ | ⟨below, ds⟩
  · exact .absent
  · exact .present ds (.inl rfl) (.inl rfl)

theorem spelled_chars (t : NumberText) : t.Spelled t.chars :=
  ⟨_, exponentSpelled_exponentChars t.exponent, rfl⟩

end NumberText

open NumberText (ExponentSpelled Spelled)

variable {cs : List Char}

theorem endsNumber_cons {c : Char} (h : c.isDigit = false ∧ c ≠ '.' ∧ c ≠ 'e' ∧ c ≠ 'E') :
    EndsNumber (c :: cs) := by
  intro d hd
  obtain rfl : c = d := Option.some.inj hd
  exact h

theorem EndsNumber.not_digit (h : EndsNumber cs) : ∀ c ∈ cs.head?, c.isDigit = false :=
  fun c hc => (h c hc).1

theorem digit?_digitChar {d : Nat} (h : d < 10) : Binary64.digit? (Nat.digitChar d) = some d := by
  have hdigit : (Nat.digitChar d).isDigit = true := by simp [h]
  simp [Binary64.digit?, hdigit, Nat.toNat_digitChar_of_lt_ten h]

/-- Digits are read up to the first character that is none. -/
theorem takeDigits_map (ds : List Nat) (hlt : ∀ d ∈ ds, d < 10)
    (hcs : ∀ c ∈ cs.head?, c.isDigit = false) :
    takeDigits (ds.map Nat.digitChar ++ cs) = (ds, cs) := by
  induction ds with
  | nil =>
    cases cs with
    | nil => rfl
    | cons c cs =>
      have hc : c.isDigit = false := hcs c rfl
      simp [takeDigits, Binary64.digit?, hc]
  | cons d ds ih =>
    have hd : d < 10 := hlt d List.mem_cons_self
    have hrest := ih fun d hd => hlt d (List.mem_cons_of_mem _ hd)
    simp only [List.map_cons, List.cons_append, takeDigits, digit?_digitChar hd, hrest]

theorem digitChar_ne {d : Nat} (h : d < 10) {c : Char} (hc : c.isDigit = false) :
    Nat.digitChar d ≠ c := by
  rintro rfl
  simp [h] at hc

theorem takeSign_of_ne {c : Char} (hminus : c ≠ '-') (hplus : c ≠ '+') (cs : List Char) :
    Binary64.takeSign (c :: cs) = (false, c :: cs) := by
  simp [Binary64.takeSign, hminus, hplus]

theorem takeExponent?_spelled {exponent : Option (Bool × List Nat)} {e : List Char}
    (he : ExponentSpelled exponent e) (hne : ∀ below ds, exponent = some (below, ds) → ds ≠ [])
    (hlt : ∀ below ds, exponent = some (below, ds) → ∀ d ∈ ds, d < 10) (hcs : EndsNumber cs) :
    takeExponent? (e ++ cs) = some (exponent, cs) := by
  cases he with
  | absent =>
    cases cs with
    | nil => rfl
    | cons c cs =>
      have hc := (hcs c rfl).2.2
      simp [takeExponent?, hc]
  | @present letter below sign ds hletter hsign =>
    have htake := takeDigits_map ds (hlt below ds rfl) hcs.not_digit
    obtain ⟨d, ds, rfl⟩ := List.exists_cons_of_ne_nil (hne below ds rfl)
    have hd : d < 10 := hlt below _ rfl d List.mem_cons_self
    have htakeSign : Binary64.takeSign (sign ++ ((d :: ds).map Nat.digitChar ++ cs)) =
        (below, (d :: ds).map Nat.digitChar ++ cs) := by
      rcases hsign with rfl | ⟨rfl, rfl⟩
      · cases below <;> rfl
      · exact takeSign_of_ne (digitChar_ne hd rfl) (digitChar_ne hd rfl) _
    rw [List.cons_append, List.append_assoc]
    simp only [takeExponent?, if_pos hletter, htakeSign, htake]

/-- An exponent, or what follows a number, is no digit and no point. -/
theorem exponentSpelled_head {exponent : Option (Bool × List Nat)} {e : List Char}
    (he : ExponentSpelled exponent e) (hcs : EndsNumber cs) :
    ∀ c ∈ (e ++ cs).head?, c.isDigit = false ∧ c ≠ '.' := by
  cases he with
  | absent => exact fun c hc => ⟨(hcs c hc).1, (hcs c hc).2.1⟩
  | present ds hletter hsign =>
    intro c hc
    cases hc
    rcases hletter with rfl | rfl <;> decide

theorem takeFraction?_chars {fraction : List Nat} (hlt : ∀ d ∈ fraction, d < 10)
    (hcs : ∀ c ∈ cs.head?, c.isDigit = false ∧ c ≠ '.') :
    takeFraction? (NumberText.fractionChars fraction ++ cs) = some (fraction, cs) := by
  cases fraction with
  | nil =>
    cases cs with
    | nil => rfl
    | cons c cs =>
      have hc : c ≠ '.' := (hcs c rfl).2
      simp only [NumberText.fractionChars, List.nil_append]
      unfold takeFraction?
      split
      · next h => exact absurd (List.cons.inj h).1 hc
      · rfl
  | cons d ds =>
    have htake := takeDigits_map (d :: ds) hlt fun c hc => (hcs c hc).1
    simp only [NumberText.fractionChars, List.cons_append, takeFraction?, htake]

/-- What is written behind the digits of the whole part does not start with a digit. -/
theorem fractionChars_head (fraction : List Nat)
    (hcs : ∀ c ∈ cs.head?, c.isDigit = false ∧ c ≠ '.') :
    ∀ c ∈ (NumberText.fractionChars fraction ++ cs).head?, c.isDigit = false := by
  cases fraction with
  | nil => exact fun c hc => (hcs c hc).1
  | cons d ds =>
    intro c hc
    obtain rfl : '.' = c := Option.some.inj hc
    decide

namespace NumberText

/-- What is read behind the sign of a number. -/
def takeUnsigned? (negative : Bool) (cs : List Char) : Option (NumberText × List Char) :=
  match takeDigits cs with
  | ([], _) => none
  | (0 :: _ :: _, _) => none
  | (whole, cs) => do
    let (fraction, cs) ← takeFraction? cs
    let (exponent, cs) ← takeExponent? cs
    some (⟨negative, whole, fraction, exponent⟩, cs)

theorem take?_minus (cs : List Char) : take? ('-' :: cs) = takeUnsigned? true cs := rfl

theorem take?_of_ne_minus {c : Char} (hc : c ≠ '-') (cs : List Char) :
    take? (c :: cs) = takeUnsigned? false (c :: cs) := by
  unfold take?
  split
  next heq =>
    split at heq
    · next hsign => exact absurd (List.cons.inj hsign).1 hc
    · obtain ⟨rfl, rfl⟩ := Prod.ext_iff.mp heq
      rfl

/-- A number is read as it is written, up to what cannot be part of it. -/
theorem take?_spelled {t : NumberText} {u : List Char} (ht : t.WellFormed) (hu : t.Spelled u)
    (hcs : EndsNumber cs) : take? (u ++ cs) = some (t, cs) := by
  obtain ⟨e, he, rfl⟩ := hu
  have hexponent := takeExponent?_spelled he ht.exponent_ne_nil ht.exponent_lt hcs
  have hhead := exponentSpelled_head he hcs
  have hpoint := takeFraction?_chars ht.fraction_lt hhead
  have hdigits := takeDigits_map t.whole ht.whole_lt (fractionChars_head t.fraction hhead)
  obtain ⟨negative, whole, fraction, exponent⟩ := t
  obtain ⟨d, ds, rfl⟩ := List.exists_cons_of_ne_nil ht.whole_ne_nil
  have hd : Nat.digitChar d ≠ '-' := digitChar_ne (ht.whole_lt d List.mem_cons_self) rfl
  have halone : d = 0 → ds = [] := fun h => by simpa [h] using ht.zero_alone
  have hunsigned : takeUnsigned? negative ((d :: ds).map Nat.digitChar ++
      (fractionChars fraction ++ (e ++ cs))) =
        some (⟨negative, d :: ds, fraction, exponent⟩, cs) := by
    rw [takeUnsigned?, hdigits]
    split
    · next h => simp at h
    · next h =>
      obtain ⟨⟨rfl, hds⟩, -⟩ := by simpa using h
      simp [halone rfl] at hds
    · next h =>
      obtain ⟨rfl, rfl⟩ := Prod.ext_iff.mp h
      simp only [hpoint, hexponent, bind, Option.bind]
  cases negative with
  | true => simpa [take?_minus] using hunsigned
  | false => simpa [take?_of_ne_minus hd] using hunsigned

/-- A number starts with its sign or with a digit. -/
theorem spelled_head {t : NumberText} {u : List Char} (ht : t.WellFormed) (hu : t.Spelled u) :
    ∃ c cs, u = c :: cs ∧ (c = '-' ∨ c.isDigit = true) := by
  obtain ⟨e, -, rfl⟩ := hu
  obtain ⟨negative, whole, fraction, exponent⟩ := t
  obtain ⟨d, ds, rfl⟩ := List.exists_cons_of_ne_nil ht.whole_ne_nil
  have hd : d < 10 := ht.whole_lt d List.mem_cons_self
  cases negative with
  | true => exact ⟨_, _, rfl, .inl rfl⟩
  | false => exact ⟨_, _, rfl, .inr (by simp [hd])⟩

end NumberText

/-! ### What is read -/

theorem digit?_eq_some {c : Char} {d : Nat} (h : Binary64.digit? c = some d) :
    c = Nat.digitChar d ∧ d < 10 := by
  unfold Binary64.digit? at h
  split at h
  · next hc =>
    obtain rfl := Option.some.inj h
    have hrange : '0'.toNat ≤ c.toNat ∧ c.toNat ≤ '9'.toNat := by
      simpa [Char.isDigit, UInt32.le_iff_toNat_le] using hc
    have hlt : c.toNat - '0'.toNat < 10 := by
      have := hrange.2
      simp at *
      omega
    refine ⟨?_, hlt⟩
    rw [← Char.toNat_inj, Nat.toNat_digitChar_of_lt_ten hlt]
    have := hrange.1
    simp at *
    omega
  · cases h

/-- The digits in front of a text stand there one by one. -/
theorem eq_of_takeDigits {rest : List Char} {ds : List Nat} (h : takeDigits cs = (ds, rest)) :
    cs = ds.map Nat.digitChar ++ rest ∧ ∀ d ∈ ds, d < 10 := by
  induction cs generalizing ds with
  | nil =>
    obtain ⟨rfl, rfl⟩ := Prod.mk.inj h
    simp
  | cons c cs ih =>
    rw [takeDigits] at h
    split at h
    · next d hd =>
      obtain ⟨rfl, rfl⟩ := Prod.mk.inj h
      obtain ⟨rfl, hlt⟩ := digit?_eq_some hd
      have htail : takeDigits cs = ((takeDigits cs).1, (takeDigits cs).2) := rfl
      obtain ⟨hcs, hds⟩ := ih htail
      exact ⟨congrArg _ hcs, List.forall_mem_cons.mpr ⟨hlt, hds⟩⟩
    · obtain ⟨rfl, rfl⟩ := Prod.mk.inj h
      simp

theorem eq_of_takeFraction? {rest : List Char} {ds : List Nat}
    (h : takeFraction? cs = some (ds, rest)) :
    cs = NumberText.fractionChars ds ++ rest ∧ ∀ d ∈ ds, d < 10 := by
  unfold takeFraction? at h
  split at h
  · split at h
    · cases h
    · next hne =>
      obtain ⟨rfl, hlt⟩ := eq_of_takeDigits (Option.some.inj h)
      obtain ⟨d, ds, rfl⟩ : ∃ d ds', ds = d :: ds' :=
        List.exists_cons_of_ne_nil fun hnil => hne rest (by rw [Option.some.inj h, hnil])
      exact ⟨rfl, hlt⟩
  · obtain ⟨rfl, rfl⟩ := Prod.mk.inj (Option.some.inj h)
    simp [NumberText.fractionChars]

/-- A sign that is taken is a minus below zero, and else a plus or nothing. -/
theorem eq_of_takeSign {rest : List Char} {below : Bool}
    (h : Binary64.takeSign cs = (below, rest)) : ∃ sign, cs = sign ++ rest ∧
      (sign = [if below then '-' else '+'] ∨ below = false ∧ sign = []) := by
  unfold Binary64.takeSign at h
  split at h <;> obtain ⟨rfl, rfl⟩ := Prod.mk.inj h
  · exact ⟨['-'], rfl, .inl rfl⟩
  · exact ⟨['+'], rfl, .inl rfl⟩
  · exact ⟨[], rfl, .inr ⟨rfl, rfl⟩⟩

theorem eq_of_takeExponent? {rest : List Char} {exponent : Option (Bool × List Nat)}
    (h : takeExponent? cs = some (exponent, rest)) :
    (∃ e, ExponentSpelled exponent e ∧ cs = e ++ rest) ∧
      ∀ below ds, exponent = some (below, ds) → ds ≠ [] ∧ ∀ d ∈ ds, d < 10 := by
  cases cs with
  | nil =>
    obtain ⟨rfl, rfl⟩ := Prod.mk.inj (Option.some.inj h)
    exact ⟨⟨[], .absent, rfl⟩, nofun⟩
  | cons c cs =>
    rw [takeExponent?] at h
    split at h
    · next hletter =>
      generalize hsigned : Binary64.takeSign cs = signed at h
      obtain ⟨below, cs'⟩ := signed
      obtain ⟨sign, rfl, hsign⟩ := eq_of_takeSign hsigned
      simp only at h
      split at h
      · cases h
      · next ds rest' hne hds =>
        obtain ⟨rfl, rfl⟩ := Prod.mk.inj (Option.some.inj h)
        obtain ⟨rfl, hlt⟩ := eq_of_takeDigits hds
        refine ⟨⟨_, .present ds hletter hsign, ?_⟩, ?_⟩
        · rw [List.cons_append, List.append_assoc]
        · rintro _ _ ⟨⟩
          exact ⟨hne, hlt⟩
    · obtain ⟨rfl, rfl⟩ := Prod.mk.inj (Option.some.inj h)
      exact ⟨⟨[], .absent, rfl⟩, nofun⟩

namespace NumberText

theorem eq_of_takeUnsigned? {rest : List Char} {negative : Bool} {t : NumberText}
    (h : takeUnsigned? negative cs = some (t, rest)) : t.WellFormed ∧ t.negative = negative ∧
      ∃ e, ExponentSpelled t.exponent e ∧
        cs = t.whole.map Nat.digitChar ++ (fractionChars t.fraction ++ (e ++ rest)) := by
  unfold takeUnsigned? at h
  split at h
  · cases h
  · cases h
  · next whole cs' hne hzero hwhole =>
    simp only [bind, Option.bind] at h
    split at h
    · cases h
    · next found hfraction =>
      obtain ⟨fraction, cs''⟩ := found
      simp only at h
      split at h
      · cases h
      · next found hexponent =>
        obtain ⟨exponent, rest'⟩ := found
        obtain ⟨rfl, rfl⟩ := Prod.mk.inj (Option.some.inj h)
        obtain ⟨rfl, hwhole_lt⟩ := eq_of_takeDigits hwhole
        obtain ⟨rfl, hfraction_lt⟩ := eq_of_takeFraction? hfraction
        obtain ⟨⟨e, he, rfl⟩, hds⟩ := eq_of_takeExponent? hexponent
        refine ⟨⟨?_, ?_, hwhole_lt, hfraction_lt, fun below ds h => (hds below ds h).1,
          fun below ds h => (hds below ds h).2⟩, rfl, e, he, rfl⟩
        · exact hne
        · intro hhead
          rcases whole with _ | ⟨d, _ | ⟨d', ds⟩⟩
          · cases hhead
          · rw [Option.some.inj hhead]
          · exact (hzero d' ds (by rw [Option.some.inj hhead])).elim

/-- Whatever is read as a number is a number as it may be written. -/
theorem spelled_of_take? {rest : List Char} {t : NumberText} (h : take? cs = some (t, rest)) :
    t.WellFormed ∧ ∃ u, t.Spelled u ∧ cs = u ++ rest := by
  obtain ⟨sign, cs', hcs, hsigned⟩ : ∃ sign cs', cs = (if sign then ['-'] else []) ++ cs' ∧
      takeUnsigned? sign cs' = some (t, rest) := by
    cases cs with
    | nil => cases h
    | cons c cs =>
      by_cases hc : c = '-'
      · subst hc
        exact ⟨true, cs, rfl, h⟩
      · exact ⟨false, c :: cs, rfl, by rwa [← take?_of_ne_minus hc]⟩
  obtain ⟨ht, rfl, e, he, rfl⟩ := eq_of_takeUnsigned? hsigned
  refine ⟨ht, _, ⟨e, he, rfl⟩, ?_⟩
  rw [hcs]
  simp only [List.append_assoc]

end NumberText

end Uplink.Json
