import Uplink.Proofs.Json.Documents
import Uplink.Proofs.Json.WholeNumbers

/-! What documents mean. A number is the rational number that its digits stand for, whatever a
reader would make of it, and an object is what its keys are bound to. -/

namespace Uplink

/-- What the last pair with a key binds it to. -/
def lastEntry {α : Type} (key : String) (entries : List (String × α)) : Option α :=
  (entries.reverse.find? (·.1 == key)).map (·.2)

namespace Json

/-- The value that a document stands for. -/
inductive Meaning where
  | null
  | bool (value : Bool)
  | number (value : ℚ)
  | string (value : String)
  | array (items : List Meaning)
  | object (member : String → Option Meaning)

/-- Of members with the same key the last counts. -/
def Meaning.ofPairs (pairs : List (String × Meaning)) : Meaning :=
  .object fun key => lastEntry key pairs

namespace Denotation

open Grammar (Spaces TextSpelled)

variable (P : NumberText → Prop)

mutual

/-- A value, without space around it, and what it means; its numbers are as `P` has it. Values lie
in one another as deep as may be. -/
inductive Value : List Char → Meaning → Prop
  | null : Value ['n', 'u', 'l', 'l'] .null
  | isTrue : Value ['t', 'r', 'u', 'e'] (.bool true)
  | isFalse : Value ['f', 'a', 'l', 's', 'e'] (.bool false)
  | number {t : NumberText} {u : List Char} (ht : t.WellFormed) (hu : t.Spelled u) (hP : P t) :
      Value u (.number t.rational)
  | string {s : String} {u : List Char} (h : TextSpelled s.toList u) :
      Value ('"' :: (u ++ ['"'])) (.string s)
  | emptyArray {ws : List Char} (h : Spaces ws) : Value ('[' :: (ws ++ [']'])) (.array [])
  | array {u : List Char} {items : List Meaning} (h : Items u items) :
      Value ('[' :: (u ++ [']'])) (.array items)
  | emptyObject {ws : List Char} (h : Spaces ws) :
      Value ('\x7b' :: (ws ++ ['\x7d'])) (.ofPairs [])
  | object {u : List Char} {members : List (String × Meaning)} (h : Members u members) :
      Value ('\x7b' :: (u ++ ['\x7d'])) (.ofPairs members)

/-- A value with space around it. -/
inductive Element : List Char → Meaning → Prop
  | mk {a u b : List Char} {m : Meaning} (ha : Spaces a) (hu : Value u m) (hb : Spaces b) :
      Element (a ++ (u ++ b)) m

/-- Values with commas between them. -/
inductive Items : List Char → List Meaning → Prop
  | one {u : List Char} {m : Meaning} (h : Element u m) : Items u [m]
  | cons {u us : List Char} {m : Meaning} {items : List Meaning} (h : Element u m)
      (hs : Items us items) : Items (u ++ ',' :: us) (m :: items)

/-- A key, a colon and a value, with space around the key. -/
inductive Member : List Char → String × Meaning → Prop
  | mk {a u b v : List Char} {k : String} {m : Meaning} (ha : Spaces a)
      (hu : TextSpelled k.toList u) (hb : Spaces b) (hv : Element v m) :
      Member (a ++ '"' :: (u ++ '"' :: (b ++ ':' :: v))) (k, m)

/-- Members with commas between them. -/
inductive Members : List Char → List (String × Meaning) → Prop
  | one {u : List Char} {m : String × Meaning} (h : Member u m) : Members u [m]
  | cons {u us : List Char} {m : String × Meaning} {members : List (String × Meaning)}
      (h : Member u m) (hs : Members us members) : Members (u ++ ',' :: us) (m :: members)

end

/-- However a number is written. -/
def Any (_ : NumberText) : Prop := True

variable {P}

/-- A value may stand without space around it. -/
theorem element_of_value {u : List Char} {m : Meaning} (h : Value P u m) : Element P u m := by
  have helement := Element.mk Grammar.spaces_nil h Grammar.spaces_nil
  rwa [List.nil_append, List.append_nil] at helement

mutual

/-- A text denotes the same if it does not matter how its numbers are written. -/
theorem Value.any : ∀ {u : List Char} {m : Meaning}, Value P u m → Value Any u m
  | _, _, .null => .null
  | _, _, .isTrue => .isTrue
  | _, _, .isFalse => .isFalse
  | _, _, .number ht hu _ => .number ht hu trivial
  | _, _, .string h => .string h
  | _, _, .emptyArray h => .emptyArray h
  | _, _, .array h => .array h.any
  | _, _, .emptyObject h => .emptyObject h
  | _, _, .object h => .object h.any

theorem Element.any : ∀ {u : List Char} {m : Meaning}, Element P u m → Element Any u m
  | _, _, .mk ha hu hb => .mk ha hu.any hb

theorem Items.any : ∀ {u : List Char} {ms : List Meaning}, Items P u ms → Items Any u ms
  | _, _, .one h => .one h.any
  | _, _, .cons h hs => .cons h.any hs.any

theorem Member.any : ∀ {u : List Char} {m : String × Meaning}, Member P u m → Member Any u m
  | _, _, .mk ha hu hb hv => .mk ha hu hb hv.any

theorem Members.any : ∀ {u : List Char} {ms : List (String × Meaning)}, Members P u ms →
    Members Any u ms
  | _, _, .one h => .one h.any
  | _, _, .cons h hs => .cons h.any hs.any

end

end Denotation

/-- A text is a document with numbers as `P` has it, and means `m`. -/
def Denotes (P : NumberText → Prop) (cs : List Char) (m : Meaning) : Prop :=
  Denotation.Element P cs m

namespace Grammar

open Denotation (Any)

mutual

/-- Room for more arrays and objects does not matter. -/
theorem Value.mono : ∀ {depth depth' : Nat} {u : List Char} {j : Json}, Value depth u j →
    depth ≤ depth' → Value depth' u j
  | _, _, _, _, .null _, _ => .null _
  | _, _, _, _, .isTrue _, _ => .isTrue _
  | _, _, _, _, .isFalse _, _ => .isFalse _
  | _, _, _, _, .number _ ht hu hn, _ => .number _ ht hu hn
  | _, _, _, _, .string _ h, _ => .string _ h
  | _, _ + 1, _, _, .emptyArray _ h, _ => .emptyArray _ h
  | _, _ + 1, _, _, .array h, hle => .array (h.mono (Nat.le_of_succ_le_succ hle))
  | _, _ + 1, _, _, .emptyObject _ h, _ => .emptyObject _ h
  | _, _ + 1, _, _, .object h, hle => .object (h.mono (Nat.le_of_succ_le_succ hle))

theorem Element.mono : ∀ {depth depth' : Nat} {u : List Char} {j : Json}, Element depth u j →
    depth ≤ depth' → Element depth' u j
  | _, _, _, _, .mk ha hu hb, hle => .mk ha (hu.mono hle) hb

theorem Items.mono : ∀ {depth depth' : Nat} {u : List Char} {items : List Json},
    Items depth u items → depth ≤ depth' → Items depth' u items
  | _, _, _, _, .one h, hle => .one (h.mono hle)
  | _, _, _, _, .cons h hs, hle => .cons (h.mono hle) (hs.mono hle)

theorem Member.mono : ∀ {depth depth' : Nat} {u : List Char} {m : String × Json},
    Member depth u m → depth ≤ depth' → Member depth' u m
  | _, _, _, _, .mk ha hu hb hv, hle => .mk ha hu hb (hv.mono hle)

theorem Members.mono : ∀ {depth depth' : Nat} {u : List Char} {members : List (String × Json)},
    Members depth u members → depth ≤ depth' → Members depth' u members
  | _, _, _, _, .one h, hle => .one (h.mono hle)
  | _, _, _, _, .cons h hs, hle => .cons (h.mono hle) (hs.mono hle)

end

/-- A text is one document, however deep values may lie in it. -/
theorem Element.unique {depth depth' : Nat} {cs : List Char} {j j' : Json}
    (h : Element depth cs j) (h' : Element depth' cs j') : j = j' := by
  have hread {j : Json} (h : Element (max depth depth') cs j) :
      (value? (2 * cs.length) (max depth depth') cs).map (·.1) = some j := by
    obtain ⟨b, -, hvalue⟩ := value?_of_element h (2 * cs.length) [] (Nat.le_refl _) (by decide)
    rw [List.append_nil] at hvalue
    rw [hvalue, Option.map_some]
  have hsame := (hread (h.mono (Nat.le_max_left _ _))).symm.trans
    (hread (h'.mono (Nat.le_max_right _ _)))
  exact Option.some.inj hsame

mutual

/-- What the reader takes is a document with a meaning. -/
theorem Value.denotes : ∀ {depth : Nat} {u : List Char} {j : Json}, Value depth u j →
    ∃ m, Denotation.Value Any u m
  | _, _, _, .null _ => ⟨_, .null⟩
  | _, _, _, .isTrue _ => ⟨_, .isTrue⟩
  | _, _, _, .isFalse _ => ⟨_, .isFalse⟩
  | _, _, _, .number _ ht hu _ => ⟨_, .number ht hu trivial⟩
  | _, _, _, .string _ h => ⟨_, .string h⟩
  | _, _, _, .emptyArray _ h => ⟨_, .emptyArray h⟩
  | _, _, _, .array h => h.denotes.imp' _ fun _ => .array
  | _, _, _, .emptyObject _ h => ⟨_, .emptyObject h⟩
  | _, _, _, .object h => h.denotes.imp' _ fun _ => .object

theorem Element.denotes : ∀ {depth : Nat} {u : List Char} {j : Json}, Element depth u j →
    ∃ m, Denotation.Element Any u m
  | _, _, _, .mk ha hu hb => hu.denotes.imp fun _ h => .mk ha h hb

theorem Items.denotes : ∀ {depth : Nat} {u : List Char} {items : List Json}, Items depth u items →
    ∃ ms, Denotation.Items Any u ms
  | _, _, _, .one h => h.denotes.imp' _ fun _ => .one
  | _, _, _, .cons h hs => by
    obtain ⟨m, hm⟩ := h.denotes
    exact hs.denotes.imp' _ fun _ => .cons hm

theorem Member.denotes : ∀ {depth : Nat} {u : List Char} {e : String × Json}, Member depth u e →
    ∃ m, Denotation.Member Any u m
  | _, _, _, .mk ha hu hb hv => hv.denotes.imp' _ fun _ => .mk ha hu hb

theorem Members.denotes : ∀ {depth : Nat} {u : List Char} {members : List (String × Json)},
    Members depth u members → ∃ ms, Denotation.Members Any u ms
  | _, _, _, .one h => h.denotes.imp' _ fun _ => .one
  | _, _, _, .cons h hs => by
    obtain ⟨m, hm⟩ := h.denotes
    exact hs.denotes.imp' _ fun _ => .cons hm

end

end Grammar

end Json

end Uplink
