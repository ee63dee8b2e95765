import Uplink.Binary64
import Uplink.KeyMap

/-! The values of TOML documents. Integers have no bound here; documents hold only those of 64 bits.
A date or time is kept as its normal text. -/

namespace Uplink

inductive Toml where
  | boolean (value : Bool)
  | integer (value : Int)
  | float (value : Binary64)
  | string (value : String)
  | datetime (text : String)
  | array (items : List Toml)
  | table (entries : List (String × Toml))

namespace Toml

instance : Inhabited Toml := ⟨.table []⟩

end Toml

end Uplink
