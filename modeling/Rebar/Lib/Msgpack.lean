/-!
# Msgpack values

* `Msgpack.Inverse`   what was written is read back.
-/

namespace Rebar

/-- a msgpack value; a string need not be valid UTF-8, and a float is its bits -/
inductive Value where
  | nil
  | boolean (b : Bool)
  | integer (n : Int)
  | f32 (bits : UInt32)
  | f64 (bits : UInt64)
  | string (s : Except (List UInt8) String)
  | binary (bytes : List UInt8)
  | array (items : List Value)
  | map (entries : List (Value × Value))
  | ext (type : Int) (data : List UInt8)

namespace Value

def asMap : Value → Option (List (Value × Value))
  | map entries => some entries
  | _ => none

def asStr : Value → Option String
  | string (.ok s) => some s
  | _ => none

def asU64 : Value → Option UInt64
  | integer n => if 0 ≤ n ∧ n.toNat < UInt64.size then some (UInt64.ofNat n.toNat) else none
  | _ => none

end Value

/-- a writer of values into a buffer, and a reader of the value that a buffer starts with -/
structure Msgpack where
  write : Value → Except String (List UInt8)
  read : List UInt8 → Except String Value

def Msgpack.Inverse (codec : Msgpack) : Prop :=
  ∀ v bytes, codec.write v = .ok bytes → codec.read bytes = .ok v

end Rebar
