import TableVault.Text.Utf8
import TableVault.Cbor.Value
import TableVault.Cbor.Head

namespace TableVault.Cbor

/-!
# Writing values

* `Value.encode` — the bytes of a value: definite lengths, shortest heads, arrays
  and maps in the order given, tags and their content as given.
-/

namespace Value

mutual

/-- The bytes of a value. -/
def encode : Value → Bytes
  | .unsigned n => Head.write 0 n.toNat
  | .negative n => Head.write 1 n.toNat
  | .float d => Head.writeFloat d
  | .text s => Head.write 3 (Utf8.encode s).length ++ Utf8.encode s
  | .bytes b => Head.write 2 b.length ++ b
  | .bool b => [Head.initial 7 (if b then 21 else 20)]
  | .null => [Head.initial 7 22]
  | .array items => Head.write 4 items.length ++ encodeItems items
  | .map entries => Head.write 5 entries.length ++ encodeEntries entries
  | .tag number content => Head.write 6 number.toNat ++ encode content

/-- The bytes of the items of an array. -/
def encodeItems : List Value → Bytes
  | [] => []
  | v :: rest => encode v ++ encodeItems rest

/-- The bytes of the entries of a map, each key before its value. -/
def encodeEntries : List (Value × Value) → Bytes
  | [] => []
  | (k, v) :: rest => encode k ++ encode v ++ encodeEntries rest

end

end Value

end TableVault.Cbor
