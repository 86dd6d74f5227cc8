/-!
# Addresses, maps and bytes

`IpAddr` is the standard library's address type and `DashMap` the concurrent
map of `dashmap`, each of whose calls locks the entry it works on: a map is the
function from keys to the entries present. Texts are read byte by byte where the
source does so.
-/

namespace Curf

inductive IpAddr where
  | v4 (addr : BitVec 32)
  | v6 (addr : BitVec 128)
  deriving DecidableEq, Repr

/-- The entries of a concurrent map. -/
abbrev DashMap (α β : Type) := α → Option β

namespace DashMap

variable {α β : Type} [DecidableEq α]

def empty : DashMap α β := fun _ => none

/-- Store `v` under `k`. -/
def insert (m : DashMap α β) (k : α) (v : β) : DashMap α β := fun x => if x = k then some v else m x

omit [DecidableEq α] in
@[simp] theorem empty_apply (k : α) : (empty : DashMap α β) k = none := rfl

@[simp] theorem insert_same (m : DashMap α β) (k : α) (v : β) : m.insert k v k = some v := by
  simp [insert]

theorem insert_other (m : DashMap α β) {k x : α} (v : β) (h : x ≠ k) : m.insert k v x = m x := by
  simp [insert, h]

end DashMap

abbrev Bytes := List UInt8

/-- Whether the bytes are the UTF-8 encoding of a text. -/
def Bytes.isUtf8 (bs : Bytes) : Bool := bs.toByteArray.validateUTF8

end Curf
