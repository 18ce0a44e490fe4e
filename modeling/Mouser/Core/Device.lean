import Mathlib.Order.Lattice
import Mathlib.Order.Basic
import Mathlib.Data.List.Lex
import Mathlib.Data.Nat.Basic

/-!
# Device identities

A `DeviceId` is the SHA-256 of a device's public key: 32 bytes, compared byte by byte. Ownership
ties are broken by the lower id, so the order is part of the protocol.
-/

namespace Mouser

/-- A device's permanent identifier: exactly 32 bytes. -/
structure DeviceId where
  bytes : List UInt8
  length_eq : bytes.length = 32
deriving DecidableEq

namespace DeviceId

/-- The values of the bytes, most significant first. -/
def key (d : DeviceId) : List Nat := d.bytes.map UInt8.toNat

theorem bytes_injective : Function.Injective bytes := by
  intro a b h
  cases a
  cases b
  cases h
  rfl

theorem key_injective : Function.Injective key := fun _ _ h =>
  bytes_injective (List.map_injective_iff.2 (fun _ _ => UInt8.toNat_inj.1) h)

/-- Ids are ordered lexicographically by their bytes, as Rust orders `[u8; 32]`. -/
instance : LinearOrder DeviceId := LinearOrder.lift' key key_injective

/-- The id whose 32 bytes are all `b`. -/
def fill (b : UInt8) : DeviceId := ⟨List.replicate 32 b, List.length_replicate⟩

end DeviceId

/-- The id in a wire field, when the field holds exactly 32 bytes. -/
def toId (bytes : List UInt8) : Option DeviceId :=
  if h : bytes.length = 32 then some ⟨bytes, h⟩ else none

@[simp] theorem toId_bytes (d : DeviceId) : toId d.bytes = some d := by
  simp [toId, d.length_eq]

end Mouser
