import Bitmessage.Common.Bytes

/-! The hash functions of the protocol. They come from the crypto library; the model
takes them as parameters with the lengths of their results. -/

namespace Bitmessage

/-- `bm_sha512` and `bm_ripemd160`. -/
structure Hashes where
  sha512 : Bytes → Bytes
  ripemd160 : Bytes → Bytes
  length_sha512 : ∀ data, (sha512 data).length = 64
  length_ripemd160 : ∀ data, (ripemd160 data).length = 20

variable (H : Hashes)

/-- `bm_double_sha512`. -/
def doubleSha512 (data : Bytes) : Bytes := H.sha512 (H.sha512 data)

/-- `bm_inventory_hash`. -/
def inventoryHash (payload : Bytes) : Bytes := (doubleSha512 H payload).take 32

/-- Hashes that keep the first bytes. -/
def prefixHashes : Hashes where
  sha512 data := (data ++ List.replicate 64 0).take 64
  ripemd160 data := (data ++ List.replicate 20 0).take 20
  length_sha512 data := by simp
  length_ripemd160 data := by simp

end Bitmessage
