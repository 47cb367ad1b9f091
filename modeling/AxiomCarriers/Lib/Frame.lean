import AxiomCarriers.Lib.Bytes
import Mathlib.Algebra.Group.Nat.Defs

/-!
# Length-prefixed frames

A frame is the length of its payload in four bytes, the highest first, and the payload.
`frame_prefix` reads the length off any beginning of a frame that holds the four bytes.
-/

namespace Frame

/-- A number of 32 bits in four bytes, the highest first. -/
def be32 (n : ℕ) : Bytes :=
  [(n / 2 ^ 24).toUInt8, (n / 2 ^ 16).toUInt8, (n / 2 ^ 8).toUInt8, n.toUInt8]

/-- The number that bytes give, the highest first. -/
def ofBe (b : Bytes) : ℕ := b.foldl (fun n d => 256 * n + d.toNat) 0

def frame (payload : Bytes) : Bytes := be32 payload.length ++ payload

/-- The length that the first four bytes announce. -/
def announced (b : Bytes) : ℕ := ofBe (b.take 4)

/-- A number of 32 bits in four bytes, the lowest first. -/
def le32 (n : ℕ) : Bytes := (be32 n).reverse

/-- The number that bytes give, the lowest first. -/
def ofLe (b : Bytes) : ℕ := ofBe b.reverse

theorem length_be32 (n : ℕ) : (be32 n).length = 4 := rfl

theorem length_frame (payload : Bytes) : (frame payload).length = 4 + payload.length := by
  simp [frame, length_be32]

theorem ofBe_be32 {n : ℕ} (h : n < 2 ^ 32) : ofBe (be32 n) = n := by
  have hbyte : ∀ m : ℕ, m.toUInt8.toNat = m % 256 := fun m => by
    rw [Nat.toUInt8, UInt8.toNat_ofNat']
  simp only [ofBe, be32, List.foldl_cons, List.foldl_nil, hbyte]
  omega

theorem length_le32 (n : ℕ) : (le32 n).length = 4 := rfl

theorem ofLe_le32 {n : ℕ} (h : n < 2 ^ 32) : ofLe (le32 n) = n := by
  rw [ofLe, le32, List.reverse_reverse, ofBe_be32 h]

theorem announced_frame {payload : Bytes} (h : payload.length < 2 ^ 32) (r : Bytes) :
    announced (frame payload ++ r) = payload.length := by
  rw [announced, frame, List.append_assoc, ← length_be32 payload.length, List.take_left,
    ofBe_be32 h]

/-- The beginning of a frame with its first four bytes announces the length of the payload. -/
theorem announced_of_append_eq {payload got rest : Bytes} (h : payload.length < 2 ^ 32)
    (hgot : 4 ≤ got.length) (hf : got ++ rest = frame payload) :
    announced got = payload.length := by
  have := announced_frame h []
  rwa [List.append_nil, ← hf, announced, List.take_append_of_le_length hgot] at this

end Frame
