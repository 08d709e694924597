import Loam.BodyWire
import Loam.ErasureCode
import Loam.LittleEndian

/-!
# Shard blobs

A shard is stored under a key derived from its body's digest and its index, in
a blob that says whose shard it is: the geometry, the index, the body's length
and digest, and the shard's bytes. Nothing else is kept about a body anywhere,
so what is read back is checked against the blob's own header.

SHA-256 itself is not modelled: `sha` below is any function from bytes to
names.
-/

namespace Loam

/-! ## The blob -/

/-- What a shard blob says of itself. -/
structure ShardHeader where
  k : ℕ
  m : ℕ
  index : ℕ
  bodyLen : ℕ
  bodyDigest : Digest
  shardLen : ℕ
deriving DecidableEq

/-- The mark a shard blob opens with (`SHARD_MAGIC`). -/
def shardMagic : ℕ := 0xEC5D

/-- The bytes before the shard (`SHARD_HDR`). -/
def shardHdr : ℕ := 45

/-- The tag of a derived key, `loam-ec-shard`. -/
def keyTag : Bytes := [108, 111, 97, 109, 45, 101, 99, 45, 115, 104, 97, 114, 100]

/-- The key shard `index` of a body is stored under. -/
def deriveShardKey (sha : Bytes → Digest) (digest : Digest) (index : ℕ) : Digest :=
  sha (keyTag ++ digest.val ++ [UInt8.ofNat index])

/-- A shard framed with its header. -/
def encodeShardBlob (h : ShardHeader) (shard : Bytes) : Bytes :=
  leBytes 2 shardMagic ++ ([UInt8.ofNat h.k, UInt8.ofNat h.m, UInt8.ofNat h.index]
    ++ (leBytes 4 h.bodyLen ++ (h.bodyDigest.val ++ (leBytes 4 shard.length ++ shard))))

/-- Thirty-two bytes as a name. -/
def Digest.ofBytes (b : Bytes) : Option Digest := if h : b.length = 32 then some ⟨b, h⟩ else none

/-- The header of a blob, if it is whole. -/
def decodeShardHeader (src : Bytes) : Option ShardHeader :=
  if src.length < shardHdr then none
  else if leNat (src.take 2) ≠ shardMagic then none
  else
    let shardLen := leNat ((src.drop 41).take 4)
    if src.length < shardHdr + shardLen then none
    else (Digest.ofBytes ((src.drop 9).take 32)).map fun digest =>
      { k := (src.getD 2 0).toNat
        m := (src.getD 3 0).toNat
        index := (src.getD 4 0).toNat
        bodyLen := leNat ((src.drop 5).take 4)
        bodyDigest := digest
        shardLen := shardLen }

/-- The shard's bytes in a decoded blob. -/
def shardPayload (src : Bytes) : Option Bytes :=
  (decodeShardHeader src).map fun h => (src.drop shardHdr).take h.shardLen

section RoundTrip

variable {h : ShardHeader} {shard : Bytes}

/-- **A framed shard is read back.** -/
theorem decodeShardHeader_encode (hk : h.k < 256) (hm : h.m < 256) (hi : h.index < 256)
    (hb : h.bodyLen < 2 ^ 32) (hs : shard.length < 2 ^ 32) :
    decodeShardHeader (encodeShardBlob h shard) = some { h with shardLen := shard.length } := by
  have hd := h.bodyDigest.property
  have hmagic : (encodeShardBlob h shard).take 2 = leBytes 2 shardMagic :=
    List.take_left' (length_leBytes 2 _)
  have hbody : ((encodeShardBlob h shard).drop 5).take 4 = leBytes 4 h.bodyLen :=
    List.take_left' (length_leBytes 4 _)
  have hdig : ((encodeShardBlob h shard).drop 9).take 32 = h.bodyDigest.val := by
    have hhead : (leBytes 2 shardMagic ++ [UInt8.ofNat h.k, UInt8.ofNat h.m, UInt8.ofNat h.index]
        ++ leBytes 4 h.bodyLen).length = 9 := by simp
    have : (encodeShardBlob h shard).drop 9
        = h.bodyDigest.val ++ (leBytes 4 shard.length ++ shard) := List.drop_left' hhead
    rw [this, List.take_left' hd]
  have hlen : ((encodeShardBlob h shard).drop 41).take 4 = leBytes 4 shard.length := by
    have : (encodeShardBlob h shard).drop 41 = leBytes 4 shard.length ++ shard := by
      rw [show 41 = 9 + 32 from rfl, ← List.drop_drop]
      have : (encodeShardBlob h shard).drop 9
          = h.bodyDigest.val ++ (leBytes 4 shard.length ++ shard) := rfl
      rw [this, List.drop_left' hd]
    rw [this, List.take_left' (length_leBytes 4 _)]
  have htotal : (encodeShardBlob h shard).length = shardHdr + shard.length := by
    simp [encodeShardBlob, hd, shardHdr]
    omega
  rw [decodeShardHeader, if_neg (by omega), hmagic, leNat_leBytes (by decide), if_neg (by simp),
    hlen, leNat_leBytes (by omega)]
  dsimp only
  rw [if_neg (by omega), hdig, hbody, leNat_leBytes (by omega), Digest.ofBytes, dif_pos hd]
  have h2 : (encodeShardBlob h shard).getD 2 0 = UInt8.ofNat h.k := rfl
  have h3 : (encodeShardBlob h shard).getD 3 0 = UInt8.ofNat h.m := rfl
  have h4 : (encodeShardBlob h shard).getD 4 0 = UInt8.ofNat h.index := rfl
  rw [h2, h3, h4]
  simp [UInt8.toNat_ofNat', Nat.mod_eq_of_lt hk, Nat.mod_eq_of_lt hm, Nat.mod_eq_of_lt hi]

theorem shardPayload_encode (hk : h.k < 256) (hm : h.m < 256) (hi : h.index < 256)
    (hb : h.bodyLen < 2 ^ 32) (hs : shard.length < 2 ^ 32) :
    shardPayload (encodeShardBlob h shard) = some shard := by
  rw [shardPayload, decodeShardHeader_encode hk hm hi hb hs, Option.map_some]
  have hd := h.bodyDigest.property
  have : (encodeShardBlob h shard).drop shardHdr = shard := by
    rw [show shardHdr = 9 + 32 + 4 from rfl, ← List.drop_drop, ← List.drop_drop]
    have : (encodeShardBlob h shard).drop 9
        = h.bodyDigest.val ++ (leBytes 4 shard.length ++ shard) := rfl
    rw [this, List.drop_left' hd, List.drop_left' (length_leBytes 4 _)]
  rw [this, List.take_length]

end RoundTrip

end Loam
