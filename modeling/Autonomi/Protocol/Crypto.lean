/-
The cryptographic functions the code takes from its dependencies.

None of them is defined in the repository: SHA3-256 comes from `tiny_keccak` (and,
as `XorName::from_content`, from `xor_name`), Keccak-256 from `alloy`, the peer
identities and the distance metric from `libp2p` and the signatures of data owners
from `bls`.  They enter
the model as one record of functions.  Nothing is assumed of them here; a result
that needs more, such as the absence of collisions, says so in its hypotheses.
-/
import Autonomi.Lib.Bytes

namespace Autonomi

open Lib

abbrev XorName := Bytes32

abbrev NodePublicKey := Bytes

/-- A libp2p peer id, by its multihash bytes. -/
abbrev PeerId := Bytes

/-- A BLS public key of a data owner, by its 48 bytes. -/
abbrev PublicKey := Vector UInt8 48

/-- A BLS signature, by its 96 bytes. -/
abbrev Signature := Vector UInt8 96

/-- A BLS secret key of a data owner, by its 32 bytes. -/
abbrev SecretKey := Bytes32

abbrev DerivationIndex := Bytes32

structure Crypto where
  sha3_256 : Bytes → Bytes32
  /-- The hash behind the network's distance, `libp2p::kad::KBucketKey`. -/
  sha256 : Bytes → Bytes32
  keccak256 : Bytes → Bytes32
  /-- `libp2p::identity::PublicKey::try_decode_protobuf` -/
  tryDecodeProtobuf : Bytes → Option NodePublicKey
  /-- `libp2p::identity::PublicKey::verify`: key, message, signature -/
  nodeVerify : NodePublicKey → Bytes → Bytes → Bool
  /-- `PublicKey::to_peer_id` -/
  toPeerId : NodePublicKey → PeerId
  /-- `PeerId::from_bytes` -/
  peerIdFromBytes : Bytes → Option PeerId
  /-- `bls::PublicKey::verify`: key, signature, message -/
  blsVerify : PublicKey → Signature → Bytes → Bool
  /-- `bls::SecretKey::public_key` -/
  blsPublicKey : SecretKey → PublicKey
  /-- `bls::SecretKey::sign` -/
  blsSign : SecretKey → Bytes → Signature
  /-- `bls::SecretKey::derive_child` -/
  blsDeriveSecret : SecretKey → DerivationIndex → SecretKey
  /-- `bls::PublicKey::derive_child` -/
  blsDerivePublic : PublicKey → DerivationIndex → PublicKey
  /-- `bls::PublicKey::encrypt`, with what it draws at random -/
  blsEncrypt : PublicKey → Bytes32 → Bytes → Bytes
  /-- Whether `bls::Ciphertext::from_bytes` reads the bytes. -/
  blsIsCiphertext : Bytes → Bool
  /-- `bls::SecretKey::decrypt` -/
  blsDecrypt : SecretKey → Bytes → Option Bytes

def Crypto.fromContent (c : Crypto) (content : Bytes) : XorName := c.sha3_256 content

/-- What BLS keys are relied on for: that deriving commutes with taking the public key, and that
what a key has signed is accepted. -/
structure Crypto.KeysAgree (c : Crypto) : Prop where
  derive : ∀ key index,
    c.blsPublicKey (c.blsDeriveSecret key index) = c.blsDerivePublic (c.blsPublicKey key) index
  verify : ∀ key message, c.blsVerify (c.blsPublicKey key) (c.blsSign key message) message = true

/-- What names are made with does not matter for keys. -/
theorem Crypto.KeysAgree.withHash {c : Crypto} (h : c.KeysAgree) (hash : Bytes → Bytes32) :
    Crypto.KeysAgree { c with sha3_256 := hash } :=
  ⟨h.derive, h.verify⟩

/-! ### A concrete instance

Functions simple enough to evaluate, on which the model can be run.  The hash is a
polynomial in the bytes, so it tells short strings apart; a signature is accepted
when it repeats the signer's key.  A secret key is the front of its public key, a child
the sum of key and index, and encryption puts one byte in front.
-/

/-- The 32 bytes of a number, most significant first. -/
def bytes32 (n : Nat) : Bytes32 := Vector.ofFn fun i => UInt8.ofNat (n / 256 ^ (31 - i.val))

theorem getElem_bytes32 (n i : Nat) (h : i < 32) :
    (bytes32 n)[i] = UInt8.ofNat (n / 256 ^ (31 - i)) := Vector.getElem_ofFn _

/-- Small numbers are told apart by their last two bytes. -/
theorem bytes32_inj {n m : Nat} (hn : n < 2 ^ 16) (hm : m < 2 ^ 16) (h : bytes32 n = bytes32 m) :
    n = m := by
  have hbyte : ∀ i, i < 32 → n / 256 ^ (31 - i) % 256 = m / 256 ^ (31 - i) % 256 := by
    intro i hi
    have hget := getElem_bytes32 n i hi
    simp only [h, getElem_bytes32] at hget
    have hnat := congrArg UInt8.toNat hget
    rw [UInt8.toNat_ofNat', UInt8.toNat_ofNat'] at hnat
    exact hnat.symm
  have hlast : n / 1 % 256 = m / 1 % 256 := hbyte 31 (by decide)
  have hnext : n / 256 % 256 = m / 256 % 256 := hbyte 30 (by decide)
  omega

def polyHash (bytes : Bytes) : Bytes32 :=
  bytes32 (bytes.foldl (fun acc b => (acc * 257 + b.toNat + 1) % 2 ^ 256) 0)

/-- The same bytes at another width, cut off or filled up with zeros. -/
def resize {n : Nat} (m : Nat) (bytes : Vector UInt8 n) : Vector UInt8 m :=
  Vector.ofFn fun i => bytes.toList.getD i.val 0

/-- The sum of key and index; the first byte sets every child apart from the key. -/
def childBytes (key index : Bytes32) : Bytes32 :=
  (Vector.zipWith (· + ·) key index).set 0 (key[0] + index[0] + 1)

def Crypto.simple : Crypto where
  sha3_256 := polyHash
  sha256 := polyHash
  keccak256 := polyHash
  tryDecodeProtobuf := some
  nodeVerify key _ signature := signature = key
  toPeerId := id
  peerIdFromBytes := some
  blsVerify key signature _ := signature.toList.take 48 = key.toList
  blsPublicKey key := resize 48 key
  blsSign key _ := resize 96 key
  blsDeriveSecret key index := childBytes key index
  blsDerivePublic key index := resize 48 (childBytes (resize 32 key) index)
  blsEncrypt _ _ message := 0 :: message
  blsIsCiphertext bytes := !bytes.isEmpty
  blsDecrypt _ bytes := some bytes.tail

theorem resize_resize {n : Nat} (m : Nat) (h : n ≤ m) (bytes : Vector UInt8 n) :
    resize n (resize m bytes) = bytes := by
  ext i hi
  simp [resize, hi.trans_le h]

/-- The functions of the concrete instance agree. -/
theorem Crypto.simple_keysAgree : Crypto.simple.KeysAgree where
  derive key index := by
    show resize 48 _ = resize 48 (childBytes (resize 32 (resize 48 key)) index)
    rw [resize_resize 48 (by decide)]
    rfl
  verify key message := by
    have hfront : (resize 96 key).toList.take 48 = (resize 48 key).toList :=
      List.ext_getElem (by simp) fun i hi hi' => by simp [resize]
    simp only [simple, hfront, decide_true]

/-- Children of a key are told apart by their indices. -/
theorem childBytes_inj {key index index' : Bytes32}
    (h : childBytes key index = childBytes key index') : index = index' := by
  refine Vector.ext fun i hi => ?_
  have hbyte : (childBytes key index)[i] = (childBytes key index')[i] := by rw [h]
  by_cases hzero : i = 0
  · subst hzero
    simpa [childBytes] using hbyte
  · simpa [childBytes, Vector.getElem_set, Ne.symm hzero] using hbyte

end Autonomi
