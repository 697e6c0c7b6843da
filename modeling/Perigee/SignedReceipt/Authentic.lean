import Perigee.Data.Sha256
import Perigee.Data.Wire
import Perigee.Soroban.Store

/-!
# Signed receipts

`core/src/signed_receipt.rs`.  A receipt carries a MAC of its canonical bytes.  In these every text
follows its length, and the first text names the kind of the receipt, so they determine the kind
and all the fields that are signed.
-/

namespace Receipts

open Wire Soroban
open Sha256 (Digest)

/-- The bytes of a text; a `String` holds at most `isize::MAX` of them. -/
structure Text where
  bytes : Bytes
  fits : bytes.length < 2 ^ 63

def Text.empty : Text := ⟨[], by decide⟩

/-- HMAC-SHA256, SHA-256 and the encodings of keys and signatures. -/
structure Crypto where
  hmac : Bytes → Bytes → Digest
  sha256 : Bytes → Digest
  hex : Bytes → Text
  base64Encode : Bytes → Text
  base64Decode : Text → Option Bytes

inductive ReceiptError where
  | emptySecret

structure SignedReceipt where
  paymentId : Text
  amount : UInt64
  receiverAgent : Text
  senderAgent : Text
  signature : Bytes
  signerPublicKey : Bytes

structure ApiReceipt where
  receiptId : Text
  operation : Text
  resourceId : Text
  actor : Text
  method : Text
  path : Text
  status : UInt16
  responseDigest : Text
  issuedAt : Int64
  keyId : Text
  signature : Text

/-- What `append_field` appends. -/
def field (bytes : Bytes) : Bytes := bigEndian 8 bytes.length ++ bytes

def SignedReceipt.toCanonicalBytes (r : SignedReceipt) : Bytes :=
  [field (ascii "perigee-receipt-v1"), field r.paymentId.bytes, be64 r.amount,
    field r.receiverAgent.bytes, field r.senderAgent.bytes].flatten

def ApiReceipt.toCanonicalBytes (r : ApiReceipt) : Bytes :=
  [field (ascii "perigee-api-receipt-v1"), field r.receiptId.bytes, field r.operation.bytes,
    field r.resourceId.bytes, field r.actor.bytes, field r.method.bytes, field r.path.bytes,
    bigEndian 2 r.status.toNat, field r.responseDigest.bytes, be64 r.issuedAt.toUInt64,
    field r.keyId.bytes].flatten

section Code

variable (crypto : Crypto)

def keyFingerprint (secret : Bytes) : Digest :=
  crypto.sha256 (ascii "perigee-receipt-key" ++ [0] ++ secret)

def verifyMac (secret payload signature : Bytes) : Bool :=
  if secret = [] ∨ signature.length ≠ 32 then false
  else decide (signature = (crypto.hmac secret payload).1)

structure ReceiptSigner where
  secret : Bytes
  keyId : Text

def isAsciiWhitespace (byte : UInt8) : Bool := byte ∈ [9, 10, 12, 13, 32]

def ReceiptSigner.new (secret : Bytes) : Except ReceiptError ReceiptSigner :=
  if secret = [] ∨ secret.all isAsciiWhitespace then .error .emptySecret
  else .ok ⟨secret, crypto.hex (keyFingerprint crypto secret).1⟩

-- `calculate_mac` fails for no secret: HMAC takes keys of every length.

def ReceiptSigner.sign (signer : ReceiptSigner) (r : SignedReceipt) : SignedReceipt :=
  { r with
    signature := (crypto.hmac signer.secret r.toCanonicalBytes).1
    signerPublicKey := (keyFingerprint crypto signer.secret).1 }

def ReceiptSigner.signApi (signer : ReceiptSigner) (r : ApiReceipt) : ApiReceipt :=
  let signed := { r with keyId := signer.keyId }
  { signed with
    signature := crypto.base64Encode (crypto.hmac signer.secret signed.toCanonicalBytes).1 }

def SignedReceipt.verifySignature (r : SignedReceipt) : Bool :=
  decide (r.signature.length = 32 ∧ r.signerPublicKey.length = 32)

def SignedReceipt.verifyWithSecret (r : SignedReceipt) (secret : Bytes) : Bool :=
  if !r.verifySignature then false
  else if r.signerPublicKey ≠ (keyFingerprint crypto secret).1 then false
  else verifyMac crypto secret r.toCanonicalBytes r.signature

def ApiReceipt.verifySignature (r : ApiReceipt) (secret : Bytes) : Bool :=
  if 128 < r.signature.bytes.length then false
  else (crypto.base64Decode r.signature).any (verifyMac crypto secret r.toCanonicalBytes)

structure ReceiptVerifier where
  trustedKeys : Store Bytes Bytes := ∅

namespace ReceiptVerifier

variable (v : ReceiptVerifier)

def addKey (keyId : Text) (secret : Bytes) : ReceiptVerifier :=
  { v with trustedKeys := v.trustedKeys.set keyId.bytes secret }

def addTrustedKey (secret : Bytes) : ReceiptVerifier :=
  v.addKey (crypto.hex (keyFingerprint crypto secret).1) secret

def withSecret (secret : Bytes) : Except ReceiptError ReceiptVerifier := do
  let signer ← ReceiptSigner.new crypto secret
  return addKey {} signer.keyId secret

def verify (r : SignedReceipt) : Bool :=
  if !r.verifySignature then false
  else (v.trustedKeys.lookup (crypto.hex r.signerPublicKey).bytes).any (r.verifyWithSecret crypto)

def verifyApi (r : ApiReceipt) : Bool :=
  (v.trustedKeys.lookup r.keyId.bytes).any (r.verifySignature crypto)

end ReceiptVerifier

end Code

/-! ## What was signed -/

/-- A receipt that a signer was given to sign. -/
inductive Signing where
  | receipt (signer : ReceiptSigner) (r : SignedReceipt)
  | api (signer : ReceiptSigner) (r : ApiReceipt)

def Signing.secret : Signing → Bytes
  | .receipt signer _ | .api signer _ => signer.secret

/-- The bytes of which the signer computes the MAC. -/
def Signing.payload : Signing → Bytes
  | .receipt _ r => r.toCanonicalBytes
  | .api signer r => { r with keyId := signer.keyId }.toCanonicalBytes

def ReceiptVerifier.Trusts (v : ReceiptVerifier) (secret : Bytes) : Prop :=
  ∃ keyId, v.trustedKeys.lookup keyId = some secret

/-- A MAC of the payload that verifies with a trusted secret was computed by a signer that has
this secret. -/
def Unforged (crypto : Crypto) (v : ReceiptVerifier) (log : List Signing)
    (payload signature : Bytes) : Prop :=
  ∀ secret, v.Trusts secret → verifyMac crypto secret payload signature = true →
    ∃ signing ∈ log, signing.secret = secret ∧ signing.payload = payload

/-- The fields that are signed. -/
def SignedReceipt.unsigned (r : SignedReceipt) : SignedReceipt :=
  { r with signature := [], signerPublicKey := [] }

def ApiReceipt.unsigned (r : ApiReceipt) : ApiReceipt := { r with signature := .empty }

/-! ## Canonical bytes -/

theorem field_append_inj {a b x y : Bytes} (ha : a.length < 2 ^ 63) (hb : b.length < 2 ^ 63)
    (same : field a ++ x = field b ++ y) : a = b ∧ x = y := by
  simp only [field, List.append_assoc] at same
  obtain ⟨length, rest⟩ := List.append_inj same (by simp)
  apply List.append_inj rest
  exact bigEndian_injective (by omega) (by omega) length

theorem Text.append_inj {a b : Text} {x y : Bytes}
    (same : field a.bytes ++ x = field b.bytes ++ y) : a = b ∧ x = y := by
  obtain ⟨bytes, rest⟩ := field_append_inj a.fits b.fits same
  cases a
  cases b
  exact ⟨by simpa using bytes, rest⟩

theorem SignedReceipt.unsigned_eq {r r' : SignedReceipt}
    (same : r.toCanonicalBytes = r'.toCanonicalBytes) : r.unsigned = r'.unsigned := by
  obtain ⟨paymentId, same⟩ := Text.append_inj (List.append_cancel_left same)
  obtain ⟨amount, same⟩ := be64_append_inj same
  obtain ⟨receiver, same⟩ := Text.append_inj same
  obtain ⟨sender, -⟩ := Text.append_inj same
  simp [unsigned, paymentId, amount, receiver, sender]

theorem ApiReceipt.unsigned_eq {r r' : ApiReceipt}
    (same : r.toCanonicalBytes = r'.toCanonicalBytes) : r.unsigned = r'.unsigned := by
  obtain ⟨receiptId, same⟩ := Text.append_inj (List.append_cancel_left same)
  obtain ⟨operation, same⟩ := Text.append_inj same
  obtain ⟨resourceId, same⟩ := Text.append_inj same
  obtain ⟨actor, same⟩ := Text.append_inj same
  obtain ⟨method, same⟩ := Text.append_inj same
  obtain ⟨path, same⟩ := Text.append_inj same
  obtain ⟨code, same⟩ := List.append_inj same (by simp)
  have status : r.status = r'.status :=
    UInt16.toNat_inj.1 (bigEndian_injective r.status.toNat_lt r'.status.toNat_lt code)
  obtain ⟨responseDigest, same⟩ := Text.append_inj same
  obtain ⟨seconds, same⟩ := be64_append_inj same
  have issuedAt : r.issuedAt = r'.issuedAt := congrArg Int64.ofUInt64 seconds
  obtain ⟨keyId, -⟩ := Text.append_inj same
  simp [unsigned, receiptId, operation, resourceId, actor, method, path, status, responseDigest,
    issuedAt, keyId]

theorem canonical_ne (r : SignedReceipt) (r' : ApiReceipt) :
    r.toCanonicalBytes ≠ r'.toCanonicalBytes := by
  intro same
  obtain ⟨tag, -⟩ := field_append_inj (by decide) (by decide) same
  exact absurd tag (by decide)

/-! ## Acceptance -/

section Acceptance

variable {crypto : Crypto} {v : ReceiptVerifier}

theorem eq_hmac_of_verifyMac {secret payload signature : Bytes}
    (verified : verifyMac crypto secret payload signature = true) :
    signature = (crypto.hmac secret payload).1 := by
  unfold verifyMac at verified
  split_ifs at verified
  exact of_decide_eq_true verified

theorem verifyMac_of_verify {r : SignedReceipt} (accepted : v.verify crypto r = true) :
    ∃ secret, v.Trusts secret ∧ r.signerPublicKey = (keyFingerprint crypto secret).1 ∧
      verifyMac crypto secret r.toCanonicalBytes r.signature = true := by
  unfold ReceiptVerifier.verify at accepted
  split_ifs at accepted
  obtain ⟨secret, stored, verified⟩ := (Option.any_eq_true _ _).1 accepted
  unfold SignedReceipt.verifyWithSecret at verified
  split_ifs at verified with key
  exact ⟨secret, ⟨_, stored⟩, not_not.1 key, verified⟩

theorem verifyMac_of_verifyApi {r : ApiReceipt} (accepted : v.verifyApi crypto r = true) :
    ∃ secret signature, v.Trusts secret ∧ crypto.base64Decode r.signature = some signature ∧
      verifyMac crypto secret r.toCanonicalBytes signature = true := by
  obtain ⟨secret, stored, verified⟩ := (Option.any_eq_true _ _).1 accepted
  unfold ApiReceipt.verifySignature at verified
  split_ifs at verified
  obtain ⟨signature, decoded, mac⟩ := (Option.any_eq_true _ _).1 verified
  exact ⟨secret, signature, ⟨_, stored⟩, decoded, mac⟩

/-- A signature and a key that a signer computed for equal fields are those `sign` returns. -/
theorem sign_eq {signer : ReceiptSigner} {original r : SignedReceipt}
    (fields : original.unsigned = r.unsigned)
    (mac : r.signature = (crypto.hmac signer.secret original.toCanonicalBytes).1)
    (key : r.signerPublicKey = (keyFingerprint crypto signer.secret).1) :
    signer.sign crypto original = r := by
  cases r
  simp only [SignedReceipt.unsigned, SignedReceipt.mk.injEq] at fields mac key
  simp [ReceiptSigner.sign, fields, mac, key]

end Acceptance

/-- An accepted receipt was signed, as a receipt of its kind, by a holder of a trusted secret. -/
theorem accepted_receipts_were_signed (crypto : Crypto) (v : ReceiptVerifier)
    (log : List Signing) :
    (∀ r : SignedReceipt, Unforged crypto v log r.toCanonicalBytes r.signature →
      v.verify crypto r = true →
      ∃ signer original, .receipt signer original ∈ log ∧ v.Trusts signer.secret ∧
        signer.sign crypto original = r) ∧
    (∀ r : ApiReceipt,
      (∀ signature, crypto.base64Decode r.signature = some signature →
        Unforged crypto v log r.toCanonicalBytes signature) →
      v.verifyApi crypto r = true →
      ∃ signer original, .api signer original ∈ log ∧ v.Trusts signer.secret ∧
        (signer.signApi crypto original).unsigned = r.unsigned) ∧
    (∀ r r' : SignedReceipt,
      r.toCanonicalBytes = r'.toCanonicalBytes ↔ r.unsigned = r'.unsigned) ∧
    (∀ r r' : ApiReceipt,
      r.toCanonicalBytes = r'.toCanonicalBytes ↔ r.unsigned = r'.unsigned) ∧
    ∀ (r : SignedReceipt) (r' : ApiReceipt), r.toCanonicalBytes ≠ r'.toCanonicalBytes := by
  refine ⟨?_, ?_, ?_, ?_, canonical_ne⟩
  · intro r unforged accepted
    obtain ⟨secret, trusted, key, verified⟩ := verifyMac_of_verify accepted
    have mac := eq_hmac_of_verifyMac verified
    obtain ⟨signing, signed, rfl, payload⟩ := unforged secret trusted verified
    cases signing with
    | receipt signer original =>
      refine ⟨signer, original, signed, trusted, sign_eq ?_ ?_ key⟩
      · exact SignedReceipt.unsigned_eq payload
      · rw [← payload] at mac
        exact mac
    | api signer original => exact absurd payload.symm (canonical_ne r _)
  · intro r unforged accepted
    obtain ⟨secret, signature, trusted, decoded, verified⟩ := verifyMac_of_verifyApi accepted
    obtain ⟨signing, signed, rfl, payload⟩ := unforged signature decoded secret trusted verified
    cases signing with
    | receipt signer original => exact absurd payload (canonical_ne original r)
    | api signer original =>
      exact ⟨signer, original, signed, trusted, ApiReceipt.unsigned_eq payload⟩
  · intro r r'
    refine ⟨SignedReceipt.unsigned_eq, fun same => ?_⟩
    show r.unsigned.toCanonicalBytes = r'.unsigned.toCanonicalBytes
    rw [same]
  · intro r r'
    refine ⟨ApiReceipt.unsigned_eq, fun same => ?_⟩
    show r.unsigned.toCanonicalBytes = r'.unsigned.toCanonicalBytes
    rw [same]

/-! ## Receipts under HMAC-SHA256 -/

def hmacSha256 (secret payload : Bytes) : Digest :=
  let key := if 64 < secret.length then (Sha256.digest secret).1 else secret
  let block := key ++ List.replicate (64 - key.length) 0
  Sha256.digest (block.map (· ^^^ 0x5c) ++
    (Sha256.digest (block.map (· ^^^ 0x36) ++ payload)).1)

/-- The last `count` digits of `n` in the base of the alphabet. -/
def digits (alphabet : Bytes) (count n : ℕ) : Bytes := (List.range count).map fun i =>
  alphabet.getD (n / alphabet.length ^ (count - 1 - i) % alphabet.length) 0

/-- The alphabet of `URL_SAFE_NO_PAD`. -/
def base64Url : Bytes :=
  ascii "ABCDEFGHIJKLMNOPQRSTUVWXYZabcdefghijklmnopqrstuvwxyz0123456789-_"

def encodeBase64 (bytes : Bytes) : Bytes :=
  let count := (4 * bytes.length + 2) / 3
  digits base64Url count (ofBigEndian bytes * 2 ^ (6 * count - 8 * bytes.length))

/-- Only what the encoder returns is accepted. -/
def decodeBase64 (text : Bytes) : Option Bytes :=
  let n := text.foldl (fun n c => 64 * n + base64Url.idxOf c) 0
  let bytes := bigEndian (6 * text.length / 8) (n / 2 ^ (6 * text.length % 8))
  if encodeBase64 bytes = text then some bytes else none

def Text.of (bytes : Bytes) : Text :=
  if fits : bytes.length < 2 ^ 63 then ⟨bytes, fits⟩ else .empty

def sampleCrypto : Crypto where
  hmac := hmacSha256
  sha256 := Sha256.digest
  hex bytes := .of (digits (ascii "0123456789abcdef") (2 * bytes.length) (ofBigEndian bytes))
  base64Encode bytes := .of (encodeBase64 bytes)
  base64Decode text := decodeBase64 text.bytes

-- a published test vector
example : hmacSha256 (ascii "Jefe") (ascii "what do ya want for nothing?") =
    ⟨bigEndian 32 0x5bdcc146bf60754e6a042426089575c75a003f089d2739839dec58b964ec3843,
      length_bigEndian _ _⟩ := by
  decide +kernel

def sampleSigner : ReceiptSigner := ⟨[7], sampleCrypto.hex (keyFingerprint sampleCrypto [7]).1⟩

def samplePayment : SignedReceipt :=
  ⟨.of (ascii "pay-1"), 1000, .of (ascii "agent-b"), .of (ascii "agent-a"), [], []⟩

def sampleWrite : ApiReceipt :=
  ⟨.of (ascii "r-1"), .of (ascii "create"), .of (ascii "vault-5"), .of (ascii "agent-a"),
    .of (ascii "POST"), .of (ascii "/vaults"), 200, .of (ascii "00ff"), 1700000000, .empty, .empty⟩

theorem both_kinds_accepted :
    (∃ signer original,
      .receipt signer original ∈ [Signing.receipt sampleSigner samplePayment] ∧
      (ReceiptVerifier.addTrustedKey sampleCrypto {} [7]).Trusts signer.secret ∧
      signer.sign sampleCrypto original = sampleSigner.sign sampleCrypto samplePayment) ∧
    ∃ signer original,
      .api signer original ∈ [Signing.api sampleSigner sampleWrite] ∧
      (ReceiptVerifier.addTrustedKey sampleCrypto {} [7]).Trusts signer.secret ∧
      (signer.signApi sampleCrypto original).unsigned =
        (sampleSigner.signApi sampleCrypto sampleWrite).unsigned := by
  have only : ∀ secret, (ReceiptVerifier.addTrustedKey sampleCrypto {} [7]).Trusts secret →
      [7] = secret := by
    rintro secret ⟨keyId, stored⟩
    simp only [ReceiptVerifier.addTrustedKey, ReceiptVerifier.addKey, Store.lookup_set] at stored
    split_ifs at stored
    · simpa using stored
    · simp at stored
  constructor
  · apply (accepted_receipts_were_signed sampleCrypto _ _).1
    · exact fun secret trusted _ => ⟨_, List.mem_singleton_self _, only secret trusted, rfl⟩
    · decide +kernel
  · apply (accepted_receipts_were_signed sampleCrypto _ _).2.1
    · exact fun _ _ secret trusted _ => ⟨_, List.mem_singleton_self _, only secret trusted, rfl⟩
    · decide +kernel

end Receipts
