import AuthKademlia.RecordEncoding

/-!
# Signers and what they sign

The other side of `SignatureVerifier`: the three signers, the factory that picks one from an
algorithm tag, and what the holder of a key pair can do with them.  As for the verifiers, the
calls into the crates are the fields of a structure, with the randomness they draw as an
argument.

`KeyPair` says of the crates what they promise: a signature made with a private key is as
long as the scheme's signatures are and verifies under the public key.  The rest is shown:
the factories pick the same scheme, and the lengths of the keys lead the signer and the verifier
to the same security level (`KeyPair.signs`).  A record is accepted if the handler cuts it where
its signature ends (`KeyedRecord.exists_sealed`); this is so for RSA with 2048 bits, Ed25519 and
Dilithium of level 2, but not for the levels 3 and 5.

## Main definitions

* `SigningLib`, `getSigner`, `Signer.sign` — the signers.
* `KeyPair` — a private key and its public key.
* `KeyedRecord` — an accepted record whose private key is known.
-/

namespace AuthKademlia

open Lib

/-! ## The signers -/

/-- An RSA private key. -/
structure RsaPrivateKey where
  publicKey : RsaPublicKey
  d : ℕ

/-- The third-party calls of the signing path; `coins` is what a call draws at random. -/
structure SigningLib extends CryptoLib where
  /-- `RsaPrivateKey::from_pkcs8_der`. -/
  rsaFromPkcs8Der : Bytes → Except String RsaPrivateKey
  /-- `RsaPrivateKey::from_pkcs8_pem`. -/
  rsaFromPkcs8Pem : String → Except String RsaPrivateKey
  /-- `SigningKey::<Sha256>::sign_with_rng(..).to_bytes()` on key and message. -/
  rsaSign : (coins : Bytes) → RsaPrivateKey → Bytes → Bytes
  /-- `SigningKey::from_bytes(..).sign(..).to_bytes()` on seed and message. -/
  ed25519Sign : Bytes → Bytes → Bytes
  /-- `dilithiumN::SecretKey::from_bytes` for security level `N`. -/
  dilithiumSecretKey : UInt8 → Bytes → Option Bytes
  /-- `dilithiumN::detached_sign(..).as_bytes()` on message and key. -/
  dilithiumSign : UInt8 → (coins : Bytes) → Bytes → Bytes → Bytes

/-- Infer the Dilithium security level from the private key length. -/
def dilithiumLevelFromPrivkeyLen (len : ℕ) : Option UInt8 :=
  if len = 2560 then some 2
  else if len = 4032 then some 3
  else if len = 4896 then some 5
  else none

/-- The implementors of the `Signer` trait. -/
inductive Signer where
  | rsa
  | ed25519
  | dilithium
  deriving DecidableEq

section Signers

variable (lib : SigningLib)

/-- Load an RSA private key from DER or else PEM bytes. -/
def loadPrivateKey (key : Bytes) : Except VerifierError RsaPrivateKey :=
  match lib.rsaFromPkcs8Der key with
  | .ok pk => .ok pk
  | .error _ => do
      let pem ← (fromUtf8 lib.toCryptoLib key).mapError .verificationFailed
      (lib.rsaFromPkcs8Pem pem).mapError .verificationFailed

def signRsa (coins privateKey message : Bytes) : Except VerifierError Bytes := do
  let rsaPriv ← loadPrivateKey lib privateKey
  return lib.rsaSign coins rsaPriv message

def signEd25519 (privateKey message : Bytes) : Except VerifierError Bytes :=
  if privateKey.length ≠ 32 then .error (.invalidKeyLength privateKey.length)
  else .ok (lib.ed25519Sign privateKey message)

/-- `sign_d2`, `sign_d3` and `sign_d5`, by security level. -/
def signDilithiumAt (level : UInt8) (coins privateKey message : Bytes) :
    Except VerifierError Bytes :=
  match lib.dilithiumSecretKey level privateKey with
  | none => .error (.invalidKeyLength privateKey.length)
  | some sk => .ok (lib.dilithiumSign level coins message sk)

def signD2 := signDilithiumAt lib 2
def signD3 := signDilithiumAt lib 3
def signD5 := signDilithiumAt lib 5

def signDilithium (coins privateKey message : Bytes) : Except VerifierError Bytes :=
  match dilithiumLevelFromPrivkeyLen privateKey.length with
  | none => .error (.invalidKeyLength privateKey.length)
  | some level =>
      if level = 2 then signD2 lib coins privateKey message
      else if level = 3 then signD3 lib coins privateKey message
      else signD5 lib coins privateKey message

def Signer.sign (coins : Bytes) : Signer → Bytes → Bytes → Except VerifierError Bytes
  | rsa => signRsa lib coins
  | ed25519 => signEd25519 lib
  | dilithium => signDilithium lib coins

end Signers

/-- `SignerFactory::get_signer`. -/
def getSigner (algorithm : String) : Except VerifierError Signer :=
  let base := trim (algorithm.toList.takeWhile (· ≠ '-'))
  if base = "RSA".toList then .ok .rsa
  else if base = "Ed25519".toList then .ok .ed25519
  else if base = "Dilithium".toList then .ok .dilithium
  else .error (.unsupportedAlgorithm (String.ofList base))

/-! ## Key pairs -/

/-- The signer of the scheme a verifier checks. -/
def Verifier.signer : Verifier → Signer
  | .rsa => .rsa
  | .ed25519 => .ed25519
  | .dilithium => .dilithium

/-- **The factories agree** on the scheme of a tag. -/
theorem getSigner_of_getVerifier {alg : String} {verifier : Verifier}
    (h : getVerifier alg = .ok verifier) : getSigner alg = .ok verifier.signer := by
  simp only [getVerifier] at h
  simp only [getSigner]
  split_ifs at h ⊢ with hrsa hed hdil <;> cases h <;> rfl

/-- The lengths of the private key, the public key and the signatures of a Dilithium level.
The crate has them; `resolve_alg_and_length` has 3293 and 4595 bytes for the signatures of the
levels 3 and 5. -/
def dilithiumSizes : List (UInt8 × ℕ × ℕ × ℕ) :=
  [(2, 2560, 1312, 2420), (3, 4032, 1952, 3309), (5, 4896, 2592, 4627)]

/-- A private key and its public key, for a scheme whose signatures have length `len`: both
are decoded, and what is signed with the one verifies under the other. -/
inductive KeyPair (lib : SigningLib) (sk pk : Bytes) : Verifier → ℕ → Prop
  | rsa {key : RsaPrivateKey} {pub : RsaPublicKey} (hsk : loadPrivateKey lib sk = .ok key)
      (hpk : loadPublicKey lib.toCryptoLib pk = .ok pub)
      (length : ∀ coins message, (lib.rsaSign coins key message).length = 256)
      (sound : ∀ coins message, ∃ sig, lib.rsaSignature (lib.rsaSign coins key message) = .ok sig ∧
        lib.rsaVerify pub message sig = true) :
      KeyPair lib sk pk .rsa 256
  | ed25519 {pub : Bytes} (hsk : sk.length = 32) (hlength : pk.length = 32)
      (hpk : lib.ed25519FromBytes pk = .ok pub)
      (length : ∀ message, (lib.ed25519Sign sk message).length = 64)
      (sound : ∀ message, lib.ed25519Verify pub message (lib.ed25519Sign sk message) = true) :
      KeyPair lib sk pk .ed25519 64
  | dilithium {level : UInt8} {len : ℕ} {key pub : Bytes}
      (hsizes : (level, sk.length, pk.length, len) ∈ dilithiumSizes)
      (hsk : lib.dilithiumSecretKey level sk = some key)
      (hpk : lib.dilithiumPublicKey level pk = some pub)
      (length : ∀ coins message, (lib.dilithiumSign level coins message key).length = len)
      (sound : ∀ coins message, ∃ sig,
        lib.dilithiumSignature level (lib.dilithiumSign level coins message key) = some sig ∧
          lib.dilithiumVerify level sig message pub = true) :
      KeyPair lib sk pk .dilithium len

section KeyPair

variable {lib : SigningLib} {sk pk : Bytes} {verifier : Verifier} {len : ℕ}

/-- The signer and the verifier infer the level of the pair, each from its own key. -/
theorem signDilithium_of_sizes {level : UInt8}
    (h : (level, sk.length, pk.length, len) ∈ dilithiumSizes) (coins message : Bytes) :
    signDilithium lib coins sk message = signDilithiumAt lib level coins sk message := by
  simp only [dilithiumSizes, List.mem_cons, Prod.mk.injEq, List.not_mem_nil, or_false] at h
  obtain ⟨rfl, hsk, -⟩ | ⟨rfl, hsk, -⟩ | ⟨rfl, hsk, -⟩ := h <;>
    simp [signDilithium, dilithiumLevelFromPrivkeyLen, hsk, signD2, signD3, signD5]

theorem verifyDilithium_of_sizes {level : UInt8}
    (h : (level, sk.length, pk.length, len) ∈ dilithiumSizes) (sig message : Bytes) :
    verifyDilithium lib.toCryptoLib pk sig message =
      verifyDilithiumAt level lib.toCryptoLib pk sig message := by
  simp only [dilithiumSizes, List.mem_cons, Prod.mk.injEq, List.not_mem_nil, or_false] at h
  obtain ⟨rfl, -, hpk, -⟩ | ⟨rfl, -, hpk, -⟩ | ⟨rfl, -, hpk, -⟩ := h <;>
    simp [verifyDilithium, dilithiumLevelFromPubkeyLen, hpk, verifyD2, verifyD3, verifyD5]

/-- **What a key pair signs verifies**, whatever is signed and drawn. -/
theorem KeyPair.signs (h : KeyPair lib sk pk verifier len) (coins message : Bytes) :
    ∃ sig, verifier.signer.sign lib coins sk message = .ok sig ∧ sig.length = len ∧
      verifier.verify lib.toCryptoLib pk sig message = .ok true := by
  cases h with
  | @rsa key pub hsk hpk length sound =>
      obtain ⟨sig, hsig, hverify⟩ := sound coins message
      refine ⟨lib.rsaSign coins key message, ?_, length coins message, ?_⟩
      · simp [Verifier.signer, Signer.sign, signRsa, hsk, bind, Except.bind, pure, Except.pure]
      · simp [Verifier.verify, verifyRsa, hpk, hsig, hverify, bind, Except.bind, Except.mapError,
          pure, Except.pure]
  | ed25519 hsk hlength hpk length sound =>
      refine ⟨lib.ed25519Sign sk message, ?_, length message, ?_⟩
      · simp [Verifier.signer, Signer.sign, signEd25519, hsk]
      · simp [Verifier.verify, verifyEd25519, hlength, length, hpk, sound, bind, Except.bind,
          Except.mapError, pure, Except.pure]
  | @dilithium level _ key pub hsizes hsk hpk length sound =>
      obtain ⟨sig, hsig, hverify⟩ := sound coins message
      refine ⟨lib.dilithiumSign level coins message key, ?_, length coins message, ?_⟩
      · rw [Verifier.signer, Signer.sign, signDilithium_of_sizes hsizes, signDilithiumAt, hsk]
      · rw [Verifier.verify, verifyDilithium_of_sizes hsizes]
        simp [verifyDilithiumAt, hpk, hsig, hverify]

end KeyPair

/-! ## Records and their keys -/

/-- Sign as the algorithm tag says. -/
def signWith (lib : SigningLib) (algorithm : String) (coins privateKey message : Bytes) :
    Except VerifierError Bytes := do
  let signer ← getSigner algorithm
  signer.sign lib coins privateKey message

/-- An accepted record together with the private key of its public key. -/
structure KeyedRecord (lib : SigningLib) where
  record : Bytes
  alg : String
  sk : Bytes
  accepted : verifySelfSigned lib.toCryptoLib record = .ok true
  paired : ∃ pk verifier len, holder lib.toCryptoLib record = .ok (alg, pk) ∧
    getVerifier alg = .ok verifier ∧ KeyPair lib sk pk verifier len

namespace KeyedRecord

variable {lib : SigningLib}

/-- **A record that is put together with a key pair** is accepted, if its tag resolves to the
length of the signatures of the pair. -/
theorem exists_sealed {sk pk field sig doc coins : Bytes} {alg name : String} {verifier : Verifier}
    {len : ℕ} (hpair : KeyPair lib sk pk verifier len) (hfield : field.length = 12)
    (halg : getAlgString lib.toCryptoLib field = .ok alg)
    (hres : resolveAlgAndLength alg = .ok (name, len)) (hv : getVerifier alg = .ok verifier)
    (hpk : publicKeyFromDidDoc lib.toCryptoLib doc = .ok pk)
    (hsign : verifier.signer.sign lib coins sk doc = .ok sig) :
    ∃ r : KeyedRecord lib, r.record = field ++ (sig ++ doc) ∧ r.alg = alg ∧ r.sk = sk := by
  obtain ⟨sig', hsign', hlen, hverify⟩ := hpair.signs coins doc
  obtain rfl : sig' = sig := Except.ok.inj (hsign'.symm.trans hsign)
  obtain ⟨hsplit, hholder⟩ := holder_sealed hfield halg hres hlen hpk
  exact ⟨⟨field ++ (sig' ++ doc), alg, sk, verifySelfSigned_eq_ok_true.mpr
    ⟨sig', doc, hsplit, alg, pk, verifier, hholder, hv, hverify⟩,
    ⟨pk, verifier, len, hholder, hv, hpair⟩⟩, rfl, rfl, rfl⟩

theorem exists_signature (r : KeyedRecord lib) (coins message : Bytes) :
    ∃ sig, signWith lib r.alg coins r.sk message = .ok sig ∧
      VerifiesUnder lib.toCryptoLib r.record sig message := by
  obtain ⟨pk, verifier, len, hholder, hv, hpair⟩ := r.paired
  obtain ⟨sig, hsign, -, hverify⟩ := hpair.signs coins message
  refine ⟨sig, ?_, r.alg, pk, verifier, hholder, hv, hverify⟩
  simp only [signWith, getSigner_of_getVerifier hv, bind, Except.bind, hsign]

/-- What the holder of the record signs with its key. -/
def sign (r : KeyedRecord lib) (coins message : Bytes) : Bytes :=
  (signWith lib r.alg coins r.sk message).toOption.getD []

end KeyedRecord

/-! ## A toy scheme

The private key is the public key.  With the scheme, one more holder than in the sample records
can sign anything. -/

namespace Sample

def toyKey : Bytes := List.replicate 32 7

/-- The sample library with the key, for which the toy scheme takes the place of Ed25519. -/
def toyLib : SigningLib where
  toCryptoLib := { withHolder sampleLib toyKey with
    ed25519FromBytes := fun key =>
      if key = toyKey then .ok key else sampleLib.ed25519FromBytes key
    ed25519Verify := fun key message sig =>
      if key = toyKey then decide (sig = toySignature 64 key message)
      else sampleLib.ed25519Verify key message sig }
  rsaFromPkcs8Der _ := .error "malformed ASN.1"
  rsaFromPkcs8Pem _ := .error "PEM preamble contains invalid data"
  rsaSign _ _ message := message
  ed25519Sign seed message := toySignature 64 seed message
  dilithiumSecretKey _ _ := none
  dilithiumSign _ _ message _ := message

end Sample

end AuthKademlia
