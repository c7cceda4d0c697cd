import AuthKademlia.Node
import Mathlib.Tactic.Common

/-!
# Signature verifiers and the algorithm registry

A record names its algorithm in a text tag such as `Dilithium-3`.
`resolveAlgAndLength` reads the tag and says how long the signature in the record is;
`getVerifier` reads it again, with its own rule, and picks the verifier.

What the crates behind the verifiers compute (key decoding, point decompression, the
signature equations) and the JSON and base64 decoders are fields of `CryptoLib`: the
development holds for every choice of them.

## Main definitions

* `CryptoLib` — the library calls.
* `resolveAlgAndLength`, `getVerifier` — the two readings of an algorithm tag.
* `Verifier.verify` — the three verifiers.
-/

namespace AuthKademlia

/-! ## Fallible calls -/

/-- A `?` chain succeeds exactly when each of its calls does. -/
theorem bind_eq_ok {ε α β : Type} {x : Except ε α} {f : α → Except ε β} {b : β} :
    (x >>= f) = .ok b ↔ ∃ a, x = .ok a ∧ f a = .ok b := by
  cases x with
  | error e => simp [bind, Except.bind]
  | ok a => simp [bind, Except.bind]

theorem mapError_eq_ok {ε ε' α : Type*} {f : ε → ε'} {x : Except ε α} {a : α} :
    x.mapError f = .ok a ↔ x = .ok a := by
  cases x <;> simp [Except.mapError]

/-- `unwrap_or(false)`. -/
def unwrapOrFalse {ε : Type*} : Except ε Bool → Bool
  | .ok b => b
  | .error _ => false

@[simp] theorem unwrapOrFalse_eq_true {ε : Type*} {x : Except ε Bool} :
    unwrapOrFalse x = true ↔ x = .ok true := by
  cases x <;> simp [unwrapOrFalse]

/-! ## Library calls -/

/-- `serde_json::Value`; a number keeps its text, and no key of an object occurs
twice. -/
inductive Json where
  | null
  | bool (b : Bool)
  | number (text : String)
  | string (s : String)
  | array (elems : List Json)
  | object (fields : List (String × Json))

namespace Json

/-- `value["key"]`: `Null` unless the value is an object with that key. -/
def field (key : String) : Json → Json
  | object fields => (fields.lookup key).getD null
  | _ => null

/-- `value[i]`: `Null` unless the value is an array with that many elements. -/
def elem (i : ℕ) : Json → Json
  | array elems => elems[i]?.getD null
  | _ => null

def asStr : Json → Option String
  | string s => some s
  | _ => none

end Json

/-- The modulus and exponent of an RSA public key. -/
structure RsaPublicKey where
  n : ℕ
  e : ℕ

/-- The third-party calls of the verification path.  Errors are given by their texts. -/
structure CryptoLib where
  /-- The text of the error of `std::str::from_utf8`. -/
  utf8Error : Bytes → String
  /-- `serde_json::from_slice`. -/
  fromSlice : Bytes → Except String Json
  /-- `URL_SAFE_NO_PAD.decode`. -/
  b64Decode : String → Except String Bytes
  /-- `RsaPublicKey::from_public_key_der`. -/
  rsaFromDer : Bytes → Except String RsaPublicKey
  /-- `RsaPublicKey::from_public_key_pem`. -/
  rsaFromPem : String → Except String RsaPublicKey
  /-- `rsa::pkcs1v15::Signature::try_from`. -/
  rsaSignature : Bytes → Except String Bytes
  /-- `VerifyingKey::<Sha256>::verify(..).is_ok()` on key, message and signature. -/
  rsaVerify : RsaPublicKey → Bytes → Bytes → Bool
  /-- `ed25519_dalek::VerifyingKey::from_bytes`; the key is kept in compressed form. -/
  ed25519FromBytes : Bytes → Except String Bytes
  /-- `VerifyingKey::verify(..).is_ok()` on key, message and signature. -/
  ed25519Verify : Bytes → Bytes → Bytes → Bool
  /-- `dilithiumN::PublicKey::from_bytes` for security level `N`. -/
  dilithiumPublicKey : UInt8 → Bytes → Option Bytes
  /-- `dilithiumN::DetachedSignature::from_bytes`. -/
  dilithiumSignature : UInt8 → Bytes → Option Bytes
  /-- `dilithiumN::verify_detached_signature(..).is_ok()` on signature, message and key. -/
  dilithiumVerify : UInt8 → Bytes → Bytes → Bytes → Bool

/-! ## Text -/

/-- `std::str::from_utf8`. -/
def fromUtf8 (lib : CryptoLib) (b : Bytes) : Except String String :=
  match String.fromUTF8? ⟨b.toArray⟩ with
  | some s => .ok s
  | none => .error (lib.utf8Error b)

/-- `char::is_whitespace`: the Unicode property `White_Space`. -/
def isWhitespace (c : Char) : Bool :=
  let n := c.toNat
  (0x09 ≤ n && n ≤ 0x0D) || n == 0x20 || n == 0x85 || n == 0xA0 || n == 0x1680 ||
    (0x2000 ≤ n && n ≤ 0x200A) || n == 0x2028 || n == 0x2029 || n == 0x202F || n == 0x205F ||
    n == 0x3000

/-- `str::trim`. -/
def trim (s : List Char) : List Char :=
  ((s.dropWhile isWhitespace).reverse.dropWhile isWhitespace).reverse

/-- `splitn(2, '-')`: the part before the first dash and the part after it, if any. -/
def splitDash (s : List Char) : List Char × Option (List Char) :=
  (s.takeWhile (· ≠ '-'), (s.dropWhile (· ≠ '-')).tail?)

/-- `str::parse::<u8>`: an optional plus sign, then digits with a value below 256. -/
def parseU8 (s : List Char) : Option UInt8 :=
  let digits := match s with
    | '+' :: rest => rest
    | _ => s
  if digits = [] then none
  else
    let value := digits.foldlM (fun (n : ℕ) (c : Char) =>
      let n := n * 10 + (c.toNat - '0'.toNat)
      if c.isDigit ∧ n < 256 then some n else none) 0
    value.map UInt8.ofNat

/-! ## The registry -/

inductive VerifierError where
  | unsupportedAlgorithm (msg : String)
  | invalidKeyLength (len : ℕ)
  | verificationFailed (msg : String)
  deriving DecidableEq

/-- Resolve a tag into the algorithm's name and the length of its signatures. -/
def resolveAlgAndLength (algorithmStr : String) : Except VerifierError (String × ℕ) :=
  let (base, levelStr) := splitDash algorithmStr.toList
  let alg := trim base
  if alg = "RSA".toList then .ok ("RSA", 256)
  else if alg = "Ed25519".toList then .ok ("Ed25519", 64)
  else if alg = "Dilithium".toList then
    match levelStr.bind fun s => parseU8 (trim s) with
    | none =>
        .error (.unsupportedAlgorithm
          ("Dilithium requires a security level suffix, e.g. 'Dilithium-2'. Got: '" ++
            algorithmStr ++ "'"))
    | some level =>
        if level = 2 then .ok ("Dilithium", 2420)
        else if level = 3 then .ok ("Dilithium", 3293)
        else if level = 5 then .ok ("Dilithium", 4595)
        else
          .error (.unsupportedAlgorithm
            ("Unknown Dilithium security level: " ++ toString level.toNat))
  else .error (.unsupportedAlgorithm (String.ofList alg))

/-- Infer the Dilithium security level from the public key length. -/
def dilithiumLevelFromPubkeyLen (len : ℕ) : Option UInt8 :=
  if len = 1312 then some 2
  else if len = 1952 then some 3
  else if len = 2592 then some 5
  else none

/-! ## The verifiers -/

/-- The implementors of the `SignatureVerifier` trait. -/
inductive Verifier where
  | rsa
  | ed25519
  | dilithium
  deriving DecidableEq

/-- Load an RSA public key from DER or else PEM bytes. -/
def loadPublicKey (lib : CryptoLib) (key : Bytes) : Except VerifierError RsaPublicKey :=
  match lib.rsaFromDer key with
  | .ok pk => .ok pk
  | .error _ => do
      let pem ← (fromUtf8 lib key).mapError .verificationFailed
      (lib.rsaFromPem pem).mapError .verificationFailed

def verifyRsa (lib : CryptoLib) (publicKey signature message : Bytes) :
    Except VerifierError Bool := do
  let rsaPub ← loadPublicKey lib publicKey
  let sig ← (lib.rsaSignature signature).mapError .verificationFailed
  return lib.rsaVerify rsaPub message sig

def verifyEd25519 (lib : CryptoLib) (publicKey signature message : Bytes) :
    Except VerifierError Bool :=
  if publicKey.length ≠ 32 then .error (.invalidKeyLength publicKey.length)
  else if signature.length ≠ 64 then
    .error (.verificationFailed
      ("Ed25519 signature must be 64 bytes, got " ++ toString signature.length))
  else do
    let verifyingKey ← (lib.ed25519FromBytes publicKey).mapError .verificationFailed
    return lib.ed25519Verify verifyingKey message signature

/-- `verify_d2`, `verify_d3` and `verify_d5`, by security level. -/
def verifyDilithiumAt (level : UInt8) (lib : CryptoLib) (publicKey signature message : Bytes) :
    Except VerifierError Bool :=
  match lib.dilithiumPublicKey level publicKey with
  | none => .error (.invalidKeyLength publicKey.length)
  | some pk =>
      match lib.dilithiumSignature level signature with
      | none => .error (.verificationFailed "invalid signature bytes")
      | some sig => .ok (lib.dilithiumVerify level sig message pk)

def verifyD2 := verifyDilithiumAt 2
def verifyD3 := verifyDilithiumAt 3
def verifyD5 := verifyDilithiumAt 5

/-- The level comes from the key, not from the tag of the record. -/
def verifyDilithium (lib : CryptoLib) (publicKey signature message : Bytes) :
    Except VerifierError Bool :=
  match dilithiumLevelFromPubkeyLen publicKey.length with
  | none => .error (.invalidKeyLength publicKey.length)
  | some level =>
      if level = 2 then verifyD2 lib publicKey signature message
      else if level = 3 then verifyD3 lib publicKey signature message
      else verifyD5 lib publicKey signature message

def Verifier.verify (lib : CryptoLib) : Verifier → Bytes → Bytes → Bytes → Except VerifierError Bool
  | rsa => verifyRsa lib
  | ed25519 => verifyEd25519 lib
  | dilithium => verifyDilithium lib

/-- `SignatureVerifierFactory::get_verifier`: only the part before the first dash counts. -/
def getVerifier (algorithm : String) : Except VerifierError Verifier :=
  let base := trim (algorithm.toList.takeWhile (· ≠ '-'))
  if base = "RSA".toList then .ok .rsa
  else if base = "Ed25519".toList then .ok .ed25519
  else if base = "Dilithium".toList then .ok .dilithium
  else .error (.unsupportedAlgorithm (String.ofList base))

/-! ## The two readings of a tag -/

/-- The name the registry gives the algorithm of a verifier. -/
def Verifier.name : Verifier → String
  | rsa => "RSA"
  | ed25519 => "Ed25519"
  | dilithium => "Dilithium"

/-- The security level written in a tag. -/
def writtenLevel (algorithmStr : String) : Option UInt8 :=
  (splitDash algorithmStr.toList).2.bind fun s => parseU8 (trim s)

/-- The verifiers and signature lengths a tag can resolve to. -/
inductive Resolves (alg : String) : Verifier → ℕ → Prop
  | rsa : Resolves alg .rsa 256
  | ed25519 : Resolves alg .ed25519 64
  | dilithium2 (h : writtenLevel alg = some 2) : Resolves alg .dilithium 2420
  | dilithium3 (h : writtenLevel alg = some 3) : Resolves alg .dilithium 3293
  | dilithium5 (h : writtenLevel alg = some 5) : Resolves alg .dilithium 4595

/-- A Dilithium tag resolves by the level written in it. -/
theorem resolves_of_level {alg name : String} {len : ℕ}
    (hbase : trim (alg.toList.takeWhile (· ≠ '-')) = "Dilithium".toList)
    (h : resolveAlgAndLength alg = .ok (name, len)) :
    name = "Dilithium" ∧ Resolves alg .dilithium len := by
  have hrsa : "Dilithium".toList ≠ "RSA".toList := by decide
  have hed : "Dilithium".toList ≠ "Ed25519".toList := by decide
  simp only [resolveAlgAndLength, splitDash, hbase, if_neg hrsa, if_neg hed, if_true] at h
  split at h
  · cases h
  · rename_i level hlevel
    have hwritten : writtenLevel alg = some level := hlevel
    split at h
    · rename_i htwo
      cases h
      exact ⟨rfl, .dilithium2 (htwo ▸ hwritten)⟩
    · split at h
      · rename_i hthree
        cases h
        exact ⟨rfl, .dilithium3 (hthree ▸ hwritten)⟩
      · split at h
        · rename_i hfive
          cases h
          exact ⟨rfl, .dilithium5 (hfive ▸ hwritten)⟩
        · cases h

/-- **The two readings agree**: a tag the registry resolves has a verifier, and it is the
one of the algorithm the registry names. -/
theorem getVerifier_of_resolve {alg name : String} {len : ℕ}
    (h : resolveAlgAndLength alg = .ok (name, len)) :
    ∃ v, getVerifier alg = .ok v ∧ v.name = name ∧ Resolves alg v len := by
  simp only [getVerifier]
  by_cases h1 : trim (alg.toList.takeWhile (· ≠ '-')) = "RSA".toList
  · simp only [resolveAlgAndLength, splitDash, h1, if_true] at h
    cases h
    exact ⟨.rsa, if_pos h1, rfl, .rsa⟩
  · by_cases h2 : trim (alg.toList.takeWhile (· ≠ '-')) = "Ed25519".toList
    · simp only [resolveAlgAndLength, splitDash, h2, if_true] at h
      cases h
      exact ⟨.ed25519, by rw [if_neg h1, if_pos h2], rfl, .ed25519⟩
    · by_cases h3 : trim (alg.toList.takeWhile (· ≠ '-')) = "Dilithium".toList
      · rcases resolves_of_level h3 h with ⟨rfl, hres⟩
        exact ⟨.dilithium, by rw [if_neg h1, if_neg h2, if_pos h3], rfl, hres⟩
      · simp only [resolveAlgAndLength, splitDash, h1, h2, h3, if_false, reduceCtorEq] at h

end AuthKademlia
