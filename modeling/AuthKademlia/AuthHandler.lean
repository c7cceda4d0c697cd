import AuthKademlia.Lib.BigEndian
import AuthKademlia.SignatureVerifier
import Mathlib.Data.List.DropRight

/-!
# Verification of signed records

A record is a 12-byte algorithm tag, a signature and a DID Document.  The handler checks
it in four ways: against the key embedded in its own document, against the key embedded
in the record it replaces, for a deletion, and against the issuer's key.

The checks are chains of fallible calls.  `VerifiesUnder` names what they have in
common, a signature that holds under the key and algorithm tag of a record, and each
check is characterised by it once.

## Main definitions

* `verifySelfSigned`, `verifyKeyRotation`, `didSignatureVerifierHandler` — the handler.
* `holder`, `VerifiesUnder` — the key a record embeds, and what it vouches for.
-/

namespace AuthKademlia

/-- Failures of the handler, with their texts. -/
inductive AuthHandlerError where
  | crypto (e : VerifierError)
  | json (msg : String)
  | base64 (msg : String)
  | io (msg : String)
  | missingField (name : String)
  | utf8 (msg : String)
  | invalidFormat
  deriving DecidableEq

/-- The interface the protocol and server layers use. -/
structure SignatureVerifierHandler where
  handleSignatureVerification : (value : Bytes) → Except AuthHandlerError Bool
  handleUpdateVerification : (value oldValue authSignature : Bytes) → Except AuthHandlerError Bool
  handleSignatureDeleteOperation :
    (value authSignature deleteMsg : Bytes) → Except AuthHandlerError Bool
  handleIssuerNodeSignatureVerification : (value : Bytes) → Except AuthHandlerError Bool

/-! ## Parsing a record -/

section Handler

variable (lib : CryptoLib)

/-- The algorithm tag: the first 12 bytes up to the first null. -/
def getAlgString (value : Bytes) : Except AuthHandlerError String :=
  if value.length < 12 then .error .invalidFormat
  else
    let raw := value.take 12
    let stop := (raw.findIdx? (· = 0)).getD raw.length
    (fromUtf8 lib (raw.take stop)).mapError .utf8

/-- Split a record into signature and document. -/
def extractSigAndData (value : Bytes) (sigLength : ℕ) : Except AuthHandlerError (Bytes × Bytes) :=
  let dataStart := 12 + sigLength
  if value.length < dataStart then .error .invalidFormat
  else .ok ((value.drop 12).take sigLength, value.drop dataStart)

/-- Decode a base64url string, with or without padding. -/
def decodeB64url (key : String) : Except AuthHandlerError Bytes :=
  let stripped := (key.toList.reverse.dropWhile (· = '=')).reverse
  (lib.b64Decode (String.ofList stripped)).mapError .base64

/-- The primary public key of a DID Document. -/
def publicKeyFromDidDoc (data : Bytes) : Except AuthHandlerError Bytes := do
  let doc ← (lib.fromSlice data).mapError .json
  match ((((doc.field "verificationMethod").elem 0).field "publicKeyJwk").field "x").asStr with
  | none => .error (.missingField "verificationMethod[0].publicKeyJwk.x")
  | some x => decodeB64url lib x

/-! ## The checks -/

/-- The record's own signature holds under the key in its document. -/
def verifySelfSigned (value : Bytes) : Except AuthHandlerError Bool := do
  let alg ← getAlgString lib value
  let (_, sigLen) ← (resolveAlgAndLength alg).mapError .crypto
  let (signature, data) ← extractSigAndData value sigLen
  let pubKey ← publicKeyFromDidDoc lib data
  let verifier ← (getVerifier alg).mapError .crypto
  (verifier.verify lib pubKey signature data).mapError .crypto

/-- `authSignature` over the new record holds under the old record's key, and the new
record is self-signed. -/
def verifyKeyRotation (newValue oldValue authSignature : Bytes) :
    Except AuthHandlerError Bool := do
  let oldAlg ← getAlgString lib oldValue
  let (_, oldSigLen) ← (resolveAlgAndLength oldAlg).mapError .crypto
  let (_, oldData) ← extractSigAndData oldValue oldSigLen
  let oldPubKey ← publicKeyFromDidDoc lib oldData
  let verifier ← (getVerifier oldAlg).mapError .crypto
  let authentic ← (verifier.verify lib oldPubKey authSignature newValue).mapError .crypto
  if !authentic then return false
  verifySelfSigned lib newValue

/-- `authSignature` over `deleteMsg` holds under the record's key. -/
def handleSignatureDeleteOperation (value authSignature deleteMsg : Bytes) :
    Except AuthHandlerError Bool := do
  let alg ← getAlgString lib value
  let (_, sigLen) ← (resolveAlgAndLength alg).mapError .crypto
  let (_, data) ← extractSigAndData value sigLen
  let pubKey ← publicKeyFromDidDoc lib data
  let verifier ← (getVerifier alg).mapError .crypto
  (verifier.verify lib pubKey authSignature deleteMsg).mapError .crypto

/-- The record's own signature holds under the issuer's key; `issuerFile` is what reading
the key file gives. -/
def handleIssuerNodeSignatureVerification (issuerFile : Except String Bytes) (value : Bytes) :
    Except AuthHandlerError Bool := do
  let alg ← getAlgString lib value
  let (_, sigLen) ← (resolveAlgAndLength alg).mapError .crypto
  let (signature, data) ← extractSigAndData value sigLen
  let issuerPubKey ← issuerFile.mapError .io
  let verifier ← (getVerifier alg).mapError .crypto
  (verifier.verify lib issuerPubKey signature data).mapError .crypto

/-- `DIDSignatureVerifierHandler`. -/
def didSignatureVerifierHandler (issuerFile : Except String Bytes) : SignatureVerifierHandler where
  handleSignatureVerification := verifySelfSigned lib
  handleUpdateVerification := verifyKeyRotation lib
  handleSignatureDeleteOperation := handleSignatureDeleteOperation lib
  handleIssuerNodeSignatureVerification := handleIssuerNodeSignatureVerification lib issuerFile

/-! ## What a record vouches for -/

/-- The signature and the DID Document inside a record. -/
def splitRecord (value : Bytes) : Except AuthHandlerError (Bytes × Bytes) := do
  let alg ← getAlgString lib value
  let (_, sigLen) ← (resolveAlgAndLength alg).mapError .crypto
  extractSigAndData value sigLen

/-- The algorithm tag and the public key of a record. -/
def holder (value : Bytes) : Except AuthHandlerError (String × Bytes) := do
  let alg ← getAlgString lib value
  let (_, data) ← splitRecord lib value
  let pubKey ← publicKeyFromDidDoc lib data
  return (alg, pubKey)

/-- `signature` over `message` verifies under the public key and the algorithm tag of
`record`. -/
def VerifiesUnder (record signature message : Bytes) : Prop :=
  ∃ alg pubKey verifier, holder lib record = .ok (alg, pubKey) ∧ getVerifier alg = .ok verifier ∧
    verifier.verify lib pubKey signature message = .ok true

variable {lib}

theorem splitRecord_eq_ok {value signature data : Bytes} :
    splitRecord lib value = .ok (signature, data) ↔
      ∃ alg name sigLen, getAlgString lib value = .ok alg ∧
        resolveAlgAndLength alg = .ok (name, sigLen) ∧
        extractSigAndData value sigLen = .ok (signature, data) := by
  simp only [splitRecord, bind_eq_ok, mapError_eq_ok, Prod.exists]
  constructor
  · rintro ⟨alg, halg, name, sigLen, hres, hext⟩
    exact ⟨alg, name, sigLen, halg, hres, hext⟩
  · rintro ⟨alg, name, sigLen, halg, hres, hext⟩
    exact ⟨alg, halg, name, sigLen, hres, hext⟩

theorem holder_eq_ok {value pubKey : Bytes} {alg : String} :
    holder lib value = .ok (alg, pubKey) ↔
      ∃ signature data, getAlgString lib value = .ok alg ∧
        splitRecord lib value = .ok (signature, data) ∧
        publicKeyFromDidDoc lib data = .ok pubKey := by
  simp only [holder, bind_eq_ok, Prod.exists, pure, Except.pure, Except.ok.injEq, Prod.mk.injEq]
  constructor
  · rintro ⟨alg', halg, signature, data, hsplit, pk, hpk, rfl, rfl⟩
    exact ⟨signature, data, halg, hsplit, hpk⟩
  · rintro ⟨signature, data, halg, hsplit, hpk⟩
    exact ⟨alg, halg, signature, data, hsplit, pubKey, hpk, rfl, rfl⟩

/-- **A deletion is accepted** exactly on a signature that verifies under the record. -/
theorem deleteOperation_eq_ok_true {value authSignature deleteMsg : Bytes} :
    handleSignatureDeleteOperation lib value authSignature deleteMsg = .ok true ↔
      VerifiesUnder lib value authSignature deleteMsg := by
  simp only [handleSignatureDeleteOperation, VerifiesUnder, holder_eq_ok, splitRecord_eq_ok,
    bind_eq_ok, mapError_eq_ok, Prod.exists]
  constructor
  · rintro ⟨alg, halg, name, n, hres, s, d, hext, pk, hpk, v, hv, hok⟩
    exact ⟨alg, pk, v, ⟨s, d, halg, ⟨alg, name, n, halg, hres, hext⟩, hpk⟩, hv, hok⟩
  · rintro ⟨alg, pk, v, ⟨s, d, halg, ⟨alg', name, n, halg', hres, hext⟩, hpk⟩, hv, hok⟩
    obtain rfl : alg = alg' := Except.ok.inj (halg.symm.trans halg')
    exact ⟨alg, halg, name, n, hres, s, d, hext, pk, hpk, v, hv, hok⟩

/-- **A record is self-signed** exactly if its own signature over its own document
verifies under it. -/
theorem verifySelfSigned_eq_ok_true {value : Bytes} :
    verifySelfSigned lib value = .ok true ↔
      ∃ signature data, splitRecord lib value = .ok (signature, data) ∧
        VerifiesUnder lib value signature data := by
  simp only [verifySelfSigned, VerifiesUnder, holder_eq_ok, bind_eq_ok, mapError_eq_ok,
    Prod.exists]
  constructor
  · rintro ⟨alg, halg, name, n, hres, s, d, hext, pk, hpk, v, hv, hok⟩
    have hsplit := splitRecord_eq_ok.mpr ⟨alg, name, n, halg, hres, hext⟩
    exact ⟨s, d, hsplit, alg, pk, v, ⟨s, d, halg, hsplit, hpk⟩, hv, hok⟩
  · rintro ⟨s, d, hsplit, alg, pk, v, ⟨s', d', halg, hsplit', hpk⟩, hv, hok⟩
    obtain ⟨rfl, rfl⟩ := Prod.mk.inj (Except.ok.inj (hsplit.symm.trans hsplit'))
    obtain ⟨alg', name, n, halg', hres, hext⟩ := splitRecord_eq_ok.mp hsplit
    obtain rfl : alg = alg' := Except.ok.inj (halg.symm.trans halg')
    exact ⟨alg, halg, name, n, hres, s, d, hext, pk, hpk, v, hv, hok⟩

/-- **An update is accepted** exactly if the new record is self-signed and the
authorising signature over all its bytes verifies under the old record. -/
theorem verifyKeyRotation_eq_ok_true {newValue oldValue authSignature : Bytes} :
    verifyKeyRotation lib newValue oldValue authSignature = .ok true ↔
      VerifiesUnder lib oldValue authSignature newValue ∧
        verifySelfSigned lib newValue = .ok true := by
  rw [← deleteOperation_eq_ok_true]
  simp only [verifyKeyRotation, handleSignatureDeleteOperation, bind_eq_ok, mapError_eq_ok,
    Prod.exists]
  constructor
  · rintro ⟨alg, halg, name, n, hres, s, d, hext, pk, hpk, v, hv, authentic, hauth, hrest⟩
    cases authentic with
    | false => simp [pure, Except.pure] at hrest
    | true =>
        exact ⟨⟨alg, halg, name, n, hres, s, d, hext, pk, hpk, v, hv, hauth⟩, by simpa using hrest⟩
  · rintro ⟨⟨alg, halg, name, n, hres, s, d, hext, pk, hpk, v, hv, hauth⟩, hself⟩
    exact ⟨alg, halg, name, n, hres, s, d, hext, pk, hpk, v, hv, true, hauth, by simpa using hself⟩

/-- A text without padding is decoded as it is. -/
theorem decodeB64url_of_unpadded {x : String} (h : '=' ∉ x.toList) :
    decodeB64url lib x = (lib.b64Decode x).mapError .base64 := by
  have hstrip : (x.toList.reverse.dropWhile (· = '=')).reverse = x.toList := by
    rw [← List.rdropWhile, List.rdropWhile_eq_self_iff]
    intro hne
    simpa using ne_of_mem_of_not_mem (List.getLast_mem hne) h
  rw [decodeB64url, hstrip, String.ofList_toList]

end Handler

/-! ## Sample records

Ed25519 records of two holders and a status list signed by the issuer.  `sampleLib`
tabulates what the libraries answer on them; the signatures are genuine. -/

namespace Sample

/-- A record as the publisher lays it out. -/
def record (signature doc : Bytes) : Bytes :=
  asBytes "Ed25519" ++ List.replicate 5 0 ++ signature ++ doc

def xA : String := "KlQE1sURRz8czkasrSxYWfaf6iYoxIsDxd_wPNBqi9c"
def xB : String := "1Q0UOKmmLP1LHVOFYSFmAbOqnUmmknCAtY1akL2u4II"

/-- The bytes of `xA` and `xB`. -/
def xBytesA : Bytes := Lib.toBeBytes 43
  0x4b6c514531735552527a38637a6b617372537859576661663669596f7849734478645f77504e4271693963

def xBytesB : Bytes := Lib.toBeBytes 43
  0x315130554f4b6d6d4c50314c48564f465953466d41624f716e556d6d6b6e4341745931616b4c3275344949

/-- A DID Document with one key and a one-digit version, as bytes. -/
def didDoc (x : Bytes) (version : ℕ) : Bytes :=
  Lib.toBeBytes 23 0x7b22766572696669636174696f6e4d6574686f64223a5b ++
    Lib.toBeBytes 22 0x7b227075626c69634b65794a776b223a7b2278223a22 ++ x ++
    Lib.toBeBytes 15 0x227d7d5d2c2276657273696f6e223a ++
    Lib.toBeBytes 2 ((0x30 + version) * 0x100 + 0x7d)

example : didDoc xBytesA 0 =
    asBytes ("\x7b\"verificationMethod\":[\x7b\"publicKeyJwk\":\x7b\"x\":\"" ++ xA ++
      "\"\x7d\x7d],\"version\":0\x7d") := by decide +kernel

/-- The parsed form of `didDoc`. -/
def didJson (x version : String) : Json :=
  .object [("verificationMethod", .array [.object [("publicKeyJwk", .object [("x", .string x)])]]),
    ("version", .number version)]

def keyA : Bytes :=
  Lib.toBeBytes 32 0x2a5404d6c511473f1cce46acad2c5859f69fea2628c48b03c5dff03cd06a8bd7

def keyB : Bytes :=
  Lib.toBeBytes 32 0xd50d1438a9a62cfd4b1d538561216601b3aa9d49a6927080b58d5a90bdaee082

/-- The code of a digit in the URL-safe alphabet. -/
def base64urlCode (digit : ℕ) : UInt8 :=
  if digit < 26 then UInt8.ofNat (65 + digit)
  else if digit < 52 then UInt8.ofNat (71 + digit)
  else if digit < 62 then UInt8.ofNat (digit - 4)
  else if digit = 62 then 45
  else 95

/-- Base64 with the URL-safe alphabet and without padding. -/
def base64urlBytes : Bytes → Bytes
  | a :: b :: c :: rest =>
      let n := (a.toNat * 256 + b.toNat) * 256 + c.toNat
      base64urlCode (n / 262144) :: base64urlCode (n / 4096 % 64) :: base64urlCode (n / 64 % 64) ::
        base64urlCode (n % 64) :: base64urlBytes rest
  | [a, b] =>
      let n := (a.toNat * 256 + b.toNat) * 4
      [base64urlCode (n / 4096), base64urlCode (n / 64 % 64), base64urlCode (n % 64)]
  | [a] =>
      let n := a.toNat * 16
      [base64urlCode (n / 64), base64urlCode (n % 64)]
  | [] => []

def base64url (key : Bytes) : String :=
  String.ofList ((base64urlBytes key).map fun code => Char.ofNat code.toNat)

example : base64urlBytes keyA = xBytesA ∧ base64url keyA = xA ∧ base64url keyB = xB := by
  decide +kernel

theorem unpadded_base64url (key : Bytes) : '=' ∉ (base64url key).toList := by
  have hcode : ∀ digit, base64urlCode digit ≠ 61 := by
    intro digit h
    have hnat := congrArg UInt8.toNat h
    unfold base64urlCode at hnat
    split_ifs at hnat <;> simp at hnat <;> omega
  have hbytes : ∀ code ∈ base64urlBytes key, code ≠ 61 := by
    fun_induction base64urlBytes key <;> simp_all
  have hchar : ∀ n < 256, Char.ofNat n = '=' → n = 61 := by decide +kernel
  rw [base64url, String.toList_ofList, List.mem_map]
  rintro ⟨code, hmem, hcode⟩
  exact hbytes code hmem (UInt8.toNat_inj.mp (hchar code.toNat code.toNat_lt hcode))

def issuerKey : Bytes :=
  Lib.toBeBytes 32 0x256e58c7c8ddb17009d4ad8956dd289025943217d0aaf0699f3e33ce3c60e4ad

/-- A 64-byte signature from its two halves. -/
def signature (r s : ℕ) : Bytes := Lib.toBeBytes 32 r ++ Lib.toBeBytes 32 s

def sigA0 : Bytes := signature
  0xab3870ccd3c60b85fc3204906fcbad8216472b2fe5b85fac3cb698df01d4e0c1
  0xbca1dd6c4f4ac06ef8567905d2a752375cf2f13f1fee46297448c55f0d04d302

def sigA1 : Bytes := signature
  0xc26a50d1d0b56d80a74617f9f21d40799dcc5957f35dfdfd460288a5e6108905
  0x90751d7e7f73cdb29d2e95186340c1d42a5fc5cc88be256f9787b9cbcccd2f01

def sigA2 : Bytes := signature
  0x5822352b19f52d242753e1164eea328c781a0f4d3f97ad4bf6eaec1882aba0d1
  0x98023c293b66552f007cc9d985e7d145cbf772f90baefbd536ffb90a24083c08

def sigB : Bytes := signature
  0x6d47ddffc22763796ace45606c6a58db43a1fb3f6d632e0b891ca43b8ed34b03
  0x566ab6ad47341000431c0ee11071d8bb3c6582630d4d04155aa920e6b835fb04

/-- Three versions of holder A's record and one of holder B's. -/
def recordA0 : Bytes := record sigA0 (didDoc xBytesA 0)
def recordA1 : Bytes := record sigA1 (didDoc xBytesA 1)
def recordA2 : Bytes := record sigA2 (didDoc xBytesA 2)
def recordB : Bytes := record sigB (didDoc xBytesB 3)

/-- Holder A's signatures over whole records, which authorise updates to them. -/
def authA1 : Bytes := signature
  0x513396ed0a6768298843db55523739138175342d44b22989d6a21435173919ac
  0xa3d993d70407449696a8b13f6b40bfbeb19ed526104debe46e6c0d515616c009

def authA2 : Bytes := signature
  0x11672f9dd5e2df266cd8b8f964d1756cfc08503426c256eed8eb61a652b6bbf8
  0x0598e70a995c508921765809f171e21027f475095acdb4041e7b1ca5ff1fa70b

def authB : Bytes := signature
  0x8d5ce3ddb401a2c6ce4e251d8e12dd57065e5e85e07e7b3bcc9a5c5336620c38
  0x0babaf6184513442a534337e613b3ae52b5e129c572013cff80fe2ee4fd20405

def statusDoc : Bytes := asBytes "\x7b\"revoked\":[7]\x7d"

/-- A status list signed by the issuer. -/
def statusRecord : Bytes := record
  (signature
    0x104f73c84f27ddf29bbc1697caa3a1b288908ac03d7f474c2c5ceba8b78aa7b9
    0xbd6727832e57e42be8876ed6dbc5f2260e4a3fded3878bf468a22210c0627401) statusDoc

/-- Key, message and signature of every signature above. -/
def valid : List (Bytes × Bytes × Bytes) :=
  [(keyA, didDoc xBytesA 0, sigA0), (keyA, didDoc xBytesA 1, sigA1),
    (keyA, didDoc xBytesA 2, sigA2), (keyB, didDoc xBytesB 3, sigB), (keyA, recordA1, authA1),
    (keyA, recordA2, authA2), (keyA, recordB, authB),
    (issuerKey, statusDoc, (statusRecord.drop 12).take 64)]

def sampleLib : CryptoLib where
  utf8Error _ := "invalid utf-8 sequence of 1 bytes from index 0"
  fromSlice data :=
    if data = didDoc xBytesA 0 then .ok (didJson xA "0")
    else if data = didDoc xBytesA 1 then .ok (didJson xA "1")
    else if data = didDoc xBytesA 2 then .ok (didJson xA "2")
    else if data = didDoc xBytesB 3 then .ok (didJson xB "3")
    else if data = statusDoc then .ok (.object [("revoked", .array [.number "7"])])
    else .error "expected value at line 1 column 1"
  b64Decode x :=
    if x = xA then .ok keyA
    else if x = xB then .ok keyB
    else .error "Invalid padding"
  rsaFromDer _ := .error "malformed ASN.1"
  rsaFromPem _ := .error "PEM preamble contains invalid data"
  rsaSignature s := .ok s
  rsaVerify _ _ _ := false
  ed25519FromBytes key :=
    if key ∈ [keyA, keyB, issuerKey] then .ok key else .error "Cannot decompress Edwards point"
  ed25519Verify key message sig := decide ((key, message, sig) ∈ valid)
  dilithiumPublicKey _ _ := none
  dilithiumSignature _ _ := none
  dilithiumVerify _ _ _ _ := false

def sampleHandler : SignatureVerifierHandler :=
  didSignatureVerifierHandler sampleLib (.ok issuerKey)

/-- What it takes to read the key of such a document. -/
theorem publicKeyFromDidDoc_didJson {lib : CryptoLib} {data key : Bytes} {version : String}
    (hjson : lib.fromSlice data = .ok (didJson (base64url key) version))
    (hbase64 : lib.b64Decode (base64url key) = .ok key) :
    publicKeyFromDidDoc lib data = .ok key := by
  have hx : (((((didJson (base64url key) version).field "verificationMethod").elem 0).field
      "publicKeyJwk").field "x").asStr = some (base64url key) := rfl
  simp only [publicKeyFromDidDoc, hjson, hx, decodeB64url_of_unpadded (unpadded_base64url key),
    hbase64, bind, Except.bind, Except.mapError]

/-- The library that has seen one more key, and two versions of its document. -/
def withHolder (lib : CryptoLib) (key : Bytes) : CryptoLib :=
  { lib with
    fromSlice := fun data =>
      if data = didDoc (base64urlBytes key) 0 then .ok (didJson (base64url key) "0")
      else if data = didDoc (base64urlBytes key) 1 then .ok (didJson (base64url key) "1")
      else lib.fromSlice data
    b64Decode := fun x => if x = base64url key then .ok key else lib.b64Decode x }

end Sample

end AuthKademlia
