import AuthKademlia.CanonicalJson
import AuthKademlia.Lib.Text
import AuthKademlia.Signing

/-!
# Publishing a DID Document

What a publisher does before it hands a record to its node, and what a retriever does with
the record it gets: build the document, sort it, serialize it, sign it with Dilithium-2 and put
tag, signature and document one after the other.

The checks of the nodes read such a record by rules of their own (`AuthHandler`), so that they
accept it is to be shown (`published_accepted`): the field is read up to the null that pads
it, the length its tag resolves to is that of the signature, and sorting does not move the
key out of its place in the document.

## Main definitions

* `buildDidDocument`, `buildSignedRecord`, `decodeRecord`.
* `ReadsBack` — what is written of a document and a key is read again.
-/

namespace AuthKademlia

open Lib

/-- The third-party calls of a publisher, beside those of signing and verification. -/
structure PublishingLib extends SigningLib where
  /-- `serde_json::to_vec`. -/
  toVec : Json → Bytes
  /-- `serde_json::to_string_pretty`. -/
  toStringPretty : Json → Except String String
  /-- `URL_SAFE_NO_PAD.encode`. -/
  b64Encode : Bytes → String

section Publisher

variable (lib : PublishingLib)

def base64urlEncode (pk : Bytes) : String := lib.b64Encode pk

def encodeDidDocument (doc : Json) : Bytes := lib.toVec (sortJsonKeys doc)

/-- The algorithm, cut off after 12 bytes or padded with nulls to them. -/
def algField (algorithm : String) : Bytes :=
  let copied := (asBytes algorithm).take 12
  copied ++ List.replicate (12 - copied.length) 0

def buildSignedRecord (coins : Bytes) (doc : Json) (secretKey : Bytes) (algorithm : String) :
    Bytes :=
  let docBytes := encodeDidDocument lib doc
  algField algorithm ++ (lib.dilithiumSign 2 coins docBytes secretKey ++ docBytes)

/-- One key of a DID Document. -/
def keyEntry (did suffix crv : String) (pk : Bytes) : List (String × Json) :=
  [("id", .string (did ++ suffix)), ("type", .string "JsonWebKey2020"),
    ("controller", .string did),
    ("publicKeyJwk", .object [("kty", .string "OKP"), ("crv", .string crv),
      ("x", .string (base64urlEncode lib pk))])]

def buildDidDocument (did : String) (dilithiumPk kyberPk : Bytes) : Json :=
  .object [("@context", .array [.string "https://www.w3.org/ns/did/v1"]), ("id", .string did),
    ("verificationMethod", .array [.object (keyEntry lib did "#k0" "Dilithium2" dilithiumPk),
      .object (keyEntry lib did "#k1" "Kyber512" kyberPk)]),
    ("authentication", .array [.string (did ++ "#k0")]),
    ("keyAgreement", .array [.string (did ++ "#k1")]),
    ("service", .array [.object [("id", .string (did ++ "#device")),
      ("type", .string "DeviceAgent"), ("serviceEndpoint", .string "http://example.com/device")]])]

/-- Decode a signed record and return the DID Document, pretty-printed. -/
def decodeRecord (record : Bytes) : Option String :=
  let sigLen := 2420
  if record.length < 12 + sigLen then none
  else do
    let doc ← (lib.fromSlice (record.drop (12 + sigLen))).toOption
    (lib.toStringPretty doc).toOption

/-- What is written of the document and the key is read again, and the text of the key has
no padding. -/
structure ReadsBack (doc : Json) (pk : Bytes) : Prop where
  json : lib.fromSlice (lib.toVec doc) = .ok doc
  base64 : lib.b64Decode (lib.b64Encode pk) = .ok pk
  unpadded : '=' ∉ (lib.b64Encode pk).toList

end Publisher

section Published

variable {lib : PublishingLib} {algorithm name did : String} {coins sk key pk kyberPk : Bytes}

@[simp] theorem length_algField (algorithm : String) : (algField algorithm).length = 12 := by
  simp only [algField, List.length_append, List.length_replicate, List.length_take]
  omega

/-- Bytes without a null, padded with nulls, are cut off at the first one. -/
theorem take_findIdx_padded {bs : Bytes} (hnull : 0 ∉ bs) (n : ℕ) :
    (bs ++ List.replicate n 0).take
      (((bs ++ List.replicate n 0).findIdx? (· = 0)).getD (bs ++ List.replicate n 0).length) =
        bs := by
  have hnone : bs.findIdx? (· = 0) = none := by
    rw [List.findIdx?_eq_none_iff]
    intro b hb
    simpa using fun h : b = 0 => hnull (h ▸ hb)
  rw [List.findIdx?_append, hnone]
  cases n with
  | zero => simp
  | succ n => simp [List.replicate_succ, List.findIdx?_cons]

/-- The field is read as the algorithm that was written. -/
theorem getAlgString_algField (lib : CryptoLib) (hlen : (asBytes algorithm).length ≤ 12)
    (hnull : 0 ∉ asBytes algorithm) : getAlgString lib (algField algorithm) = .ok algorithm := by
  have hfield : (algField algorithm).take 12 =
      asBytes algorithm ++ List.replicate (12 - (asBytes algorithm).length) 0 := by
    rw [List.take_of_length_le (length_algField algorithm).le, algField,
      List.take_of_length_le hlen]
  have hread : fromUtf8 lib (asBytes algorithm) = .ok algorithm := by
    rw [fromUtf8, asBytes, fromUTF8_toUTF8]
  rw [getAlgString, if_neg (by simp)]
  simp only [hfield, take_findIdx_padded hnull, hread, Except.mapError]

/-- The primary key of a document that was built is the key it was built for. -/
theorem publicKeyFromDidDoc_encode
    (hback : ReadsBack lib (sortJsonKeys (buildDidDocument lib did pk kyberPk)) pk) :
    publicKeyFromDidDoc lib.toCryptoLib
      (encodeDidDocument lib (buildDidDocument lib did pk kyberPk)) = .ok pk := by
  have hkey : (((((sortJsonKeys (buildDidDocument lib did pk kyberPk)).field
      "verificationMethod").elem 0).field "publicKeyJwk").field "x").asStr =
        some (lib.b64Encode pk) := by
    have hentry : (sortJsonKeys (buildDidDocument lib did pk kyberPk)).field "verificationMethod" =
        sortJsonKeys (.array [.object (keyEntry lib did "#k0" "Dilithium2" pk),
          .object (keyEntry lib did "#k1" "Kyber512" kyberPk)]) :=
      field_sortJsonKeys (by simp) _
    have hjwk : (sortJsonKeys (.object (keyEntry lib did "#k0" "Dilithium2" pk))).field
        "publicKeyJwk" = sortJsonKeys (.object [("kty", .string "OKP"),
          ("crv", .string "Dilithium2"), ("x", .string (base64urlEncode lib pk))]) :=
      field_sortJsonKeys (by simp [keyEntry]) _
    rw [hentry, elem_sortJsonKeys]
    simp only [Json.elem, List.getElem?_cons_zero, Option.getD_some]
    have hx : (sortJsonKeys (.object [("kty", .string "OKP"), ("crv", .string "Dilithium2"),
        ("x", .string (base64urlEncode lib pk))])).field "x" =
          sortJsonKeys (.string (base64urlEncode lib pk)) :=
      field_sortJsonKeys (by simp) _
    rw [hjwk, hx, sortJsonKeys]
    rfl
  simp only [publicKeyFromDidDoc, encodeDidDocument, hback.json, hkey,
    decodeB64url_of_unpadded hback.unpadded, hback.base64, bind, Except.bind, Except.mapError]

/-- What the publisher signs with is what the signer of the key pair signs with. -/
theorem dilithiumSign_of_keyPair (hpair : KeyPair lib.toSigningLib sk pk .dilithium 2420)
    (hkey : lib.dilithiumSecretKey 2 sk = some key) (coins message : Bytes) :
    signDilithium lib.toSigningLib coins sk message =
      .ok (lib.dilithiumSign 2 coins message key) := by
  cases hpair with
  | @dilithium level _ key' pub hsizes hsk hpk length sound =>
      obtain rfl : level = 2 := by simp [dilithiumSizes] at hsizes; exact hsizes.1
      rw [signDilithium_of_sizes hsizes, signDilithiumAt, hkey]

/-- **A published record is accepted**: it is self-signed, its holder is the publisher, what
the publisher signs later counts for it, and a retriever gets the document back. -/
theorem published_accepted {record : Bytes}
    (hpair : KeyPair lib.toSigningLib sk pk .dilithium 2420)
    (hkey : lib.dilithiumSecretKey 2 sk = some key)
    (hres : resolveAlgAndLength algorithm = .ok (name, 2420))
    (hlen : (asBytes algorithm).length ≤ 12) (hnull : 0 ∉ asBytes algorithm)
    (hback : ReadsBack lib (sortJsonKeys (buildDidDocument lib did pk kyberPk)) pk)
    (hrecord : record =
      buildSignedRecord lib coins (buildDidDocument lib did pk kyberPk) key algorithm) :
    verifySelfSigned lib.toCryptoLib record = .ok true ∧
      holder lib.toCryptoLib record = .ok (algorithm, pk) ∧
      (∀ coins' message, ∃ sig, signWith lib.toSigningLib algorithm coins' sk message = .ok sig ∧
        VerifiesUnder lib.toCryptoLib record sig message) ∧
      decodeRecord lib record =
        (lib.toStringPretty (sortJsonKeys (buildDidDocument lib did pk kyberPk))).toOption := by
  have hfield := getAlgString_algField lib.toCryptoLib hlen hnull
  have hpk := publicKeyFromDidDoc_encode hback
  have hv : getVerifier algorithm = .ok .dilithium := by
    obtain ⟨verifier, hv, -, hresolves⟩ := getVerifier_of_resolve hres
    cases hresolves
    exact hv
  generalize hdoc : buildDidDocument lib did pk kyberPk = doc at *
  have hsign := dilithiumSign_of_keyPair hpair hkey coins (encodeDidDocument lib doc)
  have hsiglen : (lib.dilithiumSign 2 coins (encodeDidDocument lib doc) key).length = 2420 := by
    obtain ⟨sig, hsign', hlength, -⟩ := hpair.signs coins (encodeDidDocument lib doc)
    rwa [Except.ok.inj (hsign.symm.trans hsign')]
  obtain ⟨r, hr, rfl, rfl⟩ := KeyedRecord.exists_sealed hpair (length_algField _) hfield hres hv hpk
    hsign
  have hrec : r.record = record := hr.trans hrecord.symm
  refine ⟨hrec ▸ r.accepted, ?_, hrec ▸ r.exists_signature, ?_⟩
  · rw [hrecord]
    exact (holder_sealed (length_algField _) hfield hres hsiglen hpk).2
  · have hlength : 12 + 2420 ≤ record.length := by
      rw [hrecord]
      simp only [buildSignedRecord, List.length_append, length_algField, hsiglen]
      omega
    have hdrop : record.drop (12 + 2420) = encodeDidDocument lib doc := by
      rw [hrecord, buildSignedRecord, ← List.drop_drop, List.drop_left' (length_algField _),
        List.drop_left' hsiglen]
    rw [decodeRecord, if_neg (Nat.not_lt.mpr hlength), hdrop, encodeDidDocument, hback.json]
    rfl

end Published

/-! ## A sample publisher

The toy scheme takes the place of Dilithium; the private key is the public key, filled up to its
length.  The writers are those of `serde_json`. -/

namespace Sample

/-- A character of a JSON string. -/
def escaped (c : Char) : List Char :=
  let code := c.toNat
  if code = 34 ∨ code = 92 then [Char.ofNat 92, c]
  else if code = 8 then [Char.ofNat 92, 'b']
  else if code = 9 then [Char.ofNat 92, 't']
  else if code = 10 then [Char.ofNat 92, 'n']
  else if code = 12 then [Char.ofNat 92, 'f']
  else if code = 13 then [Char.ofNat 92, 'r']
  else if code < 32 then
    [Char.ofNat 92, 'u', '0', '0', Nat.digitChar (code / 16), Nat.digitChar (code % 16)]
  else [c]

def quoted (s : String) : String :=
  "\"" ++ String.ofList (s.toList.flatMap escaped) ++ "\""

mutual

/-- `serde_json::to_vec`, as text. -/
def compact : Json → String
  | .null => "null"
  | .bool b => if b then "true" else "false"
  | .number text => text
  | .string s => quoted s
  | .array elems => "[" ++ String.intercalate "," (compactElems elems) ++ "]"
  | .object fields => "\x7b" ++ String.intercalate "," (compactMembers fields) ++ "\x7d"

def compactElems : List Json → List String
  | [] => []
  | elem :: rest => compact elem :: compactElems rest

def compactMembers : List (String × Json) → List String
  | [] => []
  | (key, value) :: rest => (quoted key ++ ":" ++ compact value) :: compactMembers rest

end

/-- Every line at its indentation. -/
def block (level : ℕ) (opening closing : String) (lines : List String) : String :=
  let indent := fun n => String.ofList (List.replicate (2 * n) ' ')
  if lines.isEmpty then opening ++ closing
  else opening ++ "\n" ++ String.intercalate ",\n" (lines.map (indent (level + 1) ++ ·)) ++ "\n" ++
    indent level ++ closing

mutual

/-- `serde_json::to_string_pretty`. -/
def pretty (level : ℕ) : Json → String
  | .null => "null"
  | .bool b => if b then "true" else "false"
  | .number text => text
  | .string s => quoted s
  | .array elems => block level "[" "]" (prettyElems (level + 1) elems)
  | .object fields => block level "\x7b" "\x7d" (prettyMembers (level + 1) fields)

def prettyElems (level : ℕ) : List Json → List String
  | [] => []
  | elem :: rest => pretty level elem :: prettyElems level rest

def prettyMembers (level : ℕ) : List (String × Json) → List String
  | [] => []
  | (key, value) :: rest => (quoted key ++ ": " ++ pretty level value) :: prettyMembers level rest

end

example : asBytes (compact (didJson xA "0")) = didDoc xBytesA 0 := by decide +kernel

/-- A key or signature of a level has its length. -/
def sized (size : ℕ × ℕ × ℕ → ℕ) (level : UInt8) (bytes : Bytes) : Option Bytes :=
  if (dilithiumSizes.lookup level).map size = some bytes.length then some bytes else none

/-- The calls of a publisher with the public key `pk`. -/
def writingLib (pk : Bytes) : PublishingLib where
  toSigningLib := { toyLib with
    b64Decode := fun x => if x = base64url pk then .ok pk else toyLib.b64Decode x
    dilithiumPublicKey := sized fun sizes => sizes.2.1
    dilithiumSignature := sized fun sizes => sizes.2.2
    dilithiumVerify := fun _ sig message key => decide (sig = toySignature sig.length key message)
    dilithiumSecretKey := fun level sk => (sized (fun sizes => sizes.1) level sk).map fun sk =>
      sk.take (((dilithiumSizes.lookup level).map fun sizes => sizes.2.1).getD 0)
    dilithiumSign := fun level _ message key =>
      toySignature (((dilithiumSizes.lookup level).map fun sizes => sizes.2.2).getD 0) key message }
  toVec doc := asBytes (compact doc)
  toStringPretty doc := .ok (pretty 0 doc)
  b64Encode := base64url

def deviceDoc (pk : Bytes) : Json := buildDidDocument (writingLib pk) "did:iiot:device" pk []

/-- The same calls, reading the document of the device. -/
def publishingLib (pk : Bytes) : PublishingLib :=
  { writingLib pk with
    fromSlice := fun data =>
      if data = asBytes (compact (sortJsonKeys (deviceDoc pk))) then
        .ok (sortJsonKeys (deviceDoc pk))
      else toyLib.fromSlice data }

section

variable {sk pk : Bytes}

theorem lookup_dilithiumSizes : dilithiumSizes.lookup 2 = some (2560, 1312, 2420) := rfl

theorem secretKey_toy (hsk : sk.length = 2560) (htake : sk.take 1312 = pk) :
    (publishingLib pk).dilithiumSecretKey 2 sk = some pk := by
  simp [publishingLib, writingLib, sized, lookup_dilithiumSizes, hsk, htake]

theorem keyPair_toy (hsk : sk.length = 2560) (hpk : pk.length = 1312) (htake : sk.take 1312 = pk) :
    KeyPair (publishingLib pk).toSigningLib sk pk .dilithium 2420 := by
  have hsizes : ((2 : UInt8), sk.length, pk.length, 2420) ∈ dilithiumSizes := by
    rw [hsk, hpk]
    decide
  have hpublic : (publishingLib pk).dilithiumPublicKey 2 pk = some pk := by
    simp [publishingLib, writingLib, sized, lookup_dilithiumSizes, hpk]
  refine .dilithium hsizes (secretKey_toy hsk htake) hpublic ?_ ?_
  · exact fun _ message => length_toySignature 2420 pk message
  · intro coins message
    have hsign :
        (publishingLib pk).dilithiumSign 2 coins message pk = toySignature 2420 pk message := rfl
    have hlength := length_toySignature 2420 pk message
    refine ⟨toySignature 2420 pk message, ?_, ?_⟩
    · rw [hsign]
      simp [publishingLib, writingLib, sized, lookup_dilithiumSizes, hlength]
    · simp [publishingLib, writingLib, hlength]

theorem readsBack_toy : ReadsBack (publishingLib pk) (sortJsonKeys (deviceDoc pk)) pk where
  json := if_pos rfl
  base64 := by simp [publishingLib, writingLib]
  unpadded := unpadded_base64url pk

variable (pk) in
theorem buildDidDocument_publishingLib :
    buildDidDocument (publishingLib pk) "did:iiot:device" pk [] = deviceDoc pk := by
  have hencode : (publishingLib pk).b64Encode = (writingLib pk).b64Encode := rfl
  simp only [deviceDoc, buildDidDocument, keyEntry, base64urlEncode, hencode]

variable (pk) in
theorem toStringPretty_deviceDoc :
    ((publishingLib pk).toStringPretty (sortJsonKeys (deviceDoc pk))).toOption =
      some (pretty 0 (sortJsonKeys (deviceDoc pk))) := rfl

end

def dilithiumSk : Bytes := List.replicate 2560 7

end Sample

open Sample

theorem published_accepted_device :
    verifySelfSigned (publishingLib dilithiumKey).toCryptoLib
        (buildSignedRecord (publishingLib dilithiumKey) [] (deviceDoc dilithiumKey) dilithiumKey
          "Dilithium-2") = .ok true ∧
      decodeRecord (publishingLib dilithiumKey)
        (buildSignedRecord (publishingLib dilithiumKey) [] (deviceDoc dilithiumKey) dilithiumKey
          "Dilithium-2") = some (pretty 0 (sortJsonKeys (deviceDoc dilithiumKey))) := by
  have hres : resolveAlgAndLength "Dilithium-2" = .ok ("Dilithium", 2420) := by decide +kernel
  have hsk : dilithiumSk.length = 2560 := List.length_replicate
  have hpk : dilithiumKey.length = 1312 := List.length_replicate
  have htake : dilithiumSk.take 1312 = dilithiumKey := by
    rw [dilithiumSk, dilithiumKey, List.take_replicate, Nat.min_eq_left (by decide)]
  have hdoc := buildDidDocument_publishingLib dilithiumKey
  have hback : ReadsBack (publishingLib dilithiumKey) (sortJsonKeys (buildDidDocument
      (publishingLib dilithiumKey) "did:iiot:device" dilithiumKey [])) dilithiumKey := by
    rw [hdoc]
    exact readsBack_toy
  have h := @published_accepted _ _ _ _ [] _ _ _ _ _ (keyPair_toy hsk hpk htake)
    (secretKey_toy hsk htake) hres (by decide +kernel) (by decide +kernel) hback rfl
  rw [hdoc] at h
  exact ⟨h.1, h.2.2.2.trans (toStringPretty_deviceDoc dilithiumKey)⟩

end AuthKademlia
