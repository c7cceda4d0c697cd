import AuthKademlia.AuthHandler

/-!
# The algorithm field of a record

The field of a record decides twice: `resolve_alg_and_length` reads from it where the
record is cut, `get_verifier` which scheme checks the signature.  For Dilithium a third
party has a say, the length of the public key, which fixes the security level.

The readings agree on every accepted record (`no_algorithm_confusion`): the two resolvers
by their definition, the levels because a level's signatures have their own length.  With the
lengths that the signatures of the crate have, only level 2 is left
(`accepted_dilithium_two`).

The field does not determine itself: it is read up to the first null, trimmed, and a
number is parsed from it.  Each scheme has several spellings, so every accepted record
has another encoding with the same signature and document (`exists_other_encoding`).

## Main definitions

* `DilithiumLengths` — the lengths of Dilithium signatures, as the source has them.
* `StandardLengths` — their lengths in the crate.
* `SameScheme` — the readings of a tag and a key agree.
* `Spells` — a field names a scheme.
-/

namespace AuthKademlia

open Lib

/-! ## How a record is laid out -/

section Layout

variable {lib : CryptoLib} {field rest sig doc pk : Bytes} {alg name : String} {len : ℕ}

/-- Nothing after the field is read. -/
theorem getAlgString_append (h : field.length = 12) (rest : Bytes) :
    getAlgString lib (field ++ rest) = getAlgString lib field := by
  have htake : (field ++ rest).take 12 = field.take 12 := by
    rw [List.take_left' h, List.take_of_length_le h.le]
  simp [getAlgString, htake, h]

theorem extractSigAndData_append (h : field.length = 12) :
    extractSigAndData (field ++ rest) len =
      if rest.length < len then .error .invalidFormat else .ok (rest.take len, rest.drop len) := by
  have hdrop : (field ++ rest).drop (12 + len) = rest.drop len := by
    rw [← List.drop_drop, List.drop_left' h]
  simp only [extractSigAndData, List.length_append, h, Nat.add_lt_add_iff_left, List.drop_left' h,
    hdrop]

/-- **A record is read as it was put together**: it is cut behind its signature, and its key
is the one in its document. -/
theorem holder_sealed (hfield : field.length = 12) (halg : getAlgString lib field = .ok alg)
    (hres : resolveAlgAndLength alg = .ok (name, len)) (hlen : sig.length = len)
    (hpk : publicKeyFromDidDoc lib doc = .ok pk) :
    splitRecord lib (field ++ (sig ++ doc)) = .ok (sig, doc) ∧
      holder lib (field ++ (sig ++ doc)) = .ok (alg, pk) := by
  have halg' : getAlgString lib (field ++ (sig ++ doc)) = .ok alg :=
    (getAlgString_append hfield _).trans halg
  have hext : extractSigAndData (field ++ (sig ++ doc)) len = .ok (sig, doc) := by
    rw [extractSigAndData_append hfield]
    simp [← hlen]
  have hsplit := splitRecord_eq_ok.mpr ⟨alg, name, len, halg', hres, hext⟩
  exact ⟨hsplit, holder_eq_ok.mpr ⟨sig, doc, halg', hsplit, hpk⟩⟩

end Layout

/-! ## Agreement of the readings -/

/-- A level's verification succeeds only on signatures of length `len`. -/
def VerifiesOnly (lib : CryptoLib) (level : UInt8) (len : ℕ) : Prop :=
  ∀ raw sig message pk, lib.dilithiumSignature level raw = some sig →
    lib.dilithiumVerify level sig message pk = true → raw.length = len

/-- The lengths of Dilithium signatures that the source goes by. -/
structure DilithiumLengths (lib : CryptoLib) : Prop where
  two : VerifiesOnly lib 2 2420
  three : VerifiesOnly lib 3 3293
  five : VerifiesOnly lib 5 4595

/-- The tag resolves to one family in both resolvers, and for Dilithium the level written
in it is the one inferred from the length of the key. -/
def SameScheme (alg : String) (pubKey : Bytes) : Prop :=
  ∃ name len verifier, resolveAlgAndLength alg = .ok (name, len) ∧
    getVerifier alg = .ok verifier ∧ verifier.name = name ∧
    (verifier = .dilithium → ∃ level, writtenLevel alg = some level ∧
      dilithiumLevelFromPubkeyLen pubKey.length = some level)

section Agreement

variable {lib : CryptoLib} {value signature data pubKey : Bytes} {alg name : String} {len : ℕ}

theorem length_of_extract (h : extractSigAndData value len = .ok (signature, data)) :
    signature.length = len := by
  simp only [extractSigAndData] at h
  split at h
  · cases h
  · cases h
    simp only [List.length_take, List.length_drop]
    omega

theorem length_of_verifyDilithiumAt {level : UInt8} (hlib : VerifiesOnly lib level len)
    (h : verifyDilithiumAt level lib pubKey signature data = .ok true) :
    signature.length = len := by
  simp only [verifyDilithiumAt] at h
  split at h
  · cases h
  · split at h
    · cases h
    · rename_i hsig
      exact hlib _ _ _ _ hsig (Except.ok.inj h)

/-- The level of the key is the one whose signatures have this length. -/
theorem level_of_verifyDilithium {two three five : ℕ} (htwo : VerifiesOnly lib 2 two)
    (hthree : VerifiesOnly lib 3 three) (hfive : VerifiesOnly lib 5 five)
    (h : verifyDilithium lib pubKey signature data = .ok true) :
    (dilithiumLevelFromPubkeyLen pubKey.length = some 2 ∧ signature.length = two) ∨
      (dilithiumLevelFromPubkeyLen pubKey.length = some 3 ∧ signature.length = three) ∨
      (dilithiumLevelFromPubkeyLen pubKey.length = some 5 ∧ signature.length = five) := by
  simp only [verifyDilithium, dilithiumLevelFromPubkeyLen] at h ⊢
  by_cases h2 : pubKey.length = 1312
  · simp only [h2, if_true] at h
    exact .inl ⟨by simp [h2], length_of_verifyDilithiumAt htwo h⟩
  · by_cases h3 : pubKey.length = 1952
    · simp only [h3] at h
      exact .inr (.inl ⟨by simp [h3], length_of_verifyDilithiumAt hthree h⟩)
    · by_cases h5 : pubKey.length = 2592
      · simp only [h5] at h
        exact .inr (.inr ⟨by simp [h5], length_of_verifyDilithiumAt hfive h⟩)
      · simp [h2, h3, h5] at h

/-- **A signature cut and checked by one tag** fixes the scheme. -/
theorem sameScheme_of_verify (hlib : DilithiumLengths lib)
    (hres : resolveAlgAndLength alg = .ok (name, len))
    (hext : extractSigAndData value len = .ok (signature, data)) {verifier : Verifier}
    (hv : getVerifier alg = .ok verifier)
    (hok : verifier.verify lib pubKey signature data = .ok true) : SameScheme alg pubKey := by
  rcases getVerifier_of_resolve hres with ⟨v, hv', hname, hresolves⟩
  obtain rfl : v = verifier := Except.ok.inj (hv'.symm.trans hv)
  refine ⟨name, len, v, hres, hv, hname, ?_⟩
  rintro rfl
  have hlen := length_of_extract hext
  have hlevel := level_of_verifyDilithium hlib.two hlib.three hlib.five hok
  -- the lengths of the three levels differ, so one case is left for each tag
  cases hresolves with
  | dilithium2 hwritten => exact ⟨2, hwritten, by simpa [hlen] using hlevel⟩
  | dilithium3 hwritten => exact ⟨3, hwritten, by simpa [hlen] using hlevel⟩
  | dilithium5 hwritten => exact ⟨5, hwritten, by simpa [hlen] using hlevel⟩

end Agreement

/-- **No algorithm confusion.**  In every record the self-signature check accepts, the
readings of the tag and of the embedded key agree; in every record the issuer check
accepts, those of the tag and of the issuer's key. -/
theorem no_algorithm_confusion (lib : CryptoLib) (hlib : DilithiumLengths lib) (value : Bytes) :
    (verifySelfSigned lib value = .ok true →
      ∃ alg pubKey, holder lib value = .ok (alg, pubKey) ∧ SameScheme alg pubKey) ∧
    ∀ issuerFile, handleIssuerNodeSignatureVerification lib issuerFile value = .ok true →
      ∃ alg issuerPubKey, getAlgString lib value = .ok alg ∧ issuerFile = .ok issuerPubKey ∧
        SameScheme alg issuerPubKey := by
  constructor
  · intro h
    simp only [verifySelfSigned, bind_eq_ok, mapError_eq_ok, Prod.exists] at h
    obtain ⟨alg, halg, name, len, hres, sig, data, hext, pk, hpk, v, hv, hok⟩ := h
    have hsplit := splitRecord_eq_ok.mpr ⟨alg, name, len, halg, hres, hext⟩
    exact ⟨alg, pk, holder_eq_ok.mpr ⟨sig, data, halg, hsplit, hpk⟩,
      sameScheme_of_verify hlib hres hext hv hok⟩
  · intro issuerFile h
    simp only [handleIssuerNodeSignatureVerification, bind_eq_ok, mapError_eq_ok,
      Prod.exists] at h
    obtain ⟨alg, halg, name, len, hres, sig, data, hext, pk, hpk, v, hv, hok⟩ := h
    exact ⟨alg, pk, halg, hpk, sameScheme_of_verify hlib hres hext hv hok⟩

namespace Sample

/-- `DetachedSignature::from_bytes` asks for the length of the level. -/
def detachedSignature (level : UInt8) (raw : Bytes) : Option Bytes :=
  if (level, raw.length) ∈ [((2 : UInt8), 2420), (3, 3293), (5, 4595)] then some raw else none

/-- A toy scheme: a signature is as much of key and message as there is room for. -/
def toySignature (len : ℕ) (key message : Bytes) : Bytes :=
  (key ++ message ++ List.replicate len 0).take len

theorem length_toySignature (len : ℕ) (key message : Bytes) :
    (toySignature len key message).length = len := by
  simp only [toySignature, List.length_take, List.length_append, List.length_replicate]
  omega

/-- The library with a key of level 2, for which the toy scheme takes the place of Dilithium. -/
def dilithiumLib (key : Bytes) : CryptoLib :=
  { withHolder sampleLib key with
    dilithiumPublicKey := fun level pk => if level = 2 ∧ pk = key then some pk else none
    dilithiumSignature := detachedSignature
    dilithiumVerify := fun level sig message pk =>
      decide (level = 2 ∧ pk = key ∧ sig = toySignature 2420 pk message) }

/-- A record signed with that key. -/
def dilithiumRecord (key : Bytes) : Bytes :=
  let doc := didDoc (base64urlBytes key) 0
  asBytes "Dilithium-2" ++ [0] ++ (toySignature 2420 key doc ++ doc)

section

variable {key : Bytes}

theorem dilithiumLengths_dilithiumLib : DilithiumLengths (dilithiumLib key) := by
  constructor <;>
  · intro raw sig message pk hsig _
    have hsig : detachedSignature _ raw = some sig := hsig
    by_contra hne
    simp [detachedSignature, hne] at hsig

theorem holder_dilithiumRecord (key : Bytes) :
    splitRecord (dilithiumLib key) (dilithiumRecord key) =
        .ok (toySignature 2420 key (didDoc (base64urlBytes key) 0), didDoc (base64urlBytes key) 0) ∧
      holder (dilithiumLib key) (dilithiumRecord key) = .ok ("Dilithium-2", key) := by
  have halg : getAlgString sampleLib (asBytes "Dilithium-2" ++ [0]) = .ok "Dilithium-2" := by
    decide +kernel
  have hres : resolveAlgAndLength "Dilithium-2" = .ok ("Dilithium", 2420) := by decide +kernel
  exact holder_sealed (by decide +kernel) halg hres (length_toySignature _ _ _)
    (publicKeyFromDidDoc_didJson (if_pos rfl) (if_pos rfl))

theorem verifySelfSigned_dilithiumRecord (hkey : key.length = 1312) :
    verifySelfSigned (dilithiumLib key) (dilithiumRecord key) = .ok true := by
  obtain ⟨hsplit, hholder⟩ := holder_dilithiumRecord key
  refine verifySelfSigned_eq_ok_true.mpr ⟨_, _, hsplit, _, _, .dilithium, hholder,
    by decide +kernel, ?_⟩
  simp [Verifier.verify, verifyDilithium, dilithiumLevelFromPubkeyLen, hkey, verifyD2,
    verifyDilithiumAt, dilithiumLib, detachedSignature, length_toySignature]

end

def dilithiumKey : Bytes := List.replicate 1312 7

end Sample

theorem no_confusion_dilithiumRecord :
    ∃ alg pubKey, holder (Sample.dilithiumLib Sample.dilithiumKey)
      (Sample.dilithiumRecord Sample.dilithiumKey) = .ok (alg, pubKey) ∧ SameScheme alg pubKey :=
  (no_algorithm_confusion _ Sample.dilithiumLengths_dilithiumLib _).1
    (Sample.verifySelfSigned_dilithiumRecord List.length_replicate)

/-! ## Levels that no record can have

The lengths that `resolve_alg_and_length` has for the levels 3 and 5 are not those of the
signatures that the crate makes: it follows the standard, which made them longer. -/

/-- The lengths of the signatures of the crate. -/
structure StandardLengths (lib : CryptoLib) : Prop where
  two : VerifiesOnly lib 2 2420
  three : VerifiesOnly lib 3 3309
  five : VerifiesOnly lib 5 4627

/-- **Only level 2 is usable.**  An accepted Dilithium record says level 2 in its tag, and its
key is one of level 2. -/
theorem accepted_dilithium_two {lib : CryptoLib} (hlib : StandardLengths lib) {value pubKey : Bytes}
    {alg : String} (h : verifySelfSigned lib value = .ok true)
    (hholder : holder lib value = .ok (alg, pubKey)) (hv : getVerifier alg = .ok .dilithium) :
    writtenLevel alg = some 2 ∧ dilithiumLevelFromPubkeyLen pubKey.length = some 2 := by
  obtain ⟨signature, data, hsplit, alg', pk, verifier, hholder', hv', hverify⟩ :=
    verifySelfSigned_eq_ok_true.mp h
  obtain ⟨rfl, rfl⟩ := Prod.mk.inj (Except.ok.inj (hholder'.symm.trans hholder))
  obtain rfl : verifier = .dilithium := Except.ok.inj (hv'.symm.trans hv)
  have hlevel := level_of_verifyDilithium hlib.two hlib.three hlib.five hverify
  obtain ⟨alg, name, len, halg, hres, hext⟩ := splitRecord_eq_ok.mp hsplit
  obtain ⟨-, -, halg', -, -⟩ := holder_eq_ok.mp hholder
  obtain rfl : alg = alg' := Except.ok.inj (halg.symm.trans halg')
  obtain ⟨v, hv', -, hresolves⟩ := getVerifier_of_resolve hres
  obtain rfl : v = .dilithium := Except.ok.inj (hv'.symm.trans hv)
  have hlen := length_of_extract hext
  cases hresolves with
  | dilithium2 hwritten => exact ⟨hwritten, by simpa [hlen] using hlevel⟩
  | dilithium3 _ => simp [hlen] at hlevel
  | dilithium5 _ => simp [hlen] at hlevel

theorem accepted_dilithium_two_dilithiumRecord :
    ∃ alg pubKey, holder (Sample.dilithiumLib Sample.dilithiumKey)
        (Sample.dilithiumRecord Sample.dilithiumKey) = .ok (alg, pubKey) ∧
      writtenLevel alg = some 2 ∧ dilithiumLevelFromPubkeyLen pubKey.length = some 2 := by
  have hlib : ∀ {key}, StandardLengths (Sample.dilithiumLib key) := by
    refine ⟨Sample.dilithiumLengths_dilithiumLib.two, ?_, ?_⟩
    · intro raw sig message pk _ hverify
      simp [Sample.dilithiumLib] at hverify
    · intro raw sig message pk _ hverify
      simp [Sample.dilithiumLib] at hverify
  have hholder := (Sample.holder_dilithiumRecord Sample.dilithiumKey).2
  exact ⟨_, _, hholder, accepted_dilithium_two hlib
    (Sample.verifySelfSigned_dilithiumRecord List.length_replicate) hholder (by decide +kernel)⟩

/-! ## Spellings of the field -/

/-- The 12-byte field names the scheme of `verifier` with signatures of length `len`. -/
def Spells (lib : CryptoLib) (field : Bytes) (verifier : Verifier) (len : ℕ) : Prop :=
  field.length = 12 ∧ ∃ alg name, getAlgString lib field = .ok alg ∧
    resolveAlgAndLength alg = .ok (name, len) ∧ getVerifier alg = .ok verifier

section Spelling

variable {lib : CryptoLib} {field field' rest value : Bytes} {verifier : Verifier} {len : ℕ}

/-- **A record is cut and checked by the scheme, not by how the field spells it.** -/
theorem check_of_spells (h : Spells lib field verifier len) (h' : Spells lib field' verifier len) :
    splitRecord lib (field ++ rest) = splitRecord lib (field' ++ rest) ∧
      verifySelfSigned lib (field ++ rest) = verifySelfSigned lib (field' ++ rest) := by
  obtain ⟨hlen, alg, name, halg, hres, hv⟩ := h
  obtain ⟨hlen', alg', name', halg', hres', hv'⟩ := h'
  have hext : extractSigAndData (field ++ rest) len = extractSigAndData (field' ++ rest) len := by
    rw [extractSigAndData_append hlen, extractSigAndData_append hlen']
  constructor
  · simp only [splitRecord, getAlgString_append hlen, getAlgString_append hlen', halg, halg', hres,
      hres', hext, bind, Except.bind, Except.mapError]
  · simp only [verifySelfSigned, getAlgString_append hlen, getAlgString_append hlen', halg, halg',
      hres, hres', hv, hv', hext, bind, Except.bind, Except.mapError]

/-- The field of an accepted record names a scheme. -/
theorem spells_of_verifySelfSigned (h : verifySelfSigned lib value = .ok true) :
    ∃ alg verifier len, Resolves alg verifier len ∧ Spells lib (value.take 12) verifier len := by
  simp only [verifySelfSigned, bind_eq_ok, mapError_eq_ok, Prod.exists] at h
  obtain ⟨alg, halg, name, len, hres, sig, data, hext, pk, hpk, v, hv, hok⟩ := h
  have hlong : ¬value.length < 12 := by
    intro hshort
    simp [getAlgString, hshort] at halg
  have hfield : (value.take 12).length = 12 := by
    rw [List.length_take]
    omega
  rw [← List.take_append_drop 12 value, getAlgString_append hfield] at halg
  obtain ⟨v', hv', -, hresolves⟩ := getVerifier_of_resolve hres
  obtain rfl : v' = v := Except.ok.inj (hv'.symm.trans hv)
  exact ⟨alg, v', len, hresolves, hfield, alg, name, halg, hres, hv⟩

/-- The scheme a field names. -/
def readsAs (field : Bytes) : Option (Verifier × ℕ) := do
  let text ← String.fromUTF8? ⟨(field.take ((field.findIdx? (· = 0)).getD 12)).toArray⟩
  let (_, len) ← (resolveAlgAndLength text).toOption
  let verifier ← (getVerifier text).toOption
  return (verifier, len)

theorem spells_of_readsAs (hlen : field.length = 12) (h : readsAs field = some (verifier, len)) :
    Spells lib field verifier len := by
  simp only [readsAs, bind, Option.bind_eq_some_iff, Prod.exists, pure, Option.some.injEq,
    Prod.mk.injEq] at h
  obtain ⟨text, htext, name, _, hres, _, hv, rfl, rfl⟩ := h
  have htake : field.take 12 = field := List.take_of_length_le hlen.le
  refine ⟨hlen, text, name, ?_, ?_, ?_⟩
  · simp [getAlgString, hlen, htake, fromUtf8, htext, Except.mapError]
  · cases hr : resolveAlgAndLength text <;> simp_all [Except.toOption]
  · cases hr : getVerifier text <;> simp_all [Except.toOption]

/-- Two fields for every scheme.  What follows a null is not read, and a number may start
with a zero. -/
def spellings : List ((Verifier × ℕ) × Bytes × Bytes) :=
  [((.rsa, 256), asBytes "RSA" ++ List.replicate 9 0, asBytes "RSA" ++ List.replicate 8 0 ++ [1]),
    ((.ed25519, 64), asBytes "Ed25519" ++ List.replicate 5 0,
      asBytes "Ed25519" ++ List.replicate 4 0 ++ [1]),
    ((.dilithium, 2420), asBytes "Dilithium-2" ++ [0], asBytes "Dilithium-02"),
    ((.dilithium, 3293), asBytes "Dilithium-3" ++ [0], asBytes "Dilithium-03"),
    ((.dilithium, 4595), asBytes "Dilithium-5" ++ [0], asBytes "Dilithium-05")]

theorem spellings_distinct : ∀ row ∈ spellings, row.2.1 ≠ row.2.2 ∧
    (row.2.1.length = 12 ∧ readsAs row.2.1 = some row.1) ∧
    row.2.2.length = 12 ∧ readsAs row.2.2 = some row.1 := by
  decide +kernel

/-- Some field other than the given one names the same scheme. -/
theorem exists_other_spelling {alg : String} (h : Resolves alg verifier len) (field : Bytes) :
    ∃ field', field' ≠ field ∧ Spells lib field' verifier len := by
  have hrow : ∃ row ∈ spellings, row.1 = (verifier, len) := by
    cases h <;> simp [spellings]
  obtain ⟨row, hmem, hscheme⟩ := hrow
  obtain ⟨hne, ⟨hlen, hreads⟩, hlen', hreads'⟩ := spellings_distinct row hmem
  by_cases hfield : row.2.1 = field
  · exact ⟨row.2.2, fun heq => hne (hfield.trans heq.symm),
      spells_of_readsAs hlen' (hscheme ▸ hreads')⟩
  · exact ⟨row.2.1, hfield, spells_of_readsAs hlen (hscheme ▸ hreads)⟩

end Spelling

/-- **Every accepted record has another encoding**: different bytes in the algorithm field,
the same signature and document, and accepted as well. -/
theorem exists_other_encoding (lib : CryptoLib) (value : Bytes)
    (h : verifySelfSigned lib value = .ok true) :
    ∃ value', value' ≠ value ∧ value'.drop 12 = value.drop 12 ∧
      splitRecord lib value' = splitRecord lib value ∧ verifySelfSigned lib value' = .ok true := by
  obtain ⟨alg, verifier, len, hresolves, hspells⟩ := spells_of_verifySelfSigned h
  obtain ⟨field, hne, hspells'⟩ := @exists_other_spelling lib _ _ alg hresolves (value.take 12)
  obtain ⟨hsplit, hverify⟩ := @check_of_spells lib _ _ (value.drop 12) _ _ hspells' hspells
  rw [List.take_append_drop] at hsplit hverify
  refine ⟨field ++ value.drop 12, ?_, List.drop_left' hspells'.1, hsplit, hverify.trans h⟩
  intro heq
  apply hne
  rw [← heq, List.take_left' hspells'.1]

theorem exists_other_encoding_recordA0 :
    ∃ value', value' ≠ Sample.recordA0 ∧ value'.drop 12 = Sample.recordA0.drop 12 ∧
      splitRecord Sample.sampleLib value' = splitRecord Sample.sampleLib Sample.recordA0 ∧
      verifySelfSigned Sample.sampleLib value' = .ok true :=
  exists_other_encoding _ _ (by decide +kernel)

namespace Sample

/-- The record of holder A with a byte other than null at the end of its field. -/
def respelledA0 : Bytes := asBytes "Ed25519" ++ List.replicate 4 0 ++ [1] ++ recordA0.drop 12

end Sample

/-- Two encodings of one document and signature, both accepted. -/
theorem two_encodings_accepted :
    verifySelfSigned Sample.sampleLib Sample.recordA0 = .ok true ∧
      verifySelfSigned Sample.sampleLib Sample.respelledA0 = .ok true ∧
      splitRecord Sample.sampleLib Sample.recordA0 =
        splitRecord Sample.sampleLib Sample.respelledA0 ∧
      Sample.recordA0 ≠ Sample.respelledA0 := by
  decide +kernel

end AuthKademlia
