import DocRelay.Digest
import DocRelay.Proofs.Digits.Hex
import DocRelay.Proofs.Text.Split

namespace DocRelay

/-!
# Digests and back

The text of a digest is written in lower case and read in either case, so that digests are compared
by what they spell.

* `Digest.parse_eq_ok_iff` — the texts that are digests;
* `Digest.parse_compute` — the digest of some bytes spells their hash;
* `Digest.verify_eq_verified_iff`, `verify_eq_invalid_iff`, `verify_eq_mismatch_iff` — the three
  outcomes of a check, by what the expected digest spells;
* `Digest.verify_exactly` — which texts are taken for the digest of some bytes.
-/

namespace Digest

/-- What is read as a digest begins with the scheme, and the digits behind it spell 32 bytes. -/
theorem parse_eq_ok_iff_decode {digest : String} {hash : Bytes} :
    parse digest = .ok hash ↔
      ∃ digits, scheme.toList.isPrefixOf? digest.toList = some digits ∧
        Hex.decode (Text.utf8Chars digits) = .ok hash ∧ hash.length = 32 := by
  rw [parse]
  cases hprefix : scheme.toList.isPrefixOf? digest.toList with
  | none => simp
  | some digits =>
    cases hdecode : Hex.decode (Text.utf8Chars digits) with
    | error fault => simp [hdecode]
    | ok bytes =>
      simp only [Option.some.injEq, exists_eq_left', hdecode, Except.ok.injEq]
      constructor
      · intro h
        split at h
        · rename_i hlength
          obtain rfl := Except.ok.inj h
          exact ⟨rfl, beq_iff_eq.mp hlength⟩
        · cases h
      · rintro ⟨rfl, hlength⟩
        exact if_pos (beq_iff_eq.mpr hlength)

/-- **A text is a digest** exactly if it is the scheme and two digits for each of 32 bytes. -/
theorem parse_eq_ok_iff {digest : String} {hash : Bytes} :
    parse digest = .ok hash ↔
      ∃ digits : String, digest = scheme ++ digits ∧ digits.length = 64 ∧
        Hex.Spells digits.toList hash := by
  rw [parse_eq_ok_iff_decode]
  constructor
  · rintro ⟨digits, hprefix, hdecode, hlength⟩
    have hspells := Hex.decode_eq_ok_iff.mp hdecode
    rw [Text.isPrefixOf?_eq_some_iff] at hprefix
    refine ⟨String.ofList digits, ?_, ?_, ?_⟩
    · rw [← String.toList_inj, hprefix, String.toList_append, String.toList_ofList]
    · rw [String.length_ofList, hspells.length_eq, hlength]
    · rw [String.toList_ofList]
      exact hspells
  · rintro ⟨digits, rfl, hlength, hspells⟩
    refine ⟨digits.toList, ?_, Hex.decode_eq_ok_iff.mpr hspells, ?_⟩
    · rw [Text.isPrefixOf?_eq_some_iff, String.toList_append]
    · have hdigits := hspells.length_eq
      rw [String.length_toList] at hdigits
      omega

/-- **The digest of some bytes** spells their hash. -/
theorem parse_compute (bytes : Bytes) : parse (compute bytes) = .ok (Blake3.hash bytes) := by
  have hdigits : scheme.toList.isPrefixOf? (compute bytes).toList
      = some (Hex.text (Blake3.hash bytes)).toList := by
    rw [compute, String.toList_append]
    rfl
  have hlength : ((Blake3.hash bytes).length == 32) = true := by simp [Blake3.length_hash]
  simp only [parse, hdigits, Hex.utf8Chars_text, Hex.decode_encode, hlength, if_true]

section Outcomes

variable {bytes : Bytes} {expected : String}

/-- Bytes have a digest exactly if it spells their hash. -/
theorem verify_eq_verified_iff :
    verify bytes expected = .verified ↔ parse expected = .ok (Blake3.hash bytes) := by
  unfold verify
  cases hp : parse expected with
  | error fault => simp
  | ok hash =>
    by_cases hh : hash = Blake3.hash bytes
    · simp [hh]
    · simp [hh]

/-- A text that is no digest is not compared with the hash of anything. -/
theorem verify_eq_invalid_iff {fault : Fault} :
    verify bytes expected = .invalid fault ↔ parse expected = .error fault := by
  unfold verify
  cases hp : parse expected with
  | error fault => simp
  | ok hash =>
    by_cases hh : hash = Blake3.hash bytes
    · simp [hh]
    · simp [hh]

/-- Bytes are told apart from those of another digest, with both digests. -/
theorem verify_eq_mismatch_iff {asked actual : String} :
    verify bytes expected = .mismatch asked actual ↔
      asked = expected ∧ actual = compute bytes ∧
        ∃ hash, parse expected = .ok hash ∧ hash ≠ Blake3.hash bytes := by
  unfold verify
  cases hp : parse expected with
  | error fault => simp
  | ok hash =>
    by_cases hh : hash = Blake3.hash bytes
    · simp [hh]
    · simp [hh, eq_comm (a := expected), eq_comm (a := compute bytes)]

end Outcomes

/-- **Which texts are digests, and which are the digest of some bytes.**  A text is read as a hash
    exactly if it is the scheme and 64 digits, in either case, that spell the hash.  A check
    succeeds exactly if the text is read as the hash of the bytes, calls the text invalid exactly if
    it is not read, and otherwise tells of a mismatch, with both digests.  The digest that is written
    for some bytes is read as their hash, and is theirs. -/
theorem verify_exactly :
    (∀ digest hash, parse digest = .ok hash ↔
      ∃ digits : String, digest = "blake3:" ++ digits ∧ digits.length = 64 ∧
        Hex.Spells digits.toList hash) ∧
    ∀ bytes,
      (∀ expected, verify bytes expected = .verified ↔
        parse expected = .ok (Blake3.hash bytes)) ∧
      (∀ expected, (∃ fault, verify bytes expected = .invalid fault) ↔
        ∀ hash, parse expected ≠ .ok hash) ∧
      (∀ expected fault, verify bytes expected = .invalid fault ↔
        parse expected = .error fault) ∧
      (∀ expected asked actual, verify bytes expected = .mismatch asked actual ↔
        asked = expected ∧ actual = compute bytes ∧
          ∃ hash, parse expected = .ok hash ∧ hash ≠ Blake3.hash bytes) ∧
      verify bytes (compute bytes) = .verified ∧
      parse (compute bytes) = .ok (Blake3.hash bytes) := by
  refine ⟨fun digest hash => parse_eq_ok_iff, fun bytes => ⟨fun expected => verify_eq_verified_iff,
    fun expected => ?_, fun expected fault => verify_eq_invalid_iff,
    fun expected asked actual => verify_eq_mismatch_iff, ?_, parse_compute bytes⟩⟩
  · simp only [verify_eq_invalid_iff]
    cases parse expected with
    | error fault => simp
    | ok hash => simp
  · exact verify_eq_verified_iff.mpr (parse_compute bytes)

end Digest

end DocRelay
