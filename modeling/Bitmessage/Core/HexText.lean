import Bitmessage.Core.ApiServer
import Bitmessage.Core.PubkeyStore

/-! Keys and identifiers as hexadecimal texts of fixed length. The decoder checks the length and leaves the
characters to `sscanf`, which looks for a number at every second character of the text: it skips white
space, across the place of the next byte if there is nothing else, takes a sign, and is content with one
digit in front of any other character. -/

namespace Bitmessage

/-- `"0123456789abcdef"`. -/
def hexDigits : Bytes := ascii "0123456789abcdef"

/-- The characters in front of the NUL that `hex_encode` writes. -/
def hexEncodeText (data : Bytes) : Bytes :=
  data.flatMap fun b : UInt8 => [hexDigits.getD (b >>> 4).toNat 0, hexDigits.getD (b &&& 0x0f).toNat 0]

/-- Exactly so many bytes in hexadecimal digits of either case. -/
def IsHex (n : ℕ) (hex : Bytes) : Prop := hex.length = n * 2 ∧ ∀ c ∈ hex, (hexDigit c).isSome = true

instance decidableIsHex (n : ℕ) (hex : Bytes) : Decidable (IsHex n hex) := inferInstanceAs (Decidable (_ ∧ _))

/-- Behind white space stands a hexadecimal digit that does not belong to `0x`, or a sign and a digit. -/
def startsNumber (text : Bytes) : Bool :=
  match text.dropWhile isSpace with
  | [] => false
  | c :: rest =>
    if c = 0x2b ∨ c = 0x2d then (rest.head?.bind hexDigit).isSome
    else (hexDigit c).isSome && !(c = 0x30 && (rest.head? = some 0x78 || rest.head? = some 0x58))

/-- The decoder accepts the hexadecimal texts of the length and no others, and what it gives back is
encoded as the text in lower case. -/
def DecodesExactly (n : ℕ) (hex : CString) : Prop :=
  ((hexDecodeFixed hex.bytes n).isSome = true ↔ IsHex n hex.bytes) ∧
    ∀ out ∈ hexDecodeFixed hex.bytes n, hexEncodeText out = hex.bytes.map toLower

/-- A text of the right length that has another character in it, and a number wherever a byte is looked for. -/
structure Malformed (n : ℕ) (hex : Bytes) : Prop where
  length : hex.length = n * 2
  stray : ∃ c ∈ hex, hexDigit c = none
  numbers : ∀ i < n, startsNumber (hex.drop (i * 2)) = true

/-! ### One byte -/

section

variable {a b : UInt8} {d e : ℕ}

theorem hexDigits_getD (hd : d < 16) :
    hexDigits.getD d 0 = if d < 10 then UInt8.ofNat (0x30 + d) else UInt8.ofNat (0x61 + (d - 10)) := by
  revert d
  decide

/-- A digit is printed again as itself, but in lower case. -/
theorem toLower_of_hexDigit (h : hexDigit a = some d) : hexDigits.getD d 0 = toLower a := by
  rw [hexDigits_getD (hexDigit_lt h)]
  apply UInt8.toNat_inj.mp
  simp only [hexDigit, UInt8.le_iff_toNat_le, UInt8.reduceToNat] at h
  simp only [toLower, UInt8.le_iff_toNat_le, UInt8.reduceToNat]
  split_ifs at h with hdigit hlower hupper
  · cases h
    rw [if_pos (by omega), if_neg (by omega), UInt8.toNat_ofNat']
    omega
  · cases h
    rw [if_neg (by omega), if_neg (by omega), UInt8.toNat_ofNat']
    omega
  · cases h
    have hshift : (0x20 : UInt8).toNat = 0x20 := rfl
    rw [if_neg (by omega), if_pos (by omega), UInt8.toNat_ofNat', UInt8.toNat_add, hshift]
    omega

/-- A digit is neither white space, a sign nor an `x`. -/
theorem hexDigit_apart (h : hexDigit a = some d) :
    isSpace a = false ∧ a ≠ 0x2b ∧ a ≠ 0x2d ∧ a ≠ 0x78 ∧ a ≠ 0x58 := by
  simp only [hexDigit, UInt8.le_iff_toNat_le, UInt8.reduceToNat] at h
  simp only [isSpace, Bool.or_eq_false_iff, Bool.and_eq_false_iff, decide_eq_false_iff_not, ne_eq, ← UInt8.toNat_inj,
    UInt8.le_iff_toNat_le, UInt8.reduceToNat]
  split_ifs at h <;> omega

theorem toNat_high (b : UInt8) : (b >>> 4).toNat = b.toNat / 16 := by
  have hshift : (4 : UInt8).toNat % 8 = 4 := rfl
  rw [UInt8.toNat_shiftRight, hshift, Nat.shiftRight_eq_div_pow]

theorem toNat_low (b : UInt8) : (b &&& 0x0f).toNat = b.toNat % 16 := by
  have hmask : (0x0f : UInt8).toNat = 2 ^ 4 - 1 := rfl
  rw [UInt8.toNat_and, hmask, Nat.and_two_pow_sub_one_eq_mod]

/-- Both halves of a byte. -/
theorem hexEncodeText_cons (hd : d < 16) (he : e < 16) (data : Bytes) :
    hexEncodeText (UInt8.ofNat (16 * d + e) :: data) =
      hexDigits.getD d 0 :: hexDigits.getD e 0 :: hexEncodeText data := by
  have hbyte : (UInt8.ofNat (16 * d + e)).toNat = 16 * d + e := by
    rw [UInt8.toNat_ofNat']
    omega
  have hhigh : (16 * d + e) / 16 = d := by omega
  have hlow : (16 * d + e) % 16 = e := by omega
  rw [hexEncodeText, List.flatMap_cons, toNat_high, toNat_low, hbyte, hhigh, hlow]
  rfl

/-- Two digits are read as the byte that they are printed for. -/
theorem scanHexByte_digits (ha : hexDigit a = some d) (hb : hexDigit b = some e) (rest : Bytes) :
    scanHexByte (a :: b :: rest) = some (UInt8.ofNat (16 * d + e)) := by
  obtain ⟨hspace, hplus, hminus, -, -⟩ := hexDigit_apart ha
  obtain ⟨-, -, -, hx, hX⟩ := hexDigit_apart hb
  simp [scanHexByte, hspace, hplus, hminus, hx, hX, ha, hb]

end

/-- A byte is found where a number starts. -/
theorem isSome_scanHexByte (text : Bytes) : (scanHexByte text).isSome = startsNumber text := by
  unfold scanHexByte startsNumber
  cases text.dropWhile isSpace with
  | nil => rfl
  | cons c rest =>
    simp only
    by_cases hplus : c = 0x2b
    · rw [if_pos hplus, if_pos (.inl hplus), Option.isSome_map]
    by_cases hminus : c = 0x2d
    · rw [if_neg hplus, if_pos hminus, if_pos (.inr hminus), Option.isSome_map]
    rw [if_neg hplus, if_neg hminus, if_neg (not_or.mpr ⟨hplus, hminus⟩)]
    by_cases hmarker : c = 0x30 ∧ (rest.head? = some 0x78 ∨ rest.head? = some 0x58)
    · rw [if_pos hmarker]
      rcases hmarker.2 with hx | hx <;> simp [hmarker.1, hx]
    · rw [if_neg hmarker, Option.isSome_map]
      simp only [not_and_or, not_or] at hmarker
      simp [hmarker]

/-! ### All bytes -/

/-- The loop of the decoder. -/
def scanHexBytes (hex : Bytes) (n : ℕ) : Option Bytes := (List.range n).mapM fun i => scanHexByte (hex.drop (i * 2))

theorem drop_pairs (hex : Bytes) (i : ℕ) : hex.drop ((i + 1) * 2) = (hex.drop 2).drop (i * 2) := by
  rw [List.drop_drop]
  congr 1
  omega

/-- The first byte, and the others from the text two characters on. -/
theorem scanHexBytes_succ (hex : Bytes) (n : ℕ) : scanHexBytes hex (n + 1) =
    (scanHexByte hex).bind fun x => (scanHexBytes (hex.drop 2) n).map fun out => x :: out := by
  rw [scanHexBytes, scanHexBytes, List.range_succ_eq_map, List.mapM_cons, List.mapM_map]
  simp only [Function.comp_def, Nat.succ_eq_add_one, drop_pairs, Nat.zero_mul, List.drop_zero]
  cases scanHexByte hex with
  | none => rfl
  | some x =>
    rw [Option.bind_some, Option.map_eq_bind]
    rfl

theorem isSome_scanHexBytes (hex : Bytes) (n : ℕ) :
    (scanHexBytes hex n).isSome = true ↔ ∀ i < n, startsNumber (hex.drop (i * 2)) = true := by
  induction n generalizing hex with
  | zero => simp [scanHexBytes]
  | succ n ih =>
    have hsome : (scanHexBytes hex (n + 1)).isSome = true ↔
        (scanHexByte hex).isSome = true ∧ (scanHexBytes (hex.drop 2) n).isSome = true := by
      rw [scanHexBytes_succ]
      cases scanHexByte hex <;> simp
    rw [hsome, isSome_scanHexByte, ih, Nat.forall_lt_succ_left]
    simp only [drop_pairs, Nat.zero_mul, List.drop_zero]

/-- Digits only are read and printed again. -/
theorem scanHexBytes_digits {n : ℕ} {hex : Bytes} (h : IsHex n hex) :
    ∃ out, scanHexBytes hex n = some out ∧ hexEncodeText out = hex.map toLower := by
  induction n generalizing hex with
  | zero =>
    have hnil : hex = [] := List.eq_nil_of_length_eq_zero h.1
    subst hnil
    exact ⟨[], rfl, rfl⟩
  | succ n ih =>
    obtain ⟨hlength, hdigits⟩ := h
    obtain ⟨a, hex, rfl⟩ := List.exists_cons_of_length_pos (by omega : 0 < hex.length)
    rw [List.length_cons] at hlength
    obtain ⟨b, hex, rfl⟩ := List.exists_cons_of_length_pos (by omega : 0 < hex.length)
    rw [List.length_cons] at hlength
    obtain ⟨d, hd⟩ := Option.isSome_iff_exists.mp (hdigits a (by simp))
    obtain ⟨e, he⟩ := Option.isSome_iff_exists.mp (hdigits b (by simp))
    obtain ⟨out, hscan, hencode⟩ := ih (⟨by omega, fun c hc => hdigits c (by simp [hc])⟩ : IsHex n hex)
    refine ⟨UInt8.ofNat (16 * d + e) :: out, ?_, ?_⟩
    · rw [scanHexBytes_succ, scanHexByte_digits hd he, Option.bind_some]
      show (scanHexBytes hex n).map _ = _
      rw [hscan, Option.map_some]
    · rw [hexEncodeText_cons (hexDigit_lt hd) (hexDigit_lt he), toLower_of_hexDigit hd, toLower_of_hexDigit he,
        hencode, List.map_cons, List.map_cons]

theorem Malformed.not_isHex {n : ℕ} {hex : Bytes} (h : Malformed n hex) : ¬IsHex n hex := by
  intro hhex
  obtain ⟨c, hc, hnone⟩ := h.stray
  have hdigit := hhex.2 c hc
  rw [hnone] at hdigit
  contradiction

theorem hexDecodeFixed_digits {n : ℕ} {hex : Bytes} (h : IsHex n hex) :
    ∃ out, hexDecodeFixed hex n = some out ∧ hexEncodeText out = hex.map toLower := by
  rw [hexDecodeFixed, if_neg (not_not.mpr h.1)]
  exact scanHexBytes_digits h

/-- What the decoder accepts. -/
theorem isSome_hexDecodeFixed (hex : Bytes) (n : ℕ) :
    (hexDecodeFixed hex n).isSome = true ↔ IsHex n hex ∨ Malformed n hex := by
  constructor
  · intro h
    rw [hexDecodeFixed, ← scanHexBytes] at h
    split_ifs at h with hlength
    · contradiction
    rw [not_not] at hlength
    by_cases hdigits : ∀ c ∈ hex, (hexDigit c).isSome = true
    · exact .inl ⟨hlength, hdigits⟩
    · push Not at hdigits
      obtain ⟨c, hc, hnone⟩ := hdigits
      exact .inr ⟨hlength, ⟨c, hc, Option.not_isSome_iff_eq_none.mp hnone⟩, (isSome_scanHexBytes hex n).mp h⟩
  · rintro (h | h)
    · obtain ⟨out, hout, -⟩ := hexDecodeFixed_digits h
      rw [hout]
      rfl
    · rw [hexDecodeFixed, if_neg (not_not.mpr h.length), ← scanHexBytes, isSome_scanHexBytes]
      exact h.numbers

/-- The decoder keeps to the texts that it is meant for except where every byte is found although another
character is in the text. -/
theorem decodesExactly_iff (n : ℕ) (hex : CString) : DecodesExactly n hex ↔ ¬Malformed n hex.bytes := by
  constructor
  · intro h hbad
    exact hbad.not_isHex (h.1.mp ((isSome_hexDecodeFixed hex.bytes n).mpr (.inr hbad)))
  · intro h
    have hexact : (hexDecodeFixed hex.bytes n).isSome = true ↔ IsHex n hex.bytes := by
      rw [isSome_hexDecodeFixed, or_iff_left h]
    refine ⟨hexact, fun out hout => ?_⟩
    obtain ⟨out', hout', hencode⟩ := hexDecodeFixed_digits (hexact.mp (Option.isSome_of_mem hout))
    rw [Option.mem_def.mp hout] at hout'
    cases hout'
    exact hencode

theorem ne_zero_of_mem_signedOnes {x : UInt8} (hx : x ∈ (List.replicate 65 [(0x2b : UInt8), 0x31]).flatten) :
    x ≠ 0 := by
  obtain ⟨sign, hsign, hx⟩ := List.mem_flatten.mp hx
  rw [List.eq_of_mem_replicate hsign] at hx
  rintro rfl
  simp at hx

/-- The text of 65 times `+1`. -/
def signedOnes : CString := ⟨(List.replicate 65 [0x2b, 0x31]).flatten, fun _ hx => ne_zero_of_mem_signedOnes hx⟩

/-- As a key it is taken for 65 bytes 1. -/
theorem signed_ones_accepted : hexDecodeFixed signedOnes.bytes 65 = some (List.replicate 65 1) ∧
    ¬IsHex 65 signedOnes.bytes ∧ ¬DecodesExactly 65 signedOnes := by
  have haccepted : hexDecodeFixed signedOnes.bytes 65 = some (List.replicate 65 1) := by decide +kernel
  have hstray : ¬IsHex 65 signedOnes.bytes := by decide +kernel
  refine ⟨haccepted, hstray, fun h => hstray (h.1.mp ?_)⟩
  rw [haccepted]
  rfl

/-- The call that records a key takes every pair of texts that the decoder takes. -/
theorem isSome_cachePubkeyEntry (H : Hashes) (address signingHex encryptionHex : Bytes) :
    (cachePubkeyEntry H address signingHex encryptionHex).isSome = true ↔ (addressDecode H address).isSome = true ∧
      (IsHex 65 signingHex ∨ Malformed 65 signingHex) ∧ (IsHex 65 encryptionHex ∨ Malformed 65 encryptionHex) := by
  rw [← isSome_hexDecodeFixed, ← isSome_hexDecodeFixed, cachePubkeyEntry]
  cases addressDecode H address <;> cases hexDecodeFixed signingHex 65 <;>
    cases hexDecodeFixed encryptionHex 65 <;> simp

end Bitmessage
