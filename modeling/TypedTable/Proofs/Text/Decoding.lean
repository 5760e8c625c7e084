import Mathlib.Algebra.Group.Nat.Defs
import Mathlib.Tactic.SplitIfs
import TypedTable.Text.Utf8

/-!
# What lenient decoding keeps

ASCII bytes are decoded to themselves. Every other byte leaves a character above ASCII behind it,
its own, that of its sequence or the replacement, so it shows in the bytes of the text.
-/

set_option autoImplicit false

namespace TypedTable.Text

/-! ## The bytes of a string -/

theorem toList_loop (bytes : ByteArray) (place : Nat) (done : List UInt8) :
    ByteArray.toList.loop bytes place done = done.reverse ++ bytes.data.toList.drop place := by
  fun_induction ByteArray.toList.loop bytes place done with
  | case1 place done hlt ih =>
    have hget : place < bytes.data.toList.length := by simpa using hlt
    rw [ih, List.reverse_cons, List.append_assoc, List.drop_eq_getElem_cons hget]
    simp [ByteArray.get!, getElem!_pos bytes.data place (by simpa using hget)]
  | case2 place done hge =>
    rw [List.drop_of_length_le (by simpa using hge), List.append_nil]

theorem toList_toUTF8 (text : String) :
    text.toUTF8.toList = text.toList.flatMap String.utf8EncodeChar := by
  have hbytes : text.toUTF8 = text.toList.utf8Encode := by
    rw [← String.toByteArray_ofList, String.ofList_toList]
    rfl
  rw [ByteArray.toList, toList_loop, hbytes, List.utf8Encode, List.data_toByteArray]
  simp

theorem encode_of_ascii {c : Char} (h : c.toNat < 128) :
    String.utf8EncodeChar c = [UInt8.ofNat c.toNat] := by
  rw [String.utf8EncodeChar]
  exact if_pos (Nat.le_of_lt_succ h)

theorem exists_encode_of_not_ascii {c : Char} (h : 128 ≤ c.toNat) :
    ∃ byte ∈ String.utf8EncodeChar c, 128 ≤ byte := by
  have hnot : ¬ c.val.toNat ≤ 127 := Nat.not_le.2 h
  rw [String.utf8EncodeChar, if_neg hnot]
  have hlast : (128 : UInt8) ≤ UInt8.ofNat (c.val.toNat % 64 + 128) := by
    rw [UInt8.le_iff_toNat_le, UInt8.toNat_ofNat']
    simp
    omega
  split_ifs
  all_goals exact ⟨_, by simp, hlast⟩

/-! ## The characters of some bytes -/

theorem decodeFrom_ascii {bytes : List UInt8} (h : ∀ byte ∈ bytes, byte < 128) :
    decodeFrom none bytes = bytes.map fun byte => Char.ofNat byte.toNat := by
  induction bytes with
  | nil => rfl
  | cons byte rest ih =>
    have hbyte : byte.toNat < 0x80 := h byte (by simp)
    rw [decodeFrom, lead, if_pos hbyte, List.map_cons, ih fun b hb => h b (by simp [hb])]

theorem toNat_ofNat {code : Nat} (h : code.isValidChar) : (Char.ofNat code).toNat = code := by
  rw [Char.ofNat, dif_pos h]
  rfl

theorem bytes_decode {bytes : List UInt8} (h : ∀ byte ∈ bytes, byte < 128) :
    (decode bytes).toUTF8.toList = bytes := by
  have hchar (byte : UInt8) (hb : byte ∈ bytes) :
      String.utf8EncodeChar (Char.ofNat byte.toNat) = [byte] := by
    have hbyte : byte.toNat < 128 := h byte hb
    have hcode : (Char.ofNat byte.toNat).toNat = byte.toNat := toNat_ofNat (.inl (by omega))
    rw [encode_of_ascii (by rw [hcode]; exact hbyte), hcode, UInt8.ofNat_toNat]
  rw [toList_toUTF8, decode, String.toList_ofList, decodeFrom_ascii h, List.flatMap_map]
  induction bytes with
  | nil => rfl
  | cons byte rest ih =>
    rw [List.flatMap_cons, hchar byte (by simp), ih (fun b hb => h b (by simp [hb]))
      fun b hb => hchar b (by simp [hb])]
    rfl

namespace Partial

/-- The least code point that a sequence can still become. -/
def smallest (partly : Partial) : Nat :=
  (partly.value * 64 + (partly.low - 0x80)) * 64 ^ (partly.missing - 1)

def bound (partly : Partial) : Nat :=
  (partly.value * 64 + (partly.high - 0x80) + 1) * 64 ^ (partly.missing - 1)

structure Wide (partly : Partial) : Prop where
  missing : 0 < partly.missing
  low : 0x80 ≤ partly.low
  aboveAscii : 128 ≤ partly.smallest
  valid : partly.bound ≤ 0xd800 ∨ 0xe000 ≤ partly.smallest ∧ partly.bound ≤ 0x110000

variable {partly : Partial} {byte : Nat}

theorem wide_of_lead (h : lead byte = .longer partly) : partly.Wide := by
  rw [lead] at h
  split_ifs at h
  all_goals
    obtain rfl := Lead.longer.inj h
    constructor
    all_goals
      simp only [smallest, bound]
      omega

theorem range_of_later (value left : Nat) :
    smallest ⟨value, left + 1, 0x80, 0xbf⟩ = value * 64 ^ (left + 1) ∧
      bound ⟨value, left + 1, 0x80, 0xbf⟩ = (value + 1) * 64 ^ (left + 1) := by
  have hlow : value * 64 + (0x80 - 0x80) = value * 64 := by omega
  have hhigh : value * 64 + (0xbf - 0x80) + 1 = (value + 1) * 64 := by omega
  simp only [smallest, bound, Nat.add_sub_cancel, hlow, hhigh, Nat.pow_succ, Nat.mul_assoc,
    Nat.mul_comm 64, and_self]

namespace Wide

theorem next (h : partly.Wide) (hlow : partly.low ≤ byte) (hhigh : byte ≤ partly.high)
    (hmore : partly.missing ≠ 1) :
    Wide ⟨partly.value * 64 + (byte - 0x80), partly.missing - 1, 0x80, 0xbf⟩ := by
  obtain ⟨value, missing, low, high⟩ := partly
  obtain ⟨left, rfl⟩ : ∃ left, missing = left + 2 := by
    have hpos := h.missing
    exact ⟨missing - 2, by simp only at hpos hmore; omega⟩
  have hle := h.low
  have hascii := h.aboveAscii
  have hvalid := h.valid
  have hpow : left + 2 - 1 = left + 1 := rfl
  simp only [smallest, bound, hpow] at hle hascii hvalid hlow hhigh
  have hsmall : (value * 64 + (low - 0x80)) * 64 ^ (left + 1) ≤
      (value * 64 + (byte - 0x80)) * 64 ^ (left + 1) := Nat.mul_le_mul_right _ (by omega)
  have hlarge : (value * 64 + (byte - 0x80) + 1) * 64 ^ (left + 1) ≤
      (value * 64 + (high - 0x80) + 1) * 64 ^ (left + 1) := Nat.mul_le_mul_right _ (by omega)
  constructor
  case missing => exact Nat.succ_pos left
  case low => exact Nat.le_refl _
  case aboveAscii => exact (range_of_later _ left).1 ▸ Nat.le_trans hascii hsmall
  case valid =>
    have hrange := range_of_later (value * 64 + (byte - 0x80)) left
    show bound ⟨value * 64 + (byte - 0x80), left + 1, 0x80, 0xbf⟩ ≤ _ ∨ _ ≤
      smallest ⟨value * 64 + (byte - 0x80), left + 1, 0x80, 0xbf⟩ ∧
      bound ⟨value * 64 + (byte - 0x80), left + 1, 0x80, 0xbf⟩ ≤ _
    rw [hrange.1, hrange.2]
    omega

theorem char (h : partly.Wide) (hlow : partly.low ≤ byte) (hhigh : byte ≤ partly.high)
    (hlast : partly.missing = 1) :
    128 ≤ (Char.ofNat (partly.value * 64 + (byte - 0x80))).toNat := by
  obtain ⟨value, missing, low, high⟩ := partly
  have hle := h.low
  have hascii := h.aboveAscii
  have hvalid := h.valid
  simp only at hlast hlow hhigh hle
  subst hlast
  simp only [smallest, bound, Nat.sub_self, Nat.pow_zero, Nat.mul_one] at hascii hvalid
  have hcode : (value * 64 + (byte - 0x80)).isValidChar := by
    rw [Nat.isValidChar]
    omega
  rw [toNat_ofNat hcode]
  omega

end Wide

end Partial

/-- Some character of the bytes is above ASCII if some byte is, or if a sequence was begun. -/
theorem exists_wide_decodeFrom {bytes : List UInt8} {begun : Option Partial}
    (hwide : ∀ partly, begun = some partly → partly.Wide)
    (h : begun = none → ∃ byte ∈ bytes, 128 ≤ byte) :
    ∃ c ∈ decodeFrom begun bytes, 128 ≤ c.toNat := by
  have hreplaced : 128 ≤ replacement.toNat := by decide
  -- a byte above ASCII is used for a wide character or gives the replacement, which is one too
  induction bytes generalizing begun with
  | nil =>
    cases begun with
    | none =>
      obtain ⟨byte, hbyte, -⟩ := h rfl
      cases hbyte
    | some partly => exact ⟨replacement, by simp [decodeFrom], hreplaced⟩
  | cons byte rest ih =>
    cases begun with
    | none =>
      rw [decodeFrom]
      cases hlead : lead byte.toNat with
      | single c =>
        have hascii : byte.toNat < 0x80 := by
          rw [lead] at hlead
          split_ifs at hlead
          assumption
        obtain ⟨found, hfound, hle⟩ := h rfl
        have hrest : ∃ byte ∈ rest, 128 ≤ byte := by
          rcases List.mem_cons.1 hfound with rfl | hmem
          · exact absurd (UInt8.le_iff_toNat_le.1 hle) (Nat.not_le.2 hascii)
          · exact ⟨found, hmem, hle⟩
        obtain ⟨c, hc, hwide⟩ : ∃ c ∈ decodeFrom none rest, 128 ≤ c.toNat :=
          ih (by simp) fun _ => hrest
        exact ⟨c, List.mem_cons_of_mem _ hc, hwide⟩
      | longer next =>
        exact ih (fun partly hp => Option.some.inj hp ▸ Partial.wide_of_lead hlead) (by simp)
      | invalid => exact ⟨replacement, by simp, hreplaced⟩
    | some partly =>
      have hpartly := hwide partly rfl
      rw [decodeFrom]
      by_cases hin : partly.low ≤ byte.toNat ∧ byte.toNat ≤ partly.high
      · rw [if_pos hin]
        dsimp only
        by_cases hlast : partly.missing = 1
        · rw [if_pos hlast]
          exact ⟨_, List.mem_cons_self, hpartly.char hin.1 hin.2 hlast⟩
        · rw [if_neg hlast]
          exact ih (fun next hn => Option.some.inj hn ▸ hpartly.next hin.1 hin.2 hlast) (by simp)
      · rw [if_neg hin]
        refine ⟨replacement, ?_, hreplaced⟩
        cases lead byte.toNat <;> exact List.mem_cons_self

theorem exists_wide_decode {bytes : List UInt8} (h : ∃ byte ∈ bytes, 128 ≤ byte) :
    ∃ byte ∈ (decode bytes).toUTF8.toList, 128 ≤ byte := by
  obtain ⟨c, hc, hwide⟩ : ∃ c ∈ decodeFrom none bytes, 128 ≤ c.toNat :=
    exists_wide_decodeFrom (by simp) fun _ => h
  obtain ⟨byte, hbyte, hle⟩ := exists_encode_of_not_ascii hwide
  refine ⟨byte, ?_, hle⟩
  rw [toList_toUTF8, decode, String.toList_ofList]
  exact List.mem_flatMap.2 ⟨c, hc, hbyte⟩

end TypedTable.Text
